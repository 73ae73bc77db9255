import Mathlib.Data.List.MinMax
import Mathlib.Data.Prod.Lex
import Pithos.Planner
import Pithos.Engine.Crates
import Pithos.Engine.Scheduler.Defs

/-!
# Compressing a group

The compressed packer gives every planned group to a task of the scheduler.  The
task reads the files of the group, lets every candidate codec of the profile
encode them, and keeps the candidate that costs least.

What the file system answers while a source is read, and where the job is
cancelled, are inputs of the model.
-/

namespace Pithos

open Fallible
open Machine
open Runs

/-! ## Reading the sources -/

/-- What a file looks like from outside. -/
structure SourceStamp where
  size : UInt64
  modified : Option Int
  identity : Option Nat
  deriving DecidableEq

/-- A file that has been hashed and is to be packed. -/
structure CompressedSource where
  stamp : SourceStamp
  hash : Digest

/-- One turn of the reading loop: whether a token is cancelled before it, and
what the read gives.  An empty read is the end of the file. -/
structure ReadTurn where
  cancelled : Bool
  read : Except FileTree.IoErrorKind (List UInt8)

/-- What happens while a source is read.  After the last turn the file ends. -/
structure SourceReading where
  cancelled : Bool
  initial : Except FileTree.IoErrorKind SourceStamp
  opened : Except FileTree.IoErrorKind Unit
  turns : List ReadTurn
  final : Except FileTree.IoErrorKind SourceStamp

/-- The answer of the file system as a result of the archiver. -/
def ofIo {α : Type} : Except FileTree.IoErrorKind α → Result α
  | .ok value => .ok value
  | .error kind => .error (.io kind)

/-- Read a source to its end, but not beyond the size it had. -/
def readSourceTurns (size : UInt64) :
    List ReadTurn → List UInt8 → Result (List UInt8)
  | [], output => .ok output
  | turn :: turns, output => do
      ensure (turn.cancelled = false) .cancelled
      let bytes ← ofIo turn.read
      if bytes = [] then .ok output
      else
        ensure ((output ++ bytes).length ≤ size.toNat) .inputChanged
        readSourceTurns size turns (output ++ bytes)

/-- Read a file whose stamp must be the scanned one before and after the reads.
-/
def readSourceBytes
    (digests : Digests)
    (source : CompressedSource)
    (reading : SourceReading)
    (verifyHash : Bool) : Result (List UInt8) := do
  let initial ← ofIo reading.initial
  ensure (initial = source.stamp) .inputChanged
  ofIo reading.opened
  let output ← readSourceTurns source.stamp.size reading.turns []
  let final ← ofIo reading.final
  ensure (output.length = source.stamp.size.toNat ∧ final = source.stamp ∧
    (verifyHash = true → digests.blake3 output = source.hash)) .inputChanged
  .ok output

/-- The bytes of a file, which must still have the hash that was taken at the
scan. -/
def readVerifiedSource
    (digests : Digests)
    (source : CompressedSource)
    (reading : SourceReading) : Result (List UInt8) := do
  let output ← readSourceBytes digests source reading true
  ensure (digests.blake3 output = source.hash) .inputChanged
  .ok output

/-! ## Choosing a codec -/

/-- The codecs that a profile tries, `STORE` first. -/
def profileCodecs : CompressionProfile → List CodecId
  | .raw => [.store]
  | .stream | .random => [.store, .zstd]
  | .balanced | .archiveMax => [.store, .zstd, .brotli, .lzma2]

/-- What the payload of a group costs. -/
def payloadCost (payload : List UInt8) : CandidateCost where
  payload := UInt64.ofNat payload.length
  codecDescriptor := 16
  groupDescriptor := 48
  indexDelta := 0
  integrity := 4
  padding := 0

/-- The best candidate so far. -/
abbrev Best := Option (CodecId × CandidateCost × List UInt8)

/-- Whether a candidate replaces the best one. -/
def replaces (codecId : CodecId) (cost : CandidateCost) : Best → Result Bool
  | none => .ok true
  | some (bestId, bestCost, _) => do
      let total ← cost.total
      let bestTotal ← bestCost.total
      .ok (decide (total < bestTotal ∨
        total = bestTotal ∧ codecId.toU16 < bestId.toU16))

/-- Encode the input with the next candidate.  The job may be cancelled before
the candidate at a position. -/
def tryCandidate
    (codecs : Codecs)
    (cancelled : Nat → Bool)
    (input : List UInt8)
    (position : Nat)
    (codecId : CodecId)
    (best : Best) : Result Best := do
  ensure (cancelled position = false) .cancelled
  let encoded ← codecs.encode codecId codecId.defaultLevel input
  let replace ← replaces codecId (payloadCost encoded) best
  .ok (if replace then some (codecId, payloadCost encoded, encoded) else best)

/-- The members of a group with what happens while each is read. -/
abbrev Members := List (CompressedSource × SourceReading)

/-- The length of a group before it is encoded. -/
def inputLength (members : Members) : Result UInt64 :=
  members.foldlM (fun total member =>
    okOr (checkedAdd total member.1.stamp.size) .integerOverflow) 0

/-- The bytes of the members, one after the other. -/
def readMembers (digests : Digests) (members : Members) :
    Result (List UInt8) :=
  members.foldlM (fun input member => do
    ensure (member.2.cancelled = false) .cancelled
    let bytes ← readVerifiedSource digests member.1 member.2
    .ok (input ++ bytes)) []

/-- The input of the codecs is a vector, which holds less than `2 ^ 63` bytes:
allocating more panics, which the model takes as the error of the conversion
before it. -/
def encodeSolidGroup
    (codecs : Codecs)
    (digests : Digests)
    (cancelled : Nat → Bool)
    (members : Members)
    (candidates : List CodecId) : Result (List UInt8) := do
  let length ← inputLength members
  ensure (length.toNat < 2 ^ 63) .memoryLimit
  let input ← readMembers digests members
  let best ← forEnum (tryCandidate codecs cancelled input) 0 candidates none
  let (codecId, _, payload) ← okOr best .unsupportedCodec
  .ok (le16 codecId.toU16 ++ payload)

/-- What the compression crates promise: the output is a vector, and they fail
with an I/O error. -/
structure Codecs.Crates (codecs : Codecs) : Prop where
  vector : ∀ {codecId level input output},
    codecs.compress codecId level input = .ok output → output.length < 2 ^ 63
  io : ∀ {codecId level input failure},
    codecs.compress codecId level input = .error failure →
    ∃ kind, failure = .io kind

/-! ## The tasks -/

/-- The files of a group. -/
def groupMembers
    {Source : Type}
    (sources : List Source)
    (plan : SolidGroupPlan) : Result (List Source) := do
  ensure (plan.firstItem + plan.itemCount < 2 ^ 64) .integerOverflow
  ensure (plan.firstItem + plan.itemCount ≤ sources.length)
    (.invalidMetadata "solid group member range")
  .ok ((sources.drop plan.firstItem).take plan.itemCount)

/-- The memory of the most demanding candidate. -/
def codecMemory (candidates : List CodecId) (length : UInt64) : Result UInt64 :=
  candidates.foldlM (fun maximum codecId => do
    let bound ← codecId.memoryBound length codecId.defaultLevel
    .ok (max maximum bound)) 0

/-- The task that encodes a group. -/
def packTask
    (codecs : Codecs)
    (digests : Digests)
    (candidates : List CodecId)
    (sources : List CompressedSource)
    (groupId : UInt64)
    (plan : SolidGroupPlan) : Result Scheduler.ScheduledTask := do
  let members ← groupMembers sources plan
  let outputBound ← okOr (checkedAdd plan.uncompressedLen (1024 * 1024 + 2))
    .integerOverflow
  let scratchBytes ← codecMemory candidates plan.uncompressedLen
  .ok {
    taskId := groupId
    priority := .packForeground
    dependencies := []
    resources := ⟨0, scratchBytes, outputBound⟩
    action := fun result => ∃ cancelled readings,
      readings.length = members.length ∧
      result = encodeSolidGroup codecs digests cancelled
        (members.zip readings) candidates }

/-! ## Reading gives what was announced -/

section Reading

variable {digests : Digests}

theorem length_readVerifiedSource
    {source : CompressedSource}
    {reading : SourceReading}
    {output : List UInt8}
    (read : readVerifiedSource digests source reading = .ok output) :
    output.length = source.stamp.size.toNat := by
  obtain ⟨_, bytes, checked⟩ := bind_eq_ok.mp read
  obtain ⟨_, _, finished⟩ := bind_eq_ok.mp checked
  cases finished
  simp only [readSourceBytes, bind_eq_ok, ensure_eq_ok] at bytes
  obtain ⟨_, _, _, _, _, _, _, _, _, _, _, whole, finished⟩ := bytes
  cases finished
  exact whole.1

/-- The sizes of the members. -/
def sizes (members : Members) : List UInt64 :=
  members.map fun member => member.1.stamp.size

theorem inputLength_eq_ok
    {members : Members}
    {length : UInt64} :
    inputLength members = .ok length ↔
      total UInt64.toNat (sizes members) = length.toNat := by
  have summed := @foldlM_checkedAdd_eq_ok (sizes members) 0 length
  rwa [sizes, List.foldlM_map, UInt64.toNat_zero, Nat.zero_add] at summed

private theorem length_readMembers_from
    {members : Members}
    {start input : List UInt8}
    (read : members.foldlM (fun input member => do
      ensure (member.2.cancelled = false) PithosError.cancelled
      let bytes ← readVerifiedSource digests member.1 member.2
      .ok (input ++ bytes)) start = .ok input) :
    input.length = start.length + total UInt64.toNat (sizes members) := by
  induction members generalizing start with
  | nil =>
      cases read
      rfl
  | cons member members inductionHypothesis =>
      rw [List.foldlM_cons, bind_eq_ok] at read
      obtain ⟨next, added, rest⟩ := read
      simp only [bind_eq_ok, Except.ok.injEq] at added
      obtain ⟨_, _, bytes, isRead, rfl⟩ := added
      rw [inductionHypothesis rest, List.length_append,
        length_readVerifiedSource isRead, Nat.add_assoc]
      rfl

/-- The input is as long as the members together. -/
theorem length_readMembers
    {members : Members}
    {input : List UInt8}
    (read : readMembers digests members = .ok input) :
    input.length = total UInt64.toNat (sizes members) := by
  rw [length_readMembers_from read]
  exact Nat.zero_add _

end Reading

/-! ## The running best -/

section Selection

variable
  {codecs : Codecs}
  {digests : Digests}
  {cancelled : Nat → Bool}
  {input : List UInt8}
  {candidates : List CodecId}

/-- The payload of a candidate; nothing when its encoder fails. -/
def payloadOf
    (codecs : Codecs)
    (input : List UInt8)
    (codecId : CodecId) : List UInt8 :=
  match codecs.encode codecId codecId.defaultLevel input with
  | .ok payload => payload
  | .error _ => []

/-- The order of the candidates: the shorter payload, then the smaller id. -/
def selectionKey
    (codecs : Codecs)
    (input : List UInt8)
    (codecId : CodecId) : Nat ×ₗ Nat :=
  toLex ((payloadOf codecs input codecId).length, codecId.toU16.toNat)

theorem payloadOf_of_encode
    {codecId : CodecId}
    {payload : List UInt8}
    (encoded : codecs.encode codecId codecId.defaultLevel input =
      .ok payload) :
    payloadOf codecs input codecId = payload := by
  rw [payloadOf, encoded]

theorem CodecId.toU16_injective : Function.Injective CodecId.toU16 := by
  intro left right same
  have found := congrArg CodecId.fromU16 same
  rwa [CodecId.fromU16_toU16, CodecId.fromU16_toU16, Option.some.injEq] at found

theorem selectionKey_injective :
    Function.Injective (selectionKey codecs input) := by
  intro left right same
  have second := congrArg (fun key => (ofLex key).2) same
  exact CodecId.toU16_injective (UInt16.toNat_inj.mp second)

@[simp] theorem encode_store (codecs : Codecs) (input : List UInt8) :
    codecs.encode .store (CodecId.defaultLevel .store) input = .ok input :=
  rfl

/-- A payload is a vector. -/
theorem length_payloadOf_lt
    (crates : codecs.Crates)
    (vector : input.length < 2 ^ 63)
    (codecId : CodecId) :
    (payloadOf codecs input codecId).length < 2 ^ 63 := by
  cases encoded : codecs.encode codecId codecId.defaultLevel input with
  | error failure =>
      rw [payloadOf, encoded]
      exact Nat.two_pow_pos 63
  | ok payload =>
      rw [payloadOf_of_encode encoded]
      obtain ⟨_, _, written⟩ := bind_eq_ok.mp encoded
      cases codecId with
      | store =>
          cases written
          exact vector
      | zstd | brotli | lzma2 => exact crates.vector written

/-- The cost of a payload is its length and what every group adds. -/
theorem total_payloadCost
    {payload : List UInt8}
    (vector : payload.length < 2 ^ 63) :
    ∃ cost, (payloadCost payload).total = .ok cost ∧
      cost.toNat = payload.length + 68 := by
  have value : (UInt64.ofNat payload.length).toNat = payload.length :=
    toNat_ofNat_of_lt (by omega)
  refine ⟨UInt64.ofNat (payload.length + 68), ?_, toNat_ofNat_of_lt (by omega)⟩
  refine foldlM_checkedAdd_eq_ok.mpr ?_
  rw [toNat_ofNat_of_lt (by omega)]
  simp only [payloadCost, total, List.map_cons, List.map_nil, value]
  change 0 + (payload.length + (16 + (48 + (0 + (4 + (0 + 0)))))) = _
  omega

/-- A best candidate with its payload. -/
def withPayload
    (codecs : Codecs)
    (input : List UInt8)
    (codecId : CodecId) : CodecId × CandidateCost × List UInt8 :=
  (codecId, payloadCost (payloadOf codecs input codecId),
    payloadOf codecs input codecId)

theorem replaces_withPayload
    (crates : codecs.Crates)
    (vector : input.length < 2 ^ 63)
    (codecId best : CodecId) :
    replaces codecId (payloadCost (payloadOf codecs input codecId))
        (some (withPayload codecs input best)) =
      .ok (decide (selectionKey codecs input codecId <
        selectionKey codecs input best)) := by
  obtain ⟨cost, isCost, value⟩ :=
    total_payloadCost (length_payloadOf_lt crates vector codecId)
  obtain ⟨bestCost, isBest, bestValue⟩ :=
    total_payloadCost (length_payloadOf_lt crates vector best)
  simp only [replaces, withPayload, isCost, isBest, ok_bind, Except.ok.injEq,
    decide_eq_decide, selectionKey, Prod.Lex.toLex_lt_toLex,
    UInt64.lt_iff_toNat_lt, UInt16.lt_iff_toNat_lt, ← UInt64.toNat_inj, value,
    bestValue]
  omega

/-- One turn of the loop takes the least candidate so far. -/
theorem tryCandidate_eq_ok
    (crates : codecs.Crates)
    (vector : input.length < 2 ^ 63)
    {done : List CodecId}
    {codecId : CodecId}
    {next : Best} :
    tryCandidate codecs cancelled input done.length codecId
        ((done.argmin (selectionKey codecs input)).map
          (withPayload codecs input)) = .ok next ↔
      cancelled done.length = false ∧
      (∃ payload, codecs.encode codecId codecId.defaultLevel input =
        .ok payload) ∧
      next = ((done ++ [codecId]).argmin (selectionKey codecs input)).map
        (withPayload codecs input) := by
  have choice {payload : List UInt8}
      (encoded : codecs.encode codecId codecId.defaultLevel input =
        .ok payload) :
      (replaces codecId (payloadCost payload)
          ((done.argmin (selectionKey codecs input)).map
            (withPayload codecs input)) >>= fun replace =>
        Except.ok (if replace then some (codecId, payloadCost payload, payload)
          else (done.argmin (selectionKey codecs input)).map
            (withPayload codecs input))) =
        .ok (((done ++ [codecId]).argmin (selectionKey codecs input)).map
          (withPayload codecs input)) := by
    obtain rfl := payloadOf_of_encode encoded
    rw [List.argmin_concat]
    cases done.argmin (selectionKey codecs input) with
    | none => rfl
    | some best =>
        rw [Option.map_some, replaces_withPayload crates vector, ok_bind]
        simp only [decide_eq_true_eq]
        split <;> rfl
  simp only [tryCandidate, bind_eq_ok, ensure_eq_ok]
  constructor
  · rintro ⟨_, running, payload, encoded, rest⟩
    refine ⟨running, ⟨payload, encoded⟩, ?_⟩
    have chosen := choice encoded
    rw [bind_eq_ok] at chosen
    obtain ⟨replace, decided, taken⟩ := chosen
    obtain ⟨other, isOther, rest⟩ := rest
    obtain rfl := Except.ok.inj (decided.symm.trans isOther)
    exact Except.ok.inj (rest.symm.trans taken)
  · rintro ⟨running, ⟨payload, encoded⟩, rfl⟩
    exact ⟨(), running, payload, encoded, bind_eq_ok.mp (choice encoded)⟩

/-- The loop takes the least candidate, provided that nothing stops it. -/
theorem forEnum_tryCandidate_eq_ok
    (crates : codecs.Crates)
    (vector : input.length < 2 ^ 63)
    {best : Best} :
    forEnum (tryCandidate codecs cancelled input) 0 candidates none =
        .ok best ↔
      (∀ position < candidates.length, cancelled position = false) ∧
      (∀ codecId ∈ candidates, ∃ payload,
        codecs.encode codecId codecId.defaultLevel input = .ok payload) ∧
      best = (candidates.argmin (selectionKey codecs input)).map
        (withPayload codecs input) := by
  constructor
  · intro ran
    refine forEnum_invariant (fun done best =>
      (∀ position < done.length, cancelled position = false) ∧
      (∀ codecId ∈ done, ∃ payload,
        codecs.encode codecId codecId.defaultLevel input = .ok payload) ∧
      best = (done.argmin (selectionKey codecs input)).map
        (withPayload codecs input)) (by simp) ?_ ran
    rintro done codecId _ next ⟨running, encodes, rfl⟩ stepped
    obtain ⟨runs, encoded, rfl⟩ :=
      (tryCandidate_eq_ok crates vector).mp stepped
    refine ⟨?_, ?_, rfl⟩
    · intro position before
      rw [List.length_append, List.length_singleton] at before
      rcases Nat.lt_succ_iff_lt_or_eq.mp before with earlier | rfl
      · exact running position earlier
      · exact runs
    · intro other member
      rcases List.mem_append.mp member with earlier | last
      · exact encodes other earlier
      · rwa [List.mem_singleton.mp last]
  · rintro ⟨running, encodes, rfl⟩
    have progress : ∃ result,
        forEnum (tryCandidate codecs cancelled input) 0 candidates none =
          .ok result ∧
        result = (candidates.argmin (selectionKey codecs input)).map
          (withPayload codecs input) := by
      refine forEnum_progress
        (fun done best => best =
          (done.argmin (selectionKey codecs input)).map
            (withPayload codecs input)) rfl ?_
      rintro before codecId after _ split rfl
      refine ⟨_, (tryCandidate_eq_ok crates vector).mpr ⟨?_, ?_, rfl⟩, rfl⟩
      · exact running _ (by simp [split])
      · exact encodes codecId (by simp [split])
    obtain ⟨result, ran, rfl⟩ := progress
    exact ran

/-- A candidate that costs less than every other one; among equals it has the
smallest id. -/
structure IsCheapest
    (codecs : Codecs)
    (input : List UInt8)
    (candidates : List CodecId)
    (codecId : CodecId)
    (payload : List UInt8) : Prop where
  candidate : codecId ∈ candidates
  encoded : codecs.encode codecId codecId.defaultLevel input = .ok payload
  least : ∀ other ∈ candidates, other ≠ codecId → ∀ otherPayload,
    codecs.encode other other.defaultLevel input = .ok otherPayload →
    ∃ cost otherCost, (payloadCost payload).total = .ok cost ∧
      (payloadCost otherPayload).total = .ok otherCost ∧
      (cost < otherCost ∨
        cost = otherCost ∧ codecId.toU16 < other.toU16)

/-- The least candidate is the cheapest one. -/
theorem mem_argmin_iff_isCheapest
    (crates : codecs.Crates)
    (vector : input.length < 2 ^ 63)
    (encodes : ∀ codecId ∈ candidates, ∃ payload,
      codecs.encode codecId codecId.defaultLevel input = .ok payload)
    {codecId : CodecId} :
    codecId ∈ candidates.argmin (selectionKey codecs input) ↔
      IsCheapest codecs input candidates codecId
        (payloadOf codecs input codecId) := by
  have costs (first second : CodecId) :
      ∃ cost otherCost,
        (payloadCost (payloadOf codecs input first)).total = .ok cost ∧
        (payloadCost (payloadOf codecs input second)).total = .ok otherCost ∧
        (selectionKey codecs input first < selectionKey codecs input second ↔
          cost < otherCost ∨
            cost = otherCost ∧ first.toU16 < second.toU16) := by
    obtain ⟨cost, isCost, value⟩ :=
      total_payloadCost (length_payloadOf_lt crates vector first)
    obtain ⟨otherCost, isOther, otherValue⟩ :=
      total_payloadCost (length_payloadOf_lt crates vector second)
    refine ⟨cost, otherCost, isCost, isOther, ?_⟩
    simp only [selectionKey, Prod.Lex.toLex_lt_toLex, UInt64.lt_iff_toNat_lt,
      UInt16.lt_iff_toNat_lt, ← UInt64.toNat_inj, value, otherValue]
    omega
  constructor
  · intro least
    have member := List.argmin_mem least
    refine ⟨member, ?_, ?_⟩
    · obtain ⟨payload, encoded⟩ := encodes codecId member
      rwa [payloadOf_of_encode encoded]
    · intro other isCandidate different payload encoded
      obtain ⟨cost, otherCost, isCost, isOther, order⟩ := costs codecId other
      rw [payloadOf_of_encode encoded] at isOther
      refine ⟨cost, otherCost, isCost, isOther, order.mp ?_⟩
      refine lt_of_le_of_ne (List.le_of_mem_argmin isCandidate least) ?_
      exact fun same => different (selectionKey_injective same).symm
  · intro cheapest
    have some : candidates.argmin (selectionKey codecs input) ≠ none :=
      fun none => List.ne_nil_of_mem cheapest.candidate
        (List.argmin_eq_none.mp none)
    obtain ⟨best, isBest⟩ := Option.ne_none_iff_exists'.mp some
    by_cases same : best = codecId
    · rw [isBest, same]
      rfl
    · obtain ⟨payload, encoded⟩ := encodes best (List.argmin_mem isBest)
      obtain ⟨cost, otherCost, isCost, isOther, order⟩ := costs codecId best
      obtain ⟨_, _, isCost', isOther', cheaper⟩ :=
        cheapest.least best (List.argmin_mem isBest) same payload encoded
      rw [payloadOf_of_encode encoded] at isOther
      obtain rfl := Except.ok.inj (isCost.symm.trans isCost')
      obtain rfl := Except.ok.inj (isOther.symm.trans isOther')
      exact absurd (order.mpr cheaper) (not_lt_of_ge
        (List.le_of_mem_argmin cheapest.candidate isBest))

/-- Reading the members gives an input that a vector can hold. -/
def Gathered
    (digests : Digests)
    (members : Members)
    (input : List UInt8) : Prop :=
  total UInt64.toNat (sizes members) < 2 ^ 63 ∧
    readMembers digests members = .ok input

theorem Gathered.length_lt
    {members : Members}
    (gathered : Gathered digests members input) :
    input.length < 2 ^ 63 := by
  rw [length_readMembers gathered.2]
  exact gathered.1

/-- A group is encoded with its cheapest candidate. -/
theorem encodeSolidGroup_eq_ok
    (crates : codecs.Crates)
    {members : Members}
    {envelope : List UInt8} :
    encodeSolidGroup codecs digests cancelled members candidates =
        .ok envelope ↔
      ∃ input, Gathered digests members input ∧
        (∀ position < candidates.length, cancelled position = false) ∧
        (∀ codecId ∈ candidates, ∃ payload,
          codecs.encode codecId codecId.defaultLevel input = .ok payload) ∧
        ∃ codecId payload,
          IsCheapest codecs input candidates codecId payload ∧
          envelope = le16 codecId.toU16 ++ payload := by
  simp only [encodeSolidGroup, bind_eq_ok, ensure_eq_ok, inputLength_eq_ok]
  constructor
  · rintro ⟨length, isLength, _, fits, input, read, best, ran, chosen, found,
      finished⟩
    have gathered : Gathered digests members input :=
      ⟨by rwa [isLength], read⟩
    obtain ⟨running, encodes, rfl⟩ :=
      (forEnum_tryCandidate_eq_ok crates gathered.length_lt).mp ran
    rw [okOr_eq_ok, Option.map_eq_some_iff] at found
    obtain ⟨codecId, isBest, rfl⟩ := found
    refine ⟨input, gathered, running, encodes, codecId,
      payloadOf codecs input codecId, ?_, (Except.ok.inj finished).symm⟩
    exact (mem_argmin_iff_isCheapest crates gathered.length_lt encodes).mp
      isBest
  · rintro ⟨input, gathered, running, encodes, codecId, payload, cheapest, rfl⟩
    obtain rfl := payloadOf_of_encode cheapest.encoded
    have isBest := (mem_argmin_iff_isCheapest crates gathered.length_lt
      encodes).mpr cheapest
    have value := toNat_ofNat_of_lt
      (show total UInt64.toNat (sizes members) < 2 ^ 64 from
        gathered.1.trans (by decide))
    refine ⟨_, value.symm, (), ?_, input, gathered.2, _,
      (forEnum_tryCandidate_eq_ok crates gathered.length_lt).mpr
        ⟨running, encodes, rfl⟩, withPayload codecs input codecId, ?_, rfl⟩
    · rw [value]
      exact gathered.1
    · rw [isBest]
      rfl

/-- The order of the candidates does not matter. -/
theorem isCheapest_perm
    {others : List CodecId}
    (same : candidates.Perm others)
    {codecId : CodecId}
    {payload : List UInt8} :
    IsCheapest codecs input candidates codecId payload ↔
      IsCheapest codecs input others codecId payload := by
  have members {codecId : CodecId} : codecId ∈ candidates ↔ codecId ∈ others :=
    same.mem_iff
  constructor
  · rintro ⟨candidate, encoded, least⟩
    exact ⟨members.mp candidate, encoded,
      fun other member => least other (members.mpr member)⟩
  · rintro ⟨candidate, encoded, least⟩
    exact ⟨members.mpr candidate, encoded,
      fun other member => least other (members.mp member)⟩

/-- With STORE among the candidates, the payload is not longer than the
input. -/
theorem IsCheapest.length_le
    (vector : input.length < 2 ^ 63)
    (stored : .store ∈ candidates)
    {codecId : CodecId}
    {payload : List UInt8}
    (small : payload.length < 2 ^ 63)
    (cheapest : IsCheapest codecs input candidates codecId payload) :
    payload.length ≤ input.length := by
  by_cases isStore : CodecId.store = codecId
  · subst isStore
    have same : input = payload := Except.ok.inj cheapest.encoded
    rw [same]
  · obtain ⟨cost, otherCost, isCost, isOther, cheaper⟩ :=
      cheapest.least .store stored isStore input (encode_store codecs input)
    obtain ⟨_, isCost', value⟩ := total_payloadCost small
    obtain ⟨_, isOther', otherValue⟩ := total_payloadCost vector
    obtain rfl := Except.ok.inj (isCost.symm.trans isCost')
    obtain rfl := Except.ok.inj (isOther.symm.trans isOther')
    rw [UInt64.lt_iff_toNat_lt, ← UInt64.toNat_inj, value, otherValue] at cheaper
    omega

end Selection

/-! ## The bound of a task -/

/-- A result that is not the refusal of a limit. -/
def NoLimit {α : Type} (result : Result α) : Prop :=
  ∀ detail, result ≠ .error (.resourceLimit detail)

theorem noLimit_ok {α : Type} (value : α) : NoLimit (.ok value) :=
  fun _ same => nomatch same

theorem NoLimit.bind
    {α β : Type}
    {first : Result α}
    {next : α → Result β}
    (isFirst : NoLimit first)
    (isNext : ∀ value, NoLimit (next value)) :
    NoLimit (first >>= next) := by
  intro detail failed
  rcases bind_eq_error.mp failed with failed | ⟨value, _, failed⟩
  · exact isFirst detail failed
  · exact isNext value detail failed

theorem noLimit_ensure
    {condition : Prop}
    [Decidable condition]
    {failure : PithosError}
    (other : ∀ detail, failure ≠ .resourceLimit detail) :
    NoLimit (ensure condition failure) := by
  intro detail failed
  by_cases holds : condition
  · rw [ensure_of holds] at failed
    cases failed
  · rw [ensure_of_not holds] at failed
    exact other detail (Except.error.inj failed)

theorem noLimit_okOr
    {α : Type}
    {value : Option α}
    {failure : PithosError}
    (other : ∀ detail, failure ≠ .resourceLimit detail) :
    NoLimit (okOr value failure) := by
  intro detail failed
  cases value with
  | none => exact other detail (Except.error.inj failed)
  | some value => cases failed

theorem noLimit_ofIo {α : Type} (answer : Except FileTree.IoErrorKind α) :
    NoLimit (ofIo answer) := by
  intro detail failed
  cases answer <;> cases failed

theorem noLimit_foldlM
    {α β : Type}
    {step : β → α → Result β}
    (steps : ∀ state item, NoLimit (step state item))
    (items : List α)
    (state : β) :
    NoLimit (items.foldlM step state) := by
  induction items generalizing state with
  | nil => exact noLimit_ok state
  | cons item items inductionHypothesis =>
      rw [List.foldlM_cons]
      exact (steps state item).bind inductionHypothesis

theorem noLimit_forEnum
    {α β : Type}
    {body : Nat → α → β → Result β}
    (steps : ∀ position item state, NoLimit (body position item state))
    (position : Nat)
    (items : List α)
    (state : β) :
    NoLimit (forEnum body position items state) := by
  induction items generalizing position state with
  | nil => exact noLimit_ok state
  | cons item items inductionHypothesis =>
      rw [forEnum_cons]
      exact (steps position item state).bind (inductionHypothesis _)

theorem noLimit_readSourceTurns
    (size : UInt64)
    (turns : List ReadTurn)
    (output : List UInt8) :
    NoLimit (readSourceTurns size turns output) := by
  induction turns generalizing output with
  | nil => exact noLimit_ok output
  | cons turn turns inductionHypothesis =>
      refine (noLimit_ensure (by simp)).bind fun _ =>
        (noLimit_ofIo _).bind fun bytes => ?_
      by_cases ended : bytes = []
      · rw [if_pos ended]
        exact noLimit_ok output
      · rw [if_neg ended]
        exact (noLimit_ensure (by simp)).bind fun _ => inductionHypothesis _

theorem noLimit_readVerifiedSource
    (digests : Digests)
    (source : CompressedSource)
    (reading : SourceReading) :
    NoLimit (readVerifiedSource digests source reading) := by
  refine NoLimit.bind ?_ fun _ =>
    (noLimit_ensure (by simp)).bind fun _ => noLimit_ok _
  refine (noLimit_ofIo _).bind fun _ => (noLimit_ensure (by simp)).bind fun _ =>
    (noLimit_ofIo _).bind fun _ => ?_
  exact (noLimit_readSourceTurns _ _ _).bind fun _ =>
    (noLimit_ofIo _).bind fun _ => (noLimit_ensure (by simp)).bind fun _ =>
      noLimit_ok _

theorem noLimit_total (cost : CandidateCost) : NoLimit cost.total :=
  noLimit_foldlM (fun _ _ => noLimit_okOr (by simp)) _ _

theorem noLimit_encode
    {codecs : Codecs}
    (crates : codecs.Crates)
    (codecId : CodecId)
    (level : Int32)
    (input : List UInt8) :
    NoLimit (codecs.encode codecId level input) := by
  refine NoLimit.bind (noLimit_ensure (by simp)) fun _ => ?_
  cases codecId with
  | store => exact noLimit_ok input
  | zstd | brotli | lzma2 =>
      intro detail failed
      obtain ⟨kind, isIo⟩ := crates.io failed
      cases isIo

/-- Encoding a group never fails with a limit. -/
theorem noLimit_encodeSolidGroup
    {codecs : Codecs}
    (crates : codecs.Crates)
    (digests : Digests)
    (cancelled : Nat → Bool)
    (members : Members)
    (candidates : List CodecId) :
    NoLimit (encodeSolidGroup codecs digests cancelled members candidates) := by
  refine NoLimit.bind
    (noLimit_foldlM (fun _ _ => noLimit_okOr (by simp)) _ _) fun _ =>
    (noLimit_ensure (by simp)).bind fun _ => ?_
  refine NoLimit.bind (noLimit_foldlM (fun _ _ =>
    (noLimit_ensure (by simp)).bind fun _ =>
      (noLimit_readVerifiedSource _ _ _).bind fun _ => noLimit_ok _) _ _)
    fun input => ?_
  refine NoLimit.bind (noLimit_forEnum (fun position codecId best => ?_) _ _ _)
    fun _ => (noLimit_okOr (by simp)).bind fun _ => noLimit_ok _
  refine (noLimit_ensure (by simp)).bind fun _ =>
    (noLimit_encode crates _ _ _).bind fun _ =>
      NoLimit.bind ?_ fun _ => noLimit_ok _
  cases best with
  | none => exact noLimit_ok true
  | some best =>
      exact (noLimit_total _).bind fun _ => (noLimit_total _).bind fun _ =>
        noLimit_ok _

/-- An envelope is not longer than the members and the codec's number. -/
theorem length_encodeSolidGroup_le
    {codecs : Codecs}
    (crates : codecs.Crates)
    {digests : Digests}
    {cancelled : Nat → Bool}
    {members : Members}
    {candidates : List CodecId}
    (stored : .store ∈ candidates)
    {envelope : List UInt8}
    (encoded : encodeSolidGroup codecs digests cancelled members candidates =
      .ok envelope) :
    envelope.length ≤ total UInt64.toNat (sizes members) + 2 := by
  obtain ⟨input, gathered, _, _, codecId, payload, cheapest, rfl⟩ :=
    (encodeSolidGroup_eq_ok crates).mp encoded
  have small := length_payloadOf_lt crates gathered.length_lt codecId
  rw [payloadOf_of_encode cheapest.encoded] at small
  have shorter := cheapest.length_le gathered.length_lt stored small
  rw [length_readMembers gathered.2] at shorter
  rw [List.length_append, length_le16]
  omega

section Tasks

variable
  {codecs : Codecs}
  {digests : Digests}
  {candidates : List CodecId}
  {sources : List CompressedSource}
  {groupId : UInt64}
  {plan : SolidGroupPlan}
  {task : Scheduler.ScheduledTask}

/-- The members of a group have the sizes that were planned. -/
theorem sizes_zip_groupMembers
    {members : List CompressedSource}
    (isMembers : groupMembers sources plan = .ok members)
    {readings : List SourceReading}
    (each : readings.length = members.length) :
    sizes (members.zip readings) =
      plan.items (sources.map fun source => source.stamp.size) := by
  have same : sizes (members.zip readings) =
      members.map fun source => source.stamp.size := by
    have firsts := congrArg (List.map fun source => source.stamp.size)
      (List.map_fst_zip each.ge)
    rwa [List.map_map] at firsts
  simp only [groupMembers, bind_eq_ok, ensure_eq_ok, Except.ok.injEq]
    at isMembers
  obtain ⟨_, _, _, _, rfl⟩ := isMembers
  rw [same, List.map_take, List.map_drop]
  rfl

/-- What the task of a planned group gives is within its bound, and no limit
refuses it. -/
theorem packTask_withinBound
    (crates : codecs.Crates)
    (stored : .store ∈ candidates)
    (exact : plan.uncompressedLen.toNat = total UInt64.toNat
      (plan.items (sources.map fun source => source.stamp.size)))
    (isTask : packTask codecs digests candidates sources groupId plan =
      .ok task)
    {outcome : Result (List UInt8)}
    (acted : task.action outcome) :
    (∀ envelope, outcome = .ok envelope →
      envelope.length ≤ task.resources.outputBound.toNat) ∧
      NoLimit outcome := by
  simp only [packTask, bind_eq_ok, Except.ok.injEq, okOr_eq_ok,
    checkedAdd_eq_some] at isTask
  obtain ⟨members, isMembers, outputBound, isBound, _, _, rfl⟩ := isTask
  obtain ⟨cancelled, readings, each, rfl⟩ := acted
  refine ⟨?_, noLimit_encodeSolidGroup crates _ _ _ _⟩
  intro envelope encoded
  have short := length_encodeSolidGroup_le crates stored encoded
  rw [sizes_zip_groupMembers isMembers each, ← exact] at short
  have bound : (1024 * 1024 + 2 : UInt64).toNat = 1048578 := by decide
  rw [bound] at isBound
  change _ ≤ outputBound.toNat
  omega

/-- A task whose result is within its bound is not refused for it. -/
theorem noLimit_runTask
    {outcome : Result (List UInt8)}
    (within : ∀ envelope, outcome = .ok envelope →
      envelope.length ≤ task.resources.outputBound.toNat)
    (noLimit : NoLimit outcome)
    (cancelledBefore cancelledAfter : Bool)
    (fault : Option FileTree.IoErrorKind) :
    NoLimit (Scheduler.runTask task cancelledBefore outcome cancelledAfter
      fault) := by
  refine (noLimit_ensure (by simp)).bind fun _ => ?_
  cases outcome with
  | error failure =>
      rw [error_bind]
      exact fun detail failed =>
        noLimit detail (congrArg Except.error (Except.error.inj failed))
  | ok envelope =>
      refine (noLimit_ensure (by simp)).bind fun _ =>
        (noLimit_ensure (by simp)).bind fun _ => ?_
      rw [ensure_of (within envelope rfl), ok_bind]
      cases fault with
      | none => exact noLimit_ok _
      | some kind => exact fun _ same => nomatch same

end Tasks

/-- A group is encoded with the candidate that is least in cost and id, in
whatever order the candidates stand.  The payload is not longer than the input,
so no task of a planned group is refused for its bound. -/
theorem encodeSolidGroup_selects
    {codecs : Codecs}
    (crates : codecs.Crates)
    (digests : Digests)
    {candidates : List CodecId}
    (stored : .store ∈ candidates) :
    (∀ cancelled members envelope,
      encodeSolidGroup codecs digests cancelled members candidates =
          .ok envelope ↔
        ∃ input, Gathered digests members input ∧
          (∀ position < candidates.length, cancelled position = false) ∧
          (∀ codecId ∈ candidates, ∃ payload,
            codecs.encode codecId codecId.defaultLevel input = .ok payload) ∧
          ∃ codecId payload,
            IsCheapest codecs input candidates codecId payload ∧
            envelope = le16 codecId.toU16 ++ payload) ∧
    (∀ others, candidates.Perm others → ∀ cancelled,
      (∀ position < candidates.length, cancelled position = false) →
      ∀ members envelope,
        encodeSolidGroup codecs digests cancelled members others =
            .ok envelope ↔
          encodeSolidGroup codecs digests cancelled members candidates =
            .ok envelope) ∧
    (∀ cancelled members envelope,
      encodeSolidGroup codecs digests cancelled members candidates =
        .ok envelope →
      ∃ (input : List UInt8) (codecId : CodecId) (payload : List UInt8),
        readMembers digests members = .ok input ∧
        envelope = le16 codecId.toU16 ++ payload ∧
        payload.length ≤ input.length) ∧
    ∀ profile sources plans, sources.length < 2 ^ 64 →
      planSolidGroups profile (sources.map fun source => source.stamp.size) =
        .ok plans →
      ∀ plan ∈ plans, ∀ groupId task,
        packTask codecs digests candidates sources groupId plan = .ok task →
        ∀ outcome, task.action outcome →
          (∀ envelope, outcome = .ok envelope →
            envelope.length ≤ task.resources.outputBound.toNat) ∧
          ∀ cancelledBefore cancelledAfter fault,
            Scheduler.runTask task cancelledBefore outcome cancelledAfter
                fault ≠
              .error (.resourceLimit
                "scheduled task exceeded reserved output bound") := by
  refine ⟨fun _ _ _ => encodeSolidGroup_eq_ok crates, ?_, ?_, ?_⟩
  · intro others same cancelled running members envelope
    have sameLength := same.length_eq
    have cheapest (input : List UInt8) {codecId : CodecId}
        {payload : List UInt8} :=
      @isCheapest_perm codecs input candidates others same codecId payload
    rw [encodeSolidGroup_eq_ok crates, encodeSolidGroup_eq_ok crates]
    simp only [← sameLength, same.mem_iff, cheapest]
  · intro cancelled members envelope encoded
    obtain ⟨input, gathered, _, _, codecId, payload, cheapest, rfl⟩ :=
      (encodeSolidGroup_eq_ok crates).mp encoded
    have small := length_payloadOf_lt crates gathered.length_lt codecId
    rw [payloadOf_of_encode cheapest.encoded] at small
    exact ⟨input, codecId, payload, gathered.2, rfl,
      cheapest.length_le gathered.length_lt stored small⟩
  · intro profile sources plans short planned plan member groupId task isTask
      outcome acted
    have exact := uncompressedLen_of_planned (by simpa using short) planned
      member
    obtain ⟨within, noLimit⟩ :=
      packTask_withinBound crates stored exact isTask acted
    exact ⟨within, fun before after fault =>
      noLimit_runTask within noLimit before after fault _⟩

/-! ## A group of zeros -/

/-- Eighty zeros. -/
def zeros : List UInt8 := List.replicate 80 0

/-- Eighty zeros in the XZ container, as level 6 writes them. -/
def zerosXz : List UInt8 := [
0xFD, 0x37, 0x7A, 0x58, 0x5A, 0x00, 0x00, 0x04, 0xE6, 0xD6, 0xB4, 0x46,
  0x02, 0x00, 0x21, 0x01, 0x16, 0x00, 0x00, 0x00, 0x74, 0x2F, 0xE5, 0xA3,
  0xE0, 0x00, 0x4F, 0x00, 0x06, 0x5D, 0x00, 0x00, 0x6E, 0x78, 0x46, 0x18,
  0x00, 0x00, 0x00, 0x00, 0xFC, 0x95, 0xB5, 0xAA, 0xFF, 0xC9, 0x48, 0x6E,
  0x00, 0x01, 0x22, 0x50, 0xFF, 0xA2, 0x5F, 0xEC, 0x1F, 0xB6, 0xF3, 0x7D,
  0x01, 0x00, 0x00, 0x00, 0x00, 0x04, 0x59, 0x5A]

/-- What the LZMA2 crate does with the zeros. -/
def zerosCodecs : Codecs where
  compress codecId level input :=
    if codecId = .lzma2 ∧ level = 6 ∧ input = zeros then .ok zerosXz
    else .error (.io .invalidInput)
  decompress codecId payload :=
    if codecId = .lzma2 ∧ payload = zerosXz then .ok zeros
    else .error (.io .invalidInput)

theorem zerosCodecs_crates : zerosCodecs.Crates where
  vector := by
    intro codecId level input output written
    change (if _ then _ else _) = _ at written
    split at written
    · cases written
      decide
    · cases written
  io := by
    intro codecId level input failure failed
    change (if _ then _ else _) = _ at failed
    split at failed
    · cases failed
    · cases failed
      exact ⟨_, rfl⟩

/-- A file of zeros, read in one turn. -/
def zerosMember (digests : Digests) : CompressedSource × SourceReading :=
  (⟨⟨80, none, none⟩, digests.blake3 zeros⟩,
    ⟨false, .ok ⟨80, none, none⟩, .ok (), [⟨false, .ok zeros⟩],
      .ok ⟨80, none, none⟩⟩)

theorem gathered_zeros (digests : Digests) :
    Gathered digests [zerosMember digests] zeros := by
  refine ⟨(by decide : (80 + 0 : Nat) < 2 ^ 63), ?_⟩
  have read : readVerifiedSource digests (zerosMember digests).1
      (zerosMember digests).2 = .ok zeros := by
    simp [readVerifiedSource, readSourceBytes, zerosMember, ofIo,
      readSourceTurns, zeros, ensure_of]
  exact bind_eq_ok.mpr ⟨zeros, bind_eq_ok.mpr
    ⟨(), rfl, bind_eq_ok.mpr ⟨zeros, read, rfl⟩⟩, rfl⟩

theorem zeros_isCheapest :
    IsCheapest zerosCodecs zeros [.store, .lzma2] .lzma2 zerosXz where
  candidate := by decide
  encoded := by decide
  least := by
    intro other member different payload encoded
    rw [List.mem_pair] at member
    rcases member with rfl | rfl
    · cases encoded
      exact ⟨136, 148, by decide, by decide, by decide⟩
    · exact absurd rfl different

/-- Of the zeros and their archive, the archive is chosen, also when STORE is
tried last. -/
theorem zeros_encoded :
    encodeSolidGroup zerosCodecs .crates (fun _ => false)
        [zerosMember .crates] [.lzma2, .store] =
      .ok (le16 3 ++ zerosXz) := by
  have selects := @encodeSolidGroup_selects _ zerosCodecs_crates .crates
    [.store, .lzma2] (by decide)
  refine (selects.2.1 [.lzma2, .store] (List.Perm.swap _ _ _) _
    (fun _ _ => rfl) _ _).mpr ?_
  refine (selects.1 _ _ _).mpr ⟨zeros, gathered_zeros _, fun _ _ => rfl, ?_,
    .lzma2, zerosXz, zeros_isCheapest, rfl⟩
  intro codecId member
  rw [List.mem_pair] at member
  rcases member with rfl | rfl
  · exact ⟨zeros, rfl⟩
  · exact ⟨zerosXz, by decide⟩

end Pithos
