import Pithos.Analysis.Sorting
import Pithos.Analysis.FingerprintLimits

/-!
# Fingerprints of a batch

The fingerprints of many chunks, in the order of their ids, whichever order they
come in and however the workers take turns.  Under the standard policy the whole
BLAKE3 value is kept of the chunks whose compact values collide.

As for one chunk, the hash functions and the sizes of the types are parameters,
the checkpoints are taken as passing and memory as available.  The order in
which the workers finish is a parameter too.
-/

namespace Pithos

open Fallible
open Machine
open MergeSort
open Lists

/-- A chunk with the bytes that are fingerprinted for it. -/
structure FingerprintInput where
  chunk : LogicalChunk
  data : List UInt8

/-! ## One chunk in memory -/

/-- The bytes in blocks of the size of a read buffer. -/
def blocks (data : List UInt8) : List (List UInt8) :=
  if data = [] then []
  else data.take readBufferBytes :: blocks (data.drop readBufferBytes)
termination_by data.length
decreasing_by
  rename_i some
  have positive := List.length_pos_iff.mpr some
  rw [List.length_drop]
  unfold readBufferBytes
  omega

/-- The fingerprint of one chunk, taken over blocks of the read buffer. -/
def fingerprintBytes
    (hashes : FingerprintHashes)
    (chunkId : UInt64)
    (data : List UInt8)
    (config : FingerprintConfig) : Result ChunkFingerprint := do
  let length ← tryU64 data.length
  ensureChunkSize length config
  let accumulator ← FingerprintAccumulator.new length config
  let accumulator ← (blocks data).foldlM
    (fun accumulator block => accumulator.update hashes block) accumulator
  accumulator.finish hashes chunkId config

namespace ChunkFingerprint

/-- `compute_with_config`: one chunk on its own, within the limits of one
request. -/
def computeWithConfig
    (hashes : FingerprintHashes)
    (sizes : FingerprintSizes)
    (chunkId : UInt64)
    (data : List UInt8)
    (config : FingerprintConfig) : Result ChunkFingerprint := do
  config.validate
  let length ← tryU64 data.length
  ensureSingleRequestLimits sizes length config
  fingerprintBytes hashes chunkId data config

/-- Keep the whole BLAKE3 value, once the bytes are seen to be the same. -/
def escalateFullBlake3
    (hashes : FingerprintHashes)
    (sizes : FingerprintSizes)
    (fingerprint : ChunkFingerprint)
    (data : List UInt8)
    (config : FingerprintConfig) : Result ChunkFingerprint := do
  config.validate
  let length ← tryU32 data.length
  ensure (length = fingerprint.length)
    (.invalidMetadata "fingerprint chunk length")
  let size ← tryU64 data.length
  ensureSingleRequestLimits sizes size config
  let crc32c := (blocks data).foldl hashes.crc32cAppend 0
  let full := hashes.blake3 data
  ensure (full.val.take 16 = fingerprint.blake3_128 ∧
      hashes.xxh3 data = fingerprint.xxh3 ∧ crc32c = fingerprint.crc32c)
    .hashMismatch
  .ok { fingerprint with fullBlake3 := some full }

end ChunkFingerprint

/-! ## Collisions -/

/-- What identifies a chunk as long as nothing collides. -/
abbrev CompactKey := UInt64 × UInt32 × List UInt8

/-- The digests that name a chunk until they collide. -/
def ChunkFingerprint.compactKey (fingerprint : ChunkFingerprint) : CompactKey :=
  (fingerprint.xxh3, fingerprint.length, fingerprint.blake3_128)

/-- A compact key with the index of its fingerprint. -/
abbrev CollisionCandidate := CompactKey × Nat

/-- Compact keys are ordered by their parts, the last one as bytes. -/
def CompactKey.order (key : CompactKey) : ℕ ×ₗ ℕ ×ₗ List ℕ :=
  toLex (key.1.toNat, toLex (key.2.1.toNat, key.2.2.map (·.toNat)))

/-- Candidates are ordered by their keys, then by their indices. -/
def CollisionCandidate.order (candidate : CollisionCandidate) :
    (ℕ ×ₗ ℕ ×ₗ List ℕ) ×ₗ ℕ :=
  toLex (CompactKey.order candidate.1, candidate.2)

/-- Mark the indices of the candidates whose key the next ones share. -/
def markCollisions : List CollisionCandidate → List Bool → List Bool
  | [], escalate => escalate
  | first :: rest, escalate =>
      let run := rest.takeWhile fun candidate => candidate.1 = first.1
      let marked :=
        if run = [] then escalate
        else (first :: run).foldl
          (fun escalate candidate => escalate.set candidate.2 true) escalate
      markCollisions
        (rest.dropWhile fun candidate => candidate.1 = first.1) marked
termination_by candidates => candidates.length
decreasing_by
  exact Nat.lt_succ_of_le (List.dropWhile_sublist _).length_le

/-- Chunks that share a compact key get the full hash, the others stay as they
are. -/
def escalateCompactCollisions
    (hashes : FingerprintHashes)
    (sizes : FingerprintSizes)
    (fingerprints : List ChunkFingerprint)
    (inputs : List FingerprintInput)
    (config : FingerprintConfig) : Result (List ChunkFingerprint) :=
  let candidates := fingerprints.mapIdx fun index fingerprint =>
    (fingerprint.compactKey, index)
  let candidates := sortByKey CollisionCandidate.order candidates
  let escalate := markCollisions candidates
    (List.replicate fingerprints.length false)
  ((fingerprints.zip inputs).zip escalate).mapM
    fun ((fingerprint, input), shouldEscalate) =>
      if shouldEscalate = true then
        fingerprint.escalateFullBlake3 hashes sizes input.data config
      else .ok fingerprint

/-! ## The batch -/

/-- The checks of one chunk of a batch.  The total and the largest length so
far. -/
def checkInput
    (config : FingerprintConfig)
    (input : FingerprintInput)
    (state : UInt64 × UInt64) : Result (UInt64 × UInt64) := do
  let actual ← tryU64 input.data.length
  ensure (actual = input.chunk.length.toUInt64)
    (.invalidMetadata "fingerprint chunk length")
  ensureChunkSize actual config
  let totalBytes ← addU64 state.1 actual
  ensure (totalBytes ≤ config.maxTotalBytes)
    (.resourceLimit "fingerprint total bytes")
  .ok (totalBytes, if state.2 ≤ actual then actual else state.2)

/-- The checks of a batch before any of it is fingerprinted. -/
def checkBatch
    (sizes : FingerprintSizes)
    (inputs : List FingerprintInput)
    (config : FingerprintConfig) : Result Unit := do
  config.validate
  let count ← tryU64 inputs.length
  ensure (count ≤ config.maxChunks) (.resourceLimit "fingerprint chunk count")
  let (_, largestChunk) ← forEnum (fun _ => checkInput config) 0 inputs (0, 0)
  ensureBatchMemoryLimits sizes count largestChunk config

/-- The slots after some workers are done, one after the other.  A slot is set
once. -/
def fillSlots {Value : Type} (work : Nat → Option Value) :
    List Nat → List (Option Value) → List (Option Value)
  | [], slots => slots
  | index :: schedule, slots =>
      fillSlots work schedule (slots.modify index (·.or (work index)))

/-- The fingerprints of a batch.  The schedule says in which order the chunks
are done. -/
def fingerprintChunks
    (hashes : FingerprintHashes)
    (sizes : FingerprintSizes)
    (schedule : List Nat)
    (inputs : List FingerprintInput)
    (config : FingerprintConfig) : Result (List ChunkFingerprint) := do
  checkBatch sizes inputs config
  if inputs = [] then .ok []
  else do
    let ordered := sortByKey
      (fun (input : FingerprintInput) => input.chunk.chunkId.toNat) inputs
    ensure (ordered.IsChain fun left right =>
        left.chunk.chunkId.toNat ≠ right.chunk.chunkId.toNat)
      (.invalidMetadata "duplicate fingerprint chunk ID")
    let slots := fillSlots
      (fun index => ordered[index]?.map fun input =>
        fingerprintBytes hashes input.chunk.chunkId input.data config)
      schedule (List.replicate ordered.length none)
    let fingerprints ← slots.mapM fun slot => do
      let result ← okOr slot
        (.invalidMetadata "missing fingerprint worker result")
      result
    if config.fullHashPolicy = .standard then
      escalateCompactCollisions hashes sizes fingerprints ordered config
    else .ok fingerprints

/-! ## Slots -/

section Slots

variable
  {Value : Type}
  {work : Nat → Option Value}
  {schedule : List Nat}
  {slots : List (Option Value)}

/-- A slot holds what it held, or what its worker has found. -/
theorem getElem?_fillSlots (index : Nat) :
    (fillSlots work schedule slots)[index]? =
      slots[index]?.map fun slot =>
        slot.or (if index ∈ schedule then work index else none) := by
  induction schedule generalizing slots with
  | nil => simp [fillSlots]
  | cons next schedule induction =>
      rw [fillSlots, induction, List.getElem?_modify]
      cases slots[index]? with
      | none => rfl
      | some slot =>
          simp only [Option.map_eq_map, Option.map_some, List.mem_cons]
          by_cases same : next = index
          · subst same
            cases slot <;> cases work next <;> simp
          · simp [same, Ne.symm same]

/-- Slots that all workers have had their turn at hold all results. -/
theorem fillSlots_eq_map
    {Item : Type}
    {items : List Item}
    {result : Item → Value}
    (all : ∀ index < items.length, index ∈ schedule) :
    fillSlots (fun index => items[index]?.map result) schedule
        (List.replicate items.length none) =
      items.map fun item => some (result item) := by
  refine List.ext_getElem? fun index => ?_
  rw [getElem?_fillSlots, List.getElem?_map]
  by_cases inside : index < items.length
  · rw [List.getElem?_replicate, if_pos inside, if_pos (all index inside),
      List.getElem?_eq_getElem inside]
    rfl
  · rw [List.getElem?_replicate, if_neg inside,
      List.getElem?_eq_none (Nat.not_lt.mp inside)]
    rfl

end Slots

/-! ## Marks -/

section Marks

variable
  {candidates : List CollisionCandidate}
  {escalate : List Bool}

theorem getElem?_foldl_set (index : Nat) :
    (candidates.foldl
      (fun escalate candidate => escalate.set candidate.2 true)
        escalate)[index]? =
      escalate[index]?.map fun mark =>
        mark || decide (index ∈ candidates.map (·.2)) := by
  induction candidates generalizing escalate with
  | nil => simp
  | cons first rest induction =>
      rw [List.foldl_cons, induction, List.getElem?_set]
      by_cases same : first.2 = index
      · subst same
        rw [if_pos rfl, List.map_cons]
        by_cases inside : first.2 < escalate.length
        · rw [if_pos inside, List.getElem?_eq_getElem inside]
          simp
        · rw [if_neg inside, List.getElem?_eq_none (Nat.not_lt.mp inside)]
          rfl
      · rw [if_neg same]
        have others : index ∈ (first :: rest).map (·.2) ↔
            index ∈ rest.map (·.2) := by
          rw [List.map_cons, List.mem_cons, or_iff_right (Ne.symm same)]
        rw [decide_eq_decide.mpr others]

/-- Another candidate has the same key. -/
def Collides
    (candidates : List CollisionCandidate)
    (index : Nat) : Prop :=
  ∃ candidate ∈ candidates, candidate.2 = index ∧
    ∃ other ∈ candidates, other.2 ≠ index ∧ other.1 = candidate.1

instance (candidates : List CollisionCandidate) (index : Nat) :
    Decidable (Collides candidates index) :=
  inferInstanceAs (Decidable (∃ candidate ∈ candidates, candidate.2 = index ∧
    ∃ other ∈ candidates, other.2 ≠ index ∧ other.1 = candidate.1))

theorem CompactKey.order_inj {left right : CompactKey} :
    CompactKey.order left = CompactKey.order right ↔ left = right := by
  have injective : Function.Injective (List.map UInt8.toNat) :=
    List.map_injective_iff.mpr fun _ _ => UInt8.toNat_inj.mp
  obtain ⟨leftXxh3, leftLength, leftBytes⟩ := left
  obtain ⟨rightXxh3, rightLength, rightBytes⟩ := right
  simp only [CompactKey.order, toLex_inj, Prod.mk.injEq, UInt64.toNat_inj,
    UInt32.toNat_inj, injective.eq_iff]

/-- The candidates behind the first ones of a key collide as before. -/
theorem collides_iff
    {first : CollisionCandidate}
    {run rest : List CollisionCandidate}
    (sameKey : ∀ candidate ∈ run, candidate.1 = first.1)
    (otherKey : ∀ candidate ∈ rest, candidate.1 ≠ first.1)
    (distinct : ((first :: run ++ rest).map (·.2)).Nodup)
    (index : Nat) :
    Collides (first :: run ++ rest) index ↔
      (run ≠ [] ∧ index ∈ (first :: run).map (·.2)) ∨ Collides rest index := by
  have isRun (candidate : CollisionCandidate)
      (member : candidate ∈ first :: run) : candidate.1 = first.1 := by
    rcases List.mem_cons.mp member with rfl | later
    · rfl
    · exact sameKey candidate later
  constructor
  · rintro ⟨candidate, member, rfl, other, otherMember, different, same⟩
    rcases List.mem_append.mp member with inRun | inRest
    · refine Or.inl ⟨?_, List.mem_map_of_mem inRun⟩
      rintro rfl
      rcases List.mem_append.mp otherMember with otherRun | otherRest
      · rw [List.mem_singleton.mp inRun,
          List.mem_singleton.mp otherRun] at different
        exact different rfl
      · exact otherKey other otherRest (same.trans (isRun candidate inRun))
    · rcases List.mem_append.mp otherMember with otherRun | otherRest
      · exact absurd (same.symm.trans (isRun other otherRun))
          (otherKey candidate inRest)
      · exact Or.inr ⟨candidate, inRest, rfl, other, otherRest, different,
          same⟩
  · rintro (⟨some, member⟩ | ⟨candidate, member, isIndex, other, otherMember,
      different, same⟩)
    · obtain ⟨candidate, inRun, rfl⟩ := List.mem_map.mp member
      refine ⟨candidate, List.mem_append_left rest inRun, rfl, ?_⟩
      -- the first candidate, or the second one for the first
      obtain ⟨second, others, rfl⟩ := List.exists_cons_of_ne_nil some
      have apart : first.2 ≠ second.2 := by
        intro same
        simp [same] at distinct
      by_cases isFirst : candidate.2 = first.2
      · refine ⟨second, by simp, isFirst ▸ apart.symm, ?_⟩
        exact (isRun second (by simp)).trans (isRun candidate inRun).symm
      · exact ⟨first, by simp, Ne.symm isFirst,
          (isRun candidate inRun).symm⟩
    · exact ⟨candidate, List.mem_append_right _ member, isIndex, other,
        List.mem_append_right _ otherMember, different, same⟩

/-- Among candidates sorted by their keys, the marked indices are those of the
candidates that collide. -/
theorem getElem?_markCollisions
    (sorted : candidates.Pairwise fun left right =>
      CompactKey.order left.1 ≤ CompactKey.order right.1)
    (distinct : (candidates.map (·.2)).Nodup)
    (index : Nat) :
    (markCollisions candidates escalate)[index]? =
      escalate[index]?.map fun mark =>
        mark || decide (Collides candidates index) := by
  induction candidates, escalate using markCollisions.induct with
  | case1 escalate => simp [markCollisions, Collides]
  | case2 first rest escalate run marked induction =>
      obtain ⟨below, restSorted⟩ := List.pairwise_cons.mp sorted
      obtain ⟨taken, dropped⟩ := @takeWhile_eq_filter _ _ _
        (fun candidate : CollisionCandidate => CompactKey.order candidate.1)
        (CompactKey.order first.1) rest restSorted below
      simp only [CompactKey.order_inj] at taken dropped
      have split : first :: run ++ rest.dropWhile (fun candidate =>
          candidate.1 = first.1) = first :: rest := by
        rw [List.cons_append, List.takeWhile_append_dropWhile]
      have collides := @collides_iff first run
        (rest.dropWhile fun candidate => candidate.1 = first.1)
        (fun candidate member => by
          rw [show run = _ from taken] at member
          simpa using (List.mem_filter.mp member).2)
        (fun candidate member same => by
          rw [dropped] at member
          have other := (List.mem_filter.mp member).2
          simp [same] at other)
        (by rwa [split]) index
      rw [split] at collides
      have later := induction
        (restSorted.sublist (List.dropWhile_sublist _))
        (distinct.sublist (((List.dropWhile_sublist _).cons first).map _))
      have isMarked : marked[index]? = escalate[index]?.map fun mark =>
          mark || decide (run ≠ [] ∧ index ∈ (first :: run).map (·.2)) := by
        by_cases alone : run = []
        · simp [marked, alone]
        · rw [show marked = _ from dif_neg alone, getElem?_foldl_set]
          simp only [ne_eq, alone, not_false_eq_true, true_and]
      have next : markCollisions (first :: rest) escalate =
          markCollisions (rest.dropWhile fun candidate =>
            candidate.1 = first.1) marked := by
        rw [markCollisions]
        rfl
      rw [next, later, isMarked, Option.map_map]
      congr 1
      funext mark
      rw [decide_eq_decide.mpr collides, Bool.decide_or, ← Bool.or_assoc]
      rfl

end Marks

/-! ## Checked batches -/

section Checked

variable
  {sizes : FingerprintSizes}
  {config : FingerprintConfig}
  {inputs : List FingerprintInput}

theorem ensureChunkSize_eq_ok {length : UInt64} :
    ensureChunkSize length config = .ok () ↔
      length.toNat < 2 ^ 32 ∧ length.toNat ≤ config.maxChunkBytes.toNat := by
  have limit : (0xFFFFFFFF : UInt64).toNat = 2 ^ 32 - 1 := rfl
  simp only [ensureChunkSize, bind_eq_ok, ensure_eq_ok, exists_const,
    UInt64.le_iff_toNat_le, limit]
  omega

/-- What the loop over the chunks has seen of each of them. -/
theorem checkInputs_eq_ok
    {final : UInt64 × UInt64}
    (ran : forEnum (fun _ => checkInput config) 0 inputs (0, 0) = .ok final) :
    ∀ input ∈ inputs,
      ensureChunkSize (UInt64.ofNat input.data.length) config = .ok () ∧
      input.data.length < 2 ^ 64 ∧
      input.data.length = input.chunk.length.toNat ∧
      input.data.length ≤ config.maxTotalBytes.toNat ∧
      input.data.length ≤ final.2.toNat := by
  have seen := forEnum_invariant
    (fun (done : List FingerprintInput) (state : UInt64 × UInt64) =>
      ∀ input ∈ done,
        ensureChunkSize (UInt64.ofNat input.data.length) config = .ok () ∧
        input.data.length < 2 ^ 64 ∧
        input.data.length = input.chunk.length.toNat ∧
        input.data.length ≤ config.maxTotalBytes.toNat ∧
        input.data.length ≤ state.2.toNat)
    (fun input member => by cases member) (by
      intro done input state next isSeen step other member
      simp only [checkInput, bind_eq_ok, ensure_eq_ok, tryU64_eq_ok,
        addU64_eq_ok, exists_const, Except.ok.injEq] at step
      obtain ⟨actual, isActual, sameLength, _, isSized, total, isTotal,
        within, rfl⟩ := step
      rw [UInt64.le_iff_toNat_le] at within
      dsimp only
      rw [toNat_larger]
      rcases List.mem_append.mp member with old | new
      · obtain ⟨good, fits, same, inTotal, below⟩ := isSeen other old
        exact ⟨good, fits, same, inTotal, by omega⟩
      · rw [List.mem_singleton.mp new, ← isActual, UInt64.ofNat_toNat]
        refine ⟨isSized, actual.toNat_lt, ?_, by omega, by omega⟩
        rw [sameLength, UInt32.toNat_toUInt64]) ran
  exact seen

/-- In a checked batch, each chunk keeps the limits of a request of its own. -/
theorem checkBatch_eq_ok
    (checked : checkBatch sizes inputs config = .ok ()) :
    config.validate = .ok () ∧ ∀ input ∈ inputs,
      ensureSingleRequestLimits sizes (UInt64.ofNat input.data.length)
        config = .ok () ∧
      ensureChunkSize (UInt64.ofNat input.data.length) config = .ok () ∧
      input.data.length < 2 ^ 64 ∧
      input.data.length = input.chunk.length.toNat := by
  simp only [checkBatch, bind_eq_ok, ensure_eq_ok, tryU64_eq_ok,
    exists_const] at checked
  obtain ⟨_, valid, count, isCount, _, ⟨total, largest⟩, ran, allowed⟩ :=
    checked
  obtain ⟨someRegion, _, someWorker, _⟩ :=
    FingerprintConfig.validate_eq_ok valid
  refine ⟨valid, fun input member => ?_⟩
  obtain ⟨sized, fits, sameLength, inTotal, belowLargest⟩ :=
    checkInputs_eq_ok ran input member
  refine ⟨?_, sized, fits, sameLength⟩
  have value := toNat_ofNat_of_lt fits
  have some : 1 ≤ count.toNat := by
    rw [isCount]
    exact List.length_pos_iff.mpr (List.ne_nil_of_mem member)
  rw [ensureBatchMemoryLimits_eq_ok someRegion someWorker] at allowed
  simp only [ensureSingleRequestLimits, bind_eq_ok, ensure_eq_ok,
    exists_const, ensureBatchMemoryLimits_eq_ok someRegion someWorker]
  refine ⟨(), sized, by rwa [UInt64.le_iff_toNat_le, value], Or.inr ?_⟩
  rcases allowed with rfl | ⟨metadata, working⟩
  · exact absurd some (by decide)
  · have one : (1 : UInt64).toNat = 1 := rfl
    have metadataMore := Nat.mul_le_mul_right sizes.chunkFingerprint.toNat some
    have workingMore := @FingerprintConfig.workingBytes_mono sizes config _ _
      _ _ some belowLargest
    rw [one, value]
    omega

end Checked

/-! ## The fingerprint of one chunk -/

section One

variable
  {hashes : FingerprintHashes}
  {sizes : FingerprintSizes}
  {config : FingerprintConfig}
  {data : List UInt8}

@[simp] theorem flatten_blocks (data : List UInt8) :
    (blocks data).flatten = data := by
  fun_induction blocks data with
  | case1 => rfl
  | case2 data some induction =>
      rw [List.flatten_cons, induction, List.take_append_drop]

/-- The accumulator takes in pieces as that of the superfeatures does. -/
theorem FingerprintAccumulator.updates_eq
    {accumulator : FingerprintAccumulator}
    {last : SuperfeatureAccumulator}
    {pieces : List (List UInt8)}
    (ran : pieces.foldlM (·.update ·) accumulator.superfeatures = .ok last)
    (fits : accumulator.bytesSeen.toNat + pieces.flatten.length < 2 ^ 64) :
    pieces.foldlM
        (fun accumulator block => accumulator.update hashes block)
        accumulator =
      .ok {
        hashed := accumulator.hashed ++ pieces.flatten
        crc32c := pieces.foldl hashes.crc32cAppend accumulator.crc32c
        superfeatures := last
        bytesSeen := UInt64.ofNat
          (accumulator.bytesSeen.toNat + pieces.flatten.length) } := by
  induction pieces generalizing accumulator with
  | nil =>
      cases ran
      rw [List.flatten_nil, List.append_nil, List.length_nil, Nat.add_zero,
        UInt64.ofNat_toNat]
      rfl
  | cons piece pieces induction =>
      rw [List.foldlM_cons, bind_eq_ok] at ran
      obtain ⟨superfeatures, isNext, ran⟩ := ran
      rw [List.flatten_cons, List.length_append] at fits
      have pieceValue := @toNat_ofNat_of_lt piece.length (by omega)
      have sumValue := @toNat_ofNat_of_lt
        (accumulator.bytesSeen.toNat + piece.length) (by omega)
      have added : addU64 accumulator.bytesSeen (UInt64.ofNat piece.length) =
          .ok (UInt64.ofNat (accumulator.bytesSeen.toNat + piece.length)) :=
        addU64_eq_ok.mpr (by rw [pieceValue, sumValue])
      have updated : accumulator.update hashes piece = .ok {
          hashed := accumulator.hashed ++ piece
          crc32c := hashes.crc32cAppend accumulator.crc32c piece
          superfeatures := superfeatures
          bytesSeen := UInt64.ofNat
            (accumulator.bytesSeen.toNat + piece.length) } := by
        rw [FingerprintAccumulator.update, isNext, ok_bind,
          tryU64_eq_ok.mpr pieceValue, ok_bind, added, ok_bind]
      have rest := @induction { accumulator with
        hashed := accumulator.hashed ++ piece
        crc32c := hashes.crc32cAppend accumulator.crc32c piece
        superfeatures := superfeatures
        bytesSeen := UInt64.ofNat
          (accumulator.bytesSeen.toNat + piece.length) } ran
        (by dsimp only; omega)
      dsimp only at rest
      rw [sumValue, List.append_assoc, Nat.add_assoc] at rest
      rw [List.foldlM_cons, updated, ok_bind, rest, List.flatten_cons,
        List.length_append, List.foldl_cons]

/-- The fingerprint of a chunk that is small enough. -/
theorem fingerprintBytes_eq
    (chunkId : UInt64)
    (valid : config.validate = .ok ())
    (fits : data.length < 2 ^ 64)
    (sized : ensureChunkSize (UInt64.ofNat data.length) config = .ok ()) :
    ∃ superfeatures,
      fingerprintBytes hashes chunkId data config = .ok {
        chunkId := chunkId
        length := UInt32.ofNat data.length
        xxh3 := hashes.xxh3 data
        blake3_128 := (hashes.blake3 data).val.take 16
        fullBlake3 :=
          if config.fullHashPolicy = .paranoid then some (hashes.blake3 data)
          else none
        crc32c := (blocks data).foldl hashes.crc32cAppend 0
        superfeatures := superfeatures } := by
  have value := toNat_ofNat_of_lt fits
  obtain ⟨_, _, _, fewRegions, smallChunk⟩ :=
    FingerprintConfig.validate_eq_ok valid
  have within := ensureChunkSize_eq_ok.mp sized
  rw [value] at within
  obtain ⟨new, last, maxima, isNew, isLast, isTotal, _, finished⟩ :=
    @exists_superfeatures hashes config data valid
      ((Nat.mul_le_mul (within.2.trans smallChunk) fewRegions).trans_lt
        (by decide)) (blocks data) (flatten_blocks data)
  have updated := @FingerprintAccumulator.updates_eq hashes
    ⟨[], 0, new, 0⟩ last (blocks data) isLast
      (by rw [flatten_blocks]; simpa using fits)
  have zero : (0 : UInt64).toNat = 0 := rfl
  rw [flatten_blocks, List.nil_append, zero, Nat.zero_add] at updated
  have isLength : tryU32 data.length = .ok (UInt32.ofNat data.length) :=
    tryU32_eq_ok.mpr (by
      rw [UInt32.toNat_ofNat', Nat.mod_eq_of_lt within.1])
  refine ⟨if data = [] then [] else
    groupHashes hashes config.superfeatureCount.toNat maxima, ?_⟩
  rw [fingerprintBytes, tryU64_eq_ok.mpr value, ok_bind, sized, ok_bind,
    FingerprintAccumulator.new, isNew, ok_bind, ok_bind, updated, ok_bind,
    FingerprintAccumulator.finish, ensure_of isTotal.symm, ok_bind]
  dsimp only
  rw [value, isLength, ok_bind, finished, ok_bind]

/-- The whole BLAKE3 value can be kept of a fingerprint of the same bytes. -/
theorem ChunkFingerprint.escalateFullBlake3_eq
    {fingerprint : ChunkFingerprint}
    (valid : config.validate = .ok ())
    (fits : data.length < 2 ^ 64)
    (allowed : ensureSingleRequestLimits sizes (UInt64.ofNat data.length)
      config = .ok ())
    (same : fingerprint.length.toNat = data.length ∧
      fingerprint.xxh3 = hashes.xxh3 data ∧
      fingerprint.blake3_128 = (hashes.blake3 data).val.take 16 ∧
      fingerprint.crc32c = (blocks data).foldl hashes.crc32cAppend 0) :
    fingerprint.escalateFullBlake3 hashes sizes data config =
      .ok { fingerprint with fullBlake3 := some (hashes.blake3 data) } := by
  obtain ⟨sameLength, sameXxh3, sameBlake3, sameCrc32c⟩ := same
  rw [escalateFullBlake3, valid, ok_bind, tryU32_eq_ok.mpr sameLength,
    ok_bind, ensure_of rfl, ok_bind,
    tryU64_eq_ok.mpr (toNat_ofNat_of_lt fits), ok_bind, allowed, ok_bind]
  dsimp only
  rw [ensure_of ⟨sameBlake3.symm, sameXxh3.symm, sameCrc32c.symm⟩, ok_bind]

end One

/-! ## The whole batch -/

section Whole

variable
  {hashes : FingerprintHashes}
  {sizes : FingerprintSizes}
  {config : FingerprintConfig}
  {inputs : List FingerprintInput}
  {fingerprints : List ChunkFingerprint}

/-- The fingerprint at an index has the compact key of another one. -/
def SharesKey (fingerprints : List ChunkFingerprint) (index : Nat) : Prop :=
  ∃ fingerprint, fingerprints[index]? = some fingerprint ∧
    ∃ position other, fingerprints[position]? = some other ∧
      position ≠ index ∧ other.compactKey = fingerprint.compactKey

/-- The candidates of the fingerprints collide where a key is shared. -/
theorem collides_candidates_iff (index : Nat) :
    Collides (sortByKey CollisionCandidate.order
        (fingerprints.mapIdx fun index fingerprint =>
          (fingerprint.compactKey, index))) index ↔
      SharesKey fingerprints index := by
  have isCandidate (candidate : CollisionCandidate) :
      candidate ∈ sortByKey CollisionCandidate.order
          (fingerprints.mapIdx fun index fingerprint =>
            (fingerprint.compactKey, index)) ↔
        ∃ fingerprint, fingerprints[candidate.2]? = some fingerprint ∧
          fingerprint.compactKey = candidate.1 := by
    rw [mem_sortByKey, List.mem_iff_getElem?]
    simp only [List.getElem?_mapIdx, Option.map_eq_some_iff]
    constructor
    · rintro ⟨index, fingerprint, found, rfl⟩
      exact ⟨fingerprint, found, rfl⟩
    · rintro ⟨fingerprint, found, same⟩
      exact ⟨candidate.2, fingerprint, found, Prod.ext same rfl⟩
  constructor
  · rintro ⟨candidate, member, rfl, other, otherMember, different, same⟩
    obtain ⟨fingerprint, found, isKey⟩ := (isCandidate candidate).mp member
    obtain ⟨second, foundSecond, isSecond⟩ :=
      (isCandidate other).mp otherMember
    exact ⟨fingerprint, found, other.2, second, foundSecond, different,
      isSecond.trans (same.trans isKey.symm)⟩
  · rintro ⟨fingerprint, found, position, other, foundOther, different, same⟩
    exact ⟨(fingerprint.compactKey, index),
      (isCandidate _).mpr ⟨fingerprint, found, rfl⟩, rfl,
      (other.compactKey, position),
      (isCandidate _).mpr ⟨other, foundOther, rfl⟩, different, same⟩

instance (fingerprints : List ChunkFingerprint) (index : Nat) :
    Decidable (SharesKey fingerprints index) :=
  decidable_of_iff _ (collides_candidates_iff index)

/-- The marks of the fingerprints. -/
theorem markCollisions_eq :
    markCollisions (sortByKey CollisionCandidate.order
        (fingerprints.mapIdx fun index fingerprint =>
          (fingerprint.compactKey, index)))
        (List.replicate fingerprints.length false) =
      (List.range fingerprints.length).map fun index =>
        decide (SharesKey fingerprints index) := by
  have sorted := (sortByKey_pairwise CollisionCandidate.order
    (fingerprints.mapIdx fun index fingerprint =>
      (fingerprint.compactKey, index))).imp
    fun before => Prod.Lex.monotone_fst _ _ before
  have distinct : ((sortByKey CollisionCandidate.order
      (fingerprints.mapIdx fun index fingerprint =>
        (fingerprint.compactKey, index))).map (·.2)).Nodup := by
    have indices : (fingerprints.mapIdx fun index fingerprint =>
        (fingerprint.compactKey, index)).map (·.2) =
          List.range fingerprints.length := by
      refine List.ext_getElem (by simp) fun index _ _ => ?_
      simp
    rw [((sortByKey_perm _ _).map _).nodup_iff, indices]
    exact List.nodup_range
  refine List.ext_getElem? fun index => ?_
  rw [getElem?_markCollisions sorted distinct, List.getElem?_map,
    List.getElem?_replicate]
  by_cases inside : index < fingerprints.length
  · rw [if_pos inside, List.getElem?_range inside, Option.map_some,
      Option.map_some, Bool.false_or,
      decide_eq_decide.mpr (collides_candidates_iff index)]
  · rw [if_neg inside, List.getElem?_eq_none (by
      rw [List.length_range]
      omega)]
    rfl

/-- The fingerprints after the collisions are resolved. -/
theorem escalateCompactCollisions_eq
    {ordered : List FingerprintInput}
    (sameLength : fingerprints.length = ordered.length)
    (escalates : ∀ (index : Nat) fingerprint input,
      fingerprints[index]? = some fingerprint →
      ordered[index]? = some input →
      fingerprint.escalateFullBlake3 hashes sizes input.data config =
        .ok { fingerprint with
          fullBlake3 := some (hashes.blake3 input.data) }) :
    ∃ resolved,
      escalateCompactCollisions hashes sizes fingerprints ordered config =
        .ok resolved ∧
      resolved.length = fingerprints.length ∧
      ∀ (index : Nat) fingerprint input,
        fingerprints[index]? = some fingerprint →
        ordered[index]? = some input →
        resolved[index]? = some (if SharesKey fingerprints index then
          { fingerprint with fullBlake3 := some (hashes.blake3 input.data) }
          else fingerprint) := by
  simp only [escalateCompactCollisions, markCollisions_eq]
  refine ⟨_, @mapM_eq_ok_map _ _ _ _
    (fun item => if item.2 = true then
      { item.1.1 with fullBlake3 := some (hashes.blake3 item.1.2.data) }
      else item.1.1) _ (fun item member => ?_), ?_, ?_⟩
  · obtain ⟨⟨fingerprint, input⟩, mark⟩ := item
    obtain ⟨index, found⟩ := List.mem_iff_getElem?.mp member
    obtain ⟨foundPair, _⟩ := List.getElem?_zip_eq_some.mp found
    obtain ⟨isFingerprint, isInput⟩ := List.getElem?_zip_eq_some.mp foundPair
    dsimp only
    split
    · exact escalates index fingerprint input isFingerprint isInput
    · rfl
  · rw [List.length_map, List.length_zip, List.length_zip, List.length_map,
      List.length_range]
    omega
  · intro index fingerprint input isFingerprint isInput
    have inside := (List.getElem?_eq_some_iff.mp isFingerprint).1
    have found : ((fingerprints.zip ordered).zip
        ((List.range fingerprints.length).map fun index =>
          decide (SharesKey fingerprints index)))[index]? =
        some ((fingerprint, input), decide (SharesKey fingerprints index)) := by
      refine List.getElem?_zip_eq_some.mpr
        ⟨List.getElem?_zip_eq_some.mpr ⟨isFingerprint, isInput⟩, ?_⟩
      rw [List.getElem?_map, List.getElem?_range inside]
      rfl
    rw [List.getElem?_map, found]
    simp only [Option.map_some, decide_eq_true_iff]

/-- The compact key of a chunk. -/
def FingerprintInput.compactKey
    (hashes : FingerprintHashes)
    (input : FingerprintInput) : CompactKey :=
  (hashes.xxh3 input.data, UInt32.ofNat input.data.length,
    (hashes.blake3 input.data).val.take 16)

/-- Another chunk of the batch has the same compact key. -/
def Collision
    (hashes : FingerprintHashes)
    (inputs : List FingerprintInput)
    (input : FingerprintInput) : Prop :=
  ∃ other ∈ inputs, other.chunk.chunkId ≠ input.chunk.chunkId ∧
    other.compactKey hashes = input.compactKey hashes

instance
    (hashes : FingerprintHashes)
    (inputs : List FingerprintInput)
    (input : FingerprintInput) : Decidable (Collision hashes inputs input) :=
  inferInstanceAs (Decidable (∃ other ∈ inputs, _ ∧ _))

/-- The whole BLAKE3 value that is kept of a chunk of a batch. -/
def keptBlake3
    (hashes : FingerprintHashes)
    (inputs : List FingerprintInput)
    (config : FingerprintConfig)
    (input : FingerprintInput) : Option Digest :=
  if config.fullHashPolicy = .paranoid ∨ Collision hashes inputs input then
    some (hashes.blake3 input.data)
  else none

/-- What a fingerprint of a chunk has to be. -/
structure IsFingerprint
    (hashes : FingerprintHashes)
    (sizes : FingerprintSizes)
    (config : FingerprintConfig)
    (input : FingerprintInput)
    (fingerprint : ChunkFingerprint) : Prop where
  found : fingerprintBytes hashes input.chunk.chunkId input.data config =
    .ok fingerprint
  computed : ChunkFingerprint.computeWithConfig hashes sizes
    input.chunk.chunkId input.data config = .ok fingerprint
  chunkId : fingerprint.chunkId = input.chunk.chunkId
  compactKey : fingerprint.compactKey = input.compactKey hashes
  fullBlake3 : fingerprint.fullBlake3 =
    if config.fullHashPolicy = .paranoid then some (hashes.blake3 input.data)
    else none
  escalates : fingerprint.escalateFullBlake3 hashes sizes input.data config =
    .ok { fingerprint with fullBlake3 := some (hashes.blake3 input.data) }

/-- In a checked batch, every chunk has a fingerprint. -/
theorem exists_isFingerprint
    (checked : checkBatch sizes inputs config = .ok ())
    {input : FingerprintInput}
    (member : input ∈ inputs) :
    ∃ fingerprint, IsFingerprint hashes sizes config input fingerprint := by
  obtain ⟨valid, each⟩ := checkBatch_eq_ok checked
  obtain ⟨allowed, sized, fits, sameLength⟩ := each input member
  obtain ⟨superfeatures, found⟩ :=
    @fingerprintBytes_eq hashes config input.data input.chunk.chunkId valid
      fits sized
  have isLength : (UInt32.ofNat input.data.length).toNat =
      input.data.length := by
    rw [sameLength, UInt32.ofNat_toNat]
  refine ⟨_, found, ?_, rfl, rfl, rfl, ?_⟩
  · rw [ChunkFingerprint.computeWithConfig, valid, ok_bind,
      tryU64_eq_ok.mpr (toNat_ofNat_of_lt fits), ok_bind, allowed, ok_bind,
      found]
  · exact ChunkFingerprint.escalateFullBlake3_eq valid fits allowed
      ⟨isLength, rfl, rfl, rfl⟩

section Ordered

variable
  {ordered : List FingerprintInput}
  {base : FingerprintInput → ChunkFingerprint}

/-- A key is shared where a chunk collides. -/
theorem sharesKey_map_iff
    (distinct : (ordered.map fun input => input.chunk.chunkId).Nodup)
    (isBase : ∀ input ∈ ordered,
      (base input).compactKey = input.compactKey hashes)
    {index : Nat}
    {input : FingerprintInput}
    (found : ordered[index]? = some input) :
    SharesKey (ordered.map base) index ↔ Collision hashes ordered input := by
  have isKey := isBase input (List.mem_of_getElem? found)
  constructor
  · rintro ⟨_, isFingerprint, position, _, isOther, different, same⟩
    rw [List.getElem?_map, found, Option.map_some] at isFingerprint
    cases isFingerprint
    rw [List.getElem?_map, Option.map_eq_some_iff] at isOther
    obtain ⟨other, foundOther, rfl⟩ := isOther
    have member := List.mem_of_getElem? foundOther
    refine ⟨other, member, fun sameId => different ?_, ?_⟩
    · have inside := (List.getElem?_eq_some_iff.mp foundOther).1
      refine (List.getElem?_inj (by rwa [List.length_map]) distinct).mp ?_
      rw [List.getElem?_map, List.getElem?_map, found, foundOther,
        Option.map_some, Option.map_some, sameId]
    · rw [← isBase other member, same, isKey]
  · rintro ⟨other, member, different, same⟩
    obtain ⟨position, foundOther⟩ := List.mem_iff_getElem?.mp member
    refine ⟨base input, by rw [List.getElem?_map, found]; rfl, position,
      base other, by rw [List.getElem?_map, foundOther]; rfl, ?_, ?_⟩
    · rintro rfl
      cases found.symm.trans foundOther
      exact different rfl
    · rw [isBase other member, same, isKey]

/-- Under the standard policy, the escalation keeps what has to be kept. -/
theorem escalateCompactCollisions_map
    (standard : config.fullHashPolicy = .standard)
    (distinct : (ordered.map fun input => input.chunk.chunkId).Nodup)
    (isBase : ∀ input ∈ ordered,
      IsFingerprint hashes sizes config input (base input)) :
    escalateCompactCollisions hashes sizes (ordered.map base) ordered config =
      .ok (ordered.map fun input => { base input with
        fullBlake3 := keptBlake3 hashes ordered config input }) := by
  obtain ⟨resolved, ran, sameLength, each⟩ :=
    @escalateCompactCollisions_eq hashes sizes config (ordered.map base)
      ordered (List.length_map base) (by
        intro index fingerprint input isFingerprint isInput
        rw [List.getElem?_map, isInput, Option.map_some] at isFingerprint
        cases isFingerprint
        exact (isBase input (List.mem_of_getElem? isInput)).escalates)
  rw [ran]
  refine congrArg Except.ok (List.ext_getElem? fun index => ?_)
  rw [List.getElem?_map]
  cases found : ordered[index]? with
  | none =>
      rw [Option.map_none]
      refine List.getElem?_eq_none ?_
      rw [sameLength, List.length_map]
      exact List.getElem?_eq_none_iff.mp found
  | some input =>
      have member := List.mem_of_getElem? found
      have isNone := (isBase input member).fullBlake3
      rw [standard, if_neg (by decide)] at isNone
      rw [each index (base input) input
        (by rw [List.getElem?_map, found]; rfl) found, Option.map_some]
      have collides := sharesKey_map_iff distinct
        (fun other otherMember => (isBase other otherMember).compactKey) found
      simp only [collides, keptBlake3, standard, reduceCtorEq, false_or]
      split
      · rfl
      · rw [← isNone]

/-- Under either policy, the whole BLAKE3 value is kept where it has to be. -/
theorem resolved_eq
    (distinct : (ordered.map fun input => input.chunk.chunkId).Nodup)
    (isBase : ∀ input ∈ ordered,
      IsFingerprint hashes sizes config input (base input)) :
    (if config.fullHashPolicy = .standard then
        escalateCompactCollisions hashes sizes (ordered.map base) ordered
          config
      else .ok (ordered.map base)) =
      .ok (ordered.map fun input => { base input with
        fullBlake3 := keptBlake3 hashes ordered config input }) := by
  cases policy : config.fullHashPolicy with
  | standard =>
      rw [if_pos rfl]
      exact escalateCompactCollisions_map policy distinct isBase
  | paranoid =>
      rw [if_neg (by decide)]
      refine congrArg Except.ok (List.map_congr_left fun input member => ?_)
      have isSome := (isBase input member).fullBlake3
      rw [policy, if_pos rfl] at isSome
      rw [keptBlake3, if_pos (Or.inl policy), ← isSome]

end Ordered

/-- Which chunks collide does not depend on their order. -/
theorem keptBlake3_of_perm
    {ordered : List FingerprintInput}
    (same : ordered.Perm inputs) :
    keptBlake3 hashes ordered config = keptBlake3 hashes inputs config := by
  funext input
  have collides : Collision hashes ordered input ↔
      Collision hashes inputs input := by
    simp only [Collision, same.mem_iff]
  simp only [keptBlake3, collides]

/-- The results of the workers, when every chunk has a fingerprint. -/
theorem mapM_slots_eq
    {ordered : List FingerprintInput}
    {base : FingerprintInput → ChunkFingerprint}
    (isBase : ∀ input ∈ ordered,
      IsFingerprint hashes sizes config input (base input)) :
    (ordered.map fun input => some
        (fingerprintBytes hashes input.chunk.chunkId input.data config)).mapM
        (fun slot => do
          let result ← okOr slot
            (PithosError.invalidMetadata "missing fingerprint worker result")
          result) =
      .ok (ordered.map base) := by
  rw [List.mapM_map]
  refine mapM_eq_ok_map fun input member => ?_
  exact (isBase input member).found

/-- A batch of chunks with distinct ids that passes the checks has one
fingerprint for each chunk, in the order of the ids, however the workers take
turns.  It is that of the chunk alone but for the whole BLAKE3 value. -/
theorem fingerprintChunks_eq
    (hashes : FingerprintHashes)
    (sizes : FingerprintSizes)
    (config : FingerprintConfig)
    (inputs : List FingerprintInput)
    (schedule : List Nat)
    (distinct : (inputs.map fun input => input.chunk.chunkId).Nodup)
    (checked : checkBatch sizes inputs config = .ok ())
    (all : ∀ index < inputs.length, index ∈ schedule) :
    ∃ fingerprints,
      fingerprintChunks hashes sizes schedule inputs config =
        .ok fingerprints ∧
      fingerprints.length = inputs.length ∧
      fingerprints.Pairwise (fun left right => left.chunkId < right.chunkId) ∧
      ∀ input ∈ inputs, ∃ fingerprint,
        ChunkFingerprint.computeWithConfig hashes sizes input.chunk.chunkId
          input.data config = .ok fingerprint ∧
        { fingerprint with
          fullBlake3 := keptBlake3 hashes inputs config input } ∈
            fingerprints := by
  by_cases isEmpty : inputs = []
  · subst isEmpty
    refine ⟨[], ?_, rfl, List.Pairwise.nil, by simp⟩
    rw [fingerprintChunks, checked, ok_bind, if_pos rfl]
  · let key := fun (input : FingerprintInput) => input.chunk.chunkId.toNat
    have ids : inputs.map key =
        (inputs.map fun input => input.chunk.chunkId).map (·.toNat) := by
      rw [List.map_map]
      rfl
    have keysDistinct : (inputs.map key).Nodup :=
      ids ▸ distinct.map fun _ _ same => UInt64.toNat_inj.mp same
    let ordered := sortByKey key inputs
    have isInput (input : FingerprintInput) :
        input ∈ ordered ↔ input ∈ inputs := mem_sortByKey
    have : Nonempty ChunkFingerprint := ⟨⟨0, 0, 0, [], none, 0, []⟩⟩
    choose! base isBase using fun input (member : input ∈ inputs) =>
      @exists_isFingerprint hashes _ _ _ checked input member
    let full := fun (input : FingerprintInput) => { base input with
      fullBlake3 := keptBlake3 hashes inputs config input }
    have ran : fingerprintChunks hashes sizes schedule inputs config =
        .ok (ordered.map full) := by
      have orderedPerm : ordered.Perm inputs := sortByKey_perm key inputs
      have orderedBase (input : FingerprintInput) (member : input ∈ ordered) :=
        isBase input ((isInput input).mp member)
      have slots := @fillSlots_eq_map _ schedule _ ordered
        (fun input => fingerprintBytes hashes input.chunk.chunkId input.data
          config) (by rwa [length_sortByKey])
      have resolved := @resolved_eq hashes sizes config ordered base
        ((orderedPerm.map _).nodup_iff.mpr distinct) orderedBase
      rw [keptBlake3_of_perm orderedPerm] at resolved
      rw [fingerprintChunks, checked, ok_bind, if_neg isEmpty]
      dsimp only
      rw [ensure_of (isChain_sortByKey_iff.mpr keysDistinct), ok_bind, slots,
        mapM_slots_eq orderedBase, ok_bind, resolved]
    refine ⟨ordered.map full, ran, ?_, ?_, ?_⟩
    · rw [List.length_map, length_sortByKey]
    · have increasing := sortByKey_pairwise_lt keysDistinct
      rw [List.pairwise_map]
      refine increasing.imp_of_mem fun {left right} first second before => ?_
      rw [isInput] at first second
      rw [UInt64.lt_iff_toNat_lt]
      dsimp only [full]
      rw [(isBase left first).chunkId, (isBase right second).chunkId]
      exact before
    · intro input member
      exact ⟨base input, (isBase input member).computed,
        List.mem_map_of_mem ((isInput input).mpr member)⟩

/-- Three chunks, two of which hold the same bytes, whichever worker is the
first. -/
theorem fingerprintChunks_eq_three :
    let hashes : FingerprintHashes := ⟨⟨Crc32c.checksum, Crc32c.append,
      fun bytes => Bytes.takeFixed 32 (Blake3.hash bytes)⟩,
      fun bytes => (Crc32c.checksum bytes).toUInt64⟩
    let sizes : FingerprintSizes := ⟨136, 8, 144, 48, 1, 80, 8, 2400⟩
    let inputs : List FingerprintInput := [
      ⟨⟨9, 1, 1, 0, 2, .microFile⟩, [97, 98]⟩,
      ⟨⟨4, 2, 2, 0, 1, .microFile⟩, [99]⟩,
      ⟨⟨7, 3, 3, 0, 2, .microFile⟩, [97, 98]⟩]
    ∃ fingerprints,
      fingerprintChunks hashes sizes [2, 0, 1] inputs .default =
        .ok fingerprints ∧
      fingerprints.length = 3 ∧
      fingerprints.Pairwise fun left right =>
        left.chunkId < right.chunkId := by
  intro hashes sizes inputs
  have allowed : ensureBatchMemoryLimits sizes 3 2 .default = .ok () := by
    rw [ensureBatchMemoryLimits_eq_ok (by decide) (by decide)]
    exact Or.inr (by decide)
  have checked : checkBatch sizes inputs .default = .ok () := by
    have valid : FingerprintConfig.default.validate = .ok () := by decide
    have counted : tryU64 inputs.length = .ok 3 := rfl
    have seen : forEnum (fun _ => checkInput .default) 0 inputs (0, 0) =
        .ok (5, 2) := by rfl
    rw [checkBatch, valid, ok_bind, counted, ok_bind, ensure_of (by decide),
      ok_bind, seen, ok_bind]
    exact allowed
  obtain ⟨fingerprints, ran, sameLength, increasing, _⟩ :=
    fingerprintChunks_eq hashes sizes .default inputs [2, 0, 1] (by decide)
      checked (by decide)
  exact ⟨fingerprints, ran, sameLength, increasing⟩

end Whole

end Pithos
