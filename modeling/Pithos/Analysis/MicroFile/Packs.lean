import Pithos.Library.Runs
import Pithos.Analysis.MicroFile.Order
import Pithos.Analysis.MicroFile.Validity

/-!
# How packs are built

The columns that are built from a run of files hold each of its files, and the
loops over the eligible files follow packing in order: one builds a pack for
each of its runs, the other counts them.
-/

namespace Pithos

open Fallible
open Machine
open MergeSort
open FrontCoding
open Layout
open Runs

/-- The size of a file, as a weight. -/
def MicroFileInput.weight (input : MicroFileInput) : Nat :=
  input.size.toNat

/-! ## The columns of one pack -/

/-- A record that holds what is known of a file. -/
structure MicroFileMetadataRecord.Describes
    (dictionary : List UInt32)
    (record : MicroFileMetadataRecord)
    (input : MicroFileInput) : Prop where
  entryId : record.entryId = input.entryId
  mode : dictionary[record.modeIndex.toNat]? = some input.mode
  length : record.length.toNat = input.size.toNat
  fileHash : record.fileHash = input.fileHash

/-- Columns that hold a run of files. -/
structure PackColumns.Hold
    (base : Int64)
    (dictionary : List UInt32)
    (columns : PackColumns)
    (run : List MicroFileInput) : Prop where
  members : columns.members = columns.records.map (·.member)
  records : List.Forall₂ (·.Describes dictionary ·) columns.records run
  spans : columns.records.map (·.span) = layOut 0 (run.map (·.weight))
  times : columns.modifiedNsDeltas.map (fun delta =>
    base.toInt + delta.toNat) = run.map (·.modifiedNs.toInt)
  paths : columns.paths.map (·.coded) = encode [] (run.map (·.path))
  offset : columns.contentOffset.toNat = total (·.weight) run
  previous : columns.previousPath = ((run.map (·.path)).getLast?).getD []

section Columns

variable
  {base : Int64}
  {dictionary : List UInt32}

theorem PackColumns.hold_empty :
    PackColumns.empty.Hold base dictionary [] :=
  ⟨rfl, .nil, rfl, rfl, rfl, rfl, rfl⟩

/-- One more file is appended to every column. -/
theorem PackColumns.Hold.push
    {columns next : PackColumns}
    {done : List MicroFileInput}
    {input : MicroFileInput}
    (hold : columns.Hold base dictionary done)
    (pushed : PackColumns.push base dictionary input columns = .ok next) :
    next.Hold base dictionary (done ++ [input]) := by
  simp only [PackColumns.push, bind_eq_ok, tryU32_eq_ok, ensure_eq_ok,
    exists_const, okOr_eq_ok, addU64_eq_ok, Except.ok.injEq] at pushed
  obtain ⟨length, isLength, shared, isShared, ⟨notBefore, notAfter⟩, index,
    found, modeIndex, isIndex, stop, isStop, rfl⟩ := pushed
  obtain ⟨bound, isMode, _⟩ := List.idxOf?_eq_some_iff.mp found
  refine ⟨?_, ?_, ?_, ?_, ?_, ?_, ?_⟩
  · simp only [List.map_append, ← hold.members]
    rfl
  · refine List.rel_append hold.records (.cons ⟨rfl, ?_, isLength, rfl⟩ .nil)
    rw [isIndex, List.getElem?_eq_getElem bound, isMode]
  · rw [List.map_append, hold.spans, List.map_append, layOut_append,
      Nat.zero_add]
    simp only [List.map_cons, List.map_nil, layOut_cons, layOut_nil,
      MicroFileMetadataRecord.span, hold.offset, isLength]
    rfl
  · have delta := @toNat_ofNat_of_lt
      (input.modifiedNs.toInt - base.toInt).toNat (by omega)
    simp only [List.map_append, hold.times, List.map_cons, List.map_nil, delta]
    rw [Int.toNat_of_nonneg notBefore]
    congr 2
    omega
  · rw [List.map_append, hold.paths, List.map_append, List.map_singleton,
      List.map_singleton, encode_concat, ← hold.previous, ← isShared]
    rfl
  · rw [total_append, total_singleton, ← hold.offset]
    exact isStop.symm
  · simp

/-- The columns of a run hold its files. -/
theorem PackColumns.hold_of_ok
    {run : List MicroFileInput}
    {columns : PackColumns}
    (built : forEnum (fun _ => PackColumns.push base dictionary) 0 run .empty =
      .ok columns) :
    columns.Hold base dictionary run :=
  forEnum_invariant (fun done columns => columns.Hold base dictionary done)
    hold_empty (fun _ _ _ _ hold pushed => hold.push pushed) built

end Columns

/-- A pack that holds a run of files. -/
structure MicroFilePack.Holds
    (pack : MicroFilePack)
    (run : List MicroFileInput) : Prop where
  members : pack.members = pack.metadata.records.map (·.member)
  records : List.Forall₂ (·.Describes pack.metadata.modeDictionary ·)
    pack.metadata.records run
  spans : pack.metadata.records.map (·.span) =
    layOut 0 (run.map (·.weight))
  times : pack.metadata.modifiedNsDeltas.map (fun delta =>
    pack.metadata.baseModifiedNs.toInt + delta.toNat) =
      run.map (·.modifiedNs.toInt)
  paths : pack.metadata.paths.map (·.coded) = encode [] (run.map (·.path))
  length : pack.uncompressedLen.toNat = total (·.weight) run

/-- A pack that is built from a run holds its files. -/
theorem MicroFilePack.holds_of_buildPack
    {packId : UInt64}
    {run : List MicroFileInput}
    {pack : MicroFilePack}
    (built : buildPack packId run = .ok pack) :
    pack.Holds run := by
  cases run with
  | nil => cases built
  | cons first rest =>
      simp only [buildPack, bind_eq_ok, Except.ok.injEq] at built
      obtain ⟨columns, ran, rfl⟩ := built
      have hold := PackColumns.hold_of_ok ran
      exact ⟨hold.members, hold.records, hold.spans, hold.times, hold.paths,
        hold.offset⟩

/-! ## The loop that builds the packs -/

/-- Each pack is built from a run. -/
def BuiltFrom (packs : List MicroFilePack) (runs : List (List MicroFileInput)) :
    Prop :=
  List.Forall₂ (fun pack run => buildPack pack.packId run = .ok pack) packs runs

theorem packId_of_buildPack
    {packId : UInt64}
    {run : List MicroFileInput}
    {pack : MicroFilePack}
    (built : buildPack packId run = .ok pack) :
    pack.packId = packId := by
  cases run with
  | nil => cases built
  | cons first rest =>
      simp only [buildPack, bind_eq_ok, Except.ok.injEq] at built
      obtain ⟨_, _, rfl⟩ := built
      rfl

/-- One more pack is built. -/
theorem BuiltFrom.pushPack
    {packs next : List MicroFilePack}
    {runs : List (List MicroFileInput)}
    {run : List MicroFileInput}
    {expectedLen : UInt64}
    {config : ChunkingConfig}
    (builtFrom : BuiltFrom packs runs)
    (pushed : pushPack packs run expectedLen config = .ok next) :
    BuiltFrom next (runs ++ [run]) := by
  simp only [Pithos.pushPack, bind_eq_ok, tryU64_eq_ok, addU64_eq_ok,
    ensureChunkCount, ensure_eq_ok, exists_const, Except.ok.injEq] at pushed
  obtain ⟨packId, _, _, _, _, pack, built, _, rfl⟩ := pushed
  have isId := packId_of_buildPack built
  exact List.rel_append builtFrom (.cons (isId ▸ built) .nil)

/-- What the loop has done after some of the files. -/
structure Packing.Reached
    (target : Nat)
    (state : Packing)
    (done : List MicroFileInput) : Prop where
  packs : BuiltFrom state.packs
    (packAll MicroFileInput.weight target done).1
  start : state.packStart =
    (packAll MicroFileInput.weight target done).1.flatten.length
  length : state.packLen.toNat =
    total MicroFileInput.weight (packAll MicroFileInput.weight target done).2

section Loop

variable
  {config : ChunkingConfig}
  {eligible done : List MicroFileInput}
  {state next : Packing}
  {candidate : MicroFileInput}

/-- Where the current run stands. -/
theorem Packing.Reached.current
    {target : Nat}
    (reached : state.Reached target done) :
    done.drop state.packStart =
        (packAll MicroFileInput.weight target done).2 ∧
      (state.packStart < done.length ↔
        (packAll MicroFileInput.weight target done).2 ≠ []) := by
  have whole := @flatten_packAll _ _ _ _ MicroFileInput.weight target done
  have lengths := congrArg List.length whole
  rw [List.length_append, ← reached.start] at lengths
  constructor
  · conv_lhs => rw [← whole]
    rw [reached.start, List.drop_left]
  · rw [ne_eq, ← List.length_eq_zero_iff]
    omega

/-- One step of the loop packs one more file. -/
theorem Packing.Reached.step
    (reached : state.Reached config.microPackTarget.toNat done)
    (inside : done ++ [candidate] <+: eligible)
    (stepped : Packing.next eligible config done.length candidate state =
      .ok next) :
    next.Reached config.microPackTarget.toNat (done ++ [candidate]) := by
  obtain ⟨current, begun⟩ := reached.current
  obtain ⟨rest, rfl⟩ := inside
  have taken : ((done ++ [candidate]) ++ rest).take done.length = done := by
    rw [List.append_assoc, List.take_left]
  simp only [Packing.next, bind_eq_ok, addU64_eq_ok, taken, current, begun,
    UInt64.lt_iff_toNat_lt, UInt32.toNat_toUInt64] at stepped
  obtain ⟨nextLen, isNext, stepped⟩ := stepped
  rw [reached.length] at isNext
  have size : candidate.weight = candidate.size.toNat := rfl
  rw [← size] at isNext
  rw [← isNext] at stepped
  split at stepped
  · rename_i heavy
    obtain ⟨packs, pushed, same⟩ := bind_eq_ok.mp stepped
    cases same
    have packed : packAll MicroFileInput.weight config.microPackTarget.toNat
        (done ++ [candidate]) = _ := (packAll_concat _ _).trans (if_pos heavy)
    refine ⟨?_, ?_, ?_⟩
    · rw [packed]
      exact reached.packs.pushPack pushed
    · have whole := congrArg List.length (@flatten_packAll _ _ _ _
        MicroFileInput.weight config.microPackTarget.toNat done)
      rw [packed, List.flatten_concat, whole]
    · rw [packed, total_singleton, size]
  · rename_i light
    cases stepped
    have packed : packAll MicroFileInput.weight config.microPackTarget.toNat
        (done ++ [candidate]) = _ := (packAll_concat _ _).trans (if_neg light)
    refine ⟨?_, ?_, ?_⟩
    · rw [packed]
      exact reached.packs
    · rw [packed]
      exact reached.start
    · rw [packed, total_append, total_singleton]
      exact isNext.symm

/-- Before the first file. -/
theorem Packing.reached_nil (target : Nat) :
    Packing.Reached target ⟨[], 0, 0⟩ [] :=
  ⟨.nil, rfl, rfl⟩

/-- What the loop has done after the first files. -/
theorem Packing.reached_of_ok
    (inside : done <+: eligible)
    (ran : forEnum (Packing.next eligible config) 0 done ⟨[], 0, 0⟩ =
      .ok state) :
    state.Reached config.microPackTarget.toNat done := by
  refine forEnum_invariant
    (fun done state => done <+: eligible →
      Packing.Reached config.microPackTarget.toNat state done)
    (fun _ => Packing.reached_nil _) ?_ ran inside
  intro done candidate state next reached stepped inside
  exact (reached ((List.prefix_append _ _).trans inside)).step inside stepped

/-- The packs are built from the runs of packing in order. -/
theorem builtFrom_of_packEligible
    {packs : List MicroFilePack}
    (packed : packEligible eligible config = .ok packs) :
    BuiltFrom packs
      (pack MicroFileInput.weight config.microPackTarget.toNat eligible) := by
  rw [packEligible, bind_eq_ok] at packed
  obtain ⟨state, ran, packed⟩ := packed
  have reached := Packing.reached_of_ok List.prefix_rfl ran
  obtain ⟨current, begun⟩ := reached.current
  rw [current] at packed
  simp only [begun] at packed
  rw [pack]
  split at packed
  · rename_i nonempty
    rw [if_neg nonempty]
    exact reached.packs.pushPack packed
  · rename_i empty
    cases packed
    rw [if_pos (not_not.mp empty), List.append_nil]
    exact reached.packs

/-! ## The check of a pack's length -/

/-- Building a pack fails with other errors than the check of its length. -/
theorem buildPack_ne_length
    {packId : UInt64}
    {run : List MicroFileInput} :
    buildPack packId run ≠
      .error (.invalidMetadata "microfile pack length") := by
  intro failed
  cases run with
  | nil =>
      rw [buildPack] at failed
      simp at failed
  | cons first rest =>
      rw [buildPack] at failed
      rcases bind_eq_error.mp failed with failed | ⟨_, _, failed⟩
      · obtain ⟨_, input, _, columns, _, _, failed⟩ :=
          forEnum_eq_error.mp failed
        simp [PackColumns.push, bind_eq_error, tryU32, addU64,
          ensure_eq_error, okOr_eq_error] at failed
      · cases failed

/-- The length that the loop has counted is the length of the pack. -/
theorem pushPack_ne_length
    {packs : List MicroFilePack}
    {run : List MicroFileInput}
    {expectedLen : UInt64}
    (counted : expectedLen.toNat = total MicroFileInput.weight run) :
    pushPack packs run expectedLen config ≠
      .error (.invalidMetadata "microfile pack length") := by
  intro failed
  rw [pushPack] at failed
  rcases bind_eq_error.mp failed with failed | ⟨_, _, failed⟩
  · simp [tryU64, bind_eq_error, ensure_eq_error] at failed
  rcases bind_eq_error.mp failed with failed | ⟨_, _, failed⟩
  · simp [addU64, okOr_eq_error] at failed
  rcases bind_eq_error.mp failed with failed | ⟨_, _, failed⟩
  · simp [ensureChunkCount, ensure_eq_error] at failed
  rcases bind_eq_error.mp failed with failed | ⟨built, isBuilt, failed⟩
  · exact buildPack_ne_length failed
  have same : built.uncompressedLen = expectedLen := by
    rw [← UInt64.toNat_inj, counted]
    exact (MicroFilePack.holds_of_buildPack isBuilt).length
  rw [ensure_of same, ok_bind] at failed
  cases failed

/-- The check of a pack's length never fails. -/
theorem packEligible_ne_length :
    packEligible eligible config ≠
      .error (.invalidMetadata "microfile pack length") := by
  intro failed
  rw [packEligible] at failed
  rcases bind_eq_error.mp failed with failed | ⟨state, ran, failed⟩
  · obtain ⟨before, candidate, after, state, rfl, ran, failed⟩ :=
      forEnum_eq_error.mp failed
    have reached := Packing.reached_of_ok (List.prefix_append _ _) ran
    obtain ⟨current, begun⟩ := reached.current
    rw [Nat.zero_add, Packing.next, List.take_left, current] at failed
    rcases bind_eq_error.mp failed with failed | ⟨nextLen, _, failed⟩
    · simp [addU64, okOr_eq_error] at failed
    · split at failed
      · rcases bind_eq_error.mp failed with failed | ⟨_, _, failed⟩
        · exact pushPack_ne_length reached.length failed
        · cases failed
      · cases failed
  · have reached := Packing.reached_of_ok List.prefix_rfl ran
    rw [reached.current.1] at failed
    split at failed
    · exact pushPack_ne_length reached.length failed
    · cases failed

/-! ## The loop that counts the packs -/

/-- What the counting loop knows after some of the files. -/
structure PackCount.Reached
    (target : Nat)
    (state : PackCount)
    (done : List MicroFileInput) : Prop where
  count : state.count =
    (packAll MicroFileInput.weight target done).1.length
  length : state.currentLen.toNat =
    total MicroFileInput.weight (packAll MicroFileInput.weight target done).2
  hasMembers : state.hasMembers ↔
    (packAll MicroFileInput.weight target done).2 ≠ []

/-- One step of the counting loop. -/
theorem PackCount.Reached.step
    {target : UInt64}
    {state next : PackCount}
    (reached : state.Reached target.toNat done)
    (stepped : PackCount.next target candidate state = .ok next) :
    next.Reached target.toNat (done ++ [candidate]) := by
  simp only [PackCount.next, bind_eq_ok, addU64_eq_ok, reached.hasMembers,
    UInt64.lt_iff_toNat_lt] at stepped
  obtain ⟨nextLen, isNext, stepped⟩ := stepped
  rw [reached.length] at isNext
  have size : candidate.weight = candidate.size.toNat := rfl
  rw [← size] at isNext
  rw [← isNext] at stepped
  split at stepped
  · rename_i heavy
    simp only [bind_eq_ok, ensure_eq_ok, exists_const, Except.ok.injEq]
      at stepped
    obtain ⟨_, rfl⟩ := stepped
    have packed : packAll MicroFileInput.weight target.toNat
        (done ++ [candidate]) = _ := (packAll_concat _ _).trans (if_pos heavy)
    refine ⟨?_, ?_, ?_⟩
    · rw [packed, List.length_append, reached.count]
      rfl
    · rw [packed, total_singleton, size]
    · simp [packed]
  · rename_i light
    cases stepped
    have packed : packAll MicroFileInput.weight target.toNat
        (done ++ [candidate]) = _ := (packAll_concat _ _).trans (if_neg light)
    refine ⟨?_, ?_, ?_⟩
    · rw [packed]
      exact reached.count
    · rw [packed, total_append, total_singleton]
      exact isNext.symm
    · simp [packed]

/-- The count is that of the runs of packing in order. -/
theorem requiredPackCount_eq
    {target : UInt64}
    {count : Nat}
    (counted : requiredPackCount eligible target = .ok count) :
    count = (pack MicroFileInput.weight target.toNat eligible).length := by
  rw [requiredPackCount, bind_eq_ok] at counted
  obtain ⟨state, ran, counted⟩ := counted
  have reached : PackCount.Reached target.toNat state eligible :=
    forEnum_invariant
      (fun done state => PackCount.Reached target.toNat state done)
      ⟨rfl, rfl, by simp⟩ (fun _ _ _ _ reached stepped => reached.step stepped)
      ran
  simp only [reached.hasMembers] at counted
  rw [pack, List.length_append]
  split at counted
  · rename_i nonempty
    simp only [bind_eq_ok, ensure_eq_ok, exists_const, Except.ok.injEq]
      at counted
    rw [if_neg nonempty, ← counted.2, reached.count]
    rfl
  · rename_i empty
    cases counted
    rw [if_pos (not_not.mp empty), reached.count]
    rfl

end Loop

end Pithos
