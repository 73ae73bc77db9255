import Pithos.Library.Lists
import Pithos.Analysis.MicroFile.Packs
import Mathlib.Algebra.Order.Group.Nat
import Mathlib.Order.Bounds.Basic

/-!
# Micro-file plans

A plan that the planner returns packs the eligible files in canonical order into
the fewest packs within the target, and its metadata gives every file back.
-/

namespace Pithos

open Fallible
open Lists
open Machine
open MergeSort
open FrontCoding
open Layout
open Runs

/-! ## Eligible files -/

/-- The files that are packed. -/
def eligibleInputs (config : ChunkingConfig) (inputs : List MicroFileInput) :
    List MicroFileInput :=
  inputs.filter fun input => input.exclusionReason config = none

/-- The files that are not packed, with the reasons. -/
def excludedInputs (config : ChunkingConfig) (inputs : List MicroFileInput) :
    List MicroFileExclusion :=
  inputs.filterMap fun input =>
    (input.exclusionReason config).map (⟨input.entryId, ·⟩)

section Selection

variable
  {config : ChunkingConfig}
  {inputs : List MicroFileInput}

theorem selection_eq
    {selection : Selection}
    (selected : forEnum (fun _ => Selection.next config) 0 inputs ⟨[], [], 0⟩ =
      .ok selection) :
    selection.eligible = eligibleInputs config inputs ∧
      selection.excluded = excludedInputs config inputs := by
  refine forEnum_invariant
    (fun done (selection : Selection) =>
      selection.eligible = eligibleInputs config done ∧
        selection.excluded = excludedInputs config done)
    ⟨rfl, rfl⟩ ?_ selected
  rintro done candidate state next ⟨isEligible, isExcluded⟩ stepped
  rw [eligibleInputs, excludedInputs, List.filter_append,
    List.filterMap_append, ← eligibleInputs, ← excludedInputs, ← isEligible,
    ← isExcluded]
  cases isReason : candidate.exclusionReason config with
  | some reason =>
      simp only [Selection.next, isReason, Except.ok.injEq] at stepped
      subst stepped
      simp [isReason]
  | none =>
      simp only [Selection.next, isReason, bind_eq_ok, Except.ok.injEq]
        at stepped
      obtain ⟨_, _, _, _, rfl⟩ := stepped
      simp [isReason]

/-- A file that is packed is not larger than the limit. -/
theorem size_le_of_eligible
    {input : MicroFileInput}
    (eligible : input ∈ eligibleInputs config inputs) :
    input.size.toNat ≤ config.microFileMax.toNat := by
  have kept := (List.mem_filter.mp eligible).2
  simp only [MicroFileInput.exclusionReason] at kept
  split at kept
  · cases kept
  · split at kept
    · cases kept
    · rename_i small
      rw [UInt64.lt_iff_toNat_lt, UInt32.toNat_toUInt64] at small
      omega

/-- Every file is packed or excluded. -/
theorem entryIds_selection :
    ((eligibleInputs config inputs).map (·.entryId) ++
      (excludedInputs config inputs).map (·.entryId)).Perm
        (inputs.map (·.entryId)) := by
  induction inputs with
  | nil => exact .nil
  | cons input inputs inductionHypothesis =>
      cases isReason : input.exclusionReason config with
      | some reason =>
          simp only [eligibleInputs, excludedInputs, isReason, List.filter_cons,
            List.filterMap_cons, Option.map_some, List.map_cons, reduceCtorEq,
            decide_false, Bool.false_eq_true, if_false]
          exact List.perm_middle.trans (inductionHypothesis.cons _)
      | none =>
          simp only [eligibleInputs, excludedInputs, isReason, List.filter_cons,
            List.filterMap_cons, Option.map_none, List.map_cons, decide_true,
            if_true, List.cons_append]
          exact inductionHypothesis.cons _

end Selection

/-! ## A planned plan -/

/-- The files that are packed, in canonical order. -/
def orderedEligible (config : ChunkingConfig) (inputs : List MicroFileInput) :
    List MicroFileInput :=
  eligibleInputs config (sortByKey MicroFileInput.canonicalKey inputs)

/-- What is known of a plan that the planner returns. -/
structure PlannedPacks
    (cdc : FastCdc)
    (inputs : List MicroFileInput)
    (config : ChunkingConfig)
    (plan : MicroFilePackPlan) : Prop where
  validConfig : config.Valid cdc
  inputsFit : InputsFit inputs config
  packs : BuiltFrom plan.packs
    (pack MicroFileInput.weight config.microPackTarget.toNat
      (orderedEligible config inputs))
  excluded : plan.excluded =
    excludedInputs config (sortByKey MicroFileInput.canonicalKey inputs)
  count : requiredPackCount (orderedEligible config inputs)
    config.microPackTarget.toUInt64 = .ok plan.packs.length
  isValid : plan.Valid config

section Plan

variable
  {cdc : FastCdc}
  {inputs : List MicroFileInput}
  {config : ChunkingConfig}
  {plan : MicroFilePackPlan}

theorem planned_of_ok
    (planned : planMicroFilePacks cdc inputs config = .ok plan) :
    PlannedPacks cdc inputs config plan := by
  simp only [planMicroFilePacks, bind_eq_ok, Except.ok.injEq] at planned
  obtain ⟨_, isValid, _, _, _, _, _, _, _, _, _, fit, selection, selected,
    count, counted, _, _, _, _, packs, packed, _, accepted, rfl⟩ := planned
  have valid := ChunkingConfig.validate_eq_ok.mp isValid
  obtain ⟨isEligible, isExcluded⟩ := selection_eq selected
  rw [isEligible] at counted packed
  have built := builtFrom_of_packEligible packed
  have isCount := requiredPackCount_eq counted
  rw [UInt32.toNat_toUInt64, ← built.length_eq] at isCount
  exact ⟨valid, validateUniqueInputs_eq_ok.mp fit, built, isExcluded,
    isCount ▸ counted, (MicroFilePackPlan.validate_eq_ok valid).mp accepted⟩

/-! ## Packing -/

/-- The sizes of the runs of packing in order are within the target. -/
theorem PlannedPacks.within
    (planned : PlannedPacks cdc inputs config plan)
    {run : List MicroFileInput}
    (member : run ∈ pack MicroFileInput.weight config.microPackTarget.toNat
      (orderedEligible config inputs)) :
    total MicroFileInput.weight run ≤ config.microPackTarget.toNat := by
  have splits := @splits_pack _ _ _ _ MicroFileInput.weight
    config.microPackTarget.toNat (orderedEligible config inputs)
  rcases splits.within run member with short | light
  · match run with
    | [] => exact Nat.zero_le _
    | [input] =>
        have eligible : input ∈ orderedEligible config inputs := by
          rw [← splits.flatten]
          exact List.mem_flatten.mpr ⟨_, member, List.mem_cons_self⟩
        have small := size_le_of_eligible eligible
        have limit := UInt32.le_iff_toNat_le.mp
          planned.validConfig.microFileMax_le_target
        rw [total_singleton]
        exact Nat.le_trans small limit
  · exact light

/-- Micro-file packing is tight and its two passes agree.  The packs of a plan
hold the runs of packing in order: the runs make up the eligible files in
canonical order, each has a file and is within the target, and none can take the
first file of the next.  Their number is the one that was counted before, and
no partition within the target has fewer.  The length of a pack is always the
one that the loop has counted. -/
theorem microFilePacking_tight
    (cdc : FastCdc)
    (inputs : List MicroFileInput)
    (config : ChunkingConfig) :
    (∀ plan, planMicroFilePacks cdc inputs config = .ok plan →
      (orderedEligible config inputs).Perm (eligibleInputs config inputs) ∧
      (orderedEligible config inputs).Pairwise (fun left right =>
        left.canonicalKey < right.canonicalKey) ∧
      (∃ runs, List.Forall₂ (fun pack run => pack.Holds run) plan.packs runs ∧
        runs.flatten = orderedEligible config inputs ∧
        (∀ run ∈ runs, run ≠ [] ∧
          total MicroFileInput.weight run ≤ config.microPackTarget.toNat) ∧
        Tight MicroFileInput.weight config.microPackTarget.toNat runs) ∧
      requiredPackCount (orderedEligible config inputs)
        config.microPackTarget.toUInt64 = .ok plan.packs.length ∧
      IsLeast
        { count | ∃ partition : List (List MicroFileInput),
          partition.flatten = orderedEligible config inputs ∧
          (∀ run ∈ partition,
            total MicroFileInput.weight run ≤ config.microPackTarget.toNat) ∧
          partition.length = count }
        plan.packs.length) ∧
    ∀ eligible, packEligible eligible config ≠
      .error (.invalidMetadata "microfile pack length") := by
  refine ⟨fun plan succeeded => ?_, fun eligible => packEligible_ne_length⟩
  have planned := planned_of_ok succeeded
  have splits := @splits_pack _ _ _ _ MicroFileInput.weight
    config.microPackTarget.toNat (orderedEligible config inputs)
  have tight := @tight_pack _ _ _ _ MicroFileInput.weight
    config.microPackTarget.toNat (orderedEligible config inputs)
  refine ⟨(sortByKey_perm _ _).filter _, ?_, ⟨_, ?_, splits.flatten, ?_,
    tight⟩, planned.count, ⟨_, splits.flatten, fun run => planned.within,
      planned.packs.length_eq.symm⟩, ?_⟩
  · exact (sortByKey_pairwise_lt
      (nodup_canonicalKey planned.inputsFit.idsDistinct)).sublist
        List.filter_sublist
  · exact planned.packs.imp fun _ _ => MicroFilePack.holds_of_buildPack
  · exact fun run member => ⟨splits.nonempty run member, planned.within member⟩
  · rintro _ ⟨partition, flatten, within, rfl⟩
    rw [planned.packs.length_eq]
    refine tight.length_le splits.nonempty
      (fun run member => Or.inr (within run member)) ?_
    rw [splits.flatten, flatten]

/-! ## Reading a plan back -/

/-- The metadata of a pack gives a run of files back: their paths, times, modes,
sizes, hashes and ids, and their contents follow one another. -/
structure MicroFilePack.Decodes
    (cdc : FastCdc)
    (config : ChunkingConfig)
    (pack : MicroFilePack)
    (run : List MicroFileInput) : Prop where
  paths : pack.metadata.expandedPaths cdc config = .ok (run.map (·.path))
  times : pack.metadata.modifiedNsDeltas.map (fun delta =>
    pack.metadata.baseModifiedNs.toInt + delta.toNat) =
      run.map (·.modifiedNs.toInt)
  modes : pack.metadata.records.map (fun record =>
    pack.metadata.modeDictionary[record.modeIndex.toNat]?) =
      run.map (some ·.mode)
  sizes : pack.metadata.records.map (·.length.toNat) =
    run.map (·.size.toNat)
  hashes : pack.metadata.records.map (·.fileHash) = run.map (·.fileHash)
  entryIds : pack.metadata.records.map (·.entryId) = run.map (·.entryId)
  members : pack.members = pack.metadata.records.map (·.member)
  offsets : pack.members.map (·.span) = layOut 0 (run.map (·.size.toNat))

/-- A valid pack that holds a run gives it back. -/
theorem MicroFilePack.Holds.decodes
    {pack : MicroFilePack}
    {run : List MicroFileInput}
    (holds : pack.Holds run)
    (isValid : pack.Valid config)
    (valid : config.Valid cdc) :
    pack.Decodes cdc config run := by
  obtain ⟨paths, expands⟩ := isValid.expands
  have decoded := expands.decodes
  rw [holds.paths, decode_encode, Option.some.injEq] at decoded
  subst decoded
  refine ⟨(expandedPaths_eq_ok valid).mpr expands, holds.times,
    map_eq_map_of_forall₂ (fun _ _ described => described.mode) holds.records,
    map_eq_map_of_forall₂ (fun _ _ described => described.length) holds.records,
    map_eq_map_of_forall₂ (fun _ _ described => described.fileHash)
      holds.records,
    map_eq_map_of_forall₂ (fun _ _ described => described.entryId)
      holds.records,
    holds.members, ?_⟩
  rw [holds.members, List.map_map]
  exact holds.spans

/-- The ids of the packed files, pack by pack. -/
theorem entryIds_of_holds
    {packs : List MicroFilePack}
    {runs : List (List MicroFileInput)}
    (hold : List.Forall₂ (fun pack run => pack.Holds run) packs runs) :
    packs.flatMap (fun pack => pack.members.map (·.entryId)) =
      runs.flatten.map (·.entryId) := by
  induction hold with
  | nil => rfl
  | cons holds _ inductionHypothesis =>
      rw [List.flatMap_cons, inductionHypothesis, List.flatten_cons,
        List.map_append, holds.members, List.map_map]
      exact congrArg (· ++ _) (map_eq_map_of_forall₂
        (fun _ _ described => described.entryId) holds.records)

/-- Why a file is not packed, written out. -/
theorem exclusion_eq (config : ChunkingConfig) (input : MicroFileInput) :
    (input.exclusionReason config).map (MicroFileExclusion.mk input.entryId) =
      if input.requiresIsolatedAccess then
        some ⟨input.entryId, .requiresIsolatedAccess⟩
      else if config.microFileMax.toUInt64 < input.size then
        some ⟨input.entryId, .tooLarge⟩
      else none := by
  unfold MicroFileInput.exclusionReason
  split
  · rfl
  · split
    · rfl
    · rfl

theorem exclusionReason_eq_none
    {config : ChunkingConfig}
    {input : MicroFileInput} :
    input.exclusionReason config = none ↔
      ¬input.requiresIsolatedAccess ∧
        input.size ≤ config.microFileMax.toUInt64 := by
  rw [MicroFileInput.exclusionReason, ← UInt64.not_lt]
  split
  · simp [*]
  · split
    · simp [*]
    · simp [*]

/-- Micro-file plans are lossless.  Every input of a plan is in it exactly once:
either excluded, for isolated access or else for its size, or in one pack.  The
packs hold runs of the other files, and the metadata of each pack gives all its
files back. -/
theorem microFilePlan_lossless
    (planned : planMicroFilePacks cdc inputs config = .ok plan) :
    (inputs.map (·.entryId)).Nodup ∧
    plan.entryIds.Perm (inputs.map (·.entryId)) ∧
    plan.excluded.Perm (inputs.filterMap fun input =>
      if input.requiresIsolatedAccess then
        some ⟨input.entryId, .requiresIsolatedAccess⟩
      else if config.microFileMax.toUInt64 < input.size then
        some ⟨input.entryId, .tooLarge⟩
      else none) ∧
    ∃ runs, List.Forall₂ (fun pack run => pack.Decodes cdc config run)
        plan.packs runs ∧
      runs.flatten.Perm (inputs.filter fun input =>
        ¬input.requiresIsolatedAccess ∧
          input.size ≤ config.microFileMax.toUInt64) := by
  have planned := planned_of_ok planned
  have sorted := sortByKey_perm MicroFileInput.canonicalKey inputs
  have splits := @splits_pack _ _ _ _ MicroFileInput.weight
    config.microPackTarget.toNat (orderedEligible config inputs)
  have hold := planned.packs.imp fun _ _ => MicroFilePack.holds_of_buildPack
  refine ⟨planned.inputsFit.idsDistinct, ?_, ?_, pack MicroFileInput.weight
    config.microPackTarget.toNat (orderedEligible config inputs), ?_, ?_⟩
  · rw [MicroFilePackPlan.entryIds, entryIds_of_holds hold, splits.flatten,
      planned.excluded]
    exact entryIds_selection.trans (sorted.map _)
  · rw [planned.excluded]
    simp only [← exclusion_eq]
    exact sorted.filterMap _
  · exact ((List.forall₂_and_left _ _).mpr ⟨planned.isValid.packs, hold⟩).imp
      fun _ _ both => both.2.decodes both.1 planned.validConfig
  · rw [splits.flatten]
    simp only [← exclusionReason_eq_none]
    exact sorted.filter _

end Plan

/-! ## A plan of five files -/

/-- Three small files `d/b`, `d/a` and the empty `d/ab`, the file `d/z` that is
not to be packed, and the file `e` that is too large. -/
def sampleInputs : List MicroFileInput := [
  ⟨5, [100, 47, 98], 2, 40, 493, Bytes.zeros 32, 7, [100], [], 0, false⟩,
  ⟨2, [100, 47, 97], 3, -10, 420, Bytes.zeros 32, 7, [100], [], 0, false⟩,
  ⟨9, [100, 47, 122], 5, 0, 420, Bytes.zeros 32, 7, [100], [], 0, true⟩,
  ⟨3, [100, 47, 97, 98], 0, 40, 420, Bytes.zeros 32, 7, [100], [], 0, false⟩,
  ⟨4, [101], 65537, 0, 420, Bytes.zeros 32, 7, [], [], 0, false⟩]

/-- The inputs in their canonical order. -/
def sampleOrder : List MicroFileInput := [
  ⟨4, [101], 65537, 0, 420, Bytes.zeros 32, 7, [], [], 0, false⟩,
  ⟨2, [100, 47, 97], 3, -10, 420, Bytes.zeros 32, 7, [100], [], 0, false⟩,
  ⟨3, [100, 47, 97, 98], 0, 40, 420, Bytes.zeros 32, 7, [100], [], 0, false⟩,
  ⟨9, [100, 47, 122], 5, 0, 420, Bytes.zeros 32, 7, [100], [], 0, true⟩,
  ⟨5, [100, 47, 98], 2, 40, 493, Bytes.zeros 32, 7, [100], [], 0, false⟩]

/-- What is planned for them. -/
def samplePlan : MicroFilePackPlan where
  packs := [.sample]
  excluded := [⟨4, .tooLarge⟩, ⟨9, .requiresIsolatedAccess⟩]

theorem sortByKey_sampleInputs :
    sortByKey MicroFileInput.canonicalKey sampleInputs = sampleOrder :=
  sortByKey_eq_of_perm_sorted (by decide) (by decide) (by decide)

theorem modeDictionary_sampleOrder :
    modeDictionary [sampleOrder[1], sampleOrder[2], sampleOrder[4]] =
      [420, 493] := by
  have sorted : sortByKey UInt32.toNat [420, 420, 493] = [420, 420, 493] :=
    sortByKey_eq_of_perm_sorted (List.Perm.refl _) (by decide) (by simp)
  exact (congrArg (List.destutter (· ≠ ·)) sorted).trans (by decide)

theorem validateUniqueInputs_sampleInputs :
    validateUniqueInputs sampleInputs .default = .ok () := by
  refine validateUniqueInputs_eq_ok.mpr ⟨by decide, ?_, by decide, by decide⟩
  simp only [sampleInputs, List.forall_mem_cons]
  refine ⟨?_, ?_, ?_, ?_, ?_, by simp⟩ <;> constructor <;> decide

theorem buildPack_sampleOrder :
    buildPack 0 [sampleOrder[1], sampleOrder[2], sampleOrder[4]] =
      .ok .sample := by
  simp only [buildPack, modeDictionary_sampleOrder]
  rfl

theorem samplePlan_accepted :
    samplePlan.validate .ofMinimum .default = .ok () := by
  refine (MicroFilePackPlan.validate_eq_ok
    ChunkingConfig.default_valid).mpr ⟨by decide, by decide, by decide,
      fun index pack found => ?_, ?_, by decide⟩
  · match index with
    | 0 =>
        cases found
        rfl
    | index + 1 => cases found
  · simp [samplePlan, MicroFilePack.sample_valid]

/-- The five files are planned. -/
theorem planMicroFilePacks_sampleInputs :
    planMicroFilePacks .ofMinimum sampleInputs .default = .ok samplePlan := by
  have count : tryU64 sampleInputs.length = .ok 5 := rfl
  have few : ensureChunkCount 5 ChunkingConfig.default.maxChunks = .ok () := rfl
  have bytes : okOr (checkedMul 5 76) PithosError.integerOverflow = .ok 380 :=
    rfl
  have small : ensureMetadataSize 380 .default = .ok () := rfl
  have selected : forEnum (fun _ => Selection.next .default) 0 sampleOrder
      ⟨[], [], 0⟩ = .ok ⟨[sampleOrder[1], sampleOrder[2], sampleOrder[4]],
        samplePlan.excluded, 5⟩ := rfl
  have counted : requiredPackCount
      [sampleOrder[1], sampleOrder[2], sampleOrder[4]]
      ChunkingConfig.default.microPackTarget.toUInt64 = .ok 1 := rfl
  have packs : tryU64 1 = .ok 1 := rfl
  have onePack : ensureChunkCount 1 ChunkingConfig.default.maxChunks =
      .ok () := rfl
  have pushed : pushPack [] [sampleOrder[1], sampleOrder[2], sampleOrder[4]] 5
      .default = .ok [.sample] := by
    have first : tryU64 ([] : List MicroFilePack).length = .ok 0 := rfl
    have second : addU64 0 1 = .ok 1 := rfl
    rw [pushPack, first, ok_bind, second, ok_bind, onePack, ok_bind,
      buildPack_sampleOrder]
    rfl
  have packed : packEligible [sampleOrder[1], sampleOrder[2], sampleOrder[4]]
      .default = .ok [.sample] := pushed
  rw [planMicroFilePacks, ChunkingConfig.default_valid.validate, ok_bind, count,
    ok_bind, few, ok_bind, bytes, ok_bind, small, ok_bind,
    validateUniqueInputs_sampleInputs, ok_bind, sortByKey_sampleInputs,
    selected, ok_bind, counted, ok_bind, packs, ok_bind, onePack, ok_bind,
    packed, ok_bind]
  exact bind_eq_ok.mpr ⟨(), samplePlan_accepted, rfl⟩

/-- The three small files are packed into one pack. -/
theorem microFilePacking_sampleInputs :
    requiredPackCount (orderedEligible .default sampleInputs)
      ChunkingConfig.default.microPackTarget.toUInt64 = .ok 1 := by
  obtain ⟨_, _, _, counted, _⟩ := (microFilePacking_tight .ofMinimum
    sampleInputs .default).1 _ planMicroFilePacks_sampleInputs
  exact counted

/-- The plan gives the files back, also the empty one and those that share the
beginning of their paths. -/
theorem samplePlan_lossless :
    samplePlan.entryIds.Perm [5, 2, 9, 3, 4] ∧
    samplePlan.excluded.Perm
      [⟨9, .requiresIsolatedAccess⟩, ⟨4, .tooLarge⟩] ∧
    ∃ runs, List.Forall₂ (fun pack run =>
        MicroFilePack.Decodes .ofMinimum .default pack run)
        [.sample] runs ∧
      runs.flatten.Perm [sampleInputs[0], sampleInputs[1], sampleInputs[3]] := by
  obtain ⟨_, ids, excluded, runs, decodes, isPerm⟩ :=
    microFilePlan_lossless planMicroFilePacks_sampleInputs
  exact ⟨ids, excluded, runs, decodes, isPerm⟩

end Pithos
