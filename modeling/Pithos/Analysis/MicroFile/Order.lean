import Pithos.Analysis.Regions
import Pithos.Analysis.MicroFile.Columns
import Pithos.Analysis.MicroFile.Planner

/-!
# The order of the inputs

The checks of the inputs do not depend on their order, and inputs that pass them
have distinct canonical keys.  So the planner sees the same files in the same
order, however they come.
-/

namespace Pithos

open Fallible
open Machine
open MergeSort

/-- The bytes that an input counts with. -/
def MicroFileInput.keyBytes (input : MicroFileInput) : Nat :=
  input.path.length + input.pathPrefixKey.length + input.extensionKey.length

/-- The keys of an input are within the limits. -/
structure MicroFileInput.KeysFit
    (config : ChunkingConfig)
    (input : MicroFileInput) : Prop where
  path_ne_nil : input.path ≠ []
  path_le : input.path.length ≤ config.maxPathBytes.toNat
  prefix_le : input.pathPrefixKey.length ≤ config.maxPathBytes.toNat
  extension_le : input.extensionKey.length ≤ config.maxPathBytes.toNat

/-- Inputs that pass their checks. -/
structure InputsFit
    (inputs : List MicroFileInput)
    (config : ChunkingConfig) : Prop where
  bytes : inputs.length * 76 + (inputs.map (·.keyBytes)).sum ≤
    config.maxMetadataBytes.toNat
  keys : ∀ input ∈ inputs, input.KeysFit config
  idsDistinct : (inputs.map (·.entryId)).Nodup
  pathsDistinct : (inputs.map (·.path)).Nodup

section Inputs

variable
  {config : ChunkingConfig}
  {inputs other : List MicroFileInput}

/-- The keys of the inputs are counted exactly when they are within the
limits. -/
theorem checkKeys_eq_ok
    {position : Nat}
    {base bytes result : UInt64}
    (within : base.toNat + bytes.toNat ≤ config.maxMetadataBytes.toNat) :
    forEnum (fun _ (input : MicroFileInput) => input.checkKeys config base)
        position inputs bytes = .ok result ↔
      (∀ input ∈ inputs, input.KeysFit config) ∧
      result.toNat = bytes.toNat + (inputs.map (·.keyBytes)).sum ∧
      base.toNat + result.toNat ≤ config.maxMetadataBytes.toNat := by
  induction inputs generalizing position bytes with
  | nil =>
      simp only [forEnum_nil, Except.ok.injEq, List.not_mem_nil,
        false_implies, implies_true, true_and, List.map_nil, List.sum_nil,
        Nat.add_zero, UInt64.toNat_inj]
      constructor
      · rintro rfl
        exact ⟨rfl, within⟩
      · rintro ⟨rfl, _⟩
        rfl
  | cons input inputs inductionHypothesis =>
      simp only [forEnum_cons, bind_eq_ok, MicroFileInput.checkKeys,
        tryU64_eq_ok, addU64_eq_ok, ensure_eq_ok, ensureMetadataSize_eq_ok,
        exists_const, Except.ok.injEq, UInt64.le_iff_toNat_le,
        List.forall_mem_cons, List.map_cons, List.sum_cons,
        MicroFileInput.keyBytes]
      constructor
      · rintro ⟨next, ⟨nonempty, path, isPath, front, isFront, extension,
          isExtension, ⟨pathLe, frontLe, extensionLe⟩, first, isFirst, second,
          isSecond, third, isThird, size, isSize, inside, rfl⟩, ran⟩
        obtain ⟨fits, isResult, bounded⟩ :=
          (inductionHypothesis (isSize ▸ inside)).mp ran
        refine ⟨⟨⟨nonempty, isPath ▸ pathLe, isFront ▸ frontLe,
          isExtension ▸ extensionLe⟩, fits⟩, ?_, bounded⟩
        simp only [MicroFileInput.keyBytes] at isResult
        omega
      · rintro ⟨⟨⟨nonempty, pathLe, frontLe, extensionLe⟩, fits⟩, isResult,
          bounded⟩
        have metadataBound := config.maxMetadataBytes.toNat_lt
        have path := @toNat_ofNat_of_lt input.path.length (by omega)
        have front := @toNat_ofNat_of_lt input.pathPrefixKey.length (by omega)
        have extension := @toNat_ofNat_of_lt input.extensionKey.length
          (by omega)
        have first := @toNat_ofNat_of_lt
          (bytes.toNat + input.path.length) (by omega)
        have second := @toNat_ofNat_of_lt (bytes.toNat + input.path.length +
          input.pathPrefixKey.length) (by omega)
        have third := @toNat_ofNat_of_lt (bytes.toNat + input.path.length +
          input.pathPrefixKey.length + input.extensionKey.length) (by omega)
        have size := @toNat_ofNat_of_lt (base.toNat + (bytes.toNat +
          input.path.length + input.pathPrefixKey.length +
            input.extensionKey.length)) (by omega)
        refine ⟨_, ⟨nonempty, _, path, _, front, _, extension,
          ⟨path.symm ▸ pathLe, front.symm ▸ frontLe,
            extension.symm ▸ extensionLe⟩, UInt64.ofNat
          (bytes.toNat + input.path.length), by omega, UInt64.ofNat
          (bytes.toNat + input.path.length + input.pathPrefixKey.length),
          by omega, UInt64.ofNat (bytes.toNat + input.path.length +
            input.pathPrefixKey.length + input.extensionKey.length), by omega,
          UInt64.ofNat (base.toNat + (bytes.toNat + input.path.length +
            input.pathPrefixKey.length + input.extensionKey.length)), by omega,
          by omega, rfl⟩, ?_⟩
        refine (inductionHypothesis (by omega)).mpr ⟨fits, ?_, bounded⟩
        simp only [MicroFileInput.keyBytes]
        omega

/-- The checks of the inputs. -/
theorem validateUniqueInputs_eq_ok {done : Unit} :
    validateUniqueInputs inputs config = .ok done ↔
      InputsFit inputs config := by
  have zero : (0 : UInt64).toNat = 0 := rfl
  have by76 : (76 : UInt64).toNat = 76 := rfl
  have metadataBound := config.maxMetadataBytes.toNat_lt
  simp only [validateUniqueInputs, bind_eq_ok, tryU64_eq_ok, okOr_eq_ok,
    checkedMul_eq_some, ensureMetadataSize_eq_ok, exists_const,
    ensureUniqueIds_eq_ok, ensureUniquePaths_eq_ok, by76]
  constructor
  · rintro ⟨count, isCount, base, isBase, within, bytes, checked, ids, paths⟩
    obtain ⟨keys, isBytes, bounded⟩ :=
      (checkKeys_eq_ok (by rwa [zero])).mp checked
    rw [isCount] at isBase
    exact ⟨by omega, keys, ids, paths⟩
  · intro fit
    have bytes := fit.bytes
    have count := @toNat_ofNat_of_lt inputs.length (by omega)
    have base := @toNat_ofNat_of_lt (inputs.length * 76) (by omega)
    have sum := @toNat_ofNat_of_lt (inputs.map (·.keyBytes)).sum (by omega)
    exact ⟨_, count, UInt64.ofNat (inputs.length * 76),
      by rw [count]; exact base.symm, by omega,
      UInt64.ofNat (inputs.map (·.keyBytes)).sum,
      (checkKeys_eq_ok (by omega)).mpr ⟨fit.keys, by omega, by omega⟩,
      fit.idsDistinct, fit.pathsDistinct⟩

/-- Inputs pass their checks in any order. -/
theorem InputsFit.of_perm
    (fit : InputsFit inputs config)
    (same : inputs.Perm other) :
    InputsFit other config where
  bytes := by
    rw [← same.length_eq, ← (same.map _).sum_eq]
    exact fit.bytes
  keys input member := fit.keys input (same.mem_iff.mpr member)
  idsDistinct := (same.map _).nodup_iff.mp fit.idsDistinct
  pathsDistinct := (same.map _).nodup_iff.mp fit.pathsDistinct

/-- Inputs of distinct ids have distinct keys. -/
theorem nodup_canonicalKey
    (distinct : (inputs.map (·.entryId)).Nodup) :
    (inputs.map MicroFileInput.canonicalKey).Nodup := by
  have values : (inputs.map fun input => input.entryId.toNat).Nodup := by
    have mapped := distinct.map fun _ _ => UInt64.toNat_inj.mp
    rwa [List.map_map] at mapped
  refine List.Nodup.of_map (fun key => (ofLex (ofLex (ofLex (ofLex (ofLex
    (ofLex key).2).2).2).2).2).2) ?_
  rwa [List.map_map]

end Inputs

/-- Micro-file planning ignores the order of its inputs.  It succeeds for all
orders or for none, and with the same plan. -/
theorem planMicroFilePacks_of_perm
    {inputs other : List MicroFileInput}
    (same : inputs.Perm other)
    (cdc : FastCdc)
    (config : ChunkingConfig) :
    ((∃ plan, planMicroFilePacks cdc inputs config = .ok plan) ↔
      ∃ plan, planMicroFilePacks cdc other config = .ok plan) ∧
    ∀ plan, planMicroFilePacks cdc inputs config = .ok plan ↔
      planMicroFilePacks cdc other config = .ok plan := by
  have transfer {first second : List MicroFileInput}
      (reordered : first.Perm second)
      {plan : MicroFilePackPlan}
      (planned : planMicroFilePacks cdc first config = .ok plan) :
      planMicroFilePacks cdc second config = .ok plan := by
    have checked : ∃ done, validateUniqueInputs first config = .ok done := by
      simp only [planMicroFilePacks, bind_eq_ok] at planned
      obtain ⟨_, _, _, _, _, _, _, _, _, _, done, checked, _⟩ := planned
      exact ⟨done, checked⟩
    obtain ⟨_, isChecked⟩ := checked
    have fit := validateUniqueInputs_eq_ok.mp isChecked
    have sorted := sortByKey_eq_of_perm (nodup_canonicalKey fit.idsDistinct)
      reordered
    rw [planMicroFilePacks, isChecked] at planned
    rw [planMicroFilePacks, ← reordered.length_eq, ← sorted,
      validateUniqueInputs_eq_ok.mpr (fit.of_perm reordered)]
    exact planned
  have both (plan : MicroFilePackPlan) :
      planMicroFilePacks cdc inputs config = .ok plan ↔
        planMicroFilePacks cdc other config = .ok plan :=
    ⟨transfer same, transfer same.symm⟩
  exact ⟨exists_congr both, both⟩

/-- Two files planned in either order. -/
theorem planMicroFilePacks_swap :
    let file (entryId : UInt64) (path : List UInt8) : MicroFileInput :=
      ⟨entryId, path, 1, 0, 420, Bytes.zeros 32, 7, [], [], 0, false⟩
    ∀ plan, planMicroFilePacks .ofMinimum [file 1 [97], file 2 [98]] .default =
        .ok plan ↔
      planMicroFilePacks .ofMinimum [file 2 [98], file 1 [97]] .default =
        .ok plan := by
  intro file
  exact (planMicroFilePacks_of_perm (List.Perm.swap _ _ _) .ofMinimum
    .default).2

end Pithos
