import Pithos.Library.Lists
import Pithos.Analysis.MicroFile.Validity

/-!
# Chunks of micro files

The members of a validated plan become one chunk each.  These chunks can be
numbered in any order, and each covers its file, also when the file is empty.
-/

namespace Pithos

open Fallible
open Lists
open Machine
open MergeSort
open Layout

/-- All members of a plan. -/
def MicroFilePackPlan.members (plan : MicroFilePackPlan) :
    List MicroFilePackMember :=
  plan.packs.flatMap (·.members)

section Chunks

variable
  {cdc : FastCdc}
  {config : ChunkingConfig}
  {plan : MicroFilePackPlan}

theorem MicroFilePackPlan.length_members :
    plan.members.length = plan.memberCount := by
  rw [members, List.length_flatMap, memberCount]

/-- No two members of a valid plan share an id. -/
theorem MicroFilePackPlan.Valid.members_distinct
    (isValid : plan.Valid config) :
    (plan.members.map (·.entryId)).Nodup := by
  have distinct := isValid.idsDistinct
  rw [entryIds, ← List.map_flatMap] at distinct
  exact (List.nodup_append.mp distinct).1

/-- The members of the packs can be counted. -/
theorem countMembers_eq_ok
    {position : Nat}
    {packs : List MicroFilePack}
    {count result : Nat}
    (small : count + (packs.map (·.members.length)).sum < 2 ^ 64) :
    forEnum
        (fun _ (pack : MicroFilePack) count => (do
          ensure (count + pack.members.length < 2 ^ 64) .integerOverflow
          .ok (count + pack.members.length) : Result Nat))
        position packs count = .ok result ↔
      result = count + (packs.map (·.members.length)).sum := by
  induction packs generalizing position count with
  | nil => simp [eq_comm]
  | cons pack packs inductionHypothesis =>
      rw [List.map_cons, List.sum_cons, ← Nat.add_assoc] at small ⊢
      have fits : count + pack.members.length < 2 ^ 64 := by omega
      rw [forEnum_cons, ensure_of fits, ok_bind, ok_bind]
      exact inductionHypothesis small

/-- A validated plan has one chunk for each member. -/
theorem microFileLogicalChunks_eq_ok
    (accepted : plan.validate cdc config = .ok ())
    (objectId : UInt64)
    {drafts : List LogicalChunkDraft} :
    microFileLogicalChunks cdc plan objectId config = .ok drafts ↔
      drafts = plan.members.map (·.draft objectId) := by
  have isValid := (MicroFilePackPlan.validate_eq_ok
    (MicroFilePackPlan.valid_of_validate accepted)).mp accepted
  have few := isValid.fewFiles
  have bound := config.maxChunks.toNat_lt
  rw [MicroFilePackPlan.memberCount] at few
  have counted := (@countMembers_eq_ok 0 plan.packs 0 _ (by omega)).mpr rfl
  rw [microFileLogicalChunks, accepted, ok_bind, counted, ok_bind,
    MicroFilePackPlan.members, List.map_flatMap, Except.ok.injEq, eq_comm]

/-- The chunk of a member covers its file, also when the file is empty. -/
theorem validateChunkCoverage_draft
    (objectId : UInt64)
    (member : MicroFilePackMember) :
    validateChunkCoverage [member.draft objectId]
      ⟨member.entryId, objectId, 0⟩ member.length.toUInt64 = .ok () := by
  have zero : (0 : UInt64).toNat = 0 := rfl
  have lengthBound := member.length.toNat_lt
  have fits : (0 : UInt64).toNat + member.length.toUInt64.toNat < 2 ^ 64 := by
    rw [UInt32.toNat_toUInt64]
    omega
  by_cases empty : member.length = 0
  · obtain ⟨stop, isStop⟩ := exists_addU64_eq_ok.mpr fits
    rw [validateChunkCoverage, isStop, ok_bind, if_pos (by rw [empty]; rfl)]
    exact ensure_of ⟨rfl, rfl, rfl, empty, rfl⟩ _
  · refine validateChunkCoverage_of_tiles fits ?_ ?_
    · intro chunk isDraft
      rw [List.mem_singleton.mp isDraft]
      exact ⟨rfl, rfl, empty⟩
    · simp [LogicalChunkDraft.span, MicroFilePackMember.draft]

/-- The chunks of a valid plan can be numbered. -/
theorem MicroFilePackPlan.Valid.assignChunkIds
    (isValid : plan.Valid config)
    (someChunks : config.maxChunks ≠ 0)
    (objectId : UInt64) :
    ∃ chunks, Pithos.assignChunkIds (plan.members.map (·.draft objectId))
      config.maxChunks = .ok chunks := by
  have few := isValid.fewFiles
  refine ⟨_, assignChunkIds_eq_ok.mpr ⟨⟨?_, ?_, ?_, ?_⟩, rfl⟩⟩
  · exact Nat.pos_of_ne_zero fun none => someChunks (UInt64.toNat_inj.mp none)
  · rw [List.length_map, length_members]
    omega
  · rw [List.map_map]
    refine List.Nodup.of_map (·.1) ?_
    rw [List.map_map]
    exact isValid.members_distinct
  · intro draft isDraft
    obtain ⟨member, _, rfl⟩ := List.mem_map.mp isDraft
    have lengthBound := member.length.toNat_lt
    refine ⟨fun _ => rfl, ?_⟩
    change 0 + member.length.toNat < 2 ^ 64
    omega

/-- Micro-file chunks fit the contract of all chunks.  A validated plan has one
chunk for each member, its chunks can be numbered in any order within the limit
of the configuration, and the chunks of each member cover its file. -/
theorem microFileChunks_fit
    (accepted : plan.validate cdc config = .ok ())
    (objectId : UInt64) :
    ∃ drafts, microFileLogicalChunks cdc plan objectId config = .ok drafts ∧
      drafts = plan.members.map (·.draft objectId) ∧
      (∀ order, order.Perm drafts →
        ∃ chunks, assignChunkIds order config.maxChunks = .ok chunks) ∧
      ∀ member ∈ plan.members,
        drafts.filter (fun draft => draft.entryId = member.entryId) =
          [member.draft objectId] ∧
        validateChunkCoverage
          (drafts.filter fun draft => draft.entryId = member.entryId)
          ⟨member.entryId, objectId, 0⟩ member.length.toUInt64 = .ok () := by
  have valid := MicroFilePackPlan.valid_of_validate accepted
  have isValid := (MicroFilePackPlan.validate_eq_ok valid).mp accepted
  refine ⟨_, (microFileLogicalChunks_eq_ok accepted objectId).mpr rfl, rfl,
    fun order same => ?_, fun member isMember => ?_⟩
  · rw [assignChunkIds_eq_of_perm same]
    exact isValid.assignChunkIds valid.maxChunks_ne_zero objectId
  · have one : (plan.members.map (·.draft objectId)).filter
        (fun draft => draft.entryId = member.entryId) =
          [member.draft objectId] := by
      rw [List.filter_map]
      exact congrArg (List.map _)
        (filter_key_eq_singleton isValid.members_distinct isMember)
    exact ⟨one, one ▸ validateChunkCoverage_draft objectId member⟩

end Chunks

/-- The five chunks of two packs, one of them empty, are numbered also when they
come in another order. -/
theorem samplePlan_chunks :
    ∃ drafts : List LogicalChunkDraft,
      microFileLogicalChunks .ofMinimum .sample 7 .default = .ok drafts ∧
      drafts = [⟨2, 7, 0, 3, .microFile⟩, ⟨3, 7, 0, 0, .microFile⟩,
        ⟨5, 7, 0, 2, .microFile⟩, ⟨7, 7, 0, 1, .microFile⟩,
        ⟨6, 7, 0, 4, .microFile⟩] ∧
      (∃ chunks, assignChunkIds drafts.reverse
        ChunkingConfig.default.maxChunks = .ok chunks) ∧
      validateChunkCoverage
        (drafts.filter fun draft => draft.entryId = 3) ⟨3, 7, 0⟩ 0 =
          .ok () := by
  obtain ⟨drafts, isChunks, isDrafts, numbered, covered⟩ :=
    microFileChunks_fit MicroFilePackPlan.sample_accepted 7
  have empty := (covered ⟨3, 3, 0⟩ (by decide)).2
  exact ⟨drafts, isChunks, isDrafts, numbered _ (List.reverse_perm _), empty⟩

end Pithos
