import Pithos.Library.MergeSort
import Pithos.Analysis.Chunking
import Mathlib.Data.Prod.Lex

/-!
# Chunk ids

Workers deliver drafts in any order.  The drafts are sorted by entry, object and
offset, two at the same position are refused, and the position in the sorted
list becomes the id.  The result does not depend on the order of the drafts.
-/

namespace Pithos

open Fallible
open Machine
open MergeSort

/-- A chunk with its id. -/
structure LogicalChunk where
  chunkId : UInt64
  entryId : UInt64
  objectId : UInt64
  logicalOffset : UInt64
  length : UInt32
  method : ChunkingMethod
  deriving DecidableEq, Repr

namespace LogicalChunkDraft

/-- What tells two chunks apart. -/
def position (draft : LogicalChunkDraft) : UInt64 × UInt64 × UInt64 :=
  (draft.entryId, draft.objectId, draft.logicalOffset)

/-- The position in the order of tuples. -/
def positionKey (draft : LogicalChunkDraft) : ℕ ×ₗ ℕ ×ₗ ℕ :=
  toLex (draft.entryId.toNat,
    toLex (draft.objectId.toNat, draft.logicalOffset.toNat))

theorem positionKey_eq_iff {left right : LogicalChunkDraft} :
    left.positionKey = right.positionKey ↔ left.position = right.position := by
  simp only [positionKey, position, toLex_inj, Prod.mk.injEq, UInt64.toNat_inj]

/-- The chunk with an id. -/
def withId (draft : LogicalChunkDraft) (chunkId : UInt64) : LogicalChunk where
  chunkId := chunkId
  entryId := draft.entryId
  objectId := draft.objectId
  logicalOffset := draft.logicalOffset
  length := draft.length
  method := draft.method

end LogicalChunkDraft

/-- A chunk without its id. -/
def LogicalChunk.draft (chunk : LogicalChunk) : LogicalChunkDraft where
  entryId := chunk.entryId
  objectId := chunk.objectId
  logicalOffset := chunk.logicalOffset
  length := chunk.length
  method := chunk.method

@[simp] theorem LogicalChunkDraft.draft_withId
    (draft : LogicalChunkDraft)
    (chunkId : UInt64) :
    (draft.withId chunkId).draft = draft := rfl

/-- Sort the drafts and number them. -/
def assignChunkIds
    (drafts : List LogicalChunkDraft)
    (maxChunks : UInt64) : Result (List LogicalChunk) := do
  ensure (maxChunks ≠ 0) (.invalidMetadata "chunk count limit")
  let count ← tryU64 drafts.length
  ensureChunkCount count maxChunks
  let drafts := sortByKey LogicalChunkDraft.positionKey drafts
  ensure (drafts.IsChain fun left right =>
      left.positionKey ≠ right.positionKey)
    (.invalidMetadata "duplicate chunk position")
  forEnum
    (fun index (draft : LogicalChunkDraft) chunks => do
      ensure (draft.length ≠ 0 ∨ draft.method = .microFile)
        (.invalidMetadata "zero-length chunk")
      let _ ← addU64 draft.logicalOffset draft.length.toUInt64
      let chunkId ← tryU64 index
      .ok (chunks ++ [draft.withId chunkId]))
    0 drafts []

/-- A draft that can get an id. -/
structure LogicalChunkDraft.Numberable (draft : LogicalChunkDraft) : Prop where
  notEmpty : draft.length = 0 → draft.method = .microFile
  fits : draft.logicalOffset.toNat + draft.length.toNat < 2 ^ 64

section Numbering

variable
  {drafts : List LogicalChunkDraft}
  {maxChunks : UInt64}
  {chunks : List LogicalChunk}

theorem nodup_positionKey_iff :
    (drafts.map LogicalChunkDraft.positionKey).Nodup ↔
      (drafts.map LogicalChunkDraft.position).Nodup := by
  simp only [List.Nodup, List.pairwise_map, ne_eq,
    LogicalChunkDraft.positionKey_eq_iff]

/-- Drafts get ids exactly when there are not too many, their positions are
distinct and each can get one; the ids are the places in the sorted list. -/
theorem assignChunkIds_eq_ok :
    assignChunkIds drafts maxChunks = .ok chunks ↔
      (0 < maxChunks.toNat ∧ drafts.length ≤ maxChunks.toNat ∧
        (drafts.map LogicalChunkDraft.position).Nodup ∧
        ∀ draft ∈ drafts, draft.Numberable) ∧
      chunks = (sortByKey LogicalChunkDraft.positionKey drafts).mapIdx
        fun index draft => draft.withId (UInt64.ofNat index) := by
  have exact (index : Nat) (draft : LogicalChunkDraft)
      (state next : List LogicalChunk) (_ : state.length = index) :
      (do
        ensure (draft.length ≠ 0 ∨ draft.method = .microFile)
          (.invalidMetadata "zero-length chunk")
        let _ ← addU64 draft.logicalOffset draft.length.toUInt64
        let chunkId ← tryU64 index
        .ok (state ++ [draft.withId chunkId]) :
          Result (List LogicalChunk)) = .ok next ↔
        (draft.Numberable ∧ index < 2 ^ 64) ∧
          next = state ++ [draft.withId (UInt64.ofNat index)] := by
    simp only [bind_eq_ok, ensure_eq_ok, exists_const, tryU64_eq_ok,
      Except.ok.injEq]
    constructor
    · rintro ⟨notEmpty, stop, isStop, word, rfl, rfl⟩
      have fits := exists_addU64_eq_ok.mp ⟨stop, isStop⟩
      rw [UInt32.toNat_toUInt64] at fits
      exact ⟨⟨⟨fun empty => notEmpty.resolve_left (not_not_intro empty),
        fits⟩, word.toNat_lt⟩, by rw [UInt64.ofNat_toNat]⟩
    · rintro ⟨⟨numberable, small⟩, rfl⟩
      obtain ⟨stop, isStop⟩ := exists_addU64_eq_ok.mpr
        (show draft.logicalOffset.toNat + draft.length.toUInt64.toNat < 2 ^ 64
          by rw [UInt32.toNat_toUInt64]; exact numberable.fits)
      exact ⟨(Decidable.em (draft.length = 0)).symm.imp_right
        numberable.notEmpty, stop, isStop, _, toNat_ofNat_of_lt small, rfl⟩
  simp only [assignChunkIds, bind_eq_ok, ensure_eq_ok, exists_const,
    tryU64_eq_ok, ensureChunkCount, UInt64.le_iff_toNat_le,
    isChain_sortByKey_iff, nodup_positionKey_iff, forEnum_concat_eq_ok exact]
  have positive : maxChunks ≠ 0 ↔ 0 < maxChunks.toNat := by
    rw [Nat.pos_iff_ne_zero, ne_eq, ne_eq, ← UInt64.toNat_inj]
    rfl
  have maxBound := maxChunks.toNat_lt
  rw [positive]
  constructor
  · rintro ⟨someChunks, _, isCount, few, distinct, good, rfl⟩
    refine ⟨⟨someChunks, isCount ▸ few, distinct, fun draft member => ?_⟩, rfl⟩
    obtain ⟨index, found⟩ := List.mem_iff_getElem?.mp
      ((sortByKey_perm LogicalChunkDraft.positionKey drafts).mem_iff.mpr
        member)
    exact (good index draft found).1
  · rintro ⟨⟨someChunks, few, distinct, numberable⟩, rfl⟩
    have count := @toNat_ofNat_of_lt drafts.length (by omega)
    refine ⟨someChunks, _, count, count.symm ▸ few, distinct,
      fun index draft found => ?_, rfl⟩
    have before := (List.getElem?_eq_some_iff.mp found).1
    rw [length_sortByKey] at before
    exact ⟨numberable draft (mem_sortByKey.mp (List.mem_of_getElem? found)),
      by omega⟩

/-- The order of the drafts does not matter. -/
theorem assignChunkIds_eq_of_perm
    {other : List LogicalChunkDraft}
    (same : drafts.Perm other) :
    assignChunkIds drafts maxChunks = assignChunkIds other maxChunks := by
  unfold assignChunkIds
  rw [same.length_eq]
  by_cases distinct : (drafts.map LogicalChunkDraft.positionKey).Nodup
  · rw [sortByKey_eq_of_perm distinct same]
  · have notChain := isChain_sortByKey_iff.not.mpr distinct
    have otherNotChain := isChain_sortByKey_iff.not.mpr
      ((same.map LogicalChunkDraft.positionKey).nodup_iff.not.mp distinct)
    simp only [ensure_of_not notChain, ensure_of_not otherNotChain, error_bind]

/-- Chunk id assignment gives the same result for every order of the drafts.  It
succeeds exactly when there are not too many drafts, no two share a position and
each is well formed, and then numbers them in strictly increasing order of
their positions. -/
theorem assignChunkIds_canonical
    (drafts : List LogicalChunkDraft)
    (maxChunks : UInt64) :
    (∀ other, drafts.Perm other →
      assignChunkIds other maxChunks = assignChunkIds drafts maxChunks) ∧
    ((∃ chunks, assignChunkIds drafts maxChunks = .ok chunks) ↔
      0 < maxChunks.toNat ∧ drafts.length ≤ maxChunks.toNat ∧
        (drafts.map LogicalChunkDraft.position).Nodup ∧
        (∀ draft ∈ drafts, draft.length = 0 → draft.method = .microFile) ∧
        ∀ draft ∈ drafts,
          draft.logicalOffset.toNat + draft.length.toNat < 2 ^ 64) ∧
    ∀ chunks, assignChunkIds drafts maxChunks = .ok chunks →
      (chunks.map LogicalChunk.draft).Perm drafts ∧
        (chunks.map LogicalChunk.draft).Pairwise (fun left right =>
          left.positionKey < right.positionKey) ∧
        ∀ (index : Nat) (chunk : LogicalChunk), chunks[index]? = some chunk →
          chunk.chunkId.toNat = index := by
  refine ⟨fun other same => (assignChunkIds_eq_of_perm same).symm, ?_, ?_⟩
  · simp only [assignChunkIds_eq_ok, exists_and_left, exists_eq, and_true]
    refine and_congr_right fun _ => and_congr_right fun _ =>
      and_congr_right fun _ => ⟨fun numberable => ?_, fun both draft member => ?_⟩
    · exact ⟨fun draft member => (numberable draft member).notEmpty,
        fun draft member => (numberable draft member).fits⟩
    · exact ⟨both.1 draft member, both.2 draft member⟩
  · intro chunks succeeded
    obtain ⟨⟨_, few, distinct, _⟩, rfl⟩ := assignChunkIds_eq_ok.mp succeeded
    have isSorted : ((sortByKey LogicalChunkDraft.positionKey drafts).mapIdx
        fun index draft => draft.withId (UInt64.ofNat index)).map
          LogicalChunk.draft =
        sortByKey LogicalChunkDraft.positionKey drafts := by
      refine List.ext_getElem? fun index => ?_
      simp [Function.comp_def]
    rw [isSorted]
    refine ⟨sortByKey_perm _ _,
      sortByKey_pairwise_lt (nodup_positionKey_iff.mpr distinct), ?_⟩
    intro index chunk found
    obtain ⟨draft, isDraft, rfl⟩ :
        ∃ draft, (sortByKey LogicalChunkDraft.positionKey drafts)[index]? =
          some draft ∧ draft.withId (UInt64.ofNat index) = chunk := by
      simpa using found
    have before := (List.getElem?_eq_some_iff.mp isDraft).1
    have maxBound := maxChunks.toNat_lt
    rw [length_sortByKey] at before
    exact toNat_ofNat_of_lt (by omega)

end Numbering

end Pithos
