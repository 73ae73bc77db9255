import Pithos.Analysis.Coverage

/-!
# Regions

A scanner gives the ends of regions.  The chunker makes one chunk of a small
region and cuts a large one on its own, with what is left of the limit on the
number of chunks.  It succeeds exactly when the ends are right and the object
and the number of chunks are within the limits; its chunks then tile the object
and none crosses the end of a region.
-/

namespace Pithos

open Fallible
open Machine
open Layout

/-- Ends of regions that increase strictly from above zero to the size of the
object; an empty object has none. -/
structure BoundaryEnds (boundaryEnds : List UInt64) (size : Nat) : Prop where
  increasing : boundaryEnds.Pairwise (· < ·)
  positive : ∀ boundary ∈ boundaryEnds, 0 < boundary
  endsAtSize : (boundaryEnds.getLast?.getD 0).toNat = size

/-- The regions with the given ends, as spans. -/
def regions : Nat → List UInt64 → List (Nat × Nat)
  | _, [] => []
  | start, stop :: boundaryEnds =>
      (start, stop.toNat - start) :: regions stop.toNat boundaryEnds

/-- The lengths of the chunks of one region. -/
def regionLengths
    (cdc : FastCdc)
    (config : ChunkingConfig)
    (data : List UInt8)
    (region : Nat × Nat) : List Nat :=
  if region.2 ≤ config.fastcdcMax.toNat then [region.2]
  else config.cutLengths cdc (Bytes.slice data region.1 region.2)

/-- The lengths of the chunks of all regions. -/
def structuralLengths
    (cdc : FastCdc)
    (config : ChunkingConfig)
    (data : List UInt8)
    (boundaryEnds : List UInt64) : List Nat :=
  (regions 0 boundaryEnds).flatMap (regionLengths cdc config data)

section Boundaries

variable {boundaryEnds : List UInt64} {size : Nat}

theorem BoundaryEnds.le
    (ends : BoundaryEnds boundaryEnds size)
    {boundary : UInt64}
    (member : boundary ∈ boundaryEnds) :
    boundary.toNat ≤ size := by
  rcases List.eq_nil_or_concat' boundaryEnds with rfl | ⟨front, last, rfl⟩
  · cases member
  · have isSize := ends.endsAtSize
    rw [List.getLast?_concat, Option.getD_some] at isSize
    rcases List.mem_append.mp member with before | isLast
    · have below := (List.pairwise_append.mp ends.increasing).2.2 boundary
        before last (List.mem_singleton_self last)
      rw [UInt64.lt_iff_toNat_lt] at below
      omega
    · rw [List.mem_singleton.mp isLast]
      exact Nat.le_of_eq isSize

theorem BoundaryEnds.eq_nil_iff (ends : BoundaryEnds boundaryEnds size) :
    boundaryEnds = [] ↔ size = 0 := by
  have isSize := ends.endsAtSize
  constructor
  · rintro rfl
    rw [← isSize]
    rfl
  · rintro rfl
    rcases List.eq_nil_or_concat' boundaryEnds with rfl | ⟨front, last, rfl⟩
    · rfl
    · rw [List.getLast?_concat, Option.getD_some] at isSize
      have positive := ends.positive last (by simp)
      rw [UInt64.lt_iff_toNat_lt, isSize] at positive
      exact absurd positive (Nat.not_lt_zero _)

private theorem forEnum_boundaries_eq_ok
    {position : Nat}
    {logicalSize previous : UInt64} :
    (∃ last, forEnum (fun _ (boundary : UInt64) previous => (do
        ensure (previous < boundary ∧ boundary ≤ logicalSize)
          (.invalidMetadata "structural boundaries")
        .ok boundary : Result UInt64)) position boundaryEnds previous =
          .ok last) ↔
      (previous :: boundaryEnds).Pairwise (· < ·) ∧
        ∀ boundary ∈ boundaryEnds, boundary ≤ logicalSize := by
  induction boundaryEnds generalizing position previous with
  | nil => simp
  | cons boundary boundaryEnds inductionHypothesis =>
      simp only [forEnum_cons, bind_eq_ok, ensure_eq_ok, exists_const,
        Except.ok.injEq, List.mem_cons, forall_eq_or_imp]
      constructor
      · rintro ⟨last, _, ⟨⟨above, inside⟩, rfl⟩, rest⟩
        obtain ⟨increasing, allInside⟩ := inductionHypothesis.mp ⟨last, rest⟩
        refine ⟨List.pairwise_cons.mpr ⟨?_, increasing⟩, inside, allInside⟩
        intro later member
        rcases List.mem_cons.mp member with rfl | member
        · exact above
        · exact UInt64.lt_trans above
            ((List.pairwise_cons.mp increasing).1 later member)
      · rintro ⟨increasing, inside, allInside⟩
        obtain ⟨above, increasing⟩ := List.pairwise_cons.mp increasing
        obtain ⟨last, rest⟩ :=
          (@inductionHypothesis (position + 1) boundary).mpr
            ⟨increasing, allInside⟩
        exact ⟨last, boundary, ⟨⟨above boundary List.mem_cons_self, inside⟩,
          rfl⟩, rest⟩

/-- The checks of the ends of the regions. -/
theorem validateBoundaryEnds_eq_ok
    {logicalSize : UInt64}
    (someBytes : 0 < logicalSize.toNat) :
    validateBoundaryEnds boundaryEnds logicalSize = .ok () ↔
      BoundaryEnds boundaryEnds logicalSize.toNat := by
  simp only [validateBoundaryEnds, bind_eq_ok, ensure_eq_ok, exists_const,
    and_true, forEnum_boundaries_eq_ok, List.pairwise_cons]
  constructor
  · rintro ⟨⟨_, last⟩, ⟨positive, increasing⟩, _⟩
    exact ⟨increasing, positive, by rw [last, Option.getD_some]⟩
  · intro ends
    have nonempty : boundaryEnds ≠ [] := fun none => by
      have isZero := ends.eq_nil_iff.mp none
      omega
    refine ⟨⟨nonempty, ?_⟩, ⟨ends.positive, ends.increasing⟩,
      fun boundary member => UInt64.le_iff_toNat_le.mpr (ends.le member)⟩
    have isLast := ends.endsAtSize
    rw [List.getLast?_eq_some_getLast nonempty, Option.getD_some,
      UInt64.toNat_inj] at isLast
    rw [List.getLast?_eq_some_getLast nonempty, isLast]

end Boundaries

section Structural

variable
  {cdc : FastCdc}
  {config : ChunkingConfig}
  {origin : ChunkOrigin}
  {data : List UInt8}
  {boundaryEnds : List UInt64}
  {result : List LogicalChunkDraft}

/-- The chunks of a region make it up, and none is empty or too large. -/
theorem sum_regionLengths
    (lawful : cdc.Lawful)
    (valid : config.Valid cdc)
    {region : Nat × Nat}
    (inside : region.1 + region.2 ≤ data.length) :
    (regionLengths cdc config data region).sum = region.2 := by
  rw [regionLengths]
  split
  · simp
  · rw [lawful.sum_cutLengths valid, Bytes.length_slice inside]

theorem of_mem_regionLengths
    (lawful : cdc.Lawful)
    (valid : config.Valid cdc)
    {region : Nat × Nat}
    {length : Nat}
    (positive : 0 < region.2)
    (member : length ∈ regionLengths cdc config data region) :
    0 < length ∧ length ≤ config.fastcdcMax.toNat := by
  rw [regionLengths] at member
  split at member
  · rename_i small
    rw [List.mem_singleton.mp member]
    exact ⟨positive, small⟩
  · exact lawful.of_mem_cutLengths valid member

theorem regionLengths_ne_nil
    (lawful : cdc.Lawful)
    (valid : config.Valid cdc)
    {region : Nat × Nat}
    (positive : 0 < region.2)
    (inside : region.1 + region.2 ≤ data.length) :
    regionLengths cdc config data region ≠ [] := by
  intro none
  have sum := sum_regionLengths lawful valid inside
  rw [none, List.sum_nil] at sum
  omega

/-- A limit on the number of chunks or bytes does not change the cuts. -/
theorem cutLengths_sub
    (config : ChunkingConfig)
    (maxChunks maxLogicalBytes : UInt64) :
    ChunkingConfig.cutLengths cdc { config with
      maxChunks := maxChunks, maxLogicalBytes := maxLogicalBytes } data =
        config.cutLengths cdc data := rfl

/-- The limit that is left for the chunks of a region. -/
theorem exists_remainingLimit
    {maxChunks : UInt64}
    {count : Nat}
    (room : count < maxChunks.toNat) :
    ∃ word limit : UInt64, word.toNat = count ∧
      maxChunks.toNat = word.toNat + limit.toNat ∧ limit ≠ 0 := by
  have bound := maxChunks.toNat_lt
  have word := @toNat_ofNat_of_lt count (by omega)
  have limit := @toNat_ofNat_of_lt (maxChunks.toNat - count) (by omega)
  refine ⟨UInt64.ofNat count, UInt64.ofNat (maxChunks.toNat - count), word,
    by omega, fun none => ?_⟩
  rw [none] at limit
  have zero : (0 : UInt64).toNat = 0 := rfl
  omega

/-- The chunks of a region, moved to where it starts. -/
theorem map_structural_drafts
    {baseOffset regionStart : UInt64}
    (isBase : addU64 origin.baseOffset regionStart = .ok baseOffset)
    (lengths : List Nat) :
    (ChunkOrigin.drafts { origin with baseOffset := baseOffset }
        .fastCdcV2020 lengths).map (fun chunk => { chunk with
          method := .structural }) =
      (layOut regionStart.toNat lengths).map (origin.draft .structural) := by
  have baseValue := addU64_eq_ok.mp isBase
  have isOffset : baseOffset =
      UInt64.ofNat (origin.baseOffset.toNat + regionStart.toNat) := by
    rw [baseValue, UInt64.ofNat_toNat]
  rw [isOffset, ChunkOrigin.drafts_from lengths
    (baseValue ▸ baseOffset.toNat_lt), List.map_map]
  rfl

/-- A region is chunked exactly when there is room for its chunks. -/
theorem chunkRegion_eq_ok
    (lawful : cdc.Lawful)
    (valid : config.Valid cdc)
    (fits : origin.baseOffset.toNat + data.length < 2 ^ 64)
    {regionStart regionEnd : UInt64}
    {chunks : List LogicalChunkDraft}
    (above : regionStart.toNat < regionEnd.toNat)
    (inside : regionEnd.toNat ≤ data.length) :
    chunkRegion cdc data origin config regionEnd regionStart chunks =
        .ok result ↔
      chunks.length + (regionLengths cdc config data
          (regionStart.toNat, regionEnd.toNat - regionStart.toNat)).length ≤
        config.maxChunks.toNat ∧
      result = chunks ++ (layOut regionStart.toNat
        (regionLengths cdc config data
          (regionStart.toNat, regionEnd.toNat - regionStart.toNat))).map
            (origin.draft .structural) := by
  obtain ⟨regionLen, isLen⟩ : ∃ regionLen,
      checkedSub regionEnd regionStart = some regionLen :=
    ⟨_, if_pos (Nat.le_of_lt above)⟩
  have lenValue := checkedSub_eq_some.mp isLen
  have isRest : regionEnd.toNat - regionStart.toNat = regionLen.toNat := by
    omega
  have maxBound := config.fastcdcMax.toNat_lt
  rw [chunkRegion, isLen, okOr_some, ok_bind, isRest]
  by_cases small : regionLen ≤ config.fastcdcMax.toUInt64
  · rw [if_pos small, pushRelativeChunk_eq_ok]
    rw [UInt64.le_iff_toNat_le, UInt32.toNat_toUInt64] at small
    rw [regionLengths, if_pos small]
    simp only [List.length_singleton, layOut_cons, layOut_nil, List.map_cons,
      List.map_nil]
    refine and_congr_left fun _ => ⟨fun ⟨room, _⟩ => room, fun room => ?_⟩
    exact ⟨room, by omega, by omega, by omega⟩
  · rw [if_neg small]
    rw [UInt64.le_iff_toNat_le, UInt32.toNat_toUInt64] at small
    rw [regionLengths, if_neg small]
    have sliceLength : (Bytes.slice data regionStart.toNat
        regionLen.toNat).length = regionLen.toNat :=
      Bytes.length_slice (by omega)
    have someCuts : config.cutLengths cdc
        (Bytes.slice data regionStart.toNat regionLen.toNat) ≠ [] := by
      intro none
      have sum := lawful.sum_cutLengths valid
        (Bytes.slice data regionStart.toNat regionLen.toNat)
      rw [none, sliceLength, List.sum_nil] at sum
      omega
    have cutsPositive := List.length_pos_iff.mpr someCuts
    have someBytes : regionLen ≠ 0 := by
      intro none
      rw [none] at small
      exact small (Nat.zero_le _)
    obtain ⟨baseOffset, isBase⟩ := exists_addU64_eq_ok.mpr
      (show origin.baseOffset.toNat + regionStart.toNat < 2 ^ 64 by omega)
    have baseValue := addU64_eq_ok.mp isBase
    have moved := map_structural_drafts isBase
    simp only [bind_eq_ok, tryU64_eq_ok, okOr_eq_ok, checkedSub_eq_some,
      ensure_eq_ok, exists_const, isBase, Except.ok.injEq]
    constructor
    · rintro ⟨count, isCount, limit, isLimit, someRoom, _, rfl, subchunks,
        chunked, rfl⟩
      rw [chunkFastcdc_eq_ok lawful (valid.sub someRoom someBytes)] at chunked
      obtain ⟨_, _, few, rfl⟩ := chunked
      rw [cutLengths_sub] at few
      simp only at few
      exact ⟨by omega, by rw [moved, cutLengths_sub]⟩
    · rintro ⟨room, rfl⟩
      obtain ⟨count, limit, isCount, isLimit, someRoom⟩ :=
        @exists_remainingLimit config.maxChunks chunks.length (by omega)
      refine ⟨count, isCount, limit, isLimit, someRoom, _, rfl, _,
        (chunkFastcdc_eq_ok lawful (valid.sub someRoom someBytes)).mpr
          ⟨?_, ?_, ?_, rfl⟩, ?_⟩
      · exact Nat.le_of_eq sliceLength
      · rw [sliceLength]
        simp only
        omega
      · rw [cutLengths_sub]
        simp only
        omega
      · rw [cutLengths_sub, moved]

/-- The regions follow one another. -/
theorem forEnum_chunkRegion_eq_ok
    (lawful : cdc.Lawful)
    (valid : config.Valid cdc)
    (fits : origin.baseOffset.toNat + data.length < 2 ^ 64)
    {position : Nat}
    {start : UInt64}
    {chunks : List LogicalChunkDraft}
    (increasing : (start :: boundaryEnds).Pairwise (· < ·))
    (inside : ∀ boundary ∈ boundaryEnds, boundary.toNat ≤ data.length)
    (room : chunks.length ≤ config.maxChunks.toNat) :
    (∃ last, forEnum
        (fun _ regionEnd (state : UInt64 × List LogicalChunkDraft) => (do
          let chunks ← chunkRegion cdc data origin config regionEnd state.1
            state.2
          .ok (regionEnd, chunks) :
            Result (UInt64 × List LogicalChunkDraft)))
        position boundaryEnds (start, chunks) = .ok (last, result)) ↔
      chunks.length + ((regions start.toNat boundaryEnds).flatMap
          (regionLengths cdc config data)).length ≤ config.maxChunks.toNat ∧
        result = chunks ++ (layOut start.toNat
          ((regions start.toNat boundaryEnds).flatMap
            (regionLengths cdc config data))).map
              (origin.draft .structural) := by
  induction boundaryEnds generalizing position start chunks with
  | nil => simp [regions, room, eq_comm]
  | cons regionEnd boundaryEnds inductionHypothesis =>
      obtain ⟨below, increasing⟩ := List.pairwise_cons.mp increasing
      have above := UInt64.lt_iff_toNat_lt.mp
        (below regionEnd List.mem_cons_self)
      have endInside := inside regionEnd List.mem_cons_self
      have laterInside (boundary : UInt64) (member : boundary ∈ boundaryEnds) :=
        inside boundary (List.mem_cons_of_mem _ member)
      have sum := @sum_regionLengths _ _ data lawful valid
        (start.toNat, regionEnd.toNat - start.toNat) (by simp only; omega)
      have next : start.toNat + (regionEnd.toNat - start.toNat) =
          regionEnd.toNat := by omega
      simp only [forEnum_cons, bind_eq_ok, Except.ok.injEq,
        chunkRegion_eq_ok lawful valid fits above endInside, regions,
        List.flatMap_cons, List.length_append, layOut_append, sum, next,
        List.map_append]
      constructor
      · rintro ⟨last, _, ⟨_, ⟨fewer, rfl⟩, rfl⟩, rest⟩
        have rest := (@inductionHypothesis (position + 1) _ _ increasing
          laterInside (by simpa using fewer)).mp ⟨last, rest⟩
        rw [List.length_append, List.length_map, length_layOut] at rest
        exact ⟨by omega, by rw [rest.2, List.append_assoc]⟩
      · rintro ⟨fewer, rfl⟩
        obtain ⟨last, rest⟩ := (@inductionHypothesis (position + 1) _
          (chunks ++ (layOut start.toNat (regionLengths cdc config data
            (start.toNat, regionEnd.toNat - start.toNat))).map
              (origin.draft .structural)) increasing laterInside (by
            rw [List.length_append, List.length_map, length_layOut]
            omega)).mpr ⟨by
              rw [List.length_append, List.length_map, length_layOut]
              omega, (List.append_assoc _ _ _).symm⟩
        exact ⟨last, _, ⟨_, ⟨by omega, rfl⟩, rfl⟩, rest⟩

/-- The regions tile the range up to the last end. -/
theorem tiles_regions
    {start : UInt64}
    (increasing : (start :: boundaryEnds).Pairwise (· < ·)) :
    Tiles start.toNat (regions start.toNat boundaryEnds)
      (boundaryEnds.getLast?.getD start).toNat := by
  induction boundaryEnds generalizing start with
  | nil => rfl
  | cons regionEnd boundaryEnds inductionHypothesis =>
      obtain ⟨below, increasing⟩ := List.pairwise_cons.mp increasing
      have above := UInt64.lt_iff_toNat_lt.mp
        (below regionEnd List.mem_cons_self)
      refine ⟨rfl, ?_⟩
      rw [List.getLast?_cons, Option.getD_some,
        Nat.add_sub_cancel' (Nat.le_of_lt above)]
      exact inductionHypothesis increasing

theorem regions_pos
    {start : UInt64}
    {region : Nat × Nat}
    (increasing : (start :: boundaryEnds).Pairwise (· < ·))
    (member : region ∈ regions start.toNat boundaryEnds) :
    0 < region.2 := by
  induction boundaryEnds generalizing start with
  | nil => cases member
  | cons regionEnd boundaryEnds inductionHypothesis =>
      obtain ⟨below, increasing⟩ := List.pairwise_cons.mp increasing
      have above := UInt64.lt_iff_toNat_lt.mp
        (below regionEnd List.mem_cons_self)
      rcases List.mem_cons.mp member with rfl | later
      · simp only
        omega
      · exact inductionHypothesis increasing later

theorem regions_append
    {start : Nat}
    (front : List UInt64)
    (boundary : UInt64)
    (back : List UInt64) :
    regions start (front ++ boundary :: back) =
      regions start (front ++ [boundary]) ++ regions boundary.toNat back := by
  induction front generalizing start with
  | nil => rfl
  | cons first front inductionHypothesis =>
      simp [regions, inductionHypothesis]

@[simp] theorem length_regions (start : Nat) (boundaryEnds : List UInt64) :
    (regions start boundaryEnds).length = boundaryEnds.length := by
  induction boundaryEnds generalizing start with
  | nil => rfl
  | cons boundary boundaryEnds inductionHypothesis =>
      simp [regions, inductionHypothesis]

section Ends

variable
  (lawful : cdc.Lawful)
  (valid : config.Valid cdc)
  (ends : BoundaryEnds boundaryEnds data.length)

include ends

theorem BoundaryEnds.tiles :
    Tiles 0 (regions 0 boundaryEnds) data.length := by
  have tiles := @tiles_regions boundaryEnds 0
    (List.pairwise_cons.mpr ⟨ends.positive, ends.increasing⟩)
  rw [ends.endsAtSize] at tiles
  exact tiles

theorem BoundaryEnds.region_pos
    {region : Nat × Nat}
    (member : region ∈ regions 0 boundaryEnds) :
    0 < region.2 :=
  @regions_pos boundaryEnds 0 region
    (List.pairwise_cons.mpr ⟨ends.positive, ends.increasing⟩) member

include lawful valid

/-- The chunks of some of the regions make them up. -/
theorem sum_flatMap_regionLengths
    {some : List (Nat × Nat)}
    (among : some ⊆ regions 0 boundaryEnds) :
    (some.flatMap (regionLengths cdc config data)).sum =
      (some.map (·.2)).sum := by
  induction some with
  | nil => rfl
  | cons region some inductionHypothesis =>
      have inside := (ends.tiles.inside (among List.mem_cons_self)).2
      rw [List.flatMap_cons, List.sum_append, List.map_cons, List.sum_cons,
        sum_regionLengths lawful valid inside, inductionHypothesis fun region
          member => among (List.mem_cons_of_mem _ member)]

theorem sum_structuralLengths :
    (structuralLengths cdc config data boundaryEnds).sum = data.length := by
  have size := (tiles_iff.mp ends.tiles).2
  rw [Nat.zero_add] at size
  rw [structuralLengths, sum_flatMap_regionLengths lawful valid ends
    (List.Subset.refl _), size]

theorem of_mem_structuralLengths
    {length : Nat}
    (member : length ∈ structuralLengths cdc config data boundaryEnds) :
    0 < length ∧ length ≤ config.fastcdcMax.toNat := by
  obtain ⟨region, isRegion, isLength⟩ := List.mem_flatMap.mp member
  exact of_mem_regionLengths lawful valid (ends.region_pos isRegion) isLength

/-- There are at least as many chunks as regions. -/
theorem length_le_structuralLengths :
    boundaryEnds.length ≤
      (structuralLengths cdc config data boundaryEnds).length := by
  rw [structuralLengths, List.length_flatMap, ← length_regions 0,
    ← List.length_map (f := fun region =>
      (regionLengths cdc config data region).length)]
  refine List.length_le_sum_of_one_le _ fun count member => ?_
  obtain ⟨region, isRegion, rfl⟩ := List.mem_map.mp member
  exact List.length_pos_iff.mpr (regionLengths_ne_nil lawful valid
    (ends.region_pos isRegion) (ends.tiles.inside isRegion).2)

/-- The chunks up to an end of a region are the chunks of the regions up to
it. -/
theorem structuralLengths_split
    {boundary : UInt64}
    (member : boundary ∈ boundaryEnds) :
    ∃ first second, structuralLengths cdc config data boundaryEnds =
        first ++ second ∧ first.sum = boundary.toNat ∧ first ≠ [] := by
  obtain ⟨front, back, split⟩ := List.append_of_mem member
  have increasing : ((0 : UInt64) :: (front ++ [boundary])).Pairwise
      (· < ·) := by
    have front : front ++ [boundary] <+: boundaryEnds :=
      ⟨back, by simp [split]⟩
    exact (List.pairwise_cons.mpr ⟨ends.positive, ends.increasing⟩).sublist
      (front.sublist.cons_cons 0)
  have upTo := (tiles_iff.mp (tiles_regions increasing)).2
  rw [List.getLast?_concat, Option.getD_some] at upTo
  have among : regions 0 (front ++ [boundary]) ⊆ regions 0 boundaryEnds := by
    rw [split, regions_append front boundary back]
    exact List.subset_append_left _ _
  have sum := sum_flatMap_regionLengths lawful valid ends among
  have isBoundary : ((regions 0 (front ++ [boundary])).flatMap
      (regionLengths cdc config data)).sum = boundary.toNat := by
    have zero : (0 : UInt64).toNat = 0 := rfl
    rw [zero, Nat.zero_add] at upTo
    rw [sum, upTo]
  refine ⟨_, (regions boundary.toNat back).flatMap
    (regionLengths cdc config data), ?_, isBoundary, ?_⟩
  · rw [structuralLengths, split, regions_append, List.flatMap_append]
  · intro none
    have positive := UInt64.lt_iff_toNat_lt.mp (ends.positive boundary member)
    have zero : (0 : UInt64).toNat = 0 := rfl
    rw [none, List.sum_nil] at isBoundary
    omega

end Ends

/-- Structural chunking succeeds exactly when the ends are right and the object
and the number of chunks are within the limits. -/
theorem chunkStructural_eq_ok
    (lawful : cdc.Lawful)
    (valid : config.Valid cdc) :
    chunkStructural cdc data origin boundaryEnds config = .ok result ↔
      (BoundaryEnds boundaryEnds data.length ∧
        data.length ≤ config.maxLogicalBytes.toNat ∧
        origin.baseOffset.toNat + data.length < 2 ^ 64 ∧
        (structuralLengths cdc config data boundaryEnds).length ≤
          config.maxChunks.toNat) ∧
      result = origin.drafts .structural
        (structuralLengths cdc config data boundaryEnds) := by
  have regionsPushed (fits : origin.baseOffset.toNat + data.length < 2 ^ 64)
      (ends : BoundaryEnds boundaryEnds data.length)
      (chunks : List LogicalChunkDraft) :=
    @forEnum_chunkRegion_eq_ok _ _ origin data boundaryEnds chunks lawful valid
      fits 0 0 [] (List.pairwise_cons.mpr ⟨ends.positive, ends.increasing⟩)
      (fun _ member => ends.le member) (Nat.zero_le _)
  have zero : (0 : UInt64).toNat = 0 := rfl
  simp only [List.length_nil, zero, Nat.zero_add, List.nil_append]
    at regionsPushed
  simp only [chunkStructural, valid.validate, ok_bind, bind_eq_ok,
    tryU64_eq_ok, ensureLogicalSize, ensure_eq_ok, exists_const,
    UInt64.le_iff_toNat_le]
  by_cases empty : data = []
  · simp only [if_pos empty, bind_eq_ok, ensure_eq_ok, exists_const,
      Except.ok.injEq]
    subst empty
    constructor
    · rintro ⟨size, isSize, small, stop, isStop, rfl, rfl⟩
      have fits := exists_addU64_eq_ok.mp ⟨stop, isStop⟩
      rw [isSize] at small fits
      exact ⟨⟨⟨List.Pairwise.nil, nofun, rfl⟩, small, fits, Nat.zero_le _⟩, rfl⟩
    · rintro ⟨⟨ends, small, fits, -⟩, rfl⟩
      have none := ends.eq_nil_iff.mpr rfl
      subst none
      obtain ⟨stop, isStop⟩ := (@exists_addU64_eq_ok origin.baseOffset 0).mpr
        fits
      exact ⟨0, rfl, Nat.zero_le _, stop, isStop, rfl, rfl⟩
  · have someBytes : 0 < data.length := List.length_pos_iff.mpr empty
    simp only [if_neg empty, bind_eq_ok, tryU64_eq_ok, ensureChunkCount,
      ensure_eq_ok, exists_const, UInt64.le_iff_toNat_le, Except.ok.injEq]
    constructor
    · rintro ⟨size, isSize, small, stop, isStop, count, isCount, _, done,
        checked, ⟨last, chunks⟩, pushed, _, _, rfl⟩
      have fits := exists_addU64_eq_ok.mp ⟨stop, isStop⟩
      have ends := (validateBoundaryEnds_eq_ok (isSize ▸ someBytes)).mp checked
      rw [isSize] at small fits ends
      obtain ⟨few, isChunks⟩ := (regionsPushed fits ends chunks).mp
        ⟨last, pushed⟩
      exact ⟨⟨ends, small, fits, few⟩, isChunks⟩
    · rintro ⟨⟨ends, small, fits, few⟩, rfl⟩
      have size := @toNat_ofNat_of_lt data.length (by omega)
      have countFew := length_le_structuralLengths lawful valid ends
      have maxBound := config.maxChunks.toNat_lt
      have count := @toNat_ofNat_of_lt boundaryEnds.length (by omega)
      obtain ⟨stop, isStop⟩ := exists_addU64_eq_ok.mpr (size.symm ▸ fits)
      obtain ⟨last, pushed⟩ := (regionsPushed fits ends _).mpr ⟨few, rfl⟩
      refine ⟨_, size, size.symm ▸ small, stop, isStop, _, count,
        count.symm ▸ Nat.le_trans countFew few, (),
        (validateBoundaryEnds_eq_ok (size.symm ▸ someBytes)).mpr
          (size.symm ▸ ends), _, pushed, (), ?_, rfl⟩
      refine validateChunkCoverage_drafts (size.symm ▸ fits)
        ((sum_structuralLengths lawful valid ends).trans size.symm) ?_
      intro length member
      have bounded := of_mem_structuralLengths lawful valid ends member
      have largest := config.fastcdcMax.toNat_lt
      exact ⟨bounded.1, by omega⟩

end Structural

/-! ## Exact coverage -/

/-- The chunks lie in order over the object and nothing else, and none is empty
or longer than `most`. -/
structure ChunkOrigin.CoveredBy
    (origin : ChunkOrigin)
    (size most : Nat)
    (chunks : List LogicalChunkDraft) : Prop where
  tiles : Tiles origin.baseOffset.toNat (chunks.map (·.span))
    (origin.baseOffset.toNat + size)
  ids : ∀ chunk ∈ chunks, chunk.entryId = origin.entryId ∧
    chunk.objectId = origin.objectId
  bounded : ∀ chunk ∈ chunks, 1 ≤ chunk.length.toNat ∧
    chunk.length.toNat ≤ most

theorem ChunkOrigin.coveredBy_drafts
    {origin : ChunkOrigin}
    {method : ChunkingMethod}
    {lengths : List Nat}
    {size most : Nat}
    (fits : origin.baseOffset.toNat + size < 2 ^ 64)
    (whole : lengths.sum = size)
    (small : most < 2 ^ 32)
    (bounded : ∀ length ∈ lengths, 0 < length ∧ length ≤ most) :
    origin.CoveredBy size most (origin.drafts method lengths) where
  tiles := by
    rw [ChunkOrigin.map_span_drafts (whole ▸ fits) fun length member =>
      Nat.lt_of_le_of_lt (bounded length member).2 small, ← whole]
    exact tiles_layOut _ _
  ids := by
    intro chunk member
    obtain ⟨span, -, rfl⟩ := List.mem_map.mp member
    exact ⟨rfl, rfl⟩
  bounded := by
    intro chunk member
    obtain ⟨span, isSpan, rfl⟩ := List.mem_map.mp member
    have isLength : span.2 ∈ lengths := by
      rw [← map_snd_layOut 0 lengths]
      exact List.mem_map_of_mem isSpan
    have both := bounded _ isLength
    rw [ChunkOrigin.draft, UInt32.toNat_ofNat', Nat.mod_eq_of_lt (by omega)]
    exact both

/-- At the end of a region a chunk ends, and no chunk crosses it. -/
theorem drafts_at_boundary
    {cdc : FastCdc}
    {config : ChunkingConfig}
    {origin : ChunkOrigin}
    {data : List UInt8}
    {boundaryEnds : List UInt64}
    {boundary : UInt64}
    (lawful : cdc.Lawful)
    (valid : config.Valid cdc)
    (ends : BoundaryEnds boundaryEnds data.length)
    (fits : origin.baseOffset.toNat + data.length < 2 ^ 64)
    (member : boundary ∈ boundaryEnds) :
    let spans := (origin.drafts .structural
      (structuralLengths cdc config data boundaryEnds)).map (·.span)
    let cut := origin.baseOffset.toNat + boundary.toNat
    (∃ span ∈ spans, span.1 + span.2 = cut) ∧
      ∀ span ∈ spans, span.1 + span.2 ≤ cut ∨ cut ≤ span.1 := by
  intro spans cut
  have sum := sum_structuralLengths lawful valid ends
  have isLayOut : spans = layOut origin.baseOffset.toNat
      (structuralLengths cdc config data boundaryEnds) := by
    refine ChunkOrigin.map_span_drafts (sum.symm ▸ fits) fun length isLength => ?_
    have bounded := of_mem_structuralLengths lawful valid ends isLength
    have largest := config.fastcdcMax.toNat_lt
    omega
  obtain ⟨first, second, split, isBoundary, nonempty⟩ :=
    structuralLengths_split lawful valid ends member
  rw [isLayOut, split]
  have isCut : cut = origin.baseOffset.toNat + first.sum := by
    rw [isBoundary]
  rw [isCut]
  exact ⟨exists_ends_of_layOut second nonempty,
    fun span isSpan => apart_of_mem_layOut isSpan⟩

/-- Chunking is exact coverage.  Structural chunking succeeds exactly when the
ends are right and the size, the offset and the number of chunks are within the
limits, and then covers the object with chunks that keep every end; blocks of
one size are made exactly within the same limits, and all but the last are
whole. -/
theorem chunking_covers
    {cdc : FastCdc}
    {config : ChunkingConfig}
    (lawful : cdc.Lawful)
    (valid : config.Valid cdc)
    (data : List UInt8)
    (logicalSize : UInt64)
    (origin : ChunkOrigin)
    (boundaryEnds : List UInt64) :
    ((∃ chunks, chunkStructural cdc data origin boundaryEnds config =
        .ok chunks) ↔
      BoundaryEnds boundaryEnds data.length ∧
        data.length ≤ config.maxLogicalBytes.toNat ∧
        origin.baseOffset.toNat + data.length < 2 ^ 64 ∧
        (structuralLengths cdc config data boundaryEnds).length ≤
          config.maxChunks.toNat) ∧
    (∀ chunks, chunkStructural cdc data origin boundaryEnds config =
        .ok chunks →
      origin.CoveredBy data.length config.fastcdcMax.toNat chunks ∧
        ∀ boundary ∈ boundaryEnds,
          (∃ span ∈ chunks.map (·.span), span.1 + span.2 =
            origin.baseOffset.toNat + boundary.toNat) ∧
          ∀ span ∈ chunks.map (·.span),
            span.1 + span.2 ≤ origin.baseOffset.toNat + boundary.toNat ∨
              origin.baseOffset.toNat + boundary.toNat ≤ span.1) ∧
    ((∃ chunks, chunkFixedHighEntropy cdc logicalSize origin config =
        .ok chunks) ↔
      logicalSize.toNat ≤ config.maxLogicalBytes.toNat ∧
        origin.baseOffset.toNat + logicalSize.toNat < 2 ^ 64 ∧
        (logicalSize.toNat + config.highEntropyFixed.toNat - 1) /
          config.highEntropyFixed.toNat ≤ config.maxChunks.toNat) ∧
    ∀ chunks, chunkFixedHighEntropy cdc logicalSize origin config =
        .ok chunks →
      origin.CoveredBy logicalSize.toNat config.highEntropyFixed.toNat chunks ∧
        ∀ chunk ∈ chunks.dropLast, chunk.length = config.highEntropyFixed := by
  have positive := valid.block_pos
  refine ⟨?_, ?_, ?_, ?_⟩
  · simp only [chunkStructural_eq_ok lawful valid, exists_and_left, exists_eq,
      and_true]
  · intro chunks succeeded
    obtain ⟨⟨ends, _, fits, _⟩, rfl⟩ :=
      (chunkStructural_eq_ok lawful valid).mp succeeded
    refine ⟨ChunkOrigin.coveredBy_drafts fits
      (sum_structuralLengths lawful valid ends) config.fastcdcMax.toNat_lt
      fun length => of_mem_structuralLengths lawful valid ends,
      fun boundary => drafts_at_boundary lawful valid ends fits⟩
  · rw [← length_blocks positive]
    simp only [chunkFixedHighEntropy_eq_ok valid, exists_and_left, exists_eq,
      and_true]
  · intro chunks succeeded
    obtain ⟨_, fits, _, rfl⟩ := (chunkFixedHighEntropy_eq_ok valid).mp succeeded
    refine ⟨ChunkOrigin.coveredBy_drafts fits (sum_blocks _ _)
      config.highEntropyFixed.toNat_lt fun length => le_of_mem_blocks positive,
      ?_⟩
    intro chunk member
    rw [ChunkOrigin.drafts, ← List.map_dropLast] at member
    obtain ⟨span, isSpan, rfl⟩ := List.mem_map.mp member
    have isLength : span.2 ∈
        (blocks config.highEntropyFixed.toNat logicalSize.toNat).dropLast := by
      rw [← map_snd_layOut 0 (blocks _ _), ← List.map_dropLast]
      exact List.mem_map_of_mem isSpan
    rw [ChunkOrigin.draft, eq_of_mem_dropLast_blocks isLength,
      UInt32.ofNat_toNat]

/-- A chunker with the bounds of the crate that cuts blocks of the minimal
size.  Like the crate it makes one chunk of data that is no longer. -/
def FastCdc.ofMinimum : FastCdc where
  minimumMin := 64
  minimumMax := 1048576
  averageMin := 256
  averageMax := 4194304
  maximumMin := 1024
  maximumMax := 16777216
  chunks minimum _ _ data :=
    (layOut 0 (blocks minimum data.length)).map fun span => ⟨span.1, span.2⟩

theorem FastCdc.ofMinimum_lawful : FastCdc.ofMinimum.Lawful where
  tiles minimum average maximum data _ := by
    have tiles := tiles_layOut 0 (blocks minimum data.length)
    rw [sum_blocks, Nat.zero_add] at tiles
    rw [ofMinimum, List.map_map]
    simpa [Function.comp_def] using tiles
  bounded minimum average maximum data sizes chunk member := by
    obtain ⟨span, isSpan, rfl⟩ := List.mem_map.mp member
    have isLength : span.2 ∈ blocks minimum data.length := by
      rw [← map_snd_layOut 0 (blocks _ _)]
      exact List.mem_map_of_mem isSpan
    have low : 64 ≤ minimum := sizes.minimumLow
    have below := sizes.minimumBelow
    have alsoBelow := sizes.averageBelow
    have bounded := le_of_mem_blocks (by omega) isLength
    exact ⟨bounded.1, by simp only; omega⟩

/-- The default configuration passes its own checks. -/
theorem ChunkingConfig.default_valid :
    ChunkingConfig.default.Valid FastCdc.ofMinimum where
  sizes := by constructor <;> decide
  blockLow := by decide
  blockHigh := by decide
  microFileMax_ne_zero := by decide
  microFileMax_le := by decide
  targetLow := by decide
  targetHigh := by decide
  microFileMax_le_target := by decide
  maxChunks_ne_zero := by decide
  maxLogicalBytes_ne_zero := by decide
  maxMetadataBytes_ne_zero := by decide
  maxPathBytes_ne_zero := by decide

/-- Three bytes in two regions, and three million bytes in blocks. -/
theorem default_chunking_succeeds :
    (∃ chunks, chunkStructural .ofMinimum [1, 2, 3] ⟨7, 0, 0⟩ [1, 3] .default =
      .ok chunks) ∧
    ∃ chunks, chunkFixedHighEntropy .ofMinimum 3000000 ⟨7, 0, 0⟩ .default =
      .ok chunks := by
  obtain ⟨structural, _, fixed, _⟩ := chunking_covers FastCdc.ofMinimum_lawful
    ChunkingConfig.default_valid [1, 2, 3] 3000000 ⟨7, 0, 0⟩ [1, 3]
  exact ⟨structural.mpr ⟨⟨by decide, by simp, rfl⟩, by decide, by decide,
    by decide⟩, fixed.mpr ⟨by decide, by decide, by decide⟩⟩

end Pithos
