import Pithos.Analysis.Chunking

/-!
# Chunks cover their object

The chunks of one object are laid out one after the other from its offset.
FastCDC and the chunker that makes blocks of one size succeed exactly when the
object and the number of chunks are within the limits, and their chunks then
tile the object.
-/

namespace Pithos

open Fallible
open Machine
open Layout

/-! ## The configuration -/

namespace ChunkingConfig

/-- The bounds of the FastCDC crate hold for the sizes. -/
structure FastCdcSizes (cdc : FastCdc) (minimum average maximum : Nat) :
    Prop where
  minimumLow : cdc.minimumMin ≤ minimum
  minimumHigh : minimum ≤ cdc.minimumMax
  averageLow : cdc.averageMin ≤ average
  averageHigh : average ≤ cdc.averageMax
  maximumLow : cdc.maximumMin ≤ maximum
  maximumHigh : maximum ≤ cdc.maximumMax
  minimumBelow : minimum < average
  averageBelow : average < maximum

/-- A configuration that passes its checks. -/
structure Valid (cdc : FastCdc) (config : ChunkingConfig) : Prop where
  sizes : FastCdcSizes cdc config.fastcdcMin.toNat config.fastcdcAvg.toNat
    config.fastcdcMax.toNat
  blockLow : mib ≤ config.highEntropyFixed
  blockHigh : config.highEntropyFixed ≤ 4 * mib
  microFileMax_ne_zero : config.microFileMax ≠ 0
  microFileMax_le : config.microFileMax ≤ 64 * kib
  targetLow : mib ≤ config.microPackTarget
  targetHigh : config.microPackTarget ≤ 16 * mib
  microFileMax_le_target : config.microFileMax ≤ config.microPackTarget
  maxChunks_ne_zero : config.maxChunks ≠ 0
  maxLogicalBytes_ne_zero : config.maxLogicalBytes ≠ 0
  maxMetadataBytes_ne_zero : config.maxMetadataBytes ≠ 0
  maxPathBytes_ne_zero : config.maxPathBytes ≠ 0

theorem validate_eq_ok
    {cdc : FastCdc}
    {config : ChunkingConfig}
    {done : Unit} :
    config.validate cdc = .ok done ↔ config.Valid cdc := by
  simp only [validate, bind_eq_ok, ensure_eq_ok, exists_const,
    UInt32.lt_iff_toNat_lt]
  constructor
  · rintro ⟨⟨minLow, minHigh, avgLow, avgHigh, maxLow, maxHigh, below, above⟩,
      ⟨blockLow, blockHigh⟩, ⟨filePositive, fileHigh⟩,
      ⟨targetLow, targetHigh, fileInPack⟩, chunks, bytes, metadata, paths⟩
    exact ⟨⟨minLow, minHigh, avgLow, avgHigh, maxLow, maxHigh, below, above⟩,
      blockLow, blockHigh, filePositive, fileHigh, targetLow, targetHigh,
      fileInPack, chunks, bytes, metadata, paths⟩
  · intro valid
    have ⟨minLow, minHigh, avgLow, avgHigh, maxLow, maxHigh, below, above⟩ :=
      valid.sizes
    exact ⟨⟨minLow, minHigh, avgLow, avgHigh, maxLow, maxHigh, below, above⟩,
      ⟨valid.blockLow, valid.blockHigh⟩,
      ⟨valid.microFileMax_ne_zero, valid.microFileMax_le⟩,
      ⟨valid.targetLow, valid.targetHigh, valid.microFileMax_le_target⟩,
      valid.maxChunks_ne_zero, valid.maxLogicalBytes_ne_zero,
      valid.maxMetadataBytes_ne_zero, valid.maxPathBytes_ne_zero⟩

variable {cdc : FastCdc} {config : ChunkingConfig}

theorem Valid.validate (valid : config.Valid cdc) :
    config.validate cdc = .ok () :=
  validate_eq_ok.mpr valid

/-- The limits of a part of an object keep a configuration valid. -/
theorem Valid.sub
    (valid : config.Valid cdc)
    {maxChunks maxLogicalBytes : UInt64}
    (someChunks : maxChunks ≠ 0)
    (someBytes : maxLogicalBytes ≠ 0) :
    Valid cdc { config with
      maxChunks := maxChunks
      maxLogicalBytes := maxLogicalBytes } :=
  { valid with
    maxChunks_ne_zero := someChunks
    maxLogicalBytes_ne_zero := someBytes }

end ChunkingConfig

/-- What the FastCDC crate documents: within its bounds the chunks are not
empty, have at most the maximal size and follow one another over the data. -/
structure FastCdc.Lawful (cdc : FastCdc) : Prop where
  tiles : ∀ minimum average maximum data,
    ChunkingConfig.FastCdcSizes cdc minimum average maximum →
    Tiles 0 ((cdc.chunks minimum average maximum data).map fun chunk =>
      (chunk.offset, chunk.length)) data.length
  bounded : ∀ minimum average maximum data,
    ChunkingConfig.FastCdcSizes cdc minimum average maximum →
    ∀ chunk ∈ cdc.chunks minimum average maximum data,
      0 < chunk.length ∧ chunk.length ≤ maximum

/-- The lengths of the chunks that FastCDC makes of some data. -/
def ChunkingConfig.cutLengths
    (cdc : FastCdc)
    (config : ChunkingConfig)
    (data : List UInt8) : List Nat :=
  (cdc.chunks config.fastcdcMin.toNat config.fastcdcAvg.toNat
    config.fastcdcMax.toNat data).map (·.length)

section Lawful

variable
  {cdc : FastCdc}
  {config : ChunkingConfig}

/-- The chunks of FastCDC as spans. -/
theorem FastCdc.Lawful.spans
    (lawful : cdc.Lawful)
    (valid : config.Valid cdc)
    (data : List UInt8) :
    ((cdc.chunks config.fastcdcMin.toNat config.fastcdcAvg.toNat
      config.fastcdcMax.toNat data).map fun chunk =>
        (chunk.offset, chunk.length)) =
      layOut 0 (config.cutLengths cdc data) := by
  have tiles := (tiles_iff.mp (lawful.tiles _ _ _ data valid.sizes)).1
  rw [List.map_map] at tiles
  exact tiles

theorem FastCdc.Lawful.sum_cutLengths
    (lawful : cdc.Lawful)
    (valid : config.Valid cdc)
    (data : List UInt8) :
    (config.cutLengths cdc data).sum = data.length := by
  have tiles := (tiles_iff.mp (lawful.tiles _ _ _ data valid.sizes)).2
  rw [List.map_map, Nat.zero_add] at tiles
  exact tiles.symm

theorem FastCdc.Lawful.of_mem_cutLengths
    (lawful : cdc.Lawful)
    (valid : config.Valid cdc)
    {data : List UInt8}
    {length : Nat}
    (member : length ∈ config.cutLengths cdc data) :
    0 < length ∧ length ≤ config.fastcdcMax.toNat := by
  obtain ⟨chunk, isChunk, rfl⟩ := List.mem_map.mp member
  exact lawful.bounded _ _ _ data valid.sizes chunk isChunk

end Lawful

/-! ## Chunks laid out from an origin -/

/-- Where a chunk stands and how long it is. -/
def LogicalChunkDraft.span (draft : LogicalChunkDraft) : Nat × Nat :=
  (draft.logicalOffset.toNat, draft.length.toNat)

namespace ChunkOrigin

variable {origin : ChunkOrigin} {method : ChunkingMethod}

/-- The chunk of an object at a span counted from its origin. -/
def draft (origin : ChunkOrigin) (method : ChunkingMethod)
    (span : Nat × Nat) : LogicalChunkDraft where
  entryId := origin.entryId
  objectId := origin.objectId
  logicalOffset := UInt64.ofNat (origin.baseOffset.toNat + span.1)
  length := UInt32.ofNat span.2
  method := method

/-- Chunks of the given lengths, one after the other. -/
def drafts (origin : ChunkOrigin) (method : ChunkingMethod)
    (lengths : List Nat) : List LogicalChunkDraft :=
  (layOut 0 lengths).map (origin.draft method)

/-- The chunks of a part of an object are chunks of the object. -/
theorem drafts_from
    {start : UInt64}
    (lengths : List Nat)
    (inside : origin.baseOffset.toNat + start.toNat < 2 ^ 64) :
    drafts { origin with
        baseOffset := UInt64.ofNat (origin.baseOffset.toNat + start.toNat) }
        method lengths =
      (layOut start.toNat lengths).map (origin.draft method) := by
  have moved := layOut_add 0 start.toNat lengths
  rw [Nat.zero_add] at moved
  rw [moved, drafts, List.map_map]
  refine List.map_congr_left fun span _ => ?_
  simp only [draft, Function.comp_apply, toNat_ofNat_of_lt inside]
  rw [Nat.add_assoc, Nat.add_comm span.1]

/-- Where the chunks stand when the object fits. -/
theorem span_draft
    {span : Nat × Nat}
    (offsetFits : origin.baseOffset.toNat + span.1 < 2 ^ 64)
    (lengthFits : span.2 < 2 ^ 32) :
    (origin.draft method span).span =
      (origin.baseOffset.toNat + span.1, span.2) := by
  simp only [LogicalChunkDraft.span, draft, toNat_ofNat_of_lt offsetFits,
    UInt32.toNat_ofNat', Nat.mod_eq_of_lt lengthFits]

theorem map_span_drafts
    {lengths : List Nat}
    (fits : origin.baseOffset.toNat + lengths.sum < 2 ^ 64)
    (narrow : ∀ length ∈ lengths, length < 2 ^ 32) :
    (origin.drafts method lengths).map (·.span) =
      layOut origin.baseOffset.toNat lengths := by
  have moved := layOut_add 0 origin.baseOffset.toNat lengths
  rw [Nat.zero_add] at moved
  rw [drafts, List.map_map, moved]
  refine List.map_congr_left fun span member => ?_
  have inside := (tiles_layOut 0 lengths).inside member
  have isLength : span.2 ∈ lengths := by
    rw [← map_snd_layOut 0 lengths]
    exact List.mem_map_of_mem member
  rw [Function.comp_apply, span_draft (by omega) (narrow _ isLength),
    Nat.add_comm]

end ChunkOrigin

/-! ## One push -/

/-- A chunk is pushed exactly when it is not empty, fits, and there is room for
one more. -/
theorem pushRelativeChunk_eq_ok
    {chunks result : List LogicalChunkDraft}
    {origin : ChunkOrigin}
    {relativeOffset maxChunks : UInt64}
    {length : Nat}
    {method : ChunkingMethod} :
    pushRelativeChunk chunks origin relativeOffset length method maxChunks =
        .ok result ↔
      (chunks.length < maxChunks.toNat ∧ 0 < length ∧ length < 2 ^ 32 ∧
        origin.baseOffset.toNat + relativeOffset.toNat + length < 2 ^ 64) ∧
      result = chunks ++ [origin.draft method (relativeOffset.toNat, length)]
    := by
  simp only [pushRelativeChunk, ensureChunkCount, bind_eq_ok, tryU64_eq_ok,
    tryU32_eq_ok, addU64_eq_ok, ensure_eq_ok, exists_const, Except.ok.injEq,
    UInt64.le_iff_toNat_le, UInt32.toNat_toUInt64, ne_eq]
  constructor
  · rintro ⟨count, isCount, next, isNext, room, word, rfl, nonzero, offset,
      isOffset, stop, isStop, rfl⟩
    have stopBound := stop.toNat_lt
    have one : (1 : UInt64).toNat = 1 := rfl
    rw [one] at isNext
    have positive : 0 < word.toNat := by
      refine Nat.pos_of_ne_zero fun isZero => nonzero ?_
      rw [← UInt32.toNat_inj, isZero]
      rfl
    refine ⟨⟨by omega, positive, word.toNat_lt, by omega⟩, ?_⟩
    rw [ChunkOrigin.draft, isOffset, UInt64.ofNat_toNat, UInt32.ofNat_toNat]
  · rintro ⟨⟨room, positive, narrow, fits⟩, rfl⟩
    have maxBound := maxChunks.toNat_lt
    have count := @toNat_ofNat_of_lt chunks.length (by omega)
    have next := @toNat_ofNat_of_lt (chunks.length + 1) (by omega)
    have word : (UInt32.ofNat length).toNat = length := by
      rw [UInt32.toNat_ofNat', Nat.mod_eq_of_lt narrow]
    have offset := @toNat_ofNat_of_lt
      (origin.baseOffset.toNat + relativeOffset.toNat) (by omega)
    have stop := @toNat_ofNat_of_lt
      (origin.baseOffset.toNat + relativeOffset.toNat + length) fits
    refine ⟨_, count, UInt64.ofNat (chunks.length + 1), ?_, ?_, _, word, ?_,
      _, offset.symm, UInt64.ofNat (origin.baseOffset.toNat +
        relativeOffset.toNat + length), ?_, rfl⟩
    · rw [count]
      exact next.symm
    · rw [next]
      exact room
    · intro isZero
      rw [isZero] at word
      have none : (0 : UInt32).toNat = 0 := rfl
      omega
    · rw [offset, word]
      exact stop.symm

/-! ## Coverage -/

section Coverage

variable {origin : ChunkOrigin} {expectedEnd : UInt64}

/-- A chunk of an object that is not empty. -/
def ChunkOrigin.Owns (origin : ChunkOrigin) (chunk : LogicalChunkDraft) :
    Prop :=
  chunk.entryId = origin.entryId ∧ chunk.objectId = origin.objectId ∧
    chunk.length ≠ 0

theorem coverChunk_eq_ok
    {chunk : LogicalChunkDraft}
    {cursor next : UInt64} :
    coverChunk origin expectedEnd chunk cursor = .ok next ↔
      origin.Owns chunk ∧ chunk.logicalOffset = cursor ∧
        cursor.toNat + chunk.length.toNat = next.toNat ∧
        next.toNat ≤ expectedEnd.toNat := by
  simp only [coverChunk, bind_eq_ok, ensure_eq_ok, exists_const, addU64_eq_ok,
    Except.ok.injEq, UInt32.toNat_toUInt64, UInt64.le_iff_toNat_le,
    ChunkOrigin.Owns]
  constructor
  · rintro ⟨⟨entry, object, offset, nonzero⟩, _, sum, inside, rfl⟩
    exact ⟨⟨entry, object, nonzero⟩, offset, sum, inside⟩
  · rintro ⟨⟨entry, object, nonzero⟩, offset, sum, inside⟩
    exact ⟨⟨entry, object, offset, nonzero⟩, next, sum, inside, rfl⟩

/-- The cursor walks over chunks of the object that follow one another. -/
theorem forEnum_coverChunk_eq_ok
    {position : Nat}
    {chunks : List LogicalChunkDraft}
    {cursor last : UInt64}
    (inside : cursor.toNat ≤ expectedEnd.toNat) :
    forEnum (fun _ chunk => coverChunk origin expectedEnd chunk) position
        chunks cursor = .ok last ↔
      (∀ chunk ∈ chunks, origin.Owns chunk) ∧
        Tiles cursor.toNat (chunks.map (·.span)) last.toNat ∧
        last.toNat ≤ expectedEnd.toNat := by
  induction chunks generalizing position cursor with
  | nil =>
      simp only [forEnum_nil, Except.ok.injEq, List.not_mem_nil, false_implies,
        implies_true, List.map_nil, tiles_nil, true_and]
      constructor
      · rintro rfl
        exact ⟨rfl, inside⟩
      · rintro ⟨same, -⟩
        exact UInt64.toNat_inj.mp same
  | cons chunk chunks inductionHypothesis =>
      simp only [forEnum_cons, bind_eq_ok, coverChunk_eq_ok, List.mem_cons,
        forall_eq_or_imp, List.map_cons, tiles_cons, LogicalChunkDraft.span,
        ← UInt64.toNat_inj]
      constructor
      · rintro ⟨next, ⟨owned, offset, sum, nextInside⟩, rest⟩
        rw [inductionHypothesis nextInside] at rest
        obtain ⟨restOwned, tiles, lastInside⟩ := rest
        exact ⟨⟨owned, restOwned⟩, ⟨offset, sum ▸ tiles⟩, lastInside⟩
      · rintro ⟨⟨owned, restOwned⟩, ⟨offset, tiles⟩, lastInside⟩
        have below := tiles.le
        have endBound := expectedEnd.toNat_lt
        have next := @toNat_ofNat_of_lt
          (cursor.toNat + chunk.length.toNat) (by omega)
        refine ⟨_, ⟨owned, offset, next.symm, by omega⟩, ?_⟩
        rw [inductionHypothesis (by omega), next]
        exact ⟨restOwned, tiles, lastInside⟩

/-- Chunks that are laid out over an object cover it. -/
theorem validateChunkCoverage_of_tiles
    {chunks : List LogicalChunkDraft}
    {logicalSize : UInt64}
    (fits : origin.baseOffset.toNat + logicalSize.toNat < 2 ^ 64)
    (owned : ∀ chunk ∈ chunks, origin.Owns chunk)
    (tiles : Tiles origin.baseOffset.toNat (chunks.map (·.span))
      (origin.baseOffset.toNat + logicalSize.toNat)) :
    validateChunkCoverage chunks origin logicalSize = .ok () := by
  obtain ⟨expectedEnd, isEnd⟩ := exists_addU64_eq_ok.mpr fits
  have endValue := addU64_eq_ok.mp isEnd
  unfold validateChunkCoverage
  rw [isEnd, ok_bind]
  by_cases empty : logicalSize = 0
  · rw [if_pos empty]
    cases chunks with
    | nil => rfl
    | cons chunk chunks =>
        have inside := tiles.inside (List.mem_cons_self)
        have nonzero := (owned chunk List.mem_cons_self).2.2
        have none : logicalSize.toNat = 0 := by rw [empty]; rfl
        refine absurd (UInt32.toNat_inj.mp ?_) nonzero
        simp only [LogicalChunkDraft.span] at inside
        have zero : (0 : UInt32).toNat = 0 := rfl
        omega
  · rw [if_neg empty]
    have someBytes : logicalSize.toNat ≠ 0 := fun none =>
      empty (UInt64.toNat_inj.mp none)
    have nonempty : chunks ≠ [] := by
      rintro rfl
      rw [List.map_nil, tiles_nil] at tiles
      omega
    have walked : forEnum
        (fun _ chunk => coverChunk origin expectedEnd chunk) 0 chunks
          origin.baseOffset = .ok expectedEnd := by
      rw [forEnum_coverChunk_eq_ok (by omega)]
      exact ⟨owned, endValue ▸ tiles, Nat.le_refl _⟩
    rw [ensure_of nonempty, ok_bind, walked, ok_bind, ensure_of rfl]

/-- Chunks laid out from the origin cover the object. -/
theorem validateChunkCoverage_drafts
    {method : ChunkingMethod}
    {lengths : List Nat}
    {logicalSize : UInt64}
    (fits : origin.baseOffset.toNat + logicalSize.toNat < 2 ^ 64)
    (whole : lengths.sum = logicalSize.toNat)
    (narrow : ∀ length ∈ lengths, 0 < length ∧ length < 2 ^ 32) :
    validateChunkCoverage (origin.drafts method lengths) origin logicalSize =
      .ok () := by
  refine validateChunkCoverage_of_tiles fits ?_ ?_
  · intro chunk member
    obtain ⟨span, spanMember, rfl⟩ := List.mem_map.mp member
    have isLength : span.2 ∈ lengths := by
      rw [← map_snd_layOut 0 lengths]
      exact List.mem_map_of_mem spanMember
    obtain ⟨positive, small⟩ := narrow _ isLength
    refine ⟨rfl, rfl, fun isZero => ?_⟩
    have value := congrArg UInt32.toNat isZero
    rw [ChunkOrigin.draft, UInt32.toNat_ofNat', Nat.mod_eq_of_lt small] at value
    have zero : (0 : UInt32).toNat = 0 := rfl
    omega
  · rw [ChunkOrigin.map_span_drafts (whole ▸ fits)
      (fun length member => (narrow length member).2), ← whole]
    exact tiles_layOut _ _

end Coverage

/-! ## FastCDC -/

section FastCdc

variable
  {cdc : FastCdc}
  {config : ChunkingConfig}
  {origin : ChunkOrigin}
  {data : List UInt8}
  {result : List LogicalChunkDraft}

/-- Chunks of the crate are pushed exactly when they are not too many. -/
theorem pushChunks_eq_ok
    (lawful : cdc.Lawful)
    (valid : config.Valid cdc)
    (fits : origin.baseOffset.toNat + data.length < 2 ^ 64) :
    forEnum (fun _ (chunk : FastCdcChunk) chunks => (do
        let offset ← tryU64 chunk.offset
        pushRelativeChunk chunks origin offset chunk.length .fastCdcV2020
          config.maxChunks : Result (List LogicalChunkDraft)))
        0 (cdc.chunks config.fastcdcMin.toNat config.fastcdcAvg.toNat
          config.fastcdcMax.toNat data) [] = .ok result ↔
      (config.cutLengths cdc data).length ≤ config.maxChunks.toNat ∧
        result = origin.drafts .fastCdcV2020 (config.cutLengths cdc data) := by
  have exact (position : Nat) (chunk : FastCdcChunk)
      (state next : List LogicalChunkDraft)
      (isPosition : state.length = position) :
      (do
        let offset ← tryU64 chunk.offset
        pushRelativeChunk state origin offset chunk.length .fastCdcV2020
          config.maxChunks : Result (List LogicalChunkDraft)) = .ok next ↔
        (chunk.offset < 2 ^ 64 ∧ position < config.maxChunks.toNat ∧
          0 < chunk.length ∧ chunk.length < 2 ^ 32 ∧
          origin.baseOffset.toNat + chunk.offset + chunk.length < 2 ^ 64) ∧
        next = state ++ [origin.draft .fastCdcV2020
          (chunk.offset, chunk.length)] := by
    simp only [bind_eq_ok, tryU64_eq_ok, pushRelativeChunk_eq_ok, isPosition]
    constructor
    · rintro ⟨offset, isOffset, good, rfl⟩
      rw [isOffset] at good
      exact ⟨⟨isOffset ▸ offset.toNat_lt, good⟩, by rw [isOffset]⟩
    · rintro ⟨⟨small, good⟩, rfl⟩
      have offset := toNat_ofNat_of_lt small
      refine ⟨_, offset, ?_, by rw [offset]⟩
      rwa [offset]
  rw [forEnum_concat_eq_ok exact]
  have spans := lawful.spans valid data
  have lengths : (config.cutLengths cdc data).length =
      (cdc.chunks config.fastcdcMin.toNat config.fastcdcAvg.toNat
        config.fastcdcMax.toNat data).length := List.length_map _
  have sum := lawful.sum_cutLengths valid data
  have isDrafts : origin.drafts .fastCdcV2020 (config.cutLengths cdc data) =
      (cdc.chunks config.fastcdcMin.toNat config.fastcdcAvg.toNat
        config.fastcdcMax.toNat data).mapIdx fun _ chunk =>
          origin.draft .fastCdcV2020 (chunk.offset, chunk.length) := by
    rw [ChunkOrigin.drafts, ← spans, List.map_map]
    exact (List.mapIdx_eq_iff.mpr fun _ => List.getElem?_map).symm
  rw [isDrafts, lengths]
  refine and_congr_left fun _ => ?_
  constructor
  · intro allGood
    refine Nat.le_of_not_lt fun tooMany => ?_
    obtain ⟨_, room, _⟩ := allGood _ _ (List.getElem?_eq_getElem tooMany)
    omega
  · intro few position chunk found
    have member := List.mem_of_getElem? found
    have bounded := lawful.of_mem_cutLengths valid
      (List.mem_map_of_mem member)
    have inside := (tiles_layOut 0 (config.cutLengths cdc data)).inside
      (spans ▸ List.mem_map_of_mem member)
    have before := (List.getElem?_eq_some_iff.mp found).1
    have maxBound := config.fastcdcMax.toNat_lt
    simp only at inside
    exact ⟨by omega, by omega, bounded.1, by omega, by omega⟩

/-- FastCDC over an object in memory succeeds exactly when the object and the
number of chunks are within the limits, and gives the chunks of the crate. -/
theorem chunkFastcdc_eq_ok
    (lawful : cdc.Lawful)
    (valid : config.Valid cdc) :
    chunkFastcdc cdc data origin config = .ok result ↔
      data.length ≤ config.maxLogicalBytes.toNat ∧
        origin.baseOffset.toNat + data.length < 2 ^ 64 ∧
        (config.cutLengths cdc data).length ≤ config.maxChunks.toNat ∧
        result = origin.drafts .fastCdcV2020 (config.cutLengths cdc data) := by
  simp only [chunkFastcdc, valid.validate, ok_bind, bind_eq_ok, tryU64_eq_ok,
    ensureLogicalSize, ensure_eq_ok, exists_const, UInt64.le_iff_toNat_le,
    Except.ok.injEq]
  constructor
  · rintro ⟨size, isSize, small, stop, isStop, chunks, pushed, _, _, rfl⟩
    have fits : origin.baseOffset.toNat + data.length < 2 ^ 64 :=
      isSize ▸ exists_addU64_eq_ok.mp ⟨stop, isStop⟩
    exact ⟨isSize ▸ small, fits, (pushChunks_eq_ok lawful valid fits).mp pushed⟩
  · rintro ⟨small, fits, pushed⟩
    have size := @toNat_ofNat_of_lt data.length (by omega)
    obtain ⟨stop, isStop⟩ := exists_addU64_eq_ok.mpr (size.symm ▸ fits)
    refine ⟨_, size, size.symm ▸ small, stop, isStop, result,
      (pushChunks_eq_ok lawful valid fits).mpr pushed, (), ?_, rfl⟩
    rw [pushed.2]
    refine validateChunkCoverage_drafts (size.symm ▸ fits)
      ((lawful.sum_cutLengths valid data).trans size.symm) ?_
    intro length member
    have bounded := lawful.of_mem_cutLengths valid member
    have maxBound := config.fastcdcMax.toNat_lt
    exact ⟨bounded.1, by omega⟩

end FastCdc

/-! ## Blocks of one size -/

section FixedBlocks

variable
  {cdc : FastCdc}
  {config : ChunkingConfig}
  {origin : ChunkOrigin}
  {logicalSize : UInt64}
  {result : List LogicalChunkDraft}

theorem ChunkingConfig.Valid.block_pos (valid : config.Valid cdc) :
    0 < config.highEntropyFixed.toNat := by
  have low := UInt32.le_iff_toNat_le.mp valid.blockLow
  have isMib : mib.toNat = 1048576 := rfl
  omega

/-- One block more, and then the rest. -/
theorem pushFixedBlocks_of_lt
    {relativeOffset : UInt64}
    {chunks : List LogicalChunkDraft}
    (more : relativeOffset < logicalSize) :
    pushFixedBlocks origin config logicalSize relativeOffset chunks =
      (pushRelativeChunk chunks origin relativeOffset
        (fixedBlockLength config logicalSize relativeOffset).toNat
        .fixedHighEntropy config.maxChunks >>= fun chunks =>
          addU64 relativeOffset
            (fixedBlockLength config logicalSize relativeOffset) >>=
            fun next =>
              pushFixedBlocks origin config logicalSize next chunks) := by
  rw [pushFixedBlocks, if_pos more]
  split
  · rename_i failed
    rw [failed, error_bind]
  · rename_i pushed
    rw [pushed, ok_bind]
    split
    · rename_i failed
      rw [failed, error_bind]
    · rename_i added
      rw [added, ok_bind]

/-- The next block is the first of those of the rest. -/
theorem fixedBlockLength_spec
    (valid : config.Valid cdc)
    {relativeOffset : UInt64}
    (more : relativeOffset.toNat < logicalSize.toNat) :
    0 < (fixedBlockLength config logicalSize relativeOffset).toNat ∧
      (fixedBlockLength config logicalSize relativeOffset).toNat ≤
        logicalSize.toNat - relativeOffset.toNat ∧
      (fixedBlockLength config logicalSize relativeOffset).toNat < 2 ^ 32 ∧
      blocks config.highEntropyFixed.toNat
          (logicalSize.toNat - relativeOffset.toNat) =
        (fixedBlockLength config logicalSize relativeOffset).toNat ::
          blocks config.highEntropyFixed.toNat
            (logicalSize.toNat - relativeOffset.toNat -
              (fixedBlockLength config logicalSize relativeOffset).toNat) := by
  have blockPositive := valid.block_pos
  have blockBound := config.highEntropyFixed.toNat_lt
  have rest : (logicalSize - relativeOffset).toNat =
      logicalSize.toNat - relativeOffset.toNat :=
    UInt64.toNat_sub_of_le _ _ (UInt64.le_iff_toNat_le.mpr (by omega))
  unfold fixedBlockLength
  split
  · rename_i last
    rw [UInt64.le_iff_toNat_le, rest, UInt32.toNat_toUInt64] at last
    rw [rest, blocks_of_le (by omega) last, Nat.sub_self, blocks_zero]
    exact ⟨by omega, Nat.le_refl _, by omega, rfl⟩
  · rename_i whole
    rw [UInt64.le_iff_toNat_le, rest, UInt32.toNat_toUInt64] at whole
    rw [UInt32.toNat_toUInt64]
    refine ⟨blockPositive, by omega, blockBound, ?_⟩
    rw [← blocks_add blockPositive, Nat.add_sub_cancel' (by omega)]

/-- The blocks of the rest of an object are pushed when there is room for
them. -/
theorem pushFixedBlocks_eq_ok
    (valid : config.Valid cdc)
    (fits : origin.baseOffset.toNat + logicalSize.toNat < 2 ^ 64)
    {relativeOffset : UInt64}
    {chunks : List LogicalChunkDraft}
    (inside : relativeOffset.toNat ≤ logicalSize.toNat)
    (room : chunks.length + (blocks config.highEntropyFixed.toNat
      (logicalSize.toNat - relativeOffset.toNat)).length ≤
        config.maxChunks.toNat) :
    pushFixedBlocks origin config logicalSize relativeOffset chunks =
      .ok (chunks ++ (layOut relativeOffset.toNat
        (blocks config.highEntropyFixed.toNat
          (logicalSize.toNat - relativeOffset.toNat))).map
            (origin.draft .fixedHighEntropy)) := by
  generalize rest : logicalSize.toNat - relativeOffset.toNat = remaining
    at room ⊢
  induction remaining using Nat.strongRecOn
    generalizing relativeOffset chunks with
  | ind remaining inductionHypothesis =>
      by_cases more : relativeOffset < logicalSize
      · rw [pushFixedBlocks_of_lt more]
        rw [UInt64.lt_iff_toNat_lt] at more
        obtain ⟨positive, within, narrow, split⟩ :=
          @fixedBlockLength_spec _ _ _ valid _ more
        rw [rest] at within split
        generalize fixedBlockLength config logicalSize relativeOffset = length
          at positive within narrow split ⊢
        rw [split, List.length_cons] at room
        have pushed : pushRelativeChunk chunks origin relativeOffset
            length.toNat .fixedHighEntropy config.maxChunks =
              .ok (chunks ++ [origin.draft .fixedHighEntropy
                (relativeOffset.toNat, length.toNat)]) :=
          pushRelativeChunk_eq_ok.mpr
            ⟨⟨by omega, positive, narrow, by omega⟩, rfl⟩
        obtain ⟨next, isNext⟩ := exists_addU64_eq_ok.mpr
          (show relativeOffset.toNat + length.toNat < 2 ^ 64 by omega)
        have nextValue := addU64_eq_ok.mp isNext
        have pushedRest := @inductionHypothesis _
          (Nat.sub_lt (by omega) positive) next
          (chunks ++ [origin.draft .fixedHighEntropy
            (relativeOffset.toNat, length.toNat)])
          (by omega) (by omega)
          (by rw [List.length_append, List.length_singleton]; omega)
        rw [pushed, ok_bind, isNext, ok_bind, pushedRest, split, layOut_cons,
          List.map_cons, nextValue, List.append_assoc, List.singleton_append]
      · rw [pushFixedBlocks, if_neg more]
        rw [UInt64.lt_iff_toNat_lt] at more
        have nothing : remaining = 0 := by omega
        simp [nothing]

/-- Blocks of one size are made exactly when the object and the number of
blocks are within the limits. -/
theorem chunkFixedHighEntropy_eq_ok (valid : config.Valid cdc) :
    chunkFixedHighEntropy cdc logicalSize origin config = .ok result ↔
      logicalSize.toNat ≤ config.maxLogicalBytes.toNat ∧
        origin.baseOffset.toNat + logicalSize.toNat < 2 ^ 64 ∧
        (blocks config.highEntropyFixed.toNat logicalSize.toNat).length ≤
          config.maxChunks.toNat ∧
        result = origin.drafts .fixedHighEntropy
          (blocks config.highEntropyFixed.toNat logicalSize.toNat) := by
  have positive := valid.block_pos
  simp only [chunkFixedHighEntropy, valid.validate, ok_bind, bind_eq_ok,
    ensureLogicalSize, ensure_eq_ok, exists_const, UInt64.le_iff_toNat_le]
  refine and_congr_right fun small => ?_
  by_cases empty : logicalSize = 0
  · have none : logicalSize.toNat = 0 := by rw [empty]; rfl
    have base := origin.baseOffset.toNat_lt
    simp only [if_pos empty, Except.ok.injEq, none, blocks_zero,
      List.length_nil, Nat.zero_le, true_and, Nat.add_zero, base]
    constructor
    · rintro ⟨stop, isStop, rfl⟩
      rfl
    · rintro rfl
      obtain ⟨stop, isStop⟩ := exists_addU64_eq_ok.mpr
        (show origin.baseOffset.toNat + logicalSize.toNat < 2 ^ 64 by omega)
      exact ⟨stop, isStop, rfl⟩
  · have someBytes : 0 < logicalSize.toNat :=
      Nat.pos_of_ne_zero fun none => empty (UInt64.toNat_inj.mp none)
    have sizeBound := logicalSize.toNat_lt
    have blockSome : config.highEntropyFixed ≠ 0 := by
      intro none
      rw [none] at positive
      exact absurd positive (Nat.lt_irrefl 0)
    have quotient : ((logicalSize - 1) /
        config.highEntropyFixed.toUInt64).toNat + 1 =
          (blocks config.highEntropyFixed.toNat logicalSize.toNat).length := by
      have one : (1 : UInt64).toNat = 1 := rfl
      rw [UInt64.toNat_div, UInt32.toNat_toUInt64, UInt64.toNat_sub_of_le _ _
        (UInt64.le_iff_toNat_le.mpr (by omega)), one, length_blocks positive,
        ← Nat.add_div_right _ positive]
      congr 1
      omega
    have countBound :
        (blocks config.highEntropyFixed.toNat logicalSize.toNat).length <
          2 ^ 64 := by
      rw [length_blocks positive]
      refine Nat.lt_of_le_of_lt (Nat.div_le_of_le_mul ?_) sizeBound
      have grows := Nat.le_mul_of_pos_right (config.highEntropyFixed.toNat - 1)
        someBytes
      rw [Nat.sub_mul, Nat.one_mul] at grows
      have atLeast := Nat.le_mul_of_pos_left logicalSize.toNat positive
      omega
    simp only [if_neg empty, blockSome, ne_eq, not_false_eq_true, exists_const,
      true_and, bind_eq_ok, ensureChunkCount, ensure_eq_ok, addU64_eq_ok,
      UInt64.le_iff_toNat_le, Except.ok.injEq]
    constructor
    · rintro ⟨stop, isStop, count, isCount, few, chunks, pushed, _, _, rfl⟩
      have one : (1 : UInt64).toNat = 1 := rfl
      rw [one, quotient] at isCount
      have fits := isStop ▸ stop.toNat_lt
      refine ⟨fits, isCount ▸ few, ?_⟩
      have blocksPushed := @pushFixedBlocks_eq_ok _ _ origin _ valid fits 0 []
        (Nat.zero_le _) (by
          rw [List.length_nil, Nat.zero_add]
          exact isCount ▸ few)
      rw [pushed, Except.ok.injEq] at blocksPushed
      exact blocksPushed
    · rintro ⟨fits, few, rfl⟩
      have count := toNat_ofNat_of_lt countBound
      have blocksPushed := @pushFixedBlocks_eq_ok _ _ origin _ valid fits 0 []
        (Nat.zero_le _) (by
          rw [List.length_nil, Nat.zero_add]
          exact few)
      refine ⟨_, (toNat_ofNat_of_lt fits).symm, _, quotient.trans count.symm,
        count.symm ▸ few, _, blocksPushed, (), ?_, rfl⟩
      refine validateChunkCoverage_drafts fits (sum_blocks _ _) ?_
      intro length member
      have bounded := le_of_mem_blocks positive member
      have blockBound := config.highEntropyFixed.toNat_lt
      exact ⟨bounded.1, by omega⟩

end FixedBlocks

end Pithos
