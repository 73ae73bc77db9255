import Pithos.Library.Crc32c
import Pithos.Library.Blake3
import Pithos.Analysis.Streaming
import Pithos.Analysis.Fingerprint

/-!
# Interrupted reads

The loops that read the bytes of a region or of a fingerprint make a read that
is interrupted again, and so does the probe after a fingerprint.  The probe
after the regions of a stream does not: there an interruption is the result.
-/

namespace Pithos

open Fallible
open Machine
open Layout
open FileTree
open Reader

/-- The stream when no read is interrupted. -/
abbrev Source.calm (source : Source) : Source :=
  source.without .interrupted

/-! ## The loops -/

/-- Reading bytes takes in the same pieces without the interruptions. -/
theorem readPieces_calm
    {Value : Type}
    {short : PithosError}
    {update : List UInt8 → Value → Result Value}
    {source : Source}
    {remaining : UInt64}
    {value : Value} :
    readPieces short update source.calm remaining value =
      (readPieces short update source remaining value).map
        fun done => (done.1, Source.calm done.2) := by
  generalize isMeasure : source.script.length + remaining.toNat = left
  induction left using Nat.strongRecOn
    generalizing source remaining value with
  | ind left inductionHypothesis =>
      by_cases done : remaining = 0
      · rw [done, readPieces_zero, readPieces_zero]
        rfl
      · obtain ⟨⟨result, next⟩, isRead⟩ : ∃ read, scripted.read
            (min remaining.toNat (64 * 1024)) source = read := ⟨_, rfl⟩
        cases result with
        | error kind =>
            by_cases interrupted : kind = .interrupted
            · rw [interrupted] at isRead
              have fewer := script_lt_of_fails isRead
              rw [readPieces_interrupted done isRead, Source.calm,
                ← without_of_fails isRead]
              exact inductionHypothesis _ (by omega) rfl
            · have calmRead := read_without isRead fun same =>
                interrupted (Except.error.inj same)
              rw [readPieces_fails done isRead interrupted,
                readPieces_fails done calmRead interrupted]
              rfl
        | ok piece =>
            have calmRead := @read_without _ _ _ .interrupted _ _ _ _ isRead
              nofun
            by_cases empty : piece = []
            · rw [empty] at isRead calmRead
              rw [readPieces_short done isRead, readPieces_short done calmRead]
              rfl
            · have bounded := scripted.length_le _ _ _ _ isRead
              have positive := List.length_pos_iff.mpr empty
              have noMore := script_le_of_gives isRead
              have limit := remaining.toNat_lt
              have rest := @toNat_ofNat_of_lt
                (remaining.toNat - piece.length) (by omega)
              rw [readPieces_gives done isRead empty,
                readPieces_gives done calmRead empty]
              cases update piece value with
              | error failure => rfl
              | ok value => exact inductionHypothesis _ (by omega) rfl

/-- A region is consumed the same without the interruptions. -/
theorem consumeExactRegion_calm {source : Source} {length : UInt64} :
    consumeExactRegion source.calm length =
      (consumeExactRegion source length).map Source.calm := by
  unfold consumeExactRegion
  rw [readPieces_calm]
  cases readPieces (.invalidMetadata "short structural stream")
    (fun _ done => .ok done) source length () with
  | error failure => rfl
  | ok done => rfl

/-! ## The probe after a fingerprint -/

/-- What a probe finds in its last read. -/
def probed (trailing : PithosError) :
    Except IoErrorKind (List UInt8) → Result Unit
  | .ok [] => .ok ()
  | .ok _ => .error trailing
  | .error kind => .error (.io kind)

/-- A probe that is interrupted is made again. -/
theorem probeFingerprintEnd_interrupted
    {source next : Source}
    (failed : scripted.read 1 source = (.error .interrupted, next)) :
    probeFingerprintEnd source = probeFingerprintEnd next := by
  rw [probeFingerprintEnd]
  split
  all_goals
    rename_i gave
    rw [failed] at gave
    cases gave
  rw [if_pos rfl]

/-- A probe that is not interrupted ends with what it finds. -/
theorem probeFingerprintEnd_of_read
    {source next : Source}
    {result : Except IoErrorKind (List UInt8)}
    (isRead : scripted.read 1 source = (result, next))
    (final : result ≠ .error .interrupted) :
    probeFingerprintEnd source =
      probed (.invalidMetadata "trailing fingerprint data") result := by
  rw [probeFingerprintEnd]
  split
  · rename_i gave
    rw [isRead] at gave
    cases gave
    rfl
  · rename_i piece _ nonempty gave
    rw [isRead] at gave
    cases gave
    cases piece with
    | nil => exact absurd rfl nonempty
    | cons byte piece => rfl
  · rename_i kind _ gave
    rw [isRead] at gave
    cases gave
    exact if_neg fun same => final (congrArg Except.error same)

/-- The probe after a fingerprint finds the same without the interruptions. -/
theorem probeFingerprintEnd_calm {source : Source} :
    probeFingerprintEnd source.calm = probeFingerprintEnd source := by
  generalize isMeasure : source.script.length = left
  induction left using Nat.strongRecOn generalizing source with
  | ind left inductionHypothesis =>
      obtain ⟨⟨result, next⟩, isRead⟩ : ∃ read, scripted.read 1 source = read :=
        ⟨_, rfl⟩
      by_cases interrupted : result = .error .interrupted
      · rw [interrupted] at isRead
        have fewer := script_lt_of_fails isRead
        rw [probeFingerprintEnd_interrupted isRead, Source.calm,
          ← without_of_fails isRead]
        exact inductionHypothesis _ (by omega) rfl
      · rw [probeFingerprintEnd_of_read isRead interrupted,
          probeFingerprintEnd_of_read (read_without isRead interrupted)
            interrupted]

/-- A fingerprint is the same without the interruptions. -/
theorem fingerprintReader_calm
    {hashes : FingerprintHashes}
    {sizes : FingerprintSizes}
    {chunk : LogicalChunk}
    {source : Source}
    {config : FingerprintConfig} :
    fingerprintReader hashes sizes chunk source.calm config =
      fingerprintReader hashes sizes chunk source config := by
  refine bind_congr fun _ => bind_congr fun _ => bind_congr fun accumulator =>
    ?_
  rw [readPieces_calm]
  cases readPieces (.invalidMetadata "short fingerprint stream")
      (FingerprintAccumulator.update hashes) source chunk.length.toUInt64
      accumulator with
  | error failure => rfl
  | ok done =>
      show probeFingerprintEnd (Source.calm done.2) >>= _ =
        probeFingerprintEnd done.2 >>= _
      rw [probeFingerprintEnd_calm]

/-! ## Regions of a stream -/

/-- The ends of the regions and the limits that an object has to keep before
its bytes are read. -/
structure RegionsFit
    (origin : ChunkOrigin)
    (boundaryEnds : List UInt64)
    (config : ChunkingConfig) : Prop where
  ends : BoundaryEnds boundaryEnds (boundaryEnds.getLast?.getD 0).toNat
  withinLimit : (boundaryEnds.getLast?.getD 0).toNat ≤
    config.maxLogicalBytes.toNat
  fits : origin.baseOffset.toNat + (boundaryEnds.getLast?.getD 0).toNat <
    2 ^ 64
  few : boundaryEnds.length ≤ config.maxChunks.toNat

/-- Read the regions one after the other. -/
def consumeRegions (source : Source) (spans : List (Nat × Nat)) :
    Result Source :=
  spans.foldlM
    (fun source span => consumeExactRegion source (UInt64.ofNat span.2)) source

/-- The regions are consumed the same without the interruptions. -/
theorem consumeRegions_calm {source : Source} {spans : List (Nat × Nat)} :
    consumeRegions source.calm spans =
      (consumeRegions source spans).map Source.calm := by
  induction spans generalizing source with
  | nil => rfl
  | cons span spans inductionHypothesis =>
      simp only [consumeRegions, List.foldlM_cons, consumeExactRegion_calm]
      cases consumeExactRegion source (UInt64.ofNat span.2) with
      | error failure => rfl
      | ok next => exact inductionHypothesis

section Structural

variable
  {cdc : FastCdc}
  {stream : StreamCdc}
  {config : ChunkingConfig}
  {origin : ChunkOrigin}
  {boundaryEnds : List UInt64}

/-- A small region is one chunk once it is read. -/
theorem chunkRegionReader_of_small
    {source : Source}
    {regionEnd regionStart : UInt64}
    {chunks : List LogicalChunkDraft}
    (above : regionStart.toNat < regionEnd.toNat)
    (small : regionEnd.toNat - regionStart.toNat ≤ config.fastcdcMax.toNat)
    (fits : origin.baseOffset.toNat + regionEnd.toNat < 2 ^ 64)
    (room : chunks.length < config.maxChunks.toNat) :
    chunkRegionReader cdc stream source origin config regionEnd regionStart
        chunks =
      (consumeExactRegion source
          (UInt64.ofNat (regionEnd.toNat - regionStart.toNat))).map
        fun next => (chunks ++ [origin.draft .structural
          (regionStart.toNat, regionEnd.toNat - regionStart.toNat)], next) := by
  have endBound := regionEnd.toNat_lt
  have largest := config.fastcdcMax.toNat_lt
  have value := @toNat_ofNat_of_lt (regionEnd.toNat - regionStart.toNat)
    (by omega)
  have isLength : checkedSub regionEnd regionStart =
      some (UInt64.ofNat (regionEnd.toNat - regionStart.toNat)) := by
    rw [checkedSub_eq_some]
    omega
  have isSmall : UInt64.ofNat (regionEnd.toNat - regionStart.toNat) ≤
      config.fastcdcMax.toUInt64 := by
    rw [UInt64.le_iff_toNat_le, value, UInt32.toNat_toUInt64]
    exact small
  have pushed := (@pushRelativeChunk_eq_ok chunks _ origin regionStart
    config.maxChunks (regionEnd.toNat - regionStart.toNat) .structural).mpr
      ⟨⟨room, by omega, by omega, by omega⟩, rfl⟩
  rw [chunkRegionReader, isLength, okOr_some, ok_bind, if_pos isSmall, value]
  cases consumeExactRegion source
      (UInt64.ofNat (regionEnd.toNat - regionStart.toNat)) with
  | error failure => rfl
  | ok next =>
      rw [ok_bind, pushed]
      rfl

/-- Small regions are one chunk each once they are read. -/
theorem forEnum_chunkRegionReader_of_small
    {position : Nat}
    {source : Source}
    {start : UInt64}
    {chunks : List LogicalChunkDraft}
    (increasing : (start :: boundaryEnds).Pairwise (· < ·))
    (small : ∀ region ∈ regions start.toNat boundaryEnds,
      region.2 ≤ config.fastcdcMax.toNat)
    (fits : ∀ boundary ∈ boundaryEnds,
      origin.baseOffset.toNat + boundary.toNat < 2 ^ 64)
    (room : chunks.length + boundaryEnds.length ≤ config.maxChunks.toNat) :
    forEnum
        (fun _ regionEnd
            (state : UInt64 × List LogicalChunkDraft × Source) => (do
          let (chunks, source) ← chunkRegionReader cdc stream state.2.2
            origin config regionEnd state.1 state.2.1
          .ok (regionEnd, chunks, source) :
            Result (UInt64 × List LogicalChunkDraft × Source)))
        position boundaryEnds (start, chunks, source) =
      (consumeRegions source (regions start.toNat boundaryEnds)).map
        fun next => (boundaryEnds.getLast?.getD start,
          chunks ++ (regions start.toNat boundaryEnds).map
            (origin.draft .structural), next) := by
  induction boundaryEnds generalizing position source start chunks with
  | nil =>
      rw [forEnum_nil, regions, List.map_nil, List.append_nil]
      rfl
  | cons regionEnd boundaryEnds inductionHypothesis =>
      obtain ⟨below, increasing⟩ := List.pairwise_cons.mp increasing
      have above := UInt64.lt_iff_toNat_lt.mp
        (below regionEnd List.mem_cons_self)
      rw [List.length_cons] at room
      have first := @chunkRegionReader_of_small cdc stream config origin source
        regionEnd start chunks above (small _ List.mem_cons_self)
        (fits _ List.mem_cons_self) (by omega)
      simp only [forEnum_cons, first, consumeRegions, regions,
        List.foldlM_cons]
      cases consumeExactRegion source
          (UInt64.ofNat (regionEnd.toNat - start.toNat)) with
      | error failure => rfl
      | ok next =>
          have later := @inductionHypothesis (position + 1) next regionEnd
            (chunks ++ [origin.draft .structural
              (start.toNat, regionEnd.toNat - start.toNat)]) increasing
            (fun region member => small region (List.mem_cons_of_mem _ member))
            (fun boundary member => fits boundary
              (List.mem_cons_of_mem _ member))
            (by rw [List.length_append, List.length_singleton]; omega)
          rw [List.append_assoc, List.singleton_append] at later
          rw [List.getLast?_cons, Option.getD_some]
          exact later

/-- Objects that do not keep the limits fail before their bytes are read. -/
theorem chunkStructuralReader_of_not_fit
    (valid : config.Valid cdc)
    (unfit : ¬RegionsFit origin boundaryEnds config)
    (source other : Source) :
    chunkStructuralReader cdc stream source origin boundaryEnds config =
      chunkStructuralReader cdc stream other origin boundaryEnds config := by
  simp only [chunkStructuralReader, valid.validate, ok_bind]
  cases within : ensureLogicalSize (boundaryEnds.getLast?.getD 0) config with
  | error failure => rfl
  | ok _ =>
  cases isStop : addU64 origin.baseOffset (boundaryEnds.getLast?.getD 0) with
  | error failure => rfl
  | ok stop =>
  simp only [ensureLogicalSize, ensure_eq_ok, UInt64.le_iff_toNat_le] at within
  have fits := exists_addU64_eq_ok.mp ⟨stop, isStop⟩
  simp only [ok_bind]
  by_cases empty : boundaryEnds.getLast?.getD 0 = 0
  · have someEnds : boundaryEnds ≠ [] := by
      rintro rfl
      exact unfit ⟨⟨List.Pairwise.nil, by rintro _ ⟨⟩, rfl⟩, within, fits,
        Nat.zero_le _⟩
    rw [if_pos empty, if_pos empty, ensure_of_not someEnds, error_bind,
      error_bind]
  · rw [if_neg empty, if_neg empty]
    cases isCount : tryU64 boundaryEnds.length with
    | error failure => rfl
    | ok count =>
    rw [ok_bind, ok_bind]
    cases few : ensureChunkCount count config.maxChunks with
    | error failure => rfl
    | ok _ =>
    cases checked : validateBoundaryEnds boundaryEnds
        (boundaryEnds.getLast?.getD 0) with
    | error failure => rfl
    | ok _ =>
    have someBytes : 0 < (boundaryEnds.getLast?.getD 0).toNat :=
      Nat.pos_of_ne_zero fun none => empty (UInt64.toNat_inj.mp none)
    simp only [ensureChunkCount, ensure_eq_ok, UInt64.le_iff_toNat_le,
      tryU64_eq_ok] at few isCount
    exact absurd ⟨(validateBoundaryEnds_eq_ok someBytes).mp checked, within,
      fits, isCount ▸ few⟩ unfit

/-- An object that keeps the limits and whose regions are small is one chunk for
each region, once these are read and the probe finds nothing after them. -/
theorem chunkStructuralReader_of_fit
    (valid : config.Valid cdc)
    (fit : RegionsFit origin boundaryEnds config)
    (small : ∀ region ∈ regions 0 boundaryEnds,
      region.2 ≤ config.fastcdcMax.toNat)
    (source : Source) :
    chunkStructuralReader cdc stream source origin boundaryEnds config =
      (do
        let next ← consumeRegions source (regions 0 boundaryEnds)
        probeTrailing next
        .ok ((regions 0 boundaryEnds).map (origin.draft .structural))) := by
  obtain ⟨stop, isStop⟩ := exists_addU64_eq_ok.mpr fit.fits
  have within : ensureLogicalSize (boundaryEnds.getLast?.getD 0) config =
      .ok () := by
    simp only [ensureLogicalSize, ensure_eq_ok, UInt64.le_iff_toNat_le]
    exact fit.withinLimit
  have zero : (0 : UInt64).toNat = 0 := rfl
  simp only [chunkStructuralReader, valid.validate, ok_bind, within, isStop]
  by_cases empty : boundaryEnds.getLast?.getD 0 = 0
  · have noEnds := fit.ends.eq_nil_iff.mpr (by rw [empty, zero])
    subst noEnds
    rw [if_pos empty, ensure_of rfl]
    rfl
  · have someBytes : 0 < (boundaryEnds.getLast?.getD 0).toNat :=
      Nat.pos_of_ne_zero fun none => empty (UInt64.toNat_inj.mp none)
    have maxBound := config.maxChunks.toNat_lt
    have count := @toNat_ofNat_of_lt boundaryEnds.length
      (Nat.lt_of_le_of_lt fit.few maxBound)
    have isCount := tryU64_eq_ok.mpr count
    have few : ensureChunkCount (UInt64.ofNat boundaryEnds.length)
        config.maxChunks = .ok () := by
      simp only [ensureChunkCount, ensure_eq_ok, UInt64.le_iff_toNat_le, count]
      exact fit.few
    have increasing : ((0 : UInt64) :: boundaryEnds).Pairwise (· < ·) :=
      List.pairwise_cons.mpr ⟨fit.ends.positive, fit.ends.increasing⟩
    have loop := @forEnum_chunkRegionReader_of_small cdc stream config origin
      boundaryEnds 0 source 0 [] increasing small
      (fun boundary member => Nat.lt_of_le_of_lt
        (Nat.add_le_add_left (fit.ends.le member) _) fit.fits)
      (by rw [List.length_nil, Nat.zero_add]; exact fit.few)
    rw [if_neg empty, isCount, ok_bind, few, ok_bind,
      (validateBoundaryEnds_eq_ok someBytes).mpr fit.ends, ok_bind]
    simp only [loop, zero, List.nil_append]
    cases consumeRegions source (regions 0 boundaryEnds) with
    | error failure => rfl
    | ok next =>
        have tiles := tiles_iff.mp (zero ▸ tiles_regions increasing)
        rw [Nat.zero_add] at tiles
        have covered := @validateChunkCoverage_drafts origin .structural
          ((regions 0 boundaryEnds).map (·.2)) _ fit.fits tiles.2.symm
          (fun length member => by
            obtain ⟨region, isRegion, rfl⟩ := List.mem_map.mp member
            have largest := config.fastcdcMax.toNat_lt
            exact ⟨@regions_pos _ 0 _ increasing isRegion,
              Nat.lt_of_le_of_lt (small region isRegion) largest⟩)
        rw [ChunkOrigin.drafts, ← tiles.1] at covered
        show probeTrailing next >>= _ = probeTrailing next >>= _
        rw [covered]
        rfl

end Structural

/-! ## How far a script gets -/

/-- What is left of a script once so many bytes are read, when there are enough
and no read fails for good. -/
def scriptAfter :
    List (Event IoErrorKind) → Nat → Option (List (Event IoErrorKind))
  | script, 0 => some script
  | [], _ + 1 => some []
  | .gives most :: script, remaining + 1 =>
      scriptAfter script
        (remaining + 1 - min (min (remaining + 1) (64 * 1024)) (max 1 most))
  | .fails kind :: script, remaining + 1 =>
      if kind = .interrupted then scriptAfter script (remaining + 1) else none

/-- What is left of a script once the regions are read. -/
def scriptAfterRegions
    (script : List (Event IoErrorKind))
    (spans : List (Nat × Nat)) : Option (List (Event IoErrorKind)) :=
  spans.foldlM (fun script span => scriptAfter script span.2) script

@[simp] theorem scriptAfter_zero (script : List (Event IoErrorKind)) :
    scriptAfter script 0 = some script := by
  cases script with
  | nil => rfl
  | cons event script => cases event <;> rfl

@[simp] theorem scriptAfter_nil (remaining : Nat) :
    scriptAfter [] remaining = some [] := by
  cases remaining with
  | zero => rfl
  | succ remaining => rfl

theorem scriptAfter_gives
    {most remaining : Nat}
    {script : List (Event IoErrorKind)}
    (more : remaining ≠ 0) :
    scriptAfter (.gives most :: script) remaining =
      scriptAfter script
        (remaining - min (min remaining (64 * 1024)) (max 1 most)) := by
  cases remaining with
  | zero => exact absurd rfl more
  | succ remaining => rfl

theorem scriptAfter_fails
    {kind : IoErrorKind}
    {remaining : Nat}
    {script : List (Event IoErrorKind)}
    (more : remaining ≠ 0) :
    scriptAfter (.fails kind :: script) remaining =
      if kind = .interrupted then scriptAfter script remaining else none := by
  cases remaining with
  | zero => exact absurd rfl more
  | succ remaining => rfl

/-- A read of a region that may give so many bytes, before the others. -/
private theorem consumeExactRegion_gives
    {items : List UInt8}
    {script rest : List (Event IoErrorKind)}
    {next : Source}
    {length : UInt64}
    {taken : Nat}
    (isRead : scripted.read (min length.toNat (64 * 1024)) ⟨items, script⟩ =
      (.ok (items.take taken), ⟨items.drop taken, rest⟩))
    (positive : 0 < taken)
    (notMore : taken ≤ length.toNat)
    (later : ∀ fewer : UInt64, fewer.toNat < length.toNat →
      (consumeExactRegion ⟨items.drop taken, rest⟩ fewer = .ok next ↔
        fewer.toNat ≤ (items.drop taken).length ∧
          scriptAfter rest fewer.toNat = some next.script ∧
          next.items = (items.drop taken).drop fewer.toNat)) :
    consumeExactRegion ⟨items, script⟩ length = .ok next ↔
      length.toNat ≤ items.length ∧
        scriptAfter rest (length.toNat - taken) = some next.script ∧
        next.items = items.drop length.toNat := by
  have limit := length.toNat_lt
  have more : length ≠ 0 := by
    rintro rfl
    have zero : (0 : UInt64).toNat = 0 := rfl
    omega
  by_cases empty : items.take taken = []
  · have none : items.length = 0 := by
      have atEnd := (List.take_eq_nil_iff.mp empty).resolve_left (by omega)
      rw [atEnd, List.length_nil]
    rw [empty] at isRead
    rw [consumeExactRegion, readPieces_short more isRead]
    exact ⟨nofun, fun ⟨long, _⟩ => by omega⟩
  · have some := List.length_pos_iff.mpr empty
    have isTaken := @List.length_take _ taken items
    have fewer := @toNat_ofNat_of_lt
      (length.toNat - (items.take taken).length) (by omega)
    have rests := later (UInt64.ofNat
      (length.toNat - (items.take taken).length)) (by omega)
    rw [fewer, List.length_drop, List.drop_drop] at rests
    have unfolded : consumeExactRegion ⟨items, script⟩ length =
        consumeExactRegion ⟨items.drop taken, rest⟩ (UInt64.ofNat
          (length.toNat - (items.take taken).length)) := by
      rw [consumeExactRegion, readPieces_gives more isRead empty, ok_bind]
      rfl
    rw [unfolded, rests]
    by_cases long : taken ≤ items.length
    · have whole : (items.take taken).length = taken := by omega
      rw [whole, Nat.add_sub_cancel' notMore]
      exact and_congr_left' (by omega)
    · exact ⟨fun ⟨enough, _⟩ => by omega, fun ⟨enough, _⟩ => by omega⟩

/-- A region is consumed exactly when the stream is long enough and its script
gets to the end of the region. -/
theorem consumeExactRegion_eq_ok
    {source next : Source}
    {length : UInt64} :
    consumeExactRegion source length = .ok next ↔
      length.toNat ≤ source.items.length ∧
        scriptAfter source.script length.toNat = some next.script ∧
        next.items = source.items.drop length.toNat := by
  obtain ⟨items, script⟩ := source
  generalize isMeasure : script.length + length.toNat = left
  induction left using Nat.strongRecOn generalizing items script length with
  | ind left inductionHypothesis =>
      by_cases done : length = 0
      · obtain ⟨rest, nextScript⟩ := next
        have zero : (0 : UInt64).toNat = 0 := rfl
        rw [consumeExactRegion, done, readPieces_zero, ok_bind, zero]
        simp only [Except.ok.injEq, Scripted.mk.injEq, scriptAfter_zero,
          Option.some.injEq, List.drop_zero, Nat.zero_le, true_and]
        exact ⟨fun ⟨isItems, isScript⟩ => ⟨isScript, isItems.symm⟩,
          fun ⟨isScript, isItems⟩ => ⟨isItems.symm, isScript⟩⟩
      · have more : length.toNat ≠ 0 := fun none =>
          done (UInt64.toNat_inj.mp none)
        match script with
        | [] =>
            rw [scriptAfter_nil, ← scriptAfter_nil (length.toNat -
              min length.toNat (64 * 1024))]
            exact consumeExactRegion_gives rfl (by omega) (by omega)
              fun fewer below => inductionHypothesis _ (by omega) _ _ rfl
        | .gives most :: script =>
            rw [List.length_cons] at isMeasure
            rw [scriptAfter_gives more]
            exact consumeExactRegion_gives rfl (by omega) (by omega)
              fun fewer below => inductionHypothesis _ (by omega) _ _ rfl
        | .fails kind :: script =>
            rw [List.length_cons] at isMeasure
            rw [scriptAfter_fails more]
            by_cases interrupted : kind = .interrupted
            · subst interrupted
              rw [if_pos rfl, consumeExactRegion,
                readPieces_interrupted done rfl]
              exact inductionHypothesis _ (by omega) _ _ rfl
            · rw [if_neg interrupted, consumeExactRegion,
                readPieces_fails done rfl interrupted]
              exact ⟨nofun, nofun⟩

/-- The regions are consumed exactly when the stream is long enough and its
script gets to the end of them. -/
theorem consumeRegions_eq_ok
    {source next : Source}
    {spans : List (Nat × Nat)}
    (narrow : ∀ span ∈ spans, span.2 < 2 ^ 64) :
    consumeRegions source spans = .ok next ↔
      (spans.map (·.2)).sum ≤ source.items.length ∧
        scriptAfterRegions source.script spans = some next.script ∧
        next.items = source.items.drop (spans.map (·.2)).sum := by
  induction spans generalizing source with
  | nil =>
      obtain ⟨items, script⟩ := source
      obtain ⟨rest, nextScript⟩ := next
      simp only [consumeRegions, scriptAfterRegions, List.foldlM_nil,
        pure_eq_ok, Except.ok.injEq, Scripted.mk.injEq, List.map_nil,
        List.sum_nil, Nat.zero_le, true_and, List.drop_zero,
        Option.pure_def, Option.some.injEq]
      exact ⟨fun ⟨isItems, isScript⟩ => ⟨isScript, isItems.symm⟩,
        fun ⟨isScript, isItems⟩ => ⟨isItems.symm, isScript⟩⟩
  | cons span spans inductionHypothesis =>
      have value := toNat_ofNat_of_lt (narrow span List.mem_cons_self)
      have rests (middle : Source) := @inductionHypothesis middle
        fun later member => narrow later (List.mem_cons_of_mem _ member)
      simp only [consumeRegions, scriptAfterRegions] at rests
      simp only [consumeRegions, scriptAfterRegions, List.foldlM_cons,
        bind_eq_ok, consumeExactRegion_eq_ok, value, rests, List.map_cons,
        List.sum_cons, Option.bind_eq_bind, Option.bind_eq_some_iff]
      constructor
      · rintro ⟨middle, ⟨long, isScript, isItems⟩, enough, rest, isNext⟩
        rw [isItems, List.length_drop] at enough
        rw [isItems, List.drop_drop] at isNext
        exact ⟨by omega, ⟨_, isScript, rest⟩, isNext⟩
      · rintro ⟨enough, ⟨script, isScript, rest⟩, isNext⟩
        refine ⟨⟨source.items.drop span.2, script⟩,
          ⟨by omega, isScript, rfl⟩, ?_, rest, ?_⟩
        · rw [List.length_drop]
          omega
        · rw [isNext, List.drop_drop]

/-! ## The probe after the regions -/

theorem probeTrailing_of_read
    {source next : Source}
    {result : Except IoErrorKind (List UInt8)}
    (isRead : scripted.read 1 source = (result, next)) :
    probeTrailing source =
      probed (.invalidMetadata "trailing structural data") result := by
  unfold probeTrailing
  rw [isRead]
  match result with
  | .ok [] => rfl
  | .ok (byte :: piece) => rfl
  | .error kind => rfl

/-- The probe is interrupted when the next read is. -/
theorem probeTrailing_interrupted
    {source : Source}
    {rest : List (Event IoErrorKind)}
    (next : source.script = .fails .interrupted :: rest) :
    probeTrailing source = .error (.io .interrupted) := by
  have isRead : scripted.read 1 source =
      (.error .interrupted, ⟨source.items, rest⟩) := by
    simp only [scripted, next]
  rw [probeTrailing_of_read isRead, probed]

/-- The probe finds the same without the interruptions when the next read is
none. -/
theorem probeTrailing_calm
    {source : Source}
    (next : ∀ rest, source.script ≠ .fails .interrupted :: rest) :
    probeTrailing source.calm = probeTrailing source := by
  obtain ⟨⟨result, after⟩, isRead⟩ : ∃ read, scripted.read 1 source = read :=
    ⟨_, rfl⟩
  have final : result ≠ .error .interrupted := by
    rintro rfl
    obtain ⟨items, script⟩ := source
    match script with
    | [] => cases isRead
    | .gives most :: script => cases isRead
    | .fails kind :: script =>
        cases isRead
        exact next _ rfl
  rw [probeTrailing_of_read isRead,
    probeTrailing_of_read (read_without isRead final)]

theorem probeTrailing_calm_ne (source : Source) :
    probeTrailing source.calm ≠ .error (.io .interrupted) := by
  obtain ⟨⟨result, after⟩, isRead⟩ :
    ∃ read, scripted.read 1 source.calm = read := ⟨_, rfl⟩
  rw [probeTrailing_of_read isRead]
  match result with
  | .ok [] => exact nofun
  | .ok (byte :: piece) => exact nofun
  | .error kind =>
      rintro same
      cases same
      exact read_without_ne isRead

/-- The object keeps the limits, the script gets through its regions, and the
read that looks for trailing data is interrupted. -/
structure ProbeInterrupted
    (origin : ChunkOrigin)
    (boundaryEnds : List UInt64)
    (config : ChunkingConfig)
    (source : Source) : Prop where
  fit : RegionsFit origin boundaryEnds config
  enough : (boundaryEnds.getLast?.getD 0).toNat ≤ source.items.length
  interrupted : ∃ rest, scriptAfterRegions source.script
    (regions 0 boundaryEnds) = some (.fails .interrupted :: rest)

section Probe

variable
  {cdc : FastCdc}
  {stream : StreamCdc}
  {config : ChunkingConfig}
  {origin : ChunkOrigin}
  {boundaryEnds : List UInt64}
  {source : Source}

/-- The small regions of an object are consumed exactly when the stream is long
enough and its script gets through them. -/
theorem RegionsFit.consumeRegions_eq_ok
    {next : Source}
    (fit : RegionsFit origin boundaryEnds config)
    (small : ∀ region ∈ regions 0 boundaryEnds,
      region.2 ≤ config.fastcdcMax.toNat) :
    consumeRegions source (regions 0 boundaryEnds) = .ok next ↔
      (boundaryEnds.getLast?.getD 0).toNat ≤ source.items.length ∧
        scriptAfterRegions source.script (regions 0 boundaryEnds) =
          some next.script ∧
        next.items =
          source.items.drop (boundaryEnds.getLast?.getD 0).toNat := by
  have tiles := tiles_iff.mp (@tiles_regions boundaryEnds 0
    (List.pairwise_cons.mpr ⟨fit.ends.positive, fit.ends.increasing⟩))
  have zero : (0 : UInt64).toNat = 0 := rfl
  rw [zero, Nat.zero_add] at tiles
  rw [Pithos.consumeRegions_eq_ok, tiles.2]
  intro span member
  have largest := config.fastcdcMax.toNat_lt
  have bounded := small span member
  omega

/-- When the probe is interrupted, the interruption is the result, and without
the interruptions the result is another. -/
theorem chunkStructuralReader_of_probeInterrupted
    (valid : config.Valid cdc)
    (small : ∀ region ∈ regions 0 boundaryEnds,
      region.2 ≤ config.fastcdcMax.toNat)
    (probe : ProbeInterrupted origin boundaryEnds config source) :
    chunkStructuralReader cdc stream source origin boundaryEnds config =
        .error (.io .interrupted) ∧
      chunkStructuralReader cdc stream source.calm origin boundaryEnds config ≠
        .error (.io .interrupted) := by
  obtain ⟨rest, isScript⟩ := probe.interrupted
  have consumed := (@RegionsFit.consumeRegions_eq_ok _ _ _ source
    ⟨source.items.drop (boundaryEnds.getLast?.getD 0).toNat,
      .fails .interrupted :: rest⟩ probe.fit small).mpr
        ⟨probe.enough, isScript, rfl⟩
  rw [chunkStructuralReader_of_fit valid probe.fit small,
    chunkStructuralReader_of_fit valid probe.fit small, consumeRegions_calm,
    consumed, ok_bind, probeTrailing_interrupted rfl]
  refine ⟨rfl, fun failed => ?_⟩
  rw [Except.map, ok_bind] at failed
  rcases bind_eq_error.mp failed with failed | ⟨_, _, failed⟩
  · exact probeTrailing_calm_ne _ failed
  · cases failed

/-- When the probe is not interrupted, the result is that without the
interruptions. -/
theorem chunkStructuralReader_calm
    (valid : config.Valid cdc)
    (small : ∀ region ∈ regions 0 boundaryEnds,
      region.2 ≤ config.fastcdcMax.toNat)
    (probe : ¬ProbeInterrupted origin boundaryEnds config source) :
    chunkStructuralReader cdc stream source.calm origin boundaryEnds config =
      chunkStructuralReader cdc stream source origin boundaryEnds config := by
  by_cases fit : RegionsFit origin boundaryEnds config
  · rw [chunkStructuralReader_of_fit valid fit small,
      chunkStructuralReader_of_fit valid fit small, consumeRegions_calm]
    cases consumed : consumeRegions source (regions 0 boundaryEnds) with
    | error failure => rfl
    | ok next =>
        obtain ⟨long, isScript, _⟩ :=
          (fit.consumeRegions_eq_ok small).mp consumed
        have notNext (rest : List (Event IoErrorKind)) :
            next.script ≠ .fails .interrupted :: rest := fun isNext =>
          probe ⟨fit, long, rest, isNext ▸ isScript⟩
        rw [Except.map, ok_bind, ok_bind, probeTrailing_calm notNext]
  · exact chunkStructuralReader_of_not_fit valid fit _ _

end Probe

/-- Interrupted reads.  For reads that differ in interruptions only, and regions
that are small enough to be single chunks, structural chunking of the streams
has the same result exactly when the read that looks for trailing data is
interrupted in both or in none.  Fingerprints never depend on interruptions. -/
theorem interruptions_matter_iff
    {cdc : FastCdc}
    {stream : StreamCdc}
    {config : ChunkingConfig}
    {boundaryEnds : List UInt64}
    {source other chunkSource chunkOther : Source}
    (valid : config.Valid cdc)
    (small : ∀ region ∈ regions 0 boundaryEnds,
      region.2 ≤ config.fastcdcMax.toNat)
    (sameReads : source.without .interrupted = other.without .interrupted)
    (sameChunkReads : chunkSource.without .interrupted =
      chunkOther.without .interrupted)
    (origin : ChunkOrigin)
    (hashes : FingerprintHashes)
    (sizes : FingerprintSizes)
    (chunk : LogicalChunk)
    (fingerprintConfig : FingerprintConfig) :
    (chunkStructuralReader cdc stream source origin boundaryEnds config =
        chunkStructuralReader cdc stream other origin boundaryEnds config ∧
      fingerprintReader hashes sizes chunk chunkSource fingerprintConfig =
        fingerprintReader hashes sizes chunk chunkOther fingerprintConfig) ↔
      (ProbeInterrupted origin boundaryEnds config source ↔
        ProbeInterrupted origin boundaryEnds config other) := by
  have sameFingerprint :
      fingerprintReader hashes sizes chunk chunkSource fingerprintConfig =
        fingerprintReader hashes sizes chunk chunkOther fingerprintConfig := by
    rw [← fingerprintReader_calm, ← @fingerprintReader_calm _ _ _ chunkOther,
      Source.calm, Source.calm, sameChunkReads]
  rw [and_iff_left sameFingerprint]
  by_cases left : ProbeInterrupted origin boundaryEnds config source
  · obtain ⟨failed, calm⟩ := @chunkStructuralReader_of_probeInterrupted _ stream
      _ _ _ _ valid small left
    by_cases right : ProbeInterrupted origin boundaryEnds config other
    · have alsoFailed := (@chunkStructuralReader_of_probeInterrupted _ stream
        _ _ _ _ valid small right).1
      exact iff_of_true (failed.trans alsoFailed.symm) (iff_of_true left right)
    · have isCalm := @chunkStructuralReader_calm _ stream _ _ _ _ valid small
        right
      rw [Source.calm, sameReads] at calm
      refine iff_of_false (fun same => calm ?_) fun both => right (both.mp left)
      exact isCalm.trans (same.symm.trans failed)
  · have isCalm := @chunkStructuralReader_calm _ stream _ _ _ _ valid small left
    by_cases right : ProbeInterrupted origin boundaryEnds config other
    · obtain ⟨failed, calm⟩ := @chunkStructuralReader_of_probeInterrupted _
        stream _ _ _ _ valid small right
      rw [Source.calm, ← sameReads] at calm
      refine iff_of_false (fun same => calm ?_) fun both =>
        left (both.mpr right)
      exact isCalm.trans (same.trans failed)
    · have alsoCalm := @chunkStructuralReader_calm _ stream _ _ _ _ valid small
        right
      rw [Source.calm, ← sameReads] at alsoCalm
      exact iff_of_true (isCalm.symm.trans alsoCalm) (iff_of_false left right)

/-- One byte in one region.  An interruption of the read that looks for trailing
data is the result. -/
theorem interrupted_probe_fails :
    chunkStructuralReader .ofMinimum (.ofCuts .ofMinimum)
        ⟨[1], [.gives 1, .fails .interrupted]⟩ ⟨7, 0, 0⟩ [1] .default =
      .error (.io .interrupted) ∧
    chunkStructuralReader .ofMinimum (.ofCuts .ofMinimum)
        ⟨[1], [.gives 1]⟩ ⟨7, 0, 0⟩ [1] .default =
      .ok [⟨7, 0, 0, 1, .structural⟩] := by
  have fit : RegionsFit ⟨7, 0, 0⟩ [1] .default :=
    ⟨⟨by simp, by simp, rfl⟩, by decide, by decide, by decide⟩
  have small : ∀ region ∈ regions 0 [1],
      region.2 ≤ ChunkingConfig.default.fastcdcMax.toNat := by decide
  have consumed := (@RegionsFit.consumeRegions_eq_ok .default ⟨7, 0, 0⟩ [1]
    ⟨[1], [.gives 1]⟩ ⟨[], []⟩ fit small).mpr ⟨by decide, rfl, rfl⟩
  refine ⟨(chunkStructuralReader_of_probeInterrupted
    ChunkingConfig.default_valid small
      ⟨fit, by decide, ⟨[], rfl⟩⟩).1, ?_⟩
  rw [chunkStructuralReader_of_fit ChunkingConfig.default_valid fit small,
    consumed]
  rfl

/-- Interruptions before the first byte and between the regions change
nothing. -/
theorem interrupted_regions_succeed :
    chunkStructuralReader .ofMinimum (.ofCuts .ofMinimum)
        ⟨[1, 2, 3], [.fails .interrupted, .gives 1, .fails .interrupted]⟩
        ⟨7, 0, 0⟩ [1, 3] .default =
      chunkStructuralReader .ofMinimum (.ofCuts .ofMinimum)
        ⟨[1, 2, 3], [.gives 1]⟩ ⟨7, 0, 0⟩ [1, 3] .default := by
  have small : ∀ region ∈ regions 0 [1, 3],
      region.2 ≤ ChunkingConfig.default.fastcdcMax.toNat := by decide
  refine ((@interruptions_matter_iff .ofMinimum (.ofCuts .ofMinimum) .default
    [1, 3] ⟨[1, 2, 3], [.fails .interrupted, .gives 1, .fails .interrupted]⟩
    ⟨[1, 2, 3], [.gives 1]⟩ ⟨[], []⟩ ⟨[], [.fails .interrupted]⟩
    ChunkingConfig.default_valid small rfl rfl ⟨7, 0, 0⟩
    ⟨⟨Crc32c.checksum, Crc32c.append,
      fun bytes => Bytes.takeFixed 32 (Blake3.hash bytes)⟩, fun _ => 0⟩
    ⟨0, 0, 0, 0, 0, 0, 0, 0⟩ ⟨0, 7, 0, 0, 0, .structural⟩ .default).mpr ?_).1
  constructor
  · rintro ⟨_, _, rest, isScript⟩
    cases isScript
  · rintro ⟨_, _, rest, isScript⟩
    cases isScript

end Pithos
