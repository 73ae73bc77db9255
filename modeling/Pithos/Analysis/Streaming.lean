import Pithos.Analysis.Readers

/-!
# Streaming equals chunking in memory

Over a stream whose reads do not fail, in whatever pieces they come, the
streaming chunkers succeed exactly when the chunkers over the same bytes in
memory do, and with the same chunks.
-/

namespace Pithos

open Fallible
open Machine
open Layout
open FileTree
open Reader

/-! ## Exact reads -/

section ReadPieces

variable
  {Value : Type}
  {short : PithosError}
  {update : List UInt8 → Value → Result Value}
  {source next : Source}
  {remaining : UInt64}
  {value : Value}

theorem readPieces_zero :
    readPieces short update source 0 value = .ok (value, source) := by
  rw [readPieces, if_pos rfl]

/-- A read at the end of the stream. -/
theorem readPieces_short
    (more : remaining ≠ 0)
    (gave : scripted.read (min remaining.toNat (64 * 1024)) source =
      (.ok [], next)) :
    readPieces short update source remaining value = .error short := by
  rw [readPieces, if_neg more]
  split
  · rename_i gives
    rw [gave] at gives
    cases gives
    rw [dif_pos rfl]
  · rename_i failed
    rw [gave] at failed
    cases failed

/-- A read that gives something. -/
theorem readPieces_gives
    {piece : List UInt8}
    (more : remaining ≠ 0)
    (gave : scripted.read (min remaining.toNat (64 * 1024)) source =
      (.ok piece, next))
    (nonempty : piece ≠ []) :
    readPieces short update source remaining value =
      (update piece value >>= fun value =>
        readPieces short update next
          (UInt64.ofNat (remaining.toNat - piece.length)) value) := by
  have bounded := scripted.length_le _ _ _ _ gave
  have remainingBound := remaining.toNat_lt
  have isRest : checkedSub remaining (UInt64.ofNat piece.length) =
      some (UInt64.ofNat (remaining.toNat - piece.length)) := by
    rw [checkedSub_eq_some, toNat_ofNat_of_lt (by omega),
      toNat_ofNat_of_lt (by omega)]
    omega
  rw [readPieces, if_neg more]
  split
  · rename_i gives
    rw [gave] at gives
    cases gives
    rw [dif_neg nonempty]
    split
    · rename_i failed
      rw [failed, error_bind]
    · rename_i updated
      rw [updated, ok_bind]
      split
      · rename_i none
        rw [isRest] at none
        cases none
      · rename_i some
        rw [isRest] at some
        cases some
        rfl
  · rename_i failed
    rw [gave] at failed
    cases failed

/-- A read that is interrupted. -/
theorem readPieces_interrupted
    (more : remaining ≠ 0)
    (failed : scripted.read (min remaining.toNat (64 * 1024)) source =
      (.error .interrupted, next)) :
    readPieces short update source remaining value =
      readPieces short update next remaining value := by
  rw [readPieces, if_neg more]
  split
  · rename_i gives
    rw [failed] at gives
    cases gives
  · rename_i fails
    rw [failed] at fails
    cases fails
    rw [if_pos rfl]

/-- A read that fails otherwise. -/
theorem readPieces_fails
    {kind : IoErrorKind}
    (more : remaining ≠ 0)
    (failed : scripted.read (min remaining.toNat (64 * 1024)) source =
      (.error kind, next))
    (final : kind ≠ .interrupted) :
    readPieces short update source remaining value = .error (.io kind) := by
  rw [readPieces, if_neg more]
  split
  · rename_i gives
    rw [failed] at gives
    cases gives
  · rename_i fails
    rw [failed] at fails
    cases fails
    rw [if_neg final]

end ReadPieces

/-- A region of a stream is consumed exactly when the stream is long enough. -/
theorem consumeExactRegion_spec
    {source : Source}
    {bytes : List UInt8}
    {length : UInt64}
    (held : Scripted.Holds bytes source) :
    if length.toNat ≤ bytes.length then
      ∃ next, consumeExactRegion source length = .ok next ∧
        Scripted.Holds (bytes.drop length.toNat) next
    else consumeExactRegion source length =
      .error (.invalidMetadata "short structural stream") := by
  unfold consumeExactRegion
  generalize isLength : length.toNat = remaining
  induction remaining using Nat.strongRecOn
    generalizing source bytes length with
  | ind remaining inductionHypothesis =>
      by_cases done : length = 0
      · have none : remaining = 0 := by rw [← isLength, done]; rfl
        subst done none
        rw [if_pos (Nat.zero_le _), readPieces_zero]
        exact ⟨source, rfl, held⟩
      · have lengthBound := length.toNat_lt
        have positive : 0 < remaining := by
          refine Nat.pos_of_ne_zero fun none => done ?_
          rw [← UInt64.toNat_inj, isLength, none]
          rfl
        obtain ⟨piece, rest, next, gave, rfl, onlyEnd, heldNext⟩ :=
          delivers_scripted bytes source (min length.toNat (64 * 1024)) held
            (by omega)
        by_cases empty : piece = []
        · have none := onlyEnd empty
          rw [empty] at gave
          rw [if_neg (by rw [none, List.length_nil]; omega),
            readPieces_short done gave, error_bind]
        · have some := List.length_pos_iff.mpr empty
          have bounded := scripted.length_le _ _ _ _ gave
          have restValue :
              (UInt64.ofNat (length.toNat - piece.length)).toNat =
                remaining - piece.length := by
            rw [toNat_ofNat_of_lt (by omega), isLength]
          have later := inductionHypothesis (remaining - piece.length)
            (by omega) heldNext restValue
          rw [readPieces_gives done gave empty, ok_bind]
          rw [List.length_append]
          by_cases long : remaining - piece.length ≤ rest.length
          · rw [if_pos long] at later
            have isDrop : (piece ++ rest).drop remaining =
                rest.drop (remaining - piece.length) := by
              rw [List.drop_append, List.drop_eq_nil_of_le (by omega),
                List.nil_append]
            rw [if_pos (by omega), isDrop]
            exact later
          · rw [if_neg long] at later
            rw [if_neg (by omega)]
            exact later

/-! ## FastCDC over a stream -/

section FastCdcReader

variable
  {State : Type}
  {cdc : FastCdc}
  {stream : StreamCdc}
  {reader : Reader State UInt8 IoErrorKind}
  {holds : List UInt8 → State → Prop}
  {state : State}
  {bytes : List UInt8}
  {origin : ChunkOrigin}
  {config : ChunkingConfig}

theorem delivers_boundedReader
    (delivers : reader.Delivers holds)
    (rest : List UInt8)
    (missing : Nat) :
    (boundedReader reader).Delivers (Limited.Holds holds rest missing) := by
  intro items state want held wanted
  obtain ⟨piece, after, next, gave, delivered⟩ :=
    delivers.take rest missing items state want held wanted
  refine ⟨piece, after, next, ?_, delivered⟩
  by_cases atEnd : state.limit = 0
  · simp only [Reader.take, if_pos atEnd] at gave
    simp only [boundedReader, if_pos (Or.inl atEnd), gave]
  · have both : ¬(state.limit = 0 ∨ want = 0) := by omega
    simp only [boundedReader, if_neg both]
    exact gave

/-- The chunk of a stream at a span of its bytes. -/
private def chunkAt (bytes : List UInt8) (span : Nat × Nat) :
    Except IoErrorKind StreamChunk :=
  .ok ⟨UInt64.ofNat span.1, span.2, Bytes.slice bytes span.1 span.2⟩

private theorem streamChunk_eq_ok
    {chunks result : List LogicalChunkDraft}
    {logicalSize last : UInt64}
    {length : Nat}
    (inside : logicalSize.toNat + length ≤ bytes.length)
    (small : bytes.length < 2 ^ 64) :
    streamChunk origin config (chunkAt bytes (logicalSize.toNat, length))
        chunks logicalSize = .ok (result, last) ↔
      (logicalSize.toNat + length ≤ config.maxLogicalBytes.toNat ∧
        chunks.length < config.maxChunks.toNat ∧ 0 < length ∧
        length < 2 ^ 32 ∧
        origin.baseOffset.toNat + logicalSize.toNat + length < 2 ^ 64) ∧
      result = chunks ++ [origin.draft .fastCdcV2020
        (logicalSize.toNat, length)] ∧
      last.toNat = logicalSize.toNat + length := by
  have sliceLength := Bytes.length_slice inside
  simp only [streamChunk, chunkAt, UInt64.ofNat_toNat, sliceLength, and_self,
    ensure_of, ok_bind, bind_eq_ok, tryU64_eq_ok, addU64_eq_ok,
    ensureLogicalSize, ensure_eq_ok, exists_const, pushRelativeChunk_eq_ok,
    Except.ok.injEq, Prod.mk.injEq, UInt64.le_iff_toNat_le]
  constructor
  · rintro ⟨word, rfl, next, isNext, within, _, ⟨good, rfl⟩, rfl, rfl⟩
    exact ⟨⟨isNext ▸ within, good⟩, rfl, isNext.symm⟩
  · rintro ⟨⟨within, good⟩, rfl, isLast⟩
    have word := toNat_ofNat_of_lt (Nat.lt_of_le_of_lt
      (Nat.le_trans (Nat.le_add_left length logicalSize.toNat) inside) small)
    refine ⟨_, word, last, by omega, by omega, _, ⟨good, rfl⟩, rfl, rfl⟩

/-- The chunks of a stream are taken exactly when what they hold is within the
limits. -/
private theorem forEnum_streamChunk_eq_ok
    {position : Nat}
    {lengths : List Nat}
    {chunks result : List LogicalChunkDraft}
    {logicalSize last : UInt64}
    (inside : logicalSize.toNat + lengths.sum ≤ bytes.length)
    (small : bytes.length < 2 ^ 64)
    (bounded : ∀ length ∈ lengths, 0 < length ∧ length < 2 ^ 32)
    (within : logicalSize.toNat ≤ config.maxLogicalBytes.toNat)
    (fits : origin.baseOffset.toNat + logicalSize.toNat < 2 ^ 64)
    (room : chunks.length ≤ config.maxChunks.toNat) :
    forEnum (fun _ next (done : List LogicalChunkDraft × UInt64) =>
          streamChunk origin config next done.1 done.2)
        position ((layOut logicalSize.toNat lengths).map (chunkAt bytes))
        (chunks, logicalSize) = .ok (result, last) ↔
      (logicalSize.toNat + lengths.sum ≤ config.maxLogicalBytes.toNat ∧
        origin.baseOffset.toNat + (logicalSize.toNat + lengths.sum) < 2 ^ 64 ∧
        chunks.length + lengths.length ≤ config.maxChunks.toNat) ∧
      result = chunks ++ (layOut logicalSize.toNat lengths).map
        (origin.draft .fastCdcV2020) ∧
      last.toNat = logicalSize.toNat + lengths.sum := by
  induction lengths generalizing position chunks logicalSize with
  | nil =>
      simp only [layOut_nil, List.map_nil, forEnum_nil, Except.ok.injEq,
        Prod.mk.injEq, List.sum_nil, Nat.add_zero, List.append_nil,
        List.length_nil, UInt64.toNat_inj, within, fits, room, true_and]
      exact and_congr eq_comm eq_comm
  | cons length lengths inductionHypothesis =>
      rw [List.sum_cons] at inside
      obtain ⟨positive, narrow⟩ := bounded length List.mem_cons_self
      have laterBounded (later : Nat) (member : later ∈ lengths) :=
        bounded later (List.mem_cons_of_mem _ member)
      have longer : (chunks ++ [origin.draft .fastCdcV2020
          (logicalSize.toNat, length)]).length = chunks.length + 1 :=
        List.length_append
      simp only [layOut_cons, List.map_cons, forEnum_cons, bind_eq_ok,
        List.sum_cons, List.length_cons, Prod.exists]
      have step (out : List LogicalChunkDraft) (next : UInt64) :=
        @streamChunk_eq_ok bytes origin config chunks out logicalSize next
          length (by omega) small
      constructor
      · rintro ⟨out, next, taken, rest⟩
        obtain ⟨good, rfl, isNext⟩ := (step out next).mp taken
        have later := (@inductionHypothesis (position + 1) _ next
          (by omega) laterBounded (by omega) (by omega)
          (by omega)).mp (isNext ▸ rest)
        rw [longer, isNext] at later
        refine ⟨⟨by omega, by omega, by omega⟩, ?_, by omega⟩
        rw [later.2.1, List.append_assoc, List.singleton_append]
      · rintro ⟨⟨size, stop, few⟩, rfl, isLast⟩
        have next := @toNat_ofNat_of_lt (logicalSize.toNat + length) (by omega)
        have rest := (@inductionHypothesis (position + 1)
          (chunks ++ [origin.draft .fastCdcV2020 (logicalSize.toNat, length)])
          (UInt64.ofNat (logicalSize.toNat + length))
          (by omega) laterBounded (by omega) (by omega) (by omega)).mpr
            ⟨⟨by omega, by omega, by omega⟩, by
              rw [next, List.append_assoc, List.singleton_append], by omega⟩
        rw [next] at rest
        exact ⟨_, _, (step _ _).mpr
          ⟨⟨by omega, by omega, positive, narrow, by omega⟩, rfl, next⟩, rest⟩

/-- FastCDC over a stream that delivers some bytes succeeds exactly when FastCDC
over these bytes does, with the same chunks, and reads them all. -/
theorem chunkFastcdcReader_eq_ok
    (lawful : cdc.Lawful)
    (follows : stream.Follows cdc)
    (valid : config.Valid cdc)
    (delivers : reader.Delivers holds)
    (held : holds bytes state)
    (small : bytes.length < 2 ^ 64) :
    ∃ final, (bytes.length ≤ config.maxLogicalBytes.toNat → holds [] final) ∧
      ∀ result out,
        chunkFastcdcReader cdc stream reader state origin config =
            .ok (result, out) ↔
          chunkFastcdc cdc bytes origin config = .ok result ∧ out = final := by
  have maxBound := config.maxLogicalBytes.toNat_lt
  -- The bytes that the bound on the reader lets through.
  generalize isBound : min (config.maxLogicalBytes.toNat + 1) (2 ^ 64 - 1) =
    bound
  obtain ⟨final, heldFinal, isStream⟩ := follows.chunks (boundedReader reader)
    _ (delivers_boundedReader delivers (bytes.drop bound)
      (bound - bytes.length)) _ _ _ valid.sizes _ _
    (Limited.holds_start held bound)
  have taken : (bytes.take bound).length = min bound bytes.length :=
    List.length_take
  have whole (within : bytes.length ≤ config.maxLogicalBytes.toNat) :
      bytes.take bound = bytes ∧ bytes.drop bound = [] :=
    ⟨List.take_of_length_le (by omega), List.drop_eq_nil_of_le (by omega)⟩
  have isWithin : (bytes.take bound).length ≤ config.maxLogicalBytes.toNat ↔
      bytes.length ≤ config.maxLogicalBytes.toNat := by omega
  generalize bytes.take bound = delivered at isStream taken whole isWithin
  have spans := lawful.spans valid delivered
  have sum := lawful.sum_cutLengths valid delivered
  have items : (cdc.chunks config.fastcdcMin.toNat config.fastcdcAvg.toNat
      config.fastcdcMax.toNat delivered).map (fun chunk =>
        (.ok ⟨UInt64.ofNat chunk.offset, chunk.length,
          Bytes.slice delivered chunk.offset chunk.length⟩ :
            Except IoErrorKind StreamChunk)) =
      (layOut 0 (config.cutLengths cdc delivered)).map
        (chunkAt delivered) := by
    rw [← spans, List.map_map]
    rfl
  have bounded (length : Nat)
      (member : length ∈ config.cutLengths cdc delivered) :
      0 < length ∧ length < 2 ^ 32 := by
    have both := lawful.of_mem_cutLengths valid member
    have largest := config.fastcdcMax.toNat_lt
    exact ⟨both.1, by omega⟩
  have zero : (0 : UInt64).toNat = 0 := rfl
  have loop (result : List LogicalChunkDraft) (last : UInt64) :=
    @forEnum_streamChunk_eq_ok delivered origin config 0
      (config.cutLengths cdc delivered) [] result 0 last
      (Nat.le_of_eq (by rw [sum, zero, Nat.zero_add])) (by omega) bounded
      (Nat.zero_le _)
      (by rw [zero, Nat.add_zero]; exact origin.baseOffset.toNat_lt)
      (Nat.zero_le _)
  simp only [zero, Nat.zero_add, List.length_nil, sum, List.nil_append]
    at loop
  refine ⟨final.inner, ?_, ?_⟩
  · intro within
    have inner := heldFinal.1
    rwa [(whole within).2] at inner
  · intro result out
    simp only [chunkFastcdc_eq_ok lawful valid, chunkFastcdcReader,
      valid.validate, ok_bind, isBound, isStream, items, bind_eq_ok, loop,
      Prod.exists, Except.ok.injEq, Prod.mk.injEq]
    constructor
    · rintro ⟨chunks, last, ⟨⟨within, fits, few⟩, rfl, _⟩, _, _, rfl, rfl⟩
      obtain ⟨rfl, -⟩ := whole (isWithin.mp within)
      exact ⟨⟨within, fits, few, rfl⟩, rfl⟩
    · rintro ⟨⟨within, fits, few, rfl⟩, rfl⟩
      obtain ⟨rfl, -⟩ := whole within
      have size := toNat_ofNat_of_lt small
      refine ⟨_, UInt64.ofNat delivered.length, ⟨⟨within, fits, few⟩, rfl, size⟩,
        (), ?_, rfl, rfl⟩
      exact validateChunkCoverage_drafts (size.symm ▸ fits)
        (sum.trans size.symm) bounded

end FastCdcReader

/-! ## Regions of a stream -/

section StructuralReader

variable
  {cdc : FastCdc}
  {stream : StreamCdc}
  {config : ChunkingConfig}
  {origin : ChunkOrigin}
  {data : List UInt8}
  {boundaryEnds : List UInt64}

/-- The probe finds out whether anything is left. -/
theorem probeTrailing_eq_ok
    {source : Source}
    {bytes : List UInt8}
    (held : Scripted.Holds bytes source) :
    probeTrailing source = .ok () ↔ bytes = [] := by
  obtain ⟨piece, rest, next, gave, rfl, onlyEnd, -⟩ :=
    delivers_scripted bytes source 1 held Nat.one_pos
  unfold probeTrailing
  split
  · rename_i gives
    rw [gave] at gives
    cases gives
    exact ⟨fun _ => onlyEnd rfl, fun _ => rfl⟩
  · rename_i nonempty gives
    rw [gave] at gives
    cases gives
    simp only [reduceCtorEq, false_iff]
    intro none
    exact nonempty (List.append_eq_nil_iff.mp none).1
  · rename_i failed
    rw [gave] at failed
    cases failed

/-- A region of a stream is chunked exactly when the stream has it and there is
room for its chunks, and `next` is the stream behind it. -/
structure RegionChunked
    (cdc : FastCdc)
    (stream : StreamCdc)
    (config : ChunkingConfig)
    (origin : ChunkOrigin)
    (data : List UInt8)
    (source : Source)
    (regionStart regionEnd : UInt64)
    (chunks : List LogicalChunkDraft)
    (next : Source) : Prop where
  holds : regionEnd.toNat ≤ data.length →
    Scripted.Holds (data.drop regionEnd.toNat) next
  eq_ok : ∀ result out,
    chunkRegionReader cdc stream source origin config regionEnd regionStart
        chunks = .ok (result, out) ↔
      (regionEnd.toNat ≤ data.length ∧
        chunks.length + (regionLengths cdc config data
            (regionStart.toNat, regionEnd.toNat - regionStart.toNat)).length
          ≤ config.maxChunks.toNat) ∧
      result = chunks ++ (layOut regionStart.toNat
        (regionLengths cdc config data
          (regionStart.toNat, regionEnd.toNat - regionStart.toNat))).map
            (origin.draft .structural) ∧
      out = next

section Region

variable
  {source : Source}
  {regionStart regionEnd : UInt64}
  {chunks : List LogicalChunkDraft}

theorem exists_regionLen (above : regionStart.toNat < regionEnd.toNat) :
    ∃ regionLen, checkedSub regionEnd regionStart = some regionLen ∧
      regionEnd.toNat - regionStart.toNat = regionLen.toNat := by
  obtain ⟨regionLen, isLen⟩ : ∃ regionLen,
      checkedSub regionEnd regionStart = some regionLen :=
    ⟨_, if_pos (Nat.le_of_lt above)⟩
  have lenValue := checkedSub_eq_some.mp isLen
  exact ⟨regionLen, isLen, by omega⟩

theorem drop_drop_region
    (above : regionStart.toNat < regionEnd.toNat) :
    (data.drop regionStart.toNat).drop
        (regionEnd.toNat - regionStart.toNat) =
      data.drop regionEnd.toNat := by
  rw [List.drop_drop, Nat.add_sub_cancel' (Nat.le_of_lt above)]

/-- A region that is not above the maximal chunk is one chunk, and its bytes are
passed over. -/
theorem exists_regionChunked_single
    (held : Scripted.Holds (data.drop regionStart.toNat) source)
    (inside : regionStart.toNat ≤ data.length)
    (above : regionStart.toNat < regionEnd.toNat)
    (fits : origin.baseOffset.toNat + regionEnd.toNat < 2 ^ 64)
    (single : regionEnd.toNat - regionStart.toNat ≤ config.fastcdcMax.toNat) :
    ∃ next, RegionChunked cdc stream config origin data source regionStart
      regionEnd chunks next := by
  obtain ⟨regionLen, isLen, isRest⟩ := exists_regionLen above
  have maxBound := config.fastcdcMax.toNat_lt
  have restLength : (data.drop regionStart.toNat).length =
      data.length - regionStart.toNat := List.length_drop
  have isDrop := @drop_drop_region data _ _ above
  rw [isRest] at isDrop single
  have asLength : regionLen ≤ config.fastcdcMax.toUInt64 := by
    rwa [UInt64.le_iff_toNat_le, UInt32.toNat_toUInt64]
  have consumed := @consumeExactRegion_spec _ _ regionLen held
  by_cases long : regionEnd.toNat ≤ data.length
  · rw [if_pos (by omega), isDrop] at consumed
    obtain ⟨next, isNext, heldNext⟩ := consumed
    refine ⟨next, fun _ => heldNext, fun result out => ?_⟩
    simp only [chunkRegionReader, isLen, okOr_some, ok_bind, isRest,
      if_pos asLength, isNext, bind_eq_ok, pushRelativeChunk_eq_ok,
      Except.ok.injEq, Prod.mk.injEq, regionLengths, if_pos single,
      List.length_singleton, layOut_cons, layOut_nil, List.map_cons,
      List.map_nil, long, true_and]
    constructor
    · rintro ⟨_, ⟨⟨room, _⟩, rfl⟩, rfl, rfl⟩
      exact ⟨room, rfl, rfl⟩
    · rintro ⟨room, rfl, rfl⟩
      exact ⟨_, ⟨⟨room, by omega, by omega, by omega⟩, rfl⟩, rfl, rfl⟩
  · rw [if_neg (by omega)] at consumed
    refine ⟨source, fun isLong => absurd isLong long, fun result out => ?_⟩
    simp only [chunkRegionReader, isLen, okOr_some, ok_bind,
      if_pos asLength, consumed, error_bind, reduceCtorEq, long, false_and]

/-- A longer region is chunked by FastCDC over a reader that ends with it. -/
theorem exists_regionChunked_cut
    (lawful : cdc.Lawful)
    (follows : stream.Follows cdc)
    (valid : config.Valid cdc)
    (held : Scripted.Holds (data.drop regionStart.toNat) source)
    (inside : regionStart.toNat ≤ data.length)
    (above : regionStart.toNat < regionEnd.toNat)
    (fits : origin.baseOffset.toNat + regionEnd.toNat < 2 ^ 64)
    (longer : config.fastcdcMax.toNat < regionEnd.toNat - regionStart.toNat)
    (someRoom : chunks.length < config.maxChunks.toNat) :
    ∃ next, RegionChunked cdc stream config origin data source regionStart
      regionEnd chunks next := by
  obtain ⟨regionLen, isLen, isRest⟩ := exists_regionLen above
  have restLength : (data.drop regionStart.toNat).length =
      data.length - regionStart.toNat := List.length_drop
  have isDrop := @drop_drop_region data _ _ above
  rw [isRest] at isDrop longer
  have asLength : ¬regionLen ≤ config.fastcdcMax.toUInt64 := by
    rw [UInt64.le_iff_toNat_le, UInt32.toNat_toUInt64]
    omega
  have someBytes : regionLen ≠ 0 := by
    rintro rfl
    exact absurd longer (Nat.not_lt_zero _)
  obtain ⟨count, limit, isCount, isLimit, someLimit⟩ :=
    exists_remainingLimit someRoom
  obtain ⟨baseOffset, isBase⟩ := exists_addU64_eq_ok.mpr
    (show origin.baseOffset.toNat + regionStart.toNat < 2 ^ 64 by omega)
  have baseValue := addU64_eq_ok.mp isBase
  -- The reader over the region, and what it leaves of the limit.
  have isSlice : (data.drop regionStart.toNat).take regionLen.toNat =
      Bytes.slice data regionStart.toNat regionLen.toNat := rfl
  have sliceLength : (Bytes.slice data regionStart.toNat
      regionLen.toNat).length =
        min regionLen.toNat (data.length - regionStart.toNat) := by
    rw [Bytes.slice, List.length_take, restLength]
  have started := Limited.holds_start held regionLen.toNat
  obtain ⟨final, heldFinal, isReader⟩ := @chunkFastcdcReader_eq_ok
    _ _ _ _ _ _ _ { origin with baseOffset := baseOffset } _ lawful follows
    (valid.sub someLimit someBytes) (delivers_scripted.take _ _) started
    (Nat.lt_of_le_of_lt (Nat.le_of_eq sliceLength) (by omega))
  have finalHeld := heldFinal
    (Nat.le_trans (Nat.le_of_eq sliceLength) (Nat.min_le_left _ _))
  have finalLimit : final.limit =
      regionLen.toNat - (data.length - regionStart.toNat) := by
    rw [finalHeld.2.1, List.length_nil, Nat.zero_add, restLength]
  refine ⟨final.inner, fun _ => ?_, fun result out => ?_⟩
  · have inner := finalHeld.1
    rwa [List.nil_append, isDrop] at inner
  · have moved := map_structural_drafts isBase
    simp only [chunkRegionReader, isLen, okOr_some, ok_bind, isRest,
      if_neg asLength, tryU64_eq_ok.mpr isCount,
      checkedSub_eq_some.mpr isLimit, ensure_of someLimit, isBase, bind_eq_ok,
      Prod.exists, isReader, isSlice,
      chunkFastcdc_eq_ok lawful (valid.sub someLimit someBytes), ensure_eq_ok,
      exists_const, cutLengths_sub, Except.ok.injEq, Prod.mk.injEq,
      regionLengths, if_neg (Nat.not_le_of_lt longer)]
    constructor
    · rintro ⟨_, _, ⟨⟨_, _, few, rfl⟩, rfl⟩, whole, _, _, rfl, rfl⟩
      rw [finalLimit] at whole
      exact ⟨⟨by omega, by omega⟩, by rw [moved], rfl⟩
    · rintro ⟨⟨long, few⟩, rfl, rfl⟩
      have exact : (Bytes.slice data regionStart.toNat
          regionLen.toNat).length = regionLen.toNat := by omega
      refine ⟨_, final, ⟨⟨Nat.le_of_eq exact, by omega, by omega, rfl⟩,
        rfl⟩, by omega, (), ?_, by rw [moved], rfl⟩
      refine validateChunkCoverage_drafts (by simp only; omega)
        ((lawful.sum_cutLengths valid _).trans exact) ?_
      intro length member
      have bounded := lawful.of_mem_cutLengths valid member
      have maxBound := config.fastcdcMax.toNat_lt
      exact ⟨bounded.1, by omega⟩

/-- Without room for another chunk a longer region is refused. -/
theorem exists_regionChunked_full
    (lawful : cdc.Lawful)
    (valid : config.Valid cdc)
    (above : regionStart.toNat < regionEnd.toNat)
    (longer : config.fastcdcMax.toNat < regionEnd.toNat - regionStart.toNat)
    (noRoom : config.maxChunks.toNat ≤ chunks.length) :
    ∃ next, RegionChunked cdc stream config origin data source regionStart
      regionEnd chunks next := by
  obtain ⟨regionLen, isLen, isRest⟩ := exists_regionLen above
  have asLength : ¬regionLen ≤ config.fastcdcMax.toUInt64 := by
    rw [UInt64.le_iff_toNat_le, UInt32.toNat_toUInt64]
    omega
  refine ⟨⟨data.drop regionEnd.toNat, []⟩, fun _ => ⟨rfl, by rintro _ ⟨⟩⟩,
    fun result out => ⟨fun succeeded => ?_, ?_⟩⟩
  · simp only [chunkRegionReader, isLen, okOr_some, ok_bind, if_neg asLength,
      bind_eq_ok, tryU64_eq_ok, okOr_eq_ok, checkedSub_eq_some, ensure_eq_ok]
      at succeeded
    obtain ⟨count, isCount, limit, isLimit, _, someLimit, _⟩ := succeeded
    refine absurd (UInt64.toNat_inj.mp ?_) someLimit
    have zero : (0 : UInt64).toNat = 0 := rfl
    omega
  · rintro ⟨⟨long, few⟩, _⟩
    have some := List.length_pos_iff.mpr
      (@regionLengths_ne_nil _ _ data lawful valid
        (regionStart.toNat, regionEnd.toNat - regionStart.toNat)
        (by simp only; omega) (by simp only; omega))
    omega

/-- Every region of a stream is chunked. -/
theorem exists_regionChunked
    (lawful : cdc.Lawful)
    (follows : stream.Follows cdc)
    (valid : config.Valid cdc)
    (held : Scripted.Holds (data.drop regionStart.toNat) source)
    (inside : regionStart.toNat ≤ data.length)
    (above : regionStart.toNat < regionEnd.toNat)
    (fits : origin.baseOffset.toNat + regionEnd.toNat < 2 ^ 64) :
    ∃ next, RegionChunked cdc stream config origin data source regionStart
      regionEnd chunks next := by
  rcases Nat.lt_or_ge config.fastcdcMax.toNat
    (regionEnd.toNat - regionStart.toNat) with longer | single
  · rcases Nat.lt_or_ge chunks.length config.maxChunks.toNat with
      someRoom | noRoom
    · exact exists_regionChunked_cut lawful follows valid held inside above
        fits longer someRoom
    · exact exists_regionChunked_full lawful valid above longer noRoom
  · exact exists_regionChunked_single held inside above fits single

end Region

/-- The regions of a stream follow one another. -/
theorem forEnum_chunkRegionReader_eq_ok
    (lawful : cdc.Lawful)
    (follows : stream.Follows cdc)
    (valid : config.Valid cdc)
    {position : Nat}
    {source : Source}
    {start : UInt64}
    {chunks : List LogicalChunkDraft}
    (held : Scripted.Holds (data.drop start.toNat) source)
    (inside : start.toNat ≤ data.length)
    (increasing : (start :: boundaryEnds).Pairwise (· < ·))
    (fits : ∀ boundary ∈ boundaryEnds,
      origin.baseOffset.toNat + boundary.toNat < 2 ^ 64)
    (room : chunks.length ≤ config.maxChunks.toNat) :
    ∃ next, ((∀ boundary ∈ boundaryEnds, boundary.toNat ≤ data.length) →
        Scripted.Holds
          (data.drop (boundaryEnds.getLast?.getD start).toNat) next) ∧
      ∀ result last out, forEnum
          (fun _ regionEnd
              (state : UInt64 × List LogicalChunkDraft × Source) => (do
            let (chunks, source) ← chunkRegionReader cdc stream state.2.2
              origin config regionEnd state.1 state.2.1
            .ok (regionEnd, chunks, source) :
              Result (UInt64 × List LogicalChunkDraft × Source)))
          position boundaryEnds (start, chunks, source) =
            .ok (last, result, out) ↔
        ((∀ boundary ∈ boundaryEnds, boundary.toNat ≤ data.length) ∧
          chunks.length + ((regions start.toNat boundaryEnds).flatMap
            (regionLengths cdc config data)).length ≤
              config.maxChunks.toNat) ∧
        result = chunks ++ (layOut start.toNat
          ((regions start.toNat boundaryEnds).flatMap
            (regionLengths cdc config data))).map
              (origin.draft .structural) ∧
        last = boundaryEnds.getLast?.getD start ∧ out = next := by
  induction boundaryEnds generalizing position source start chunks with
  | nil =>
      refine ⟨source, fun _ => held, fun result last out => ?_⟩
      simp only [forEnum_nil, Except.ok.injEq, Prod.mk.injEq, regions,
        List.flatMap_nil, List.length_nil, Nat.add_zero, room, layOut_nil,
        List.map_nil, List.append_nil, List.getLast?_nil, Option.getD_none,
        List.not_mem_nil, false_implies, implies_true, true_and]
      constructor
      · rintro ⟨rfl, rfl, rfl⟩
        exact ⟨rfl, rfl, rfl⟩
      · rintro ⟨rfl, rfl, rfl⟩
        exact ⟨rfl, rfl, rfl⟩
  | cons regionEnd boundaryEnds inductionHypothesis =>
      obtain ⟨below, increasing⟩ := List.pairwise_cons.mp increasing
      have above := UInt64.lt_iff_toNat_lt.mp
        (below regionEnd List.mem_cons_self)
      obtain ⟨next, heldNext, isRegion⟩ := @exists_regionChunked _ _ _ origin _
        _ _ regionEnd chunks lawful follows valid held inside above
        (fits regionEnd List.mem_cons_self)
      generalize isLengths : regionLengths cdc config data
        (start.toNat, regionEnd.toNat - start.toNat) = lengths at isRegion
      by_cases taken : regionEnd.toNat ≤ data.length ∧
          chunks.length + lengths.length ≤ config.maxChunks.toNat
      · obtain ⟨long, fewer⟩ := taken
        have longer : (chunks ++ (layOut start.toNat lengths).map
            (origin.draft .structural)).length =
              chunks.length + lengths.length := by
          rw [List.length_append, List.length_map, length_layOut]
        have sum := @sum_regionLengths _ _ data lawful valid
          (start.toNat, regionEnd.toNat - start.toNat) (by simp only; omega)
        rw [isLengths] at sum
        have whole : start.toNat + lengths.sum = regionEnd.toNat := by omega
        obtain ⟨final, heldFinal, isRest⟩ := @inductionHypothesis
          (position + 1) next regionEnd (chunks ++ (layOut start.toNat
            lengths).map (origin.draft .structural)) (heldNext long) long
          increasing (fun boundary member =>
            fits boundary (List.mem_cons_of_mem _ member)) (by omega)
        rw [longer] at isRest
        refine ⟨final, fun allInside => ?_, fun result last out => ?_⟩
        · rw [List.getLast?_cons, Option.getD_some]
          exact heldFinal fun boundary member =>
            allInside boundary (List.mem_cons_of_mem _ member)
        · simp only [forEnum_cons, bind_eq_ok, Prod.exists, isRegion,
            Except.ok.injEq, Prod.mk.injEq, regions, List.flatMap_cons,
            isLengths, List.length_append, layOut_append, whole,
            List.map_append, List.mem_cons, forall_eq_or_imp, long, true_and,
            List.getLast?_cons, Option.getD_some, ← Nat.add_assoc,
            ← List.append_assoc]
          rw [← isRest]
          constructor
          · rintro ⟨_, _, _, ⟨_, _, ⟨_, rfl, rfl⟩, rfl, rfl, rfl⟩, rest⟩
            exact rest
          · intro rest
            exact ⟨_, _, _, ⟨_, _, ⟨fewer, rfl, rfl⟩, rfl, rfl, rfl⟩, rest⟩
      · refine ⟨⟨data.drop (boundaryEnds.getLast?.getD regionEnd).toNat, []⟩,
          fun _ => ?_, fun result last out => ?_⟩
        · rw [List.getLast?_cons, Option.getD_some]
          exact ⟨rfl, by rintro _ ⟨⟩⟩
        · simp only [forEnum_cons, bind_eq_ok, isRegion, taken, false_and,
            exists_false, regions, List.flatMap_cons, isLengths,
            List.length_append, List.mem_cons, forall_eq_or_imp, false_iff]
          rintro ⟨⟨⟨long, _⟩, few⟩, _⟩
          exact taken ⟨long, by omega⟩

/-- Structural chunking of a stream succeeds exactly when structural chunking of
its bytes does, with the same chunks. -/
theorem chunkStructuralReader_eq_ok
    (lawful : cdc.Lawful)
    (follows : stream.Follows cdc)
    (valid : config.Valid cdc)
    (small : data.length < 2 ^ 64)
    {source : Source}
    {result : List LogicalChunkDraft}
    (held : Scripted.Holds data source) :
    chunkStructuralReader cdc stream source origin boundaryEnds config =
        .ok result ↔
      chunkStructural cdc data origin boundaryEnds config = .ok result := by
  have zero : (0 : UInt64).toNat = 0 := rfl
  rw [chunkStructural_eq_ok lawful valid]
  simp only [chunkStructuralReader, valid.validate, ok_bind, bind_eq_ok,
    ensureLogicalSize, ensure_eq_ok, exists_const, UInt64.le_iff_toNat_le]
  generalize isSize : boundaryEnds.getLast?.getD 0 = logicalSize
  by_cases empty : logicalSize = 0
  · simp only [if_pos empty, bind_eq_ok, ensure_eq_ok, exists_const,
      probeTrailing_eq_ok held, Except.ok.injEq]
    subst empty
    constructor
    · rintro ⟨within, stop, isStop, rfl, rfl, rfl⟩
      have noEnd : ∀ stop ∈ ([] : List UInt64), 0 < stop :=
        fun _ member => absurd member List.not_mem_nil
      exact ⟨⟨⟨List.Pairwise.nil, noEnd, rfl⟩, within,
        exists_addU64_eq_ok.mp ⟨stop, isStop⟩, Nat.zero_le _⟩, rfl⟩
    · rintro ⟨⟨ends, within, fits, _⟩, rfl⟩
      have noBytes : data.length = 0 := by
        rw [← ends.endsAtSize, isSize, zero]
      obtain ⟨stop, isStop⟩ := exists_addU64_eq_ok.mpr
        (show origin.baseOffset.toNat + (0 : UInt64).toNat < 2 ^ 64 by omega)
      have noEnds := ends.eq_nil_iff.mpr noBytes
      subst noEnds
      exact ⟨by omega, stop, isStop, rfl, List.eq_nil_of_length_eq_zero noBytes,
        rfl⟩
  · have someBytes : 0 < logicalSize.toNat :=
      Nat.pos_of_ne_zero fun none => empty (UInt64.toNat_inj.mp none)
    have nonempty : boundaryEnds ≠ [] := by
      rintro rfl
      exact empty isSize.symm
    have lastMember : logicalSize ∈ boundaryEnds := by
      rw [← isSize, List.getLast?_eq_some_getLast nonempty, Option.getD_some]
      exact List.getLast_mem nonempty
    have regionsRead (ends : BoundaryEnds boundaryEnds logicalSize.toNat)
        (fits : origin.baseOffset.toNat + logicalSize.toNat < 2 ^ 64) :=
      @forEnum_chunkRegionReader_eq_ok _ _ _ origin data boundaryEnds lawful
        follows valid 0 source 0 [] held (Nat.zero_le _)
        (List.pairwise_cons.mpr ⟨ends.positive, ends.increasing⟩)
        (fun _ member => Nat.lt_of_le_of_lt
          (Nat.add_le_add_left (ends.le member) _) fits) (Nat.zero_le _)
    simp only [isSize, zero, List.length_nil, Nat.zero_add, List.nil_append]
      at regionsRead
    simp only [if_neg empty, bind_eq_ok, tryU64_eq_ok, ensureChunkCount,
      ensure_eq_ok, exists_const, UInt64.le_iff_toNat_le, Except.ok.injEq,
      Prod.exists]
    constructor
    · rintro ⟨within, stop, isStop, count, isCount, _, done, checked, last,
        chunks, rest, ran, probed, trailing, _, _, rfl⟩
      have fits := exists_addU64_eq_ok.mp ⟨stop, isStop⟩
      have ends := (validateBoundaryEnds_eq_ok someBytes).mp checked
      obtain ⟨next, heldNext, isRead⟩ := regionsRead ends fits
      obtain ⟨⟨allInside, few⟩, isChunks, -, rfl⟩ := (isRead _ _ _).mp ran
      have nothingLeft := List.drop_eq_nil_iff.mp
        ((probeTrailing_eq_ok (heldNext allInside)).mp trailing)
      have reaches := allInside logicalSize lastMember
      have same : data.length = logicalSize.toNat := by omega
      rw [same]
      exact ⟨⟨ends, within, fits, few⟩, isChunks⟩
    · rintro ⟨⟨ends, within, fits, few⟩, rfl⟩
      have same : data.length = logicalSize.toNat := by
        rw [← ends.endsAtSize, isSize]
      have sum := sum_structuralLengths lawful valid ends
      have bounded (length : Nat) := @of_mem_structuralLengths _ _ _ _ lawful
        valid ends length
      have countFew := length_le_structuralLengths lawful valid ends
      rw [same] at ends within fits sum
      obtain ⟨stop, isStop⟩ := exists_addU64_eq_ok.mpr fits
      have maxBound := config.maxChunks.toNat_lt
      have count := @toNat_ofNat_of_lt boundaryEnds.length (by omega)
      obtain ⟨next, heldNext, isRead⟩ := regionsRead ends fits
      have allInside (boundary : UInt64) (member : boundary ∈ boundaryEnds) :
          boundary.toNat ≤ data.length := same ▸ ends.le member
      have ran := (isRead _ _ _).mpr ⟨⟨allInside, few⟩, rfl, rfl, rfl⟩
      have trailing := (probeTrailing_eq_ok (heldNext allInside)).mpr
        (List.drop_eq_nil_of_le (by omega))
      refine ⟨within, stop, isStop, _, count, by omega, (),
        (validateBoundaryEnds_eq_ok someBytes).mpr ends, _, _, _, ran, (),
        trailing, (), ?_, rfl⟩
      refine validateChunkCoverage_drafts fits sum fun length member => ?_
      have both := bounded length member
      have largest := config.fastcdcMax.toNat_lt
      exact ⟨both.1, by omega⟩

end StructuralReader

/-! ## Any pieces -/

/-- Streaming chunking equals chunking in memory.  For reads that give the bytes
in whatever pieces, each streaming chunker returns the chunks that the chunker
in memory returns for the bytes, and fails exactly when that one does.  A slice
has fewer bytes than a 64-bit number can count. -/
theorem streaming_eq_inMemory
    {cdc : FastCdc}
    {stream : StreamCdc}
    {config : ChunkingConfig}
    {data : List UInt8}
    (lawful : cdc.Lawful)
    (follows : stream.Follows cdc)
    (valid : config.Valid cdc)
    (small : data.length < 2 ^ 64)
    (pieces : List Nat)
    (origin : ChunkOrigin)
    (boundaryEnds : List UInt64) :
    let source : Source := ⟨data, pieces.map .gives⟩
    let fastcdc := (chunkFastcdcReader cdc stream scripted source origin
      config).map (·.1)
    let structural := chunkStructuralReader cdc stream source origin
      boundaryEnds config
    (∀ chunks, fastcdc = .ok chunks ↔
        chunkFastcdc cdc data origin config = .ok chunks) ∧
      ((∃ failure, fastcdc = .error failure) ↔
        ∃ failure, chunkFastcdc cdc data origin config = .error failure) ∧
      (∀ chunks, structural = .ok chunks ↔
        chunkStructural cdc data origin boundaryEnds config = .ok chunks) ∧
      ((∃ failure, structural = .error failure) ↔ ∃ failure,
        chunkStructural cdc data origin boundaryEnds config =
          .error failure) := by
  intro source fastcdc structural
  have held : Scripted.Holds data source :=
    ⟨rfl, fun event member => by
      obtain ⟨most, -, rfl⟩ := List.mem_map.mp member
      exact ⟨most, rfl⟩⟩
  have sameFastcdc (chunks : List LogicalChunkDraft) :
      fastcdc = .ok chunks ↔
        chunkFastcdc cdc data origin config = .ok chunks := by
    obtain ⟨final, _, isReader⟩ := @chunkFastcdcReader_eq_ok _ _ _ _ _ _ _
      origin _ lawful follows valid delivers_scripted held small
    simp only [fastcdc, map_eq_ok, Prod.exists, isReader]
    constructor
    · rintro ⟨_, _, ⟨isChunks, _⟩, rfl⟩
      exact isChunks
    · exact fun isChunks => ⟨chunks, final, ⟨isChunks, rfl⟩, rfl⟩
  have sameStructural (chunks : List LogicalChunkDraft) :
      structural = .ok chunks ↔
        chunkStructural cdc data origin boundaryEnds config = .ok chunks :=
    chunkStructuralReader_eq_ok lawful follows valid small held
  exact ⟨sameFastcdc, exists_eq_error_iff sameFastcdc, sameStructural,
    exists_eq_error_iff sameStructural⟩

/-- A streaming chunker that reads to the end and then cuts what it has read. -/
noncomputable def StreamCdc.ofCuts (cdc : FastCdc) : StreamCdc where
  chunks reader minimum average maximum state :=
    open Classical in
    if ends : ∃ reads, (reader.readAll reads state).isSome then
      let read := (reader.readAll ends.choose state).get ends.choose_spec
      ((cdc.chunks minimum average maximum read.1).map fun chunk =>
        .ok ⟨UInt64.ofNat chunk.offset, chunk.length,
          Bytes.slice read.1 chunk.offset chunk.length⟩, read.2)
    else ([], state)

theorem StreamCdc.ofCuts_follows (cdc : FastCdc) :
    (StreamCdc.ofCuts cdc).Follows cdc where
  chunks reader holds delivers minimum average maximum _ data state held := by
    have ends : ∃ reads, (reader.readAll reads state).isSome :=
      ⟨data.length + 1, delivers.readAll_isSome held (Nat.lt_succ_self _)⟩
    obtain ⟨isData, heldFinal⟩ := delivers.readAll_eq held
      (Option.some_get ends.choose_spec).symm
    refine ⟨_, heldFinal, ?_⟩
    simp only [ofCuts, dif_pos ends, isData]

/-- Three bytes that come in two pieces, in two regions. -/
theorem pieces_eq_inMemory :
    let source : Source := ⟨[1, 2, 3], [.gives 2, .gives 1]⟩
    ∃ chunks, chunkStructuralReader .ofMinimum (.ofCuts .ofMinimum) source
        ⟨7, 0, 0⟩ [1, 3] .default = .ok chunks ∧
      chunkStructural .ofMinimum [1, 2, 3] ⟨7, 0, 0⟩ [1, 3] .default =
        .ok chunks := by
  obtain ⟨_, _, structural, _⟩ := @streaming_eq_inMemory _ _ _ [1, 2, 3]
    FastCdc.ofMinimum_lawful (StreamCdc.ofCuts_follows _)
    ChunkingConfig.default_valid (by decide) [2, 1] ⟨7, 0, 0⟩ [1, 3]
  have inMemory := (@chunkStructural_eq_ok _ _ ⟨7, 0, 0⟩ [1, 2, 3] [1, 3] _
    FastCdc.ofMinimum_lawful ChunkingConfig.default_valid).mpr
      ⟨⟨⟨by decide, by simp, rfl⟩, by decide, by decide, by decide⟩, rfl⟩
  exact ⟨_, (structural _).mpr inMemory, inMemory⟩

end Pithos
