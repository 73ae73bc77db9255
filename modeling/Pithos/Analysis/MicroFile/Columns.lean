import Pithos.Analysis.Coverage
import Pithos.Analysis.MicroFile.Defs

/-!
# Columns of micro-file packs

When the columns of the metadata of a pack are accepted: which paths they then
hold, and what is known of the times, the modes and the places of the files.
-/

namespace Pithos

open Fallible
open Machine
open MergeSort
open FrontCoding
open Layout

/-! ## Shared checks -/

theorem ensureMetadataSize_eq_ok
    {size : UInt64}
    {config : ChunkingConfig}
    {done : Unit} :
    ensureMetadataSize size config = .ok done ↔
      size.toNat ≤ config.maxMetadataBytes.toNat := by
  rw [ensureMetadataSize, ensure_eq_ok, UInt64.le_iff_toNat_le]

theorem ensureUnique_eq_ok
    {Item Key : Type}
    [LinearOrder Key]
    {key : Item → Key}
    {items : List Item}
    {what : String}
    {done : Unit} :
    ensureUnique key items what = .ok done ↔ (items.map key).Nodup := by
  rw [ensureUnique, ensure_eq_ok, isChain_sortByKey_iff]

theorem ensureUniqueIds_eq_ok {ids : List UInt64} {done : Unit} :
    ensureUniqueIds ids = .ok done ↔ ids.Nodup := by
  rw [ensureUniqueIds, ensureUnique_eq_ok]
  exact List.nodup_map_iff fun _ _ => UInt64.toNat_inj.mp

theorem bytesKey_injective : Function.Injective bytesKey :=
  List.map_injective_iff.mpr fun _ _ => UInt8.toNat_inj.mp

theorem ensureUniquePaths_eq_ok {paths : List (List UInt8)} {done : Unit} :
    ensureUniquePaths paths = .ok done ↔ paths.Nodup := by
  rw [ensureUniquePaths, ensureUnique_eq_ok]
  exact List.nodup_map_iff bytesKey_injective

/-! ## One row -/

/-- A path as front coding has it. -/
def FrontCodedPath.coded (path : FrontCodedPath) : Nat × List UInt8 :=
  (path.sharedPrefixLen.toNat, path.suffix)

/-- Where the content of a file stands in its pack. -/
def MicroFileMetadataRecord.span (record : MicroFileMetadataRecord) :
    Nat × Nat :=
  (record.contentOffset.toNat, record.length.toNat)

/-- The bytes of some paths. -/
def pathBytes (paths : List (List UInt8)) : Nat :=
  (paths.map List.length).sum

section Rows

variable
  {metadata : MicroFilePackMetadata}
  {config : ChunkingConfig}
  {columnBytes : UInt64}

/-- What is checked of a row beside its path. -/
structure RowFits
    (metadata : MicroFilePackMetadata)
    (row : (FrontCodedPath × UInt64) × MicroFileMetadataRecord) : Prop where
  time : metadata.baseModifiedNs.toInt + row.1.2.toNat < 2 ^ 63
  mode : row.2.modeIndex.toNat < metadata.modeDictionary.length

/-- A row is accepted exactly when its path can be read and is within the
limits, its time and mode are valid and it starts where the last one ends. -/
theorem expandRow_eq_ok
    {row : (FrontCodedPath × UInt64) × MicroFileMetadataRecord}
    {columns next : ExpandedColumns} :
    metadata.expandRow config columnBytes row columns = .ok next ↔
      row.1.1.sharedPrefixLen.toNat ≤ columns.previous.length ∧
      RowFits metadata row ∧
      next.previous = columns.previous.take row.1.1.sharedPrefixLen.toNat ++
        row.1.1.suffix ∧
      next.previous ≠ [] ∧
      next.previous.length ≤ config.maxPathBytes.toNat ∧
      next.expandedPathBytes.toNat =
        columns.expandedPathBytes.toNat + next.previous.length ∧
      columnBytes.toNat + next.expandedPathBytes.toNat ≤
        config.maxMetadataBytes.toNat ∧
      row.2.contentOffset = columns.expectedOffset ∧
      next.expectedOffset.toNat =
        columns.expectedOffset.toNat + row.2.length.toNat ∧
      next.paths = columns.paths ++ [next.previous] ∧
      next.entryIds = columns.entryIds ++ [row.2.entryId] := by
  have metadataBound := config.maxMetadataBytes.toNat_lt
  have pathBound := config.maxPathBytes.toNat_lt
  simp only [MicroFilePackMetadata.expandRow, bind_eq_ok, ensure_eq_ok,
    exists_const, tryU64_eq_ok, addU64_eq_ok, ensureMetadataSize_eq_ok,
    UInt64.le_iff_toNat_le, Except.ok.injEq, UInt32.toNat_toUInt64]
  constructor
  · rintro ⟨inside, pathLen, isLen, short, expanded, isExpanded, total,
      isTotal, within, nonempty, time, ⟨mode, offset⟩, stop, isStop, rfl⟩
    have length : (columns.previous.take row.1.1.sharedPrefixLen.toNat ++
        row.1.1.suffix).length = pathLen.toNat := by
      rw [List.length_append, List.length_take, Nat.min_eq_left inside, isLen]
    exact ⟨inside, ⟨time, mode⟩, rfl, nonempty, length ▸ short,
      by rw [length]; exact isExpanded.symm, isTotal ▸ within, offset,
      isStop.symm, rfl, rfl⟩
  · rintro ⟨inside, ⟨time, mode⟩, isPath, nonempty, short, isExpanded, within,
      offset, isStop, isPaths, isIds⟩
    obtain ⟨paths, previous, entryIds, expectedOffset, expandedPathBytes⟩ :=
      next
    simp only at isPath nonempty short isExpanded within isStop isPaths isIds
    have length : previous.length =
        row.1.1.sharedPrefixLen.toNat + row.1.1.suffix.length := by
      rw [isPath, List.length_append, List.length_take, Nat.min_eq_left inside]
    have pathLen := @toNat_ofNat_of_lt previous.length (by omega)
    have total := @toNat_ofNat_of_lt
      (columnBytes.toNat + expandedPathBytes.toNat) (by omega)
    refine ⟨inside, UInt64.ofNat previous.length, pathLen.trans length,
      pathLen.symm ▸ short, expandedPathBytes, ?_,
      UInt64.ofNat (columnBytes.toNat + expandedPathBytes.toNat), total.symm,
      total.symm ▸ within, isPath ▸ nonempty, time, ⟨mode, offset⟩,
      expectedOffset, isStop.symm, ?_⟩
    · rw [pathLen]
      exact isExpanded.symm
    · rw [← isPath, isPaths, isIds]

/-- The rows of the columns are accepted exactly when their paths can be read and
each row fits; the files follow one another. -/
theorem expandRows_eq_ok
    {position : Nat}
    {rows : List ((FrontCodedPath × UInt64) × MicroFileMetadataRecord)}
    {columns : ExpandedColumns}
    {paths : List (List UInt8)}
    {ids : List UInt64}
    (within : columnBytes.toNat + columns.expandedPathBytes.toNat ≤
      config.maxMetadataBytes.toNat) :
    (∃ result, forEnum (fun _ => metadata.expandRow config columnBytes)
        position rows columns = .ok result ∧
      result.paths = paths ∧ result.entryIds = ids) ↔
      ∃ words, decode columns.previous (rows.map (·.1.1.coded)) = some words ∧
        (∀ word ∈ words, word ≠ [] ∧
          word.length ≤ config.maxPathBytes.toNat) ∧
        columnBytes.toNat + columns.expandedPathBytes.toNat +
          pathBytes words ≤ config.maxMetadataBytes.toNat ∧
        (∀ row ∈ rows, RowFits metadata row) ∧
        (∃ stop, Tiles columns.expectedOffset.toNat (rows.map (·.2.span))
          stop ∧ stop < 2 ^ 64) ∧
        paths = columns.paths ++ words ∧
        ids = columns.entryIds ++ rows.map (·.2.entryId) := by
  induction rows generalizing position columns paths ids with
  | nil =>
      constructor
      · rintro ⟨_, same, rfl, rfl⟩
        cases same
        exact ⟨[], rfl, nofun, within, nofun,
          ⟨_, rfl, columns.expectedOffset.toNat_lt⟩,
          (List.append_nil _).symm, (List.append_nil _).symm⟩
      · rintro ⟨words, isRead, _, _, _, _, rfl, rfl⟩
        cases isRead
        exact ⟨columns, rfl, (List.append_nil _).symm,
          (List.append_nil _).symm⟩
  | cons row rows inductionHypothesis =>
      simp only [forEnum_cons, bind_eq_ok, List.map_cons,
        FrontCodedPath.coded, decode_cons_eq_some]
      constructor
      · rintro ⟨result, ⟨next, stepped, ran⟩, rfl, rfl⟩
        obtain ⟨inside, fits, isPath, nonempty, short, isExpanded, isWithin,
          offset, isStop, isPaths, isIds⟩ := expandRow_eq_ok.mp stepped
        obtain ⟨words, isRead, wordsFit, bytes, rowsFit, ⟨stop, tiles, below⟩,
          allPaths, allIds⟩ := (@inductionHypothesis (position + 1) next
            _ _ isWithin).mp ⟨result, ran, rfl, rfl⟩
        refine ⟨next.previous :: words, ⟨inside, words, isPath ▸ isRead,
          isPath ▸ rfl⟩, ?_, ?_, ?_, ⟨stop, ⟨congrArg UInt64.toNat offset, ?_⟩, below⟩,
          ?_, ?_⟩
        · exact List.forall_mem_cons.mpr ⟨⟨nonempty, short⟩, wordsFit⟩
        · simp only [pathBytes, List.map_cons, List.sum_cons] at bytes ⊢
          omega
        · exact List.forall_mem_cons.mpr ⟨fits, rowsFit⟩
        · rwa [isStop] at tiles
        · rw [allPaths, isPaths, List.append_assoc, List.singleton_append]
        · rw [allIds, isIds, List.append_assoc, List.singleton_append]
      · rintro ⟨_, ⟨inside, words, isRead, rfl⟩, wordsFit, bytes, rowsFit,
          ⟨stop, ⟨offset, tiles⟩, below⟩, rfl, rfl⟩
        obtain ⟨⟨nonempty, short⟩, laterFit⟩ :=
          List.forall_mem_cons.mp wordsFit
        obtain ⟨fits, rowsFit⟩ := List.forall_mem_cons.mp rowsFit
        have metadataBound := config.maxMetadataBytes.toNat_lt
        have stopAbove := tiles.le
        simp only [pathBytes, List.map_cons, List.sum_cons] at bytes
        generalize isPath : columns.previous.take
          row.1.1.sharedPrefixLen.toNat ++ row.1.1.suffix = path at *
        have isExpanded := @toNat_ofNat_of_lt
          (columns.expandedPathBytes.toNat + path.length) (by omega)
        have isStop := @toNat_ofNat_of_lt
          (columns.expectedOffset.toNat + row.2.length.toNat) (by
            simp only [MicroFileMetadataRecord.span] at stopAbove
            omega)
        let next : ExpandedColumns := ⟨columns.paths ++ [path], path,
          columns.entryIds ++ [row.2.entryId],
          UInt64.ofNat (columns.expectedOffset.toNat + row.2.length.toNat),
          UInt64.ofNat (columns.expandedPathBytes.toNat + path.length)⟩
        have stepped : metadata.expandRow config columnBytes row columns =
            .ok next := expandRow_eq_ok.mpr ⟨inside, fits, isPath.symm,
              nonempty, short, isExpanded, by
                simp only [next, isExpanded]
                omega, UInt64.toNat_inj.mp offset, isStop, rfl, rfl⟩
        obtain ⟨result, ran, isPaths, isIds⟩ :=
          (@inductionHypothesis (position + 1) next
            (columns.paths ++ path :: words)
            (columns.entryIds ++ row.2.entryId :: rows.map (·.2.entryId))
            (by simp only [next, isExpanded]; omega)).mpr
            ⟨words, isRead, laterFit, by
              simp only [next, isExpanded, pathBytes]
              omega, rowsFit, ⟨stop, by
                simp only [next, isStop]
                exact tiles, below⟩, by simp [next], by simp [next]⟩
        exact ⟨result, ⟨next, stepped, ran⟩, isPaths, isIds⟩

/-! ## All columns -/

/-- The suffixes are counted exactly when they are within the limit. -/
theorem countSuffixes_eq_ok
    {position : Nat}
    {paths : List FrontCodedPath}
    {suffixBytes result : UInt64}
    (within : columnBytes.toNat + suffixBytes.toNat ≤
      config.maxMetadataBytes.toNat) :
    forEnum (fun _ => MicroFilePackMetadata.countSuffix config columnBytes)
        position paths suffixBytes = .ok result ↔
      result.toNat = suffixBytes.toNat +
          (paths.map fun path => path.suffix.length).sum ∧
        columnBytes.toNat + result.toNat ≤ config.maxMetadataBytes.toNat := by
  induction paths generalizing position suffixBytes with
  | nil =>
      simp only [forEnum_nil, Except.ok.injEq, List.map_nil, List.sum_nil,
        Nat.add_zero, UInt64.toNat_inj]
      constructor
      · rintro rfl
        exact ⟨rfl, within⟩
      · rintro ⟨rfl, _⟩
        rfl
  | cons path paths inductionHypothesis =>
      simp only [forEnum_cons, bind_eq_ok, MicroFilePackMetadata.countSuffix,
        tryU64_eq_ok, addU64_eq_ok, ensureMetadataSize_eq_ok, exists_const,
        Except.ok.injEq, List.map_cons, List.sum_cons]
      constructor
      · rintro ⟨next, ⟨length, isLength, sum, isSum, total, isTotal, inside,
          rfl⟩, ran⟩
        obtain ⟨isResult, bounded⟩ :=
          (inductionHypothesis (isTotal ▸ inside)).mp ran
        exact ⟨by omega, bounded⟩
      · rintro ⟨isResult, bounded⟩
        have metadataBound := config.maxMetadataBytes.toNat_lt
        have length := @toNat_ofNat_of_lt path.suffix.length (by omega)
        have sum := @toNat_ofNat_of_lt
          (suffixBytes.toNat + path.suffix.length) (by omega)
        have total := @toNat_ofNat_of_lt
          (columnBytes.toNat + (suffixBytes.toNat + path.suffix.length))
          (by omega)
        refine ⟨UInt64.ofNat (suffixBytes.toNat + path.suffix.length),
          ⟨_, length, _, ?_, UInt64.ofNat (columnBytes.toNat +
            (suffixBytes.toNat + path.suffix.length)), ?_, by omega, rfl⟩, ?_⟩
        · rw [length, sum]
        · rw [sum, total]
        · exact (inductionHypothesis (by omega)).mpr ⟨by omega, bounded⟩

end Rows

/-- What the columns of a pack hold when they are accepted. -/
structure MicroFilePackMetadata.Expands
    (metadata : MicroFilePackMetadata)
    (config : ChunkingConfig)
    (paths : List (List UInt8)) : Prop where
  samePaths : metadata.paths.length = metadata.records.length
  sameDeltas : metadata.modifiedNsDeltas.length = metadata.records.length
  few : metadata.records.length ≤ config.maxChunks.toNat
  someModes : metadata.records = [] ∨ metadata.modeDictionary ≠ []
  fewModes : metadata.modeDictionary.length ≤ metadata.records.length
  modesIncrease : metadata.modeDictionary.IsChain (· < ·)
  decodes : decode [] (metadata.paths.map (·.coded)) = some paths
  bytes : metadata.records.length * 72 + metadata.modeDictionary.length * 4 +
    (metadata.paths.map fun path => path.suffix.length).sum +
      pathBytes paths ≤ config.maxMetadataBytes.toNat
  pathsFit : ∀ path ∈ paths, path ≠ [] ∧
    path.length ≤ config.maxPathBytes.toNat
  times : ∀ delta ∈ metadata.modifiedNsDeltas,
    metadata.baseModifiedNs.toInt + delta.toNat < 2 ^ 63
  modes : ∀ record ∈ metadata.records,
    record.modeIndex.toNat < metadata.modeDictionary.length
  tiles : ∃ stop, Tiles 0 (metadata.records.map (·.span)) stop ∧ stop < 2 ^ 64
  idsDistinct : (metadata.records.map (·.entryId)).Nodup
  pathsDistinct : paths.Nodup

section Columns

variable
  {cdc : FastCdc}
  {metadata : MicroFilePackMetadata}
  {config : ChunkingConfig}
  {paths : List (List UInt8)}

theorem baseColumnBytes_eq_ok {bytes : UInt64} :
    metadata.baseColumnBytes = .ok bytes ↔
      metadata.records.length * 72 + metadata.modeDictionary.length * 4 =
        bytes.toNat := by
  have by72 : (72 : UInt64).toNat = 72 := rfl
  have by4 : (4 : UInt64).toNat = 4 := rfl
  have bound := bytes.toNat_lt
  simp only [MicroFilePackMetadata.baseColumnBytes, bind_eq_ok, tryU64_eq_ok,
    okOr_eq_ok, checkedMul_eq_some, addU64_eq_ok, by72, by4]
  constructor
  · rintro ⟨records, isRecords, modes, isModes, modeBytes, isModeBytes,
      recordBytes, isRecordBytes, isBytes⟩
    rw [isRecords] at isRecordBytes
    rw [isModes] at isModeBytes
    omega
  · intro isBytes
    have records := @toNat_ofNat_of_lt metadata.records.length (by omega)
    have modes := @toNat_ofNat_of_lt metadata.modeDictionary.length (by omega)
    have modeBytes := @toNat_ofNat_of_lt (metadata.modeDictionary.length * 4)
      (by omega)
    have recordBytes := @toNat_ofNat_of_lt (metadata.records.length * 72)
      (by omega)
    exact ⟨_, records, _, modes,
      UInt64.ofNat (metadata.modeDictionary.length * 4), by omega,
      UInt64.ofNat (metadata.records.length * 72), by omega, by omega⟩

/-- The columns of rows of equal numbers. -/
theorem map_rows
    (samePaths : metadata.paths.length = metadata.records.length)
    (sameDeltas : metadata.modifiedNsDeltas.length = metadata.records.length) :
    metadata.rows.map (·.1.1) = metadata.paths ∧
      metadata.rows.map (·.1.2) = metadata.modifiedNsDeltas ∧
      metadata.rows.map (·.2) = metadata.records := by
  have pairs : (metadata.paths.zip metadata.modifiedNsDeltas).length =
      metadata.records.length := by
    rw [List.length_zip]
    omega
  have fronts : metadata.rows.map (·.1) =
      metadata.paths.zip metadata.modifiedNsDeltas :=
    List.map_fst_zip (Nat.le_of_eq pairs)
  refine ⟨?_, ?_, List.map_snd_zip (Nat.le_of_eq pairs.symm)⟩
  · have firsts : metadata.rows.map (·.1.1) =
        (metadata.rows.map (·.1)).map (·.1) := by rw [List.map_map]; rfl
    rw [firsts, fronts]
    exact List.map_fst_zip (by omega)
  · have seconds : metadata.rows.map (·.1.2) =
        (metadata.rows.map (·.1)).map (·.2) := by rw [List.map_map]; rfl
    rw [seconds, fronts]
    exact List.map_snd_zip (by omega)

/-- The paths of the columns are read exactly when the columns keep all
checks. -/
theorem expandedPaths_eq_ok (valid : config.Valid cdc) :
    metadata.expandedPaths cdc config = .ok paths ↔
      metadata.Expands config paths := by
  have zero : (0 : UInt64).toNat = 0 := rfl
  have isStart : ExpandedColumns.empty.expandedPathBytes.toNat = 0 := rfl
  have rowPaths (same : metadata.paths.length = metadata.records.length ∧
      metadata.modifiedNsDeltas.length = metadata.records.length) :
      metadata.rows.map (·.1.1.coded) = metadata.paths.map (·.coded) ∧
        metadata.rows.map (·.2.span) = metadata.records.map (·.span) ∧
        metadata.rows.map (·.2.entryId) = metadata.records.map (·.entryId) ∧
        ((∀ row ∈ metadata.rows, RowFits metadata row) ↔
          (∀ delta ∈ metadata.modifiedNsDeltas,
            metadata.baseModifiedNs.toInt + delta.toNat < 2 ^ 63) ∧
          ∀ record ∈ metadata.records,
            record.modeIndex.toNat < metadata.modeDictionary.length) := by
    obtain ⟨isPaths, isDeltas, isRecords⟩ := map_rows same.1 same.2
    rw [← isPaths, ← isRecords, List.map_map, List.map_map, List.map_map,
      ← isDeltas]
    refine ⟨rfl, rfl, rfl, ?_⟩
    simp only [List.forall_mem_map]
    exact ⟨fun fit => ⟨fun row member => (fit row member).time,
      fun row member => (fit row member).mode⟩,
      fun both row member => ⟨both.1 row member, both.2 row member⟩⟩
  simp only [MicroFilePackMetadata.expandedPaths, valid.validate, ok_bind,
    bind_eq_ok, tryU64_eq_ok, ensureChunkCount, ensure_eq_ok, exists_const,
    baseColumnBytes_eq_ok, ensureMetadataSize_eq_ok, addU64_eq_ok,
    ensureUniqueIds_eq_ok, ensureUniquePaths_eq_ok, Except.ok.injEq,
    UInt64.le_iff_toNat_le]
  constructor
  · rintro ⟨count, isCount, few, same, someModes, fewModes, increase, base,
      isBase, baseWithin, suffixBytes, suffixed, columnBytes, isColumn, columns,
      ran, idsDistinct, pathsDistinct, rfl⟩
    obtain ⟨isSuffix, suffixWithin⟩ :=
      (countSuffixes_eq_ok (by rwa [zero])).mp suffixed
    obtain ⟨words, isRead, pathsFit, bytes, rowsFit, tiles, isPaths, isIds⟩ :=
      (expandRows_eq_ok (by omega)).mp ⟨columns, ran, rfl, rfl⟩
    obtain ⟨coded, spans, ids, fit⟩ := rowPaths same
    rw [coded] at isRead
    rw [ids] at isIds
    rw [spans] at tiles
    have isWords : columns.paths = words := isPaths
    have isEntryIds : columns.entryIds = metadata.records.map (·.entryId) :=
      isIds
    subst isWords
    obtain ⟨times, modes⟩ := fit.mp rowsFit
    exact ⟨same.1, same.2, isCount ▸ few, someModes, fewModes, increase,
      isRead, by omega, pathsFit, times, modes, tiles, isEntryIds ▸ idsDistinct,
      pathsDistinct⟩
  · intro expands
    have same := And.intro expands.samePaths expands.sameDeltas
    obtain ⟨coded, spans, ids, fit⟩ := rowPaths same
    have metadataBound := config.maxMetadataBytes.toNat_lt
    have bytes := expands.bytes
    have count := @toNat_ofNat_of_lt metadata.records.length (by omega)
    have base := @toNat_ofNat_of_lt (metadata.records.length * 72 +
      metadata.modeDictionary.length * 4) (by omega)
    have suffix := @toNat_ofNat_of_lt
      (metadata.paths.map fun path => path.suffix.length).sum (by omega)
    have column := @toNat_ofNat_of_lt (metadata.records.length * 72 +
      metadata.modeDictionary.length * 4 +
        (metadata.paths.map fun path => path.suffix.length).sum) (by omega)
    obtain ⟨columns, ran, isPaths, isIds⟩ :=
      (@expandRows_eq_ok metadata config (UInt64.ofNat
        (metadata.records.length * 72 + metadata.modeDictionary.length * 4 +
          (metadata.paths.map fun path => path.suffix.length).sum)) 0
        metadata.rows .empty paths (metadata.records.map (·.entryId))
        (by omega)).mpr ⟨paths, by rw [coded]; exact expands.decodes,
          expands.pathsFit, by omega,
          fit.mpr ⟨expands.times, expands.modes⟩,
          by rw [spans]; exact expands.tiles, rfl, by rw [ids]; rfl⟩
    refine ⟨_, count, count.symm ▸ expands.few, same, expands.someModes,
      expands.fewModes, expands.modesIncrease, _, base.symm, by omega,
      UInt64.ofNat (metadata.paths.map fun path => path.suffix.length).sum,
      (countSuffixes_eq_ok (by omega)).mpr ⟨by omega, by omega⟩, _, ?_, columns,
      ran, isIds ▸ expands.idsDistinct, isPaths ▸ expands.pathsDistinct,
      isPaths⟩
    rw [base, suffix, column]

end Columns

end Pithos
