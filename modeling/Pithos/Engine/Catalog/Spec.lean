import Pithos.Engine.Catalog.Defs

/-!
# What the catalog checks demand

One lemma for each check of `readCatalog`, saying exactly when it succeeds and
with which result.  Later proofs use these lemmas and never unfold the checks.
-/

namespace Pithos

open Fallible
open Machine
open Layout

theorem checkedAdd_eq_some_add
    {left right sum : UInt64}
    (found : checkedAdd left right = some sum) :
    sum = left + right := by
  unfold checkedAdd at found
  split at found
  · exact (Option.some.inj found).symm
  · cases found

/-! ## Entries -/

/-- Files and hardlinks count towards the original size. -/
def EntryRecord.isCounted (entry : EntryRecord) : Bool :=
  match entry.kind with
  | .file _ | .hardlink _ => true
  | .directory | .symlink _ _ => false

/-- The bytes an entry adds to the original size. -/
def EntryRecord.contribution (entry : EntryRecord) : UInt64 :=
  if entry.isCounted then entry.size else 0

/-- Whether an entry is a file with a group of its own. -/
def EntryRecord.isFile (entry : EntryRecord) : Bool :=
  entry.kind.groupId?.isSome

/-- The demands on an entry that depend on what it is. -/
def KindOk
    (entries : List EntryRecord)
    (groups : List GroupTableRecord)
    (entry : EntryRecord) : Prop :=
  match entry.kind with
  | .file groupId =>
      ∃ record, groups[groupId.toNat]? = some record ∧
        record.group.groupId = groupId
  | .directory => entry.size = 0
  | .hardlink targetEntryId =>
      targetEntryId < entry.entryId ∧
        ∃ target, entries[targetEntryId.toNat]? = some target ∧
          target.kind.groupId?.isSome ∧ target.size = entry.size ∧
          target.blake3 = entry.blake3
  | .symlink target _ =>
      target.resolvesWithin entry.path ∧ target.Hostable

/-- The scan after one more entry. -/
def EntryScan.add (entry : EntryRecord) (scan : EntryScan) : EntryScan :=
  match entry.kind with
  | .file _ =>
      { scan with
        originalSize := scan.originalSize + entry.size
        fileCount := scan.fileCount + 1 }
  | .directory => { scan with directoryCount := scan.directoryCount + 1 }
  | .hardlink _ =>
      { scan with
        originalSize := scan.originalSize + entry.size
        hardlinkCount := scan.hardlinkCount + 1 }
  | .symlink _ _ => { scan with symlinkCount := scan.symlinkCount + 1 }

/-- The scan after the checks on one more entry. -/
def EntryScan.advance (scan : EntryScan) (entry : EntryRecord) : EntryScan :=
  { scan.add entry with pathKeys := entry.path.sortKey :: scan.pathKeys }

theorem checkedTotal_eq_ok
    {current value total : UInt64}
    {limits : DecodeLimits} :
    checkedTotal current value limits = .ok total ↔
      current.toNat + value.toNat ≤ limits.maxOriginalBytes.toNat ∧
        total = current + value := by
  simp only [checkedTotal, bind_eq_ok, okOr_eq_ok, ensure_eq_ok,
    Except.ok.injEq, exists_const]
  constructor
  · rintro ⟨sum, found, bounded, rfl⟩
    refine ⟨?_, checkedAdd_eq_some_add found⟩
    rw [checkedAdd_eq_some.mp found]
    exact bounded
  · rintro ⟨bounded, rfl⟩
    have maximum := limits.maxOriginalBytes.toNat_lt
    obtain ⟨sum, found, value⟩ :=
      @checkedAdd_of_lt current value (by omega)
    have exact := checkedAdd_eq_some_add found
    subst exact
    exact ⟨_, found, by rw [UInt64.le_iff_toNat_le]; omega, rfl⟩

theorem checkKind_eq_ok
    {limits : DecodeLimits}
    {entries : List EntryRecord}
    {groups : List GroupTableRecord}
    {entry : EntryRecord}
    {scan next : EntryScan} :
    checkKind limits entries groups entry scan = .ok next ↔
      KindOk entries groups entry ∧
        (entry.isCounted → scan.originalSize.toNat + entry.size.toNat ≤
          limits.maxOriginalBytes.toNat) ∧
        next = scan.add entry := by
  unfold checkKind KindOk EntryScan.add EntryRecord.isCounted
  cases entry.kind with
  | file groupId =>
      simp only [bind_eq_ok, checkedTotal_eq_ok, okOr_eq_ok, ensure_eq_ok,
        Except.ok.injEq, exists_const]
      constructor
      · rintro ⟨total, ⟨bounded, rfl⟩, record, found, same, rfl⟩
        exact ⟨⟨record, found, same⟩, fun _ => bounded, rfl⟩
      · rintro ⟨⟨record, found, same⟩, bounded, rfl⟩
        exact ⟨_, ⟨bounded trivial, rfl⟩, record, found, same, rfl⟩
  | directory =>
      simp only [bind_eq_ok, ensure_eq_ok, Except.ok.injEq, exists_const,
        Bool.false_eq_true, false_imp_iff, true_and]
      exact and_congr_right fun _ => eq_comm
  | hardlink targetEntryId =>
      simp only [bind_eq_ok, checkedTotal_eq_ok, okOr_eq_ok, ensure_eq_ok,
        Except.ok.injEq, exists_const]
      constructor
      · rintro ⟨total, ⟨bounded, rfl⟩, earlier, target, found, same, rfl⟩
        exact ⟨⟨earlier, target, found, same⟩, fun _ => bounded, rfl⟩
      · rintro ⟨⟨earlier, target, found, same⟩, bounded, rfl⟩
        exact ⟨_, ⟨bounded trivial, rfl⟩, earlier, target, found, same, rfl⟩
  | symlink target targetIsDir =>
      simp only [bind_eq_ok, ensure_eq_ok, LinkTarget.toPathBuf_eq_ok,
        Except.ok.injEq, exists_const, Bool.false_eq_true, false_imp_iff,
        true_and]
      constructor
      · rintro ⟨within, _, ⟨hostable, _⟩, rfl⟩
        exact ⟨⟨within, hostable⟩, rfl⟩
      · rintro ⟨⟨within, hostable⟩, rfl⟩
        exact ⟨within, _, ⟨hostable, rfl⟩, rfl⟩

/-- Limits that the decoder sets to one path. -/
structure PathOk (limits : DecodeLimits) (path : ArchivePath) : Prop where
  componentCount : path.components.length ≤ limits.maxPathComponents.toNat
  byteCount : path.encodedLen ≤ limits.maxPathBytes.toNat
  hostable : path.Hostable

theorem validateArchivePath_eq_ok
    {path : ArchivePath}
    {limits : DecodeLimits}
    {result : Unit} :
    validateArchivePath path limits = .ok result ↔ PathOk limits path := by
  simp only [validateArchivePath, bind_eq_ok, ensure_eq_ok,
    ArchivePath.toPathBuf_eq_ok, exists_const, and_true]
  constructor
  · rintro ⟨⟨count, bytes⟩, _, hostable, _⟩
    exact ⟨count, bytes, hostable⟩
  · rintro ⟨count, bytes, hostable⟩
    exact ⟨⟨count, bytes⟩, _, hostable, rfl⟩

/-- The demands on the entry at a position. -/
structure EntryOk
    (limits : DecodeLimits)
    (tables : Tables)
    (position : Nat)
    (entry : EntryRecord) : Prop where
  entryId : entry.entryId.toNat = position
  path : PathOk limits entry.path
  kind : KindOk tables.entries tables.groups entry
  index : tables.centralIndex[position]? = some entry.indexRow
  integrity : tables.integrity[position]? = some entry.integrityRow

theorem checkEntry_eq_ok
    {limits : DecodeLimits}
    {tables : Tables}
    {position : Nat}
    {entry : EntryRecord}
    {scan next : EntryScan} :
    checkEntry limits tables position entry scan = .ok next ↔
      (EntryOk limits tables position entry ∧
        entry.path.sortKey ∉ scan.pathKeys ∧
        (entry.isCounted → scan.originalSize.toNat + entry.size.toNat ≤
          limits.maxOriginalBytes.toNat)) ∧
      next = scan.advance entry := by
  simp only [checkEntry, bind_eq_ok, ensure_eq_ok, validateArchivePath_eq_ok,
    checkKind_eq_ok, Except.ok.injEq, exists_const]
  constructor
  · rintro ⟨entryId, path, fresh, _, ⟨kind, bounded, rfl⟩, ⟨index, integrity⟩,
      rfl⟩
    exact ⟨⟨⟨entryId, path, kind, index, integrity⟩, fresh, bounded⟩, rfl⟩
  · rintro ⟨⟨⟨entryId, path, kind, index, integrity⟩, fresh, bounded⟩, rfl⟩
    exact ⟨entryId, path, fresh, _, ⟨kind, bounded, rfl⟩, ⟨index, integrity⟩,
      rfl⟩

/-- The scan of all entries of a table. -/
def scanEntries (entries : List EntryRecord) : EntryScan :=
  entries.foldl EntryScan.advance EntryScan.start

/-- The original size of the entries, as a number that cannot wrap. -/
def originalSize (entries : List EntryRecord) : Nat :=
  (entries.map fun entry => entry.contribution.toNat).sum

theorem scanEntries_concat (entries : List EntryRecord) (entry : EntryRecord) :
    scanEntries (entries ++ [entry]) = (scanEntries entries).advance entry := by
  simp [scanEntries]

theorem originalSize_append (before after : List EntryRecord) :
    originalSize (before ++ after) =
      originalSize before + originalSize after := by
  simp [originalSize]

@[simp] theorem scanEntries_pathKeys (entries : List EntryRecord) :
    (scanEntries entries).pathKeys =
      (entries.map fun entry => entry.path.sortKey).reverse := by
  induction entries using List.reverseRecOn with
  | nil => rfl
  | append_singleton before last inductionHypothesis =>
      rw [scanEntries_concat]
      simp [EntryScan.advance, inductionHypothesis]

/-- The files counted by the scan are the file entries. -/
theorem scanEntries_fileCount (entries : List EntryRecord) :
    (scanEntries entries).fileCount =
      (entries.filter EntryRecord.isFile).length := by
  induction entries using List.reverseRecOn with
  | nil => rfl
  | append_singleton before last inductionHypothesis =>
      rw [scanEntries_concat, List.filter_append, List.length_append,
        ← inductionHypothesis]
      unfold EntryScan.advance EntryScan.add EntryRecord.isFile
      cases kind : last.kind <;>
        simp [kind, EntryKind.groupId?]

/-- While the total fits, the scan's running sum does not wrap. -/
theorem scanEntries_originalSize
    {entries : List EntryRecord}
    (fits : originalSize entries < 2 ^ 64) :
    (scanEntries entries).originalSize.toNat = originalSize entries := by
  induction entries using List.reverseRecOn with
  | nil => rfl
  | append_singleton before last inductionHypothesis =>
      have split := originalSize_append before [last]
      have beforeFits : originalSize before < 2 ^ 64 := by omega
      have size : originalSize [last] = last.contribution.toNat := by
        simp [originalSize]
      have sum : (scanEntries (before ++ [last])).originalSize =
          (scanEntries before).originalSize + last.contribution := by
        rw [scanEntries_concat]
        unfold EntryScan.advance EntryScan.add EntryRecord.contribution
          EntryRecord.isCounted
        cases kind : last.kind <;> simp
      rw [sum, UInt64.toNat_add, inductionHypothesis beforeFits, split, size]
      exact Nat.mod_eq_of_lt (by omega)

theorem contribution_le_iff
    {entry : EntryRecord}
    {before maximum : Nat}
    (beforeFits : before ≤ maximum) :
    (entry.isCounted → before + entry.size.toNat ≤ maximum) ↔
      before + entry.contribution.toNat ≤ maximum := by
  unfold EntryRecord.contribution
  cases entry.isCounted <;> simp [beforeFits]

/-- The bound on every running sum is the bound on the total. -/
theorem runningSize_le_iff
    {entries : List EntryRecord}
    {maximum : Nat}
    (fits : maximum < 2 ^ 64) :
    (∀ before entry after, entries = before ++ entry :: after →
        entry.isCounted →
        (scanEntries before).originalSize.toNat + entry.size.toNat ≤
          maximum) ↔
      originalSize entries ≤ maximum := by
  induction entries using List.reverseRecOn with
  | nil => simp [originalSize]
  | append_singleton front last inductionHypothesis =>
      have total : originalSize (front ++ [last]) =
          originalSize front + last.contribution.toNat := by
        simp [originalSize]
      constructor
      · intro bounded
        have frontFits : originalSize front ≤ maximum := by
          apply inductionHypothesis.mp
          intro before entry after split
          exact bounded before entry (after ++ [last]) (by simp [split])
        rw [total, ← contribution_le_iff frontFits,
          ← scanEntries_originalSize (by omega)]
        exact bounded front last [] rfl
      · intro totalFits before entry after split
        have sizes := originalSize_append before (entry :: after)
        have head : originalSize (entry :: after) =
            entry.contribution.toNat + originalSize after := by
          simp [originalSize]
        rw [← split] at sizes
        rw [scanEntries_originalSize (by omega),
          contribution_le_iff (by omega)]
        omega

/-- The loop over the entries succeeds exactly when every entry is in order, no
sort key repeats and the sizes stay within the limit. -/
theorem checkEntries_eq_ok
    {limits : DecodeLimits}
    {tables : Tables}
    {scan : EntryScan} :
    forEnum (checkEntry limits tables) 0 tables.entries EntryScan.start =
        .ok scan ↔
      ((∀ position entry, tables.entries[position]? = some entry →
          EntryOk limits tables position entry) ∧
        (tables.entries.map fun entry => entry.path.sortKey).Nodup ∧
        originalSize tables.entries ≤ limits.maxOriginalBytes.toNat) ∧
      scan = scanEntries tables.entries := by
  rw [forEnum_eq_ok (@checkEntry_eq_ok limits tables),
    ← scanEntries, ← runningSize_le_iff limits.maxOriginalBytes.toNat_lt,
    nodup_map_iff_split, ← forall_split_iff]
  refine and_congr_left fun _ => ?_
  have keys (before : List EntryRecord) :
      (before.foldl EntryScan.advance EntryScan.start).pathKeys =
        (before.map fun entry => entry.path.sortKey).reverse :=
    scanEntries_pathKeys before
  simp only [keys, List.mem_reverse]
  constructor
  · intro allGood
    exact ⟨fun before entry after split => (allGood before entry after split).1,
      fun before entry after split => (allGood before entry after split).2.1,
      fun before entry after split => (allGood before entry after split).2.2⟩
  · rintro ⟨entriesOk, fresh, bounded⟩ before entry after split
    exact ⟨entriesOk before entry after split, fresh before entry after split,
      bounded before entry after split⟩

/-! ## Restore map -/

/-- The demands on one restore record. -/
def RestoreOk (entries : List EntryRecord) (restore : RestoreMapRecord) :
    Prop :=
  ∃ entry, entries[restore.entryId.toNat]? = some entry ∧
    entry.kind.groupId? = some restore.groupId ∧
    restore.entryId = entry.entryId ∧ restore.originalOffset = 0 ∧
    restore.length = entry.size

theorem checkRestore_eq_ok
    {entries : List EntryRecord}
    {position : Nat}
    {restore : RestoreMapRecord}
    {restored next : List UInt64} :
    checkRestore entries position restore restored = .ok next ↔
      (RestoreOk entries restore ∧ restore.entryId ∉ restored) ∧
        next = restore.entryId :: restored := by
  simp only [checkRestore, RestoreOk, bind_eq_ok, okOr_eq_ok, ensure_eq_ok,
    Except.ok.injEq, exists_const]
  constructor
  · rintro ⟨entry, found, groupId, isFile,
      ⟨sameId, offset, length, sameGroup, fresh⟩, rfl⟩
    subst sameGroup
    exact ⟨⟨⟨entry, found, isFile, sameId, offset, length⟩, fresh⟩, rfl⟩
  · rintro ⟨⟨⟨entry, found, isFile, sameId, offset, length⟩, fresh⟩, rfl⟩
    exact ⟨entry, found, _, isFile, ⟨sameId, offset, length, rfl, fresh⟩, rfl⟩

/-- The loop over the restore map succeeds exactly when every record is in order
and no entry has two. -/
theorem checkRestores_eq_ok
    {entries : List EntryRecord}
    {restoreMap : List RestoreMapRecord}
    {restored : List UInt64} :
    forEnum (checkRestore entries) 0 restoreMap [] = .ok restored ↔
      ((∀ restore ∈ restoreMap, RestoreOk entries restore) ∧
        (restoreMap.map (·.entryId)).Nodup) ∧
      restored = (restoreMap.map (·.entryId)).reverse := by
  have accumulated (records : List RestoreMapRecord) :
      records.foldl (fun restored restore => restore.entryId :: restored) [] =
        (records.map (·.entryId)).reverse := by
    induction records using List.reverseRecOn with
    | nil => rfl
    | append_singleton front last inductionHypothesis =>
        simp [inductionHypothesis]
  rw [forEnum_eq_ok (@checkRestore_eq_ok entries),
    nodup_map_iff_split, accumulated]
  refine and_congr_left fun _ => ?_
  simp only [accumulated, List.mem_reverse]
  constructor
  · intro allGood
    refine ⟨?_, fun before restore after split =>
      (allGood before restore after split).2⟩
    intro restore member
    obtain ⟨before, after, split⟩ := List.append_of_mem member
    exact (allGood before restore after split).1
  · rintro ⟨allOk, fresh⟩ before restore after split
    exact ⟨allOk restore (by simp [split]), fresh before restore after split⟩

/-! ## Groups -/

/-- A loop that checks its items and that each starts where the previous one
ended finds a tiling. -/
theorem forEnum_tiles_eq_ok
    {Item : Type}
    {body : Nat → Item → UInt64 → Result UInt64}
    {good : Nat → Item → Prop}
    {segment : Item → Nat × Nat}
    (exact : ∀ position item state next,
      body position item state = .ok next ↔
        good position item ∧ (segment item).1 = state.toNat ∧
          state.toNat + (segment item).2 = next.toNat)
    {position : Nat}
    {items : List Item}
    {start finish : UInt64} :
    forEnum body position items start = .ok finish ↔
      (∀ index item, items[index]? = some item →
        good (position + index) item) ∧
      Tiles start.toNat (items.map segment) finish.toNat := by
  induction items generalizing position start with
  | nil => simp [UInt64.toNat_inj]
  | cons first rest inductionHypothesis =>
      simp only [forEnum_cons, bind_eq_ok, exact, inductionHypothesis,
        List.map_cons, tiles_cons]
      constructor
      · rintro ⟨next, ⟨firstGood, starts, ends⟩, restGood, restTiles⟩
        refine ⟨?_, starts, by rwa [ends]⟩
        intro index item found
        cases index with
        | zero =>
            cases found
            exact firstGood
        | succ index =>
            have := restGood index item found
            rwa [Nat.add_assoc, Nat.add_comm 1] at this
      · rintro ⟨allGood, starts, restTiles⟩
        have bounded := restTiles.le
        have maximum := finish.toNat_lt
        have fits := @toNat_ofNat_of_lt (start.toNat + (segment first).2)
          (by omega)
        refine ⟨UInt64.ofNat (start.toNat + (segment first).2),
          ⟨allGood 0 first rfl, starts, fits.symm⟩, ?_, by rwa [fits]⟩
        intro index item found
        have := allGood (index + 1) item found
        rwa [Nat.add_comm index 1, ← Nat.add_assoc] at this

/-- Where a restore record stands in its decoded group. -/
def RestoreMapRecord.segment (restore : RestoreMapRecord) : Nat × Nat :=
  (restore.groupOffset.toNat, restore.length.toNat)

/-- Where a group stands in the file. -/
def GroupTableRecord.segment (record : GroupTableRecord) : Nat × Nat :=
  (record.payloadOffset.toNat, record.group.compressedLen.toNat)

theorem checkMapping_eq_ok
    {position : Nat}
    {restore : RestoreMapRecord}
    {expectedOffset next : UInt64} :
    checkMapping position restore expectedOffset = .ok next ↔
      True ∧ restore.segment.1 = expectedOffset.toNat ∧
        expectedOffset.toNat + restore.segment.2 = next.toNat := by
  simp only [checkMapping, bind_eq_ok, ensure_eq_ok, okOr_eq_ok,
    checkedAdd_eq_some, exists_const, ← UInt64.toNat_inj, true_and,
    RestoreMapRecord.segment]

/-- The restore records of a group fill it without gaps. -/
structure MappingsOk
    (restoreMap : List RestoreMapRecord)
    (group : GroupRecord) : Prop where
  count : (mappings restoreMap group.groupId).length = group.chunkCount.toNat
  nonempty : mappings restoreMap group.groupId ≠ []
  tiles : Tiles 0 ((mappings restoreMap group.groupId).map
    RestoreMapRecord.segment) group.uncompressedLen.toNat

theorem checkMappings_eq_ok
    {restoreMap : List RestoreMapRecord}
    {group : GroupRecord}
    {result : Unit} :
    checkMappings restoreMap group = .ok result ↔
      MappingsOk restoreMap group := by
  simp only [checkMappings, bind_eq_ok, ensure_eq_ok, exists_const,
    forEnum_tiles_eq_ok (@checkMapping_eq_ok)]
  constructor
  · rintro ⟨⟨count, nonempty⟩, _, ⟨_, tiles⟩, rfl⟩
    exact ⟨count, nonempty, tiles⟩
  · rintro ⟨count, nonempty, tiles⟩
    exact ⟨⟨count, nonempty⟩, _, ⟨fun _ _ _ => trivial, tiles⟩, rfl⟩

/-- Limits on the declared sizes of a group. -/
structure GroupSizeOk (limits : DecodeLimits) (group : GroupRecord) :
    Prop where
  output : group.uncompressedLen ≤ limits.maxGroupOutput
  allowance : limits.maxGroupOutput.toNat + 1024 * 1024 < 2 ^ 64
  compressed : group.compressedLen.toNat ≤
    limits.maxGroupOutput.toNat + 1024 * 1024
  expansion : group.compressedLen = 0 ∨
    group.uncompressedLen.toNat ≤
      group.compressedLen.toNat * limits.maxExpansionRatio.toNat

theorem expansion_iff
    {compressed ratio uncompressed : UInt64} :
    (∀ maximum ∈ checkedMul compressed ratio, uncompressed ≤ maximum) ↔
      uncompressed.toNat ≤ compressed.toNat * ratio.toNat := by
  have bound := uncompressed.toNat_lt
  constructor
  · intro within
    by_cases fits : compressed.toNat * ratio.toNat < 2 ^ 64
    · have product := @checkedMul_eq_some compressed ratio
        (UInt64.ofNat (compressed.toNat * ratio.toNat))
      rw [toNat_ofNat_of_lt fits] at product
      have := UInt64.le_iff_toNat_le.mp (within _ (product.mpr rfl))
      rwa [toNat_ofNat_of_lt fits] at this
    · omega
  · intro within maximum found
    rw [Option.mem_def, checkedMul_eq_some] at found
    rw [UInt64.le_iff_toNat_le]
    omega

theorem checkGroupSize_eq_ok
    {limits : DecodeLimits}
    {group : GroupRecord}
    {result : Unit} :
    checkGroupSize limits group = .ok result ↔ GroupSizeOk limits group := by
  simp only [checkGroupSize, bind_eq_ok, ensure_eq_ok, okOr_eq_ok,
    checkedAdd_eq_some, expansion_iff, exists_const]
  constructor
  · rintro ⟨output, maximum, sum, compressed, expansion⟩
    have bound := maximum.toNat_lt
    rw [UInt64.le_iff_toNat_le, ← sum] at compressed
    exact ⟨output, by rw [← sum] at bound; exact bound, compressed, expansion⟩
  · rintro ⟨output, allowance, compressed, expansion⟩
    have value := toNat_ofNat_of_lt allowance
    refine ⟨output, UInt64.ofNat (limits.maxGroupOutput.toNat + 1024 * 1024),
      value.symm, ?_, expansion⟩
    rwa [UInt64.le_iff_toNat_le, value]

/-- The demands on the codec of a group. -/
def GroupCodecOk (registry : Option CodecRegistry) (group : GroupRecord) :
    Prop :=
  match registry with
  | none =>
      group.codecChainId = 0 ∧ group.chunkCount = 1 ∧
        group.uncompressedLen = group.compressedLen
  | some registry =>
      group.codecChainId ≠ 0 ∧
        ∃ record codecId, registry.chain group.codecChainId = some record ∧
          CodecId.fromU16 record.codecId = some codecId ∧
          codecId.levelSupported record.level ∧
          group.uncompressedLen.toNat +
            (codecId.scratchBytes record.level).toNat < 2 ^ 64

theorem checkGroupCodec_eq_ok
    {registry : Option CodecRegistry}
    {group : GroupRecord}
    {result : Unit} :
    checkGroupCodec registry group = .ok result ↔
      GroupCodecOk registry group := by
  cases registry with
  | none =>
      simp only [checkGroupCodec, GroupCodecOk, bind_eq_ok, ensure_eq_ok,
        exists_const]
  | some registry =>
      simp only [checkGroupCodec, GroupCodecOk, CodecId.memoryBound,
        CodecId.validateLevel, bind_eq_ok, ensure_eq_ok, okOr_eq_ok,
        exists_const, and_true]
      refine and_congr_right fun _ => ?_
      constructor
      · rintro ⟨record, found, codecId, known, _, level, memory⟩
        exact ⟨record, codecId, found, known, level,
          checkedAdd_isSome_iff.mp ⟨_, memory⟩⟩
      · rintro ⟨record, codecId, found, known, level, memory⟩
        obtain ⟨bound, fits⟩ := checkedAdd_isSome_iff.mpr memory
        exact ⟨record, found, codecId, known, bound, level, fits⟩

/-- The demands on the group at a position, apart from where it starts. -/
structure GroupOk
    (limits : DecodeLimits)
    (tables : Tables)
    (payloadEnd : UInt64)
    (position : Nat)
    (record : GroupTableRecord) : Prop where
  groupId : record.group.groupId.toNat = position
  version : record.group.version = 1
  flags : record.group.flags = 0
  descriptorLen : record.group.descriptorLen = 0
  size : GroupSizeOk limits record.group
  codec : GroupCodecOk tables.codecRegistry record.group
  afterStart : tables.payloadSection.offset ≤ record.payloadOffset
  beforeEnd : record.payloadOffset.toNat + record.group.compressedLen.toNat ≤
    payloadEnd.toNat
  mappings : MappingsOk tables.restoreMap record.group

theorem checkGroup_eq_ok
    {limits : DecodeLimits}
    {tables : Tables}
    {payloadEnd : UInt64}
    {position : Nat}
    {record : GroupTableRecord}
    {previousGroupEnd next : UInt64} :
    checkGroup limits tables payloadEnd position record previousGroupEnd =
        .ok next ↔
      GroupOk limits tables payloadEnd position record ∧
        record.segment.1 = previousGroupEnd.toNat ∧
        previousGroupEnd.toNat + record.segment.2 = next.toNat := by
  simp only [checkGroup, bind_eq_ok, ensure_eq_ok, okOr_eq_ok,
    checkedAdd_eq_some, checkGroupSize_eq_ok, checkGroupCodec_eq_ok,
    checkMappings_eq_ok, Except.ok.injEq, exists_const,
    GroupTableRecord.segment, ← UInt64.toNat_inj]
  constructor
  · rintro ⟨⟨groupId, version, flags, descriptorLen⟩, size, codec, groupEnd,
      sum, ⟨afterStart, starts, beforeEnd⟩, mappings, ended⟩
    rw [UInt64.toNat_inj] at starts ended
    subst starts
    subst ended
    rw [UInt64.le_iff_toNat_le, ← sum] at beforeEnd
    refine ⟨⟨groupId, ?_, ?_, ?_, size, codec, afterStart, beforeEnd,
      mappings⟩, rfl, sum⟩ <;> assumption
  · rintro ⟨ok, starts, sum⟩
    refine ⟨⟨ok.groupId, ok.version, ok.flags, ok.descriptorLen⟩, ok.size,
      ok.codec, next, by omega, ⟨ok.afterStart, starts, ?_⟩, ok.mappings, rfl⟩
    have := ok.beforeEnd
    rw [UInt64.le_iff_toNat_le]
    omega

/-! ## All tables -/

/-- Everything that the cross-checks demand of the tables. -/
structure TablesOk
    (limits : DecodeLimits)
    (header : GlobalHeader)
    (tables : Tables) : Prop where
  entryCount : tables.entries.length = header.entryCount.toNat
  groupCount : tables.groups.length = header.groupCount.toNat
  restoreCount : tables.restoreMap.length = header.logicalChunkCount.toNat
  indexCount : tables.centralIndex.length = tables.entries.length
  integrityCount : tables.integrity.length = tables.entries.length
  entries : ∀ position entry, tables.entries[position]? = some entry →
    EntryOk limits tables position entry
  sortKeys : (tables.entries.map fun entry => entry.path.sortKey).Nodup
  sizeLimit : originalSize tables.entries ≤ limits.maxOriginalBytes.toNat
  sizeTotal : originalSize tables.entries = header.originalTotalSize.toNat
  restores : ∀ restore ∈ tables.restoreMap, RestoreOk tables.entries restore
  restoreIds : (tables.restoreMap.map (·.entryId)).Nodup
  restoreFiles : tables.restoreMap.length =
    (tables.entries.filter EntryRecord.isFile).length
  payloadEnd : tables.payloadSection.offset.toNat +
    tables.payloadSection.length.toNat < 2 ^ 64
  groups : ∀ position record, tables.groups[position]? = some record →
    GroupOk limits tables
      (tables.payloadSection.offset + tables.payloadSection.length)
      position record
  groupTiles : Tiles tables.payloadSection.offset.toNat
    (tables.groups.map GroupTableRecord.segment)
    (tables.payloadSection.offset.toNat + tables.payloadSection.length.toNat)

/-- The cross-checks succeed exactly on tables that meet all demands. -/
theorem checkTables_eq_ok
    {limits : DecodeLimits}
    {header : GlobalHeader}
    {tables : Tables}
    {scan : EntryScan} :
    checkTables limits header tables = .ok scan ↔
      TablesOk limits header tables ∧ scan = scanEntries tables.entries := by
  have maximum := limits.maxOriginalBytes.toNat_lt
  simp only [checkTables, bind_eq_ok, ensure_eq_ok, okOr_eq_ok,
    checkEntries_eq_ok, checkRestores_eq_ok,
    forEnum_tiles_eq_ok (@checkGroup_eq_ok limits tables _), exists_const,
    Except.ok.injEq, Nat.zero_add]
  constructor
  · rintro ⟨⟨entryCount, groupCount, restoreCount, indexCount, integrityCount⟩,
      _, ⟨⟨entries, sortKeys, sizeLimit⟩, rfl⟩, sizeTotal, _,
      ⟨⟨restores, restoreIds⟩, rfl⟩, restoreFiles, payloadEnd, found, _,
      ⟨groups, groupTiles⟩, rfl, rfl⟩
    have sum := checkedAdd_eq_some.mp found
    have value := checkedAdd_eq_some_add found
    subst value
    refine ⟨⟨entryCount, groupCount, restoreCount, indexCount, integrityCount,
      entries, sortKeys, sizeLimit, ?_, restores, restoreIds, ?_, ?_, groups,
      ?_⟩, rfl⟩
    · rw [← sizeTotal, scanEntries_originalSize (by omega)]
    · rw [← scanEntries_fileCount, ← restoreFiles]
      simp
    · rw [sum]
      exact UInt64.toNat_lt _
    · rwa [sum]
  · rintro ⟨ok, rfl⟩
    obtain ⟨payloadEnd, found, sum⟩ := checkedAdd_of_lt ok.payloadEnd
    have value := checkedAdd_eq_some_add found
    subst value
    refine ⟨⟨ok.entryCount, ok.groupCount, ok.restoreCount, ok.indexCount,
      ok.integrityCount⟩, _, ⟨⟨ok.entries, ok.sortKeys, ok.sizeLimit⟩, rfl⟩,
      ?_, _, ⟨⟨ok.restores, ok.restoreIds⟩, rfl⟩, ?_, _, found, _,
      ⟨ok.groups, ?_⟩, rfl, rfl⟩
    · rw [← UInt64.toNat_inj, ← ok.sizeTotal]
      have := ok.sizeLimit
      exact scanEntries_originalSize (by omega)
    · rw [scanEntries_fileCount, ← ok.restoreFiles]
      simp
    · rw [sum]
      exact ok.groupTiles

end Pithos
