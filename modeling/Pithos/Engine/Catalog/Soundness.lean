import Pithos.Engine.Catalog.Container

/-!
# Catalog soundness

The checks of `readCatalog` look at one record, or at two neighbours, at a time.
Together they give the global shape of the archive: sections that lie apart,
groups that tile the payload, a restore map that is a bijection onto the file
entries and fills every group, and tables that mirror each other.
-/

namespace Pithos

open Fallible
open Machine
open Intervals
open Layout

/-- The global shape of an archive, given by its container and its tables. -/
structure CatalogSound (container : Container) (tables : Tables) : Prop where
  sectionsInside : ∀ record ∈ container.sections,
    container.directoryEnd.toNat ≤ record.range.1 ∧
      record.range.2 ≤ container.header.footerOffset.toNat
  sectionsApart : (container.sections.map SectionDirectoryRecord.range).Pairwise
    Apart
  payloadSection : tables.payloadSection ∈ container.sections ∧
    tables.payloadSection.sectionType = SectionType.payloadArea.toU16
  groupIds : ∀ (position : Nat) (record : GroupTableRecord),
    tables.groups[position]? = some record →
    record.group.groupId.toNat = position
  groupsTile : Tiles tables.payloadSection.range.1
    (tables.groups.map GroupTableRecord.segment) tables.payloadSection.range.2
  restoreBijection : (tables.restoreMap.map (·.entryId)).Perm
    ((tables.entries.filter EntryRecord.isFile).map (·.entryId))
  restoreMatches : ∀ restore ∈ tables.restoreMap, ∃ entry ∈ tables.entries,
    entry.entryId = restore.entryId ∧ entry.kind = .file restore.groupId ∧
      entry.size = restore.length
  restoreGroup : ∀ restore ∈ tables.restoreMap, ∃ record ∈ tables.groups,
    record.group.groupId = restore.groupId
  groupsFilled : ∀ record ∈ tables.groups,
    mappings tables.restoreMap record.group.groupId ≠ [] ∧
      Tiles 0 ((mappings tables.restoreMap record.group.groupId).map
        RestoreMapRecord.segment) record.group.uncompressedLen.toNat
  hardlinks : ∀ (position : Nat) (entry : EntryRecord)
      (targetEntryId : UInt64),
    tables.entries[position]? = some entry →
    entry.kind = .hardlink targetEntryId →
    ∃ (target : EntryRecord) (groupId : UInt64),
      targetEntryId.toNat < position ∧
      tables.entries[targetEntryId.toNat]? = some target ∧
      target.kind = .file groupId ∧ target.size = entry.size ∧
      target.blake3 = entry.blake3
  centralIndex : tables.centralIndex = tables.entries.map EntryRecord.indexRow
  integrity : tables.integrity = tables.entries.map EntryRecord.integrityRow
  entryIds : ∀ (position : Nat) (entry : EntryRecord),
    tables.entries[position]? = some entry →
    entry.entryId.toNat = position
  originalTotal : container.header.originalTotalSize.toNat =
    originalSize tables.entries

theorem EntryKind.eq_file_of_groupId?
    {kind : EntryKind}
    {groupId : UInt64}
    (found : kind.groupId? = some groupId) :
    kind = .file groupId := by
  cases kind <;> simp_all [EntryKind.groupId?]

/-! ## From the checks to the shape -/

section Shape

variable {limits : DecodeLimits} {header : GlobalHeader} {tables : Tables}

/-- A table that agrees with the entries row by row is their image. -/
theorem eq_map_of_rows
    {Row : Type}
    {rows : List Row}
    {entries : List EntryRecord}
    {row : EntryRecord → Row}
    (length : rows.length = entries.length)
    (agrees : ∀ (position : Nat) (entry : EntryRecord),
      entries[position]? = some entry →
      rows[position]? = some (row entry)) :
    rows = entries.map row := by
  refine List.ext_getElem? fun position => ?_
  rw [List.getElem?_map]
  cases found : entries[position]? with
  | none =>
      rw [List.getElem?_eq_none_iff] at found
      simpa [length] using found
  | some entry => exact agrees position entry found

/-- Entry ids determine entries. -/
theorem TablesOk.entryIds_nodup (ok : TablesOk limits header tables) :
    (tables.entries.map (·.entryId)).Nodup := by
  rw [nodup_map_iff_split]
  intro before entry after split member
  obtain ⟨earlier, inBefore, same⟩ := List.mem_map.mp member
  obtain ⟨position, bound, rfl⟩ := List.getElem_of_mem inBefore
  have entryId := (ok.entries before.length entry (by simp [split])).entryId
  have earlierId := (ok.entries position before[position]
    (by simp [split, List.getElem?_append_left bound])).entryId
  rw [same] at earlierId
  omega

/-- Every file entry has exactly one restore record. -/
theorem TablesOk.restoreBijection (ok : TablesOk limits header tables) :
    (tables.restoreMap.map (·.entryId)).Perm
      ((tables.entries.filter EntryRecord.isFile).map (·.entryId)) := by
  have fromFiles : tables.restoreMap.map (·.entryId) ⊆
      (tables.entries.filter EntryRecord.isFile).map (·.entryId) := by
    intro entryId member
    obtain ⟨restore, present, rfl⟩ := List.mem_map.mp member
    obtain ⟨entry, found, isFile, sameId, _⟩ := ok.restores restore present
    refine List.mem_map.mpr ⟨entry, ?_, sameId.symm⟩
    rw [List.mem_filter]
    exact ⟨List.mem_of_getElem? found, by simp [EntryRecord.isFile, isFile]⟩
  refine (List.subperm_of_subset ok.restoreIds fromFiles).perm_of_length_le ?_
  simp [ok.restoreFiles]

theorem TablesOk.hardlinkTarget
    (ok : TablesOk limits header tables)
    {position : Nat}
    {entry : EntryRecord}
    {targetEntryId : UInt64}
    (found : tables.entries[position]? = some entry)
    (isHardlink : entry.kind = .hardlink targetEntryId) :
    ∃ (target : EntryRecord) (groupId : UInt64),
      targetEntryId.toNat < position ∧
      tables.entries[targetEntryId.toNat]? = some target ∧
      target.kind = .file groupId ∧ target.size = entry.size ∧
      target.blake3 = entry.blake3 := by
  have entryOk := ok.entries position entry found
  have kindOk := entryOk.kind
  unfold KindOk at kindOk
  rw [isHardlink] at kindOk
  obtain ⟨earlier, target, targetFound, isFile, size, hash⟩ := kindOk
  obtain ⟨groupId, groupFound⟩ := Option.isSome_iff_exists.mp isFile
  refine ⟨target, groupId, ?_, targetFound,
    EntryKind.eq_file_of_groupId? groupFound, size, hash⟩
  have := UInt64.lt_iff_toNat_lt.mp earlier
  have := entryOk.entryId
  omega

/-- A restore record names a group of the table. -/
theorem TablesOk.restoreGroup
    (ok : TablesOk limits header tables)
    {restore : RestoreMapRecord}
    (member : restore ∈ tables.restoreMap) :
    ∃ record, tables.groups[restore.groupId.toNat]? = some record ∧
      record.group.groupId = restore.groupId := by
  obtain ⟨entry, found, isFile, _⟩ := ok.restores restore member
  have kindOk := (ok.entries _ entry found).kind
  unfold KindOk at kindOk
  rw [EntryKind.eq_file_of_groupId? isFile] at kindOk
  exact kindOk

end Shape

end Pithos
