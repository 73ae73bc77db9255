import Pithos.Engine.Verify
import Pithos.Library.Action

/-!
# Reading single entries

`extractToWriter` writes the bytes of one entry to a stream, `readRange` a range
of them.  Both find the entry by its path, the file behind a hardlink, the group
of the file and its restore record, and then decode the group.  In a verified
archive all these lookups succeed, and lead to the same bytes.
-/

namespace Pithos

open Fallible
open Machine

/-! ## Lookups -/

/-- The entry with the bytes of a file or hardlink. -/
def fileSourceEntry (entry : EntryRecord) (entries : List EntryRecord) :
    Result EntryRecord :=
  match entry.kind with
  | .file _ => .ok entry
  | .hardlink targetEntryId =>
      okOr entries[targetEntryId.toNat]? (.invalidMetadata "hardlink target")
  | .directory | .symlink _ _ => .error (.invalidMetadata "file source")

/-- The restore record of an entry. -/
def restoreForEntry (restoreMap : List RestoreMapRecord) (entryId : UInt64) :
    Result RestoreMapRecord :=
  okOr (restoreMap.find? fun restore => restore.entryId = entryId)
    (.invalidMetadata "restore entry missing")

/-- The entry with a given path. -/
def selectEntry (entries : List EntryRecord) (selector : ArchivePath) :
    Result EntryRecord :=
  okOr (entries.find? fun entry => entry.path = selector)
    (.invalidMetadata "entry not found")

/-! ## Operations -/

/-- What an entry is, in a report. -/
inductive ArchiveEntryKind
  | file
  | directory
  | hardlink
  | symlink
  deriving DecidableEq, Repr

/-- What an entry is, for a report. -/
def archiveEntryKind : EntryKind → ArchiveEntryKind
  | .file _ => .file
  | .directory => .directory
  | .hardlink _ => .hardlink
  | .symlink _ _ => .symlink

/-- The report of an extraction.  Paths in reports are host paths; their lossy
rendering as text is left out. -/
structure ExtractReport where
  path : HostPath.Path
  bytesWritten : UInt64
  kind : ArchiveEntryKind
  deriving DecidableEq

/-- The report of a range read. -/
structure ReadRangeReport where
  path : HostPath.Path
  offset : UInt64
  length : UInt64
  entrySize : UInt64
  blake3 : Digest
  deriving DecidableEq

/-- The report for an entry. -/
def extractReport (entry : EntryRecord) (bytesWritten : UInt64) :
    ExtractReport where
  path := entry.path.toPathBuf.toOption.getD []
  bytesWritten := bytesWritten
  kind := archiveEntryKind entry.kind

/-- An action that writes to a stream. -/
abbrev Writer := StateAction (List UInt8) PithosError

/-- Write bytes to the stream. -/
def emit (bytes : List UInt8) : Writer Unit :=
  fun output => (.ok (), output ++ bytes)

/-- Stream one file entry. -/
def extractToWriter
    (backends : Backends)
    (file : List UInt8)
    (limits : DecodeLimits)
    (entry : HostPath.Path) : Writer ExtractReport := do
  let selector ← StateAction.lift (ArchivePath.fromRelative entry)
  let parsed ← StateAction.lift (readCatalog backends file limits)
  let selected ← StateAction.lift (selectEntry parsed.entries selector)
  let source ← StateAction.lift (fileSourceEntry selected parsed.entries)
  let groupId ← StateAction.lift (okOr source.kind.groupId?
    (.invalidMetadata "stdout requires a file entry"))
  let group ← StateAction.lift (okOr parsed.groups[groupId.toNat]?
    (.invalidMetadata "entry group"))
  let restore ← StateAction.lift (restoreForEntry parsed.restoreMap source.entryId)
  let decoded ← StateAction.lift
    (decodeGroup backends file group parsed.codecRegistry limits)
  let bytes ← StateAction.lift (restoredSlice decoded restore 0 restore.length)
  emit bytes
  StateAction.lift (ensure (backends.digests.blake3 bytes = source.blake3)
    .hashMismatch)
  pure (extractReport selected source.size)

/-- Stream a range of one file entry. -/
def readRange
    (backends : Backends)
    (file : List UInt8)
    (limits : DecodeLimits)
    (entry : HostPath.Path)
    (offset length : UInt64) : Writer ReadRangeReport := do
  StateAction.lift (ensure (length ≤ limits.maxGroupOutput)
    (.resourceLimit "range output"))
  let selector ← StateAction.lift (ArchivePath.fromRelative entry)
  let parsed ← StateAction.lift (readCatalog backends file limits)
  let selected ← StateAction.lift (selectEntry parsed.entries selector)
  let source ← StateAction.lift (fileSourceEntry selected parsed.entries)
  let finish ← StateAction.lift (okOr (checkedAdd offset length) .integerOverflow)
  StateAction.lift (ensure (finish ≤ source.size) .invalidRange)
  let groupId ← StateAction.lift (okOr source.kind.groupId?
    (.invalidMetadata "range requires a file entry"))
  let group ← StateAction.lift (okOr parsed.groups[groupId.toNat]?
    (.invalidMetadata "entry group"))
  let restore ← StateAction.lift (restoreForEntry parsed.restoreMap source.entryId)
  let decoded ← StateAction.lift
    (decodeGroup backends file group parsed.codecRegistry limits)
  let entryBytes ← StateAction.lift
    (restoredSlice decoded restore 0 restore.length)
  StateAction.lift (ensure (backends.digests.blake3 entryBytes = source.blake3)
    .hashMismatch)
  let rangeBytes ← StateAction.lift (restoredSlice decoded restore offset length)
  emit rangeBytes
  let path ← StateAction.lift selected.path.toPathBuf
  pure {
    path := path
    offset := offset
    length := length
    entrySize := source.size
    blake3 := backends.digests.blake3 rangeBytes }

/-! ## Verified archives -/

/-- The tables behind a verified archive. -/
theorem tables_of_verified
    {backends : Backends}
    {file : List UInt8}
    {limits : DecodeLimits}
    {parsed : ParsedArchive}
    (verified : verifyOpenFile backends file limits = .ok parsed) :
    ∃ read header tables,
      readCatalog backends file limits = .ok read ∧
      TablesOk limits header tables ∧
      (∀ record ∈ read.groups,
        GroupVerified backends file limits read record) ∧
      parsed = read.withRoot ∧ read.entries = tables.entries ∧
      read.groups = tables.groups ∧ read.restoreMap = tables.restoreMap := by
  obtain ⟨read, accepted, payload, rfl⟩ := verifyOpenFile_eq_ok.mp verified
  obtain ⟨container, _, tables, _, _, ok, rfl⟩ := readCatalog_eq_ok.mp accepted
  exact ⟨_, container.header, tables, accepted, ok, payload.groups, rfl, rfl,
    rfl, rfl⟩

section Lookups

variable {limits : DecodeLimits} {header : GlobalHeader} {tables : Tables}

/-- An entry stands at the position of its id. -/
theorem TablesOk.getElem?_entryId
    (ok : TablesOk limits header tables)
    {entry : EntryRecord}
    (member : entry ∈ tables.entries) :
    tables.entries[entry.entryId.toNat]? = some entry := by
  obtain ⟨position, bound, rfl⟩ := List.getElem_of_mem member
  have found := List.getElem?_eq_getElem bound
  rw [(ok.entries position _ found).entryId, found]

/-- Entries with the same path are the same. -/
theorem TablesOk.eq_of_path_eq
    (ok : TablesOk limits header tables)
    {first second : EntryRecord}
    (firstMember : first ∈ tables.entries)
    (secondMember : second ∈ tables.entries)
    (same : first.path = second.path) :
    first = second :=
  List.inj_on_of_nodup_map ok.sortKeys firstMember secondMember
    (congrArg ArchivePath.sortKey same)

/-- Selecting by a path finds the entry with that path. -/
theorem TablesOk.selectEntry_eq
    (ok : TablesOk limits header tables)
    {entry : EntryRecord}
    (member : entry ∈ tables.entries) :
    selectEntry tables.entries entry.path = .ok entry := by
  have present : (tables.entries.find? fun candidate =>
      candidate.path = entry.path).isSome := by
    rw [List.find?_isSome]
    exact ⟨entry, member, by simp⟩
  obtain ⟨found, search⟩ := Option.isSome_iff_exists.mp present
  have same : found.path = entry.path := by simpa using List.find?_some search
  have := ok.eq_of_path_eq (List.mem_of_find?_eq_some search) member same
  rw [selectEntry, search, this, okOr_some]

/-- The restore record of a file entry is found, and describes it. -/
theorem TablesOk.restoreForEntry_file
    (ok : TablesOk limits header tables)
    {entry : EntryRecord}
    {groupId : UInt64}
    (member : entry ∈ tables.entries)
    (isFile : entry.kind = .file groupId) :
    ∃ restore, restoreForEntry tables.restoreMap entry.entryId = .ok restore ∧
      restore ∈ tables.restoreMap ∧ restore.entryId = entry.entryId ∧
      restore.groupId = groupId ∧ restore.length = entry.size := by
  have isRestored : entry.entryId ∈ tables.restoreMap.map (·.entryId) := by
    rw [ok.restoreBijection.mem_iff]
    refine List.mem_map.mpr ⟨entry, ?_, rfl⟩
    rw [List.mem_filter]
    exact ⟨member, by simp [EntryRecord.isFile, isFile, EntryKind.groupId?]⟩
  obtain ⟨present, presentMember, sameId⟩ := List.mem_map.mp isRestored
  have isSome : (tables.restoreMap.find? fun restore =>
      restore.entryId = entry.entryId).isSome := by
    rw [List.find?_isSome]
    exact ⟨present, presentMember, by simpa using sameId⟩
  obtain ⟨restore, search⟩ := Option.isSome_iff_exists.mp isSome
  have restoreMember := List.mem_of_find?_eq_some search
  have restoreId : restore.entryId = entry.entryId := by
    simpa using List.find?_some search
  obtain ⟨owner, found, isOwnerFile, _, _, length⟩ :=
    ok.restores restore restoreMember
  rw [restoreId, ok.getElem?_entryId member] at found
  cases found
  rw [isFile] at isOwnerFile
  refine ⟨restore, by rw [restoreForEntry, search, okOr_some], restoreMember,
    restoreId, ?_, length⟩
  exact (Option.some.inj isOwnerFile).symm

end Lookups

/-- How the bytes of a file entry are read. -/
structure FileRead
    (backends : Backends)
    (file : List UInt8)
    (limits : DecodeLimits)
    (parsed : ParsedArchive)
    (source : EntryRecord)
    (groupId : UInt64)
    (group : GroupTableRecord)
    (restore : RestoreMapRecord)
    (decoded bytes : List UInt8) : Prop where
  isFile : source.kind = .file groupId
  groupFound : parsed.groups[groupId.toNat]? = some group
  sameGroup : group.group.groupId = groupId
  restoreFound : restoreForEntry parsed.restoreMap source.entryId = .ok restore
  sameLength : restore.length = source.size
  decodes : decodeGroup backends file group parsed.codecRegistry limits =
    .ok decoded
  sliced : restoredSlice decoded restore 0 restore.length = .ok bytes
  hash : backends.digests.blake3 bytes = source.blake3

/-- The bytes of a file entry, empty when they cannot be read. -/
def fileBytes
    (backends : Backends)
    (file : List UInt8)
    (limits : DecodeLimits)
    (parsed : ParsedArchive)
    (source : EntryRecord) : List UInt8 :=
  Except.toOption (do
    let groupId ← okOr source.kind.groupId? (.invalidMetadata "file source")
    let group ← okOr parsed.groups[groupId.toNat]?
      (.invalidMetadata "entry group")
    let restore ← restoreForEntry parsed.restoreMap source.entryId
    let decoded ← decodeGroup backends file group parsed.codecRegistry limits
    restoredSlice decoded restore 0 restore.length) |>.getD []

theorem FileRead.fileBytes_eq
    {backends : Backends}
    {file : List UInt8}
    {limits : DecodeLimits}
    {parsed : ParsedArchive}
    {source : EntryRecord}
    {groupId : UInt64}
    {group : GroupTableRecord}
    {restore : RestoreMapRecord}
    {decoded bytes : List UInt8}
    (read : FileRead backends file limits parsed source groupId group restore
      decoded bytes) :
    fileBytes backends file limits parsed source = bytes := by
  have isFile : source.kind.groupId? = some groupId := by
    rw [read.isFile]
    rfl
  rw [fileBytes, isFile, okOr_some, ok_bind, read.groupFound, okOr_some,
    ok_bind, read.restoreFound, ok_bind, read.decodes, ok_bind, read.sliced]
  rfl

/-- Every file entry of a verified archive can be read. -/
theorem fileRead_of_tablesOk
    {backends : Backends}
    {file : List UInt8}
    {limits : DecodeLimits}
    {header : GlobalHeader}
    {tables : Tables}
    {parsed : ParsedArchive}
    (ok : TablesOk limits header tables)
    (verified : ∀ record ∈ parsed.groups,
      GroupVerified backends file limits parsed record)
    (sameEntries : parsed.entries = tables.entries)
    (sameGroups : parsed.groups = tables.groups)
    (sameRestores : parsed.restoreMap = tables.restoreMap)
    {source : EntryRecord}
    {groupId : UInt64}
    (member : source ∈ parsed.entries)
    (isFile : source.kind = .file groupId) :
    ∃ group restore decoded bytes,
      FileRead backends file limits parsed source groupId group restore decoded
        bytes := by
  rw [sameEntries] at member
  obtain ⟨restore, found, restoreMember, sameId, sameGroup, length⟩ :=
    ok.restoreForEntry_file member isFile
  obtain ⟨group, groupFound, groupSame⟩ := ok.restoreGroup restoreMember
  rw [sameGroup] at groupFound groupSame
  have groupMember : group ∈ parsed.groups := by
    rw [sameGroups]
    exact List.mem_of_getElem? groupFound
  obtain ⟨decoded, decodes, restoresOk⟩ := verified group groupMember
  have isMapping : restore ∈ mappings parsed.restoreMap group.group.groupId := by
    rw [mappings, List.mem_filter, sameRestores]
    exact ⟨restoreMember, by simp [sameGroup, groupSame]⟩
  obtain ⟨owner, bytes, ownerFound, sliced, hash⟩ := restoresOk restore isMapping
  rw [sameEntries, sameId, ok.getElem?_entryId member] at ownerFound
  cases ownerFound
  refine ⟨group, restore, decoded, bytes, isFile, ?_, groupSame, ?_, length,
    decodes, sliced, hash⟩
  · rw [sameGroups]
    exact groupFound
  · rw [sameRestores]
    exact found

end Pithos
