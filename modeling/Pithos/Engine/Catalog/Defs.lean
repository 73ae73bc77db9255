import Pithos.Codecs
import Pithos.Format.Tables
import Pithos.Library.Intervals
import Pithos.Library.Layout

/-!
# Reading the catalog

`readCatalog` reads and checks all metadata of an archive without touching the
payload.  It works in three stages: the container (header, footer and section
directory), the tables (the JSON sections and the codec registry), and the
cross-checks between the tables.  The file is a byte string that does not change
while it is read.
-/

namespace Pithos

open Fallible
open Machine

/-- The crates that the engine links. -/
structure Backends where
  digests : Digests
  json : Json
  codecs : Codecs

/-! ## Reading from the file -/

/-- Read exactly `length` bytes at a position. -/
def readExact (file : List UInt8) (offset length : Nat) :
    Result (List UInt8) := do
  ensure ((Bytes.slice file offset length).length = length)
    (.io .unexpectedEof)
  .ok (Bytes.slice file offset length)

/-- Read a bounded number of bytes at a position. -/
def readExactVec (file : List UInt8) (offset length maximum : UInt64) :
    Result (List UInt8) := do
  ensure (length ≤ maximum) (.resourceLimit "metadata allocation")
  readExact file offset.toNat length.toNat

/-- Checksum and hash of a range of the file.  The source folds both over reads
of at most 64 KiB. -/
def digestRange
    (digests : Digests)
    (file : List UInt8)
    (offset length : UInt64) : Result (UInt32 × Digest) := do
  let bytes ← readExact file offset.toNat length.toNat
  .ok (digests.crc32cAppend 0 bytes, digests.blake3 bytes)

@[simp] theorem readExact_eq_ok
    {file bytes : List UInt8}
    {offset length : Nat} :
    readExact file offset length = .ok bytes ↔
      (Bytes.slice file offset length).length = length ∧
        bytes = Bytes.slice file offset length := by
  simp only [readExact, bind_eq_ok, ensure_eq_ok, Except.ok.injEq,
    exists_const]
  exact and_congr_right fun _ => eq_comm

@[simp] theorem readExactVec_eq_ok
    {file bytes : List UInt8}
    {offset length maximum : UInt64} :
    readExactVec file offset length maximum = .ok bytes ↔
      length ≤ maximum ∧
        (Bytes.slice file offset.toNat length.toNat).length = length.toNat ∧
        bytes = Bytes.slice file offset.toNat length.toNat := by
  simp only [readExactVec, bind_eq_ok, ensure_eq_ok, readExact_eq_ok,
    exists_const]

/-! ## The container -/

/-- Limits on the counts that the header declares. -/
def validateHeaderLimits
    (header : GlobalHeader)
    (fileLength : Nat)
    (limits : DecodeLimits) : Result Unit := do
  ensure (header.flags = 0) .unsupportedContainerVersion
  ensure ((header.sectionCount = requiredRawSections ∨
      header.sectionCount = requiredCompressedSections) ∧
    header.sectionCount ≤ limits.maxSections) (.resourceLimit "section count")
  ensure (header.entryCount ≤ limits.maxEntries) (.resourceLimit "entry count")
  ensure (header.groupCount ≤ limits.maxGroups) (.resourceLimit "group count")
  ensure (header.logicalChunkCount ≤ limits.maxChunks)
    (.resourceLimit "chunk count")
  ensure (header.originalTotalSize ≤ limits.maxOriginalBytes)
    (.resourceLimit "original bytes")
  ensure (header.footerOffset.toNat < fileLength) .invalidRange

/-- The sections that every archive has. -/
def rawSectionTypes : List SectionType :=
  [.entryTable, .groupTable, .payloadArea, .restoreMap, .centralIndex,
    .integrityTree]

/-- The name of a section in an error. -/
def sectionName : SectionType → String
  | .codecRegistry => "CodecRegistry"
  | .entryTable => "EntryTable"
  | .groupTable => "GroupTable"
  | .payloadArea => "PayloadArea"
  | .restoreMap => "RestoreMap"
  | .centralIndex => "CentralIndex"
  | .integrityTree => "IntegrityTree"
  | .objectGraph | .baseDictionaryArea | .optionalTelemetry => "unsupported"

/-- The section of a type.  The section map is kept as the list of its records
in the order of their types. -/
def findSection
    (sections : List SectionDirectoryRecord)
    (sectionType : SectionType) : Option SectionDirectoryRecord :=
  sections.find? fun record => record.sectionType = sectionType.toU16

/-- The section of a type that has to be there. -/
def requiredSection
    (sections : List SectionDirectoryRecord)
    (sectionType : SectionType) : Result SectionDirectoryRecord :=
  okOr (findSection sections sectionType)
    (.missingSection (sectionName sectionType))

/-- Add one directory record to the section map. -/
def insertSection
    (_position : Nat)
    (chunk : List UInt8)
    (sections : List SectionDirectoryRecord) :
    Result (List SectionDirectoryRecord) := do
  ensure ((SectionDirectoryRecord.decode chunk).sectionVersion = 1 ∧
    (SectionDirectoryRecord.decode chunk).flags = 0 ∧
    (SectionDirectoryRecord.decode chunk).reserved = 0)
    (.invalidMetadata "section flags/version")
  let sectionType ← okOr
    (SectionType.fromU16 (SectionDirectoryRecord.decode chunk).sectionType)
    .unsupportedContainerVersion
  ensure (sectionType ∈ rawSectionTypes ∨ sectionType = .codecRegistry)
    .unsupportedContainerVersion
  ensure (findSection sections sectionType = none) .duplicateSection
  .ok (sections.orderedInsert
    (fun left right => left.sectionType ≤ right.sectionType)
    (SectionDirectoryRecord.decode chunk))

/-- The range of one section, which has to lie between the directory and the
footer. -/
def sectionRange
    (directoryEnd footerOffset : UInt64)
    (_position : Nat)
    (record : SectionDirectoryRecord)
    (ranges : List (Nat × Nat)) : Result (List (Nat × Nat)) := do
  let finish ← okOr (checkedAdd record.offset record.length) .integerOverflow
  ensure (directoryEnd ≤ record.offset ∧ finish ≤ footerOffset) .invalidRange
  .ok (ranges ++ [(record.offset.toNat, finish.toNat)])

/-- The order of ranges: by start, then by end. -/
def rangeBefore (left right : Nat × Nat) : Prop :=
  left.1 < right.1 ∨ left.1 = right.1 ∧ left.2 ≤ right.2

instance (left right : Nat × Nat) : Decidable (rangeBefore left right) :=
  inferInstanceAs (Decidable (_ ∨ _))

/-- Sections stay inside their area and do not overlap.  The ranges are sorted
and each is compared with the next. -/
def validateSectionRanges
    (records : List SectionDirectoryRecord)
    (directoryEnd footerOffset : UInt64) : Result Unit := do
  let ranges ← forEnum (sectionRange directoryEnd footerOffset) 0 records []
  ensure ((ranges.insertionSort rangeBefore).IsChain
    fun left right => left.2 ≤ right.1) .overlappingSections

/-- Header, footer and section directory of an archive. -/
structure Container where
  header : GlobalHeader
  footer : Footer
  directoryLength : UInt64
  directoryEnd : UInt64
  sections : List SectionDirectoryRecord

/-- Read the fixed records and the section directory. -/
def readContainer
    (digests : Digests)
    (file : List UInt8)
    (limits : DecodeLimits) : Result Container := do
  ensure (headerLen + footerLen ≤ file.length) .invalidRange
  let headerBytes ← readExact file 0 headerLen
  let header ← GlobalHeader.decode digests headerBytes
  validateHeaderLimits header file.length limits
  let footerBytes ← readExact file header.footerOffset.toNat footerLen
  let footer ← Footer.decode digests footerBytes
  ensure (footer.archiveLength.toNat = file.length ∧ footer.version = 1 ∧
    header.footerOffset.toNat + footerLen = file.length)
    (.invalidMetadata "footer")
  let directoryLength ← okOr
    (checkedMul header.sectionCount.toUInt64 (UInt64.ofNat sectionEntryLen))
    .integerOverflow
  let directoryEnd ← okOr
    (checkedAdd header.sectionDirectoryOffset directoryLength) .integerOverflow
  ensure (header.sectionDirectoryOffset.toNat = headerLen ∧
    directoryEnd ≤ header.footerOffset) .invalidRange
  let directoryBytes ← readExactVec file header.sectionDirectoryOffset
    directoryLength limits.maxMetadataBytes
  ensure (digests.crc32c directoryBytes = footer.directoryCrc32c)
    .checksumMismatch
  let sections ← forEnum insertSection 0
    (Bytes.chunksExact sectionEntryLen directoryBytes) []
  let _ ← forEnum (fun _ sectionType (_ : Unit) => do
    let _ ← requiredSection sections sectionType
    .ok ()) 0 rawSectionTypes ()
  validateSectionRanges sections directoryEnd header.footerOffset
  .ok {
    header := header
    footer := footer
    directoryLength := directoryLength
    directoryEnd := directoryEnd
    sections := sections }

/-! ## The tables -/

/-- The tables of an archive with its payload section. -/
structure Tables where
  entries : List EntryRecord
  groups : List GroupTableRecord
  restoreMap : List RestoreMapRecord
  centralIndex : List CentralIndexRecord
  integrity : List IntegrityRecord
  codecRegistry : Option CodecRegistry
  payloadSection : SectionDirectoryRecord

/-- The bytes of a section, checked against its checksum. -/
def readCheckedSection
    (digests : Digests)
    (file : List UInt8)
    (record : SectionDirectoryRecord)
    (limits : DecodeLimits) : Result (List UInt8) := do
  let bytes ← readExactVec file record.offset record.length
    limits.maxMetadataBytes
  ensure (digests.crc32c bytes = record.crc32c) .checksumMismatch
  .ok bytes

/-- The value stored in a JSON section. -/
def readJsonSection
    {Value : Type}
    (codec : JsonCodec Value)
    (digests : Digests)
    (file : List UInt8)
    (record : SectionDirectoryRecord)
    (limits : DecodeLimits) : Result Value := do
  let bytes ← readCheckedSection digests file record limits
  okOr (codec.fromSlice bytes) (.invalidMetadata "JSON section")

/-- Add the length of a section to the metadata total. -/
def addSectionLength
    (_position : Nat)
    (record : SectionDirectoryRecord)
    (total : UInt64) : Result UInt64 :=
  okOr (checkedAdd total record.length) .integerOverflow

/-- Read the codec registry, when there is one. -/
def readCodecRegistry
    (digests : Digests)
    (file : List UInt8)
    (limits : DecodeLimits) :
    Option SectionDirectoryRecord → Result (Option CodecRegistry)
  | none => .ok none
  | some record => do
      let bytes ← readCheckedSection digests file record limits
      let registry ← CodecRegistry.decode bytes 32
      .ok (some registry)

/-- Read all tables. -/
def readTables
    (backends : Backends)
    (file : List UInt8)
    (limits : DecodeLimits)
    (container : Container) : Result Tables := do
  let entrySection ← requiredSection container.sections .entryTable
  let groupSection ← requiredSection container.sections .groupTable
  let restoreSection ← requiredSection container.sections .restoreMap
  let indexSection ← requiredSection container.sections .centralIndex
  let integritySection ← requiredSection container.sections .integrityTree
  let payloadSection ← requiredSection container.sections .payloadArea
  ensure (¬(container.header.sectionCount = requiredRawSections ∧
      (findSection container.sections .codecRegistry).isSome ∨
    container.header.sectionCount = requiredCompressedSections ∧
      (findSection container.sections .codecRegistry).isNone))
    (.invalidMetadata "codec registry section count")
  let aggregateMetadata ← forEnum addSectionLength 0
    ([entrySection, groupSection, restoreSection, indexSection,
      integritySection] ++
      (findSection container.sections .codecRegistry).toList)
    container.directoryLength
  ensure (aggregateMetadata ≤ limits.maxMetadataBytes)
    (.resourceLimit "aggregate metadata")
  let entries ← readJsonSection backends.json.entries backends.digests file
    entrySection limits
  let groups ← readJsonSection backends.json.groups backends.digests file
    groupSection limits
  let restoreMap ← readJsonSection backends.json.restoreMap backends.digests
    file restoreSection limits
  let centralIndex ← readJsonSection backends.json.centralIndex
    backends.digests file indexSection limits
  let integrity ← readJsonSection backends.json.integrity backends.digests
    file integritySection limits
  let codecRegistry ← readCodecRegistry backends.digests file limits
    (findSection container.sections .codecRegistry)
  .ok {
    entries := entries
    groups := groups
    restoreMap := restoreMap
    centralIndex := centralIndex
    integrity := integrity
    codecRegistry := codecRegistry
    payloadSection := payloadSection }

/-! ## Cross-checks -/

/-- Limits on one path, which also has to have a host path. -/
def validateArchivePath (path : ArchivePath) (limits : DecodeLimits) :
    Result Unit := do
  ensure (path.components.length ≤ limits.maxPathComponents.toNat ∧
    path.encodedLen ≤ limits.maxPathBytes.toNat) (.resourceLimit "path")
  let _ ← path.toPathBuf
  .ok ()

/-- Add a size to the running total of original bytes. -/
def checkedTotal (current value : UInt64) (limits : DecodeLimits) :
    Result UInt64 := do
  let total ← okOr (checkedAdd current value) .integerOverflow
  ensure (total ≤ limits.maxOriginalBytes) (.resourceLimit "original bytes")
  .ok total

/-- What the loop over the entries accumulates. -/
structure EntryScan where
  pathKeys : List (List UInt8)
  originalSize : UInt64
  fileCount : Nat
  directoryCount : Nat
  hardlinkCount : Nat
  symlinkCount : Nat

/-- The scan before the first entry. -/
def EntryScan.start : EntryScan where
  pathKeys := []
  originalSize := 0
  fileCount := 0
  directoryCount := 0
  hardlinkCount := 0
  symlinkCount := 0

/-- The checks that depend on what an entry is. -/
def checkKind
    (limits : DecodeLimits)
    (entries : List EntryRecord)
    (groups : List GroupTableRecord)
    (entry : EntryRecord)
    (scan : EntryScan) : Result EntryScan :=
  match entry.kind with
  | .file groupId => do
      let originalSize ← checkedTotal scan.originalSize entry.size limits
      let record ← okOr groups[groupId.toNat]? (.invalidMetadata "entry group")
      ensure (record.group.groupId = groupId)
        (.invalidMetadata "entry group ID")
      .ok { scan with
        originalSize := originalSize
        fileCount := scan.fileCount + 1 }
  | .directory => do
      ensure (entry.size = 0) (.invalidMetadata "directory size")
      .ok { scan with directoryCount := scan.directoryCount + 1 }
  | .hardlink targetEntryId => do
      let originalSize ← checkedTotal scan.originalSize entry.size limits
      ensure (targetEntryId < entry.entryId)
        (.invalidMetadata "hardlink ordering")
      let target ← okOr entries[targetEntryId.toNat]?
        (.invalidMetadata "hardlink target")
      ensure (target.kind.groupId?.isSome ∧ target.size = entry.size ∧
        target.blake3 = entry.blake3) (.invalidMetadata "hardlink target")
      .ok { scan with
        originalSize := originalSize
        hardlinkCount := scan.hardlinkCount + 1 }
  | .symlink target _ => do
      ensure (target.resolvesWithin entry.path) .unsafeSymlink
      let _ ← target.toPathBuf
      .ok { scan with symlinkCount := scan.symlinkCount + 1 }

/-- The checks on one entry. -/
def checkEntry
    (limits : DecodeLimits)
    (tables : Tables)
    (position : Nat)
    (entry : EntryRecord)
    (scan : EntryScan) : Result EntryScan := do
  ensure (entry.entryId.toNat = position) (.invalidMetadata "entry id")
  validateArchivePath entry.path limits
  ensure (entry.path.sortKey ∉ scan.pathKeys) (.invalidMetadata "duplicate path")
  let next ← checkKind limits tables.entries tables.groups entry scan
  ensure (tables.centralIndex[position]? = some entry.indexRow ∧
    tables.integrity[position]? = some entry.integrityRow)
    (.invalidMetadata "index/integrity")
  .ok { next with pathKeys := entry.path.sortKey :: scan.pathKeys }

/-- The checks on one restore record.  The accumulator has the entries that
already have one. -/
def checkRestore
    (entries : List EntryRecord)
    (_position : Nat)
    (restore : RestoreMapRecord)
    (restored : List UInt64) : Result (List UInt64) := do
  let entry ← okOr entries[restore.entryId.toNat]?
    (.invalidMetadata "restore entry")
  let groupId ← okOr entry.kind.groupId?
    (.invalidMetadata "restore entry kind")
  ensure (restore.entryId = entry.entryId ∧ restore.originalOffset = 0 ∧
    restore.length = entry.size ∧ restore.groupId = groupId ∧
    restore.entryId ∉ restored) (.invalidMetadata "restore map entry")
  .ok (restore.entryId :: restored)

/-- Limits on the declared sizes of a group. -/
def checkGroupSize (limits : DecodeLimits) (group : GroupRecord) :
    Result Unit := do
  ensure (group.uncompressedLen ≤ limits.maxGroupOutput)
    (.resourceLimit "group output")
  let maximumCompressed ← okOr
    (checkedAdd limits.maxGroupOutput (1024 * 1024)) .integerOverflow
  ensure (group.compressedLen ≤ maximumCompressed)
    (.resourceLimit "group output")
  ensure (group.compressedLen = 0 ∨
    ∀ maximum ∈ checkedMul group.compressedLen limits.maxExpansionRatio,
      group.uncompressedLen ≤ maximum)
    (.resourceLimit "group expansion ratio")

/-- The codec of a group has to be known and able to decode it. -/
def checkGroupCodec (registry : Option CodecRegistry) (group : GroupRecord) :
    Result Unit :=
  match registry with
  | none => do
      ensure (group.codecChainId = 0) .unsupportedCodec
      ensure (group.chunkCount = 1 ∧
        group.uncompressedLen = group.compressedLen)
        (.invalidMetadata "RAW group")
  | some registry => do
      ensure (group.codecChainId ≠ 0) .unsupportedCodec
      let record ← okOr (registry.chain group.codecChainId) .unsupportedCodec
      let codecId ← okOr (CodecId.fromU16 record.codecId) .unsupportedCodec
      let _ ← codecId.memoryBound group.uncompressedLen record.level
      .ok ()

/-- The next record of a group has to start where the previous one ended. -/
def checkMapping
    (_position : Nat)
    (restore : RestoreMapRecord)
    (expectedOffset : UInt64) : Result UInt64 := do
  ensure (restore.groupOffset = expectedOffset)
    (.invalidMetadata "restore group order")
  okOr (checkedAdd expectedOffset restore.length) .integerOverflow

/-- The restore records of a group, in table order. -/
def mappings (restoreMap : List RestoreMapRecord) (groupId : UInt64) :
    List RestoreMapRecord :=
  restoreMap.filter fun restore => restore.groupId = groupId

/-- The restore records of a group fill it. -/
def checkMappings (restoreMap : List RestoreMapRecord) (group : GroupRecord) :
    Result Unit := do
  ensure ((mappings restoreMap group.groupId).length =
      group.chunkCount.toNat ∧ mappings restoreMap group.groupId ≠ [])
    (.invalidMetadata "group chunk count")
  let expectedOffset ← forEnum checkMapping 0
    (mappings restoreMap group.groupId) 0
  ensure (expectedOffset = group.uncompressedLen)
    (.invalidMetadata "restore group length")

/-- The checks on one group.  The accumulator is the end of the previous
group. -/
def checkGroup
    (limits : DecodeLimits)
    (tables : Tables)
    (payloadEnd : UInt64)
    (position : Nat)
    (record : GroupTableRecord)
    (previousGroupEnd : UInt64) : Result UInt64 := do
  ensure (record.group.groupId.toNat = position ∧ record.group.version = 1 ∧
    record.group.flags = 0 ∧ record.group.descriptorLen = 0)
    (.invalidMetadata "group header")
  checkGroupSize limits record.group
  checkGroupCodec tables.codecRegistry record.group
  let groupEnd ← okOr
    (checkedAdd record.payloadOffset record.group.compressedLen)
    .integerOverflow
  ensure (tables.payloadSection.offset ≤ record.payloadOffset ∧
    record.payloadOffset = previousGroupEnd ∧ groupEnd ≤ payloadEnd)
    .invalidRange
  checkMappings tables.restoreMap record.group
  .ok groupEnd

/-- What a verification found. -/
structure VerificationReport where
  archiveBytes : UInt64
  originalBytes : UInt64
  entryCount : Nat
  fileCount : Nat
  directoryCount : Nat
  hardlinkCount : Nat
  symlinkCount : Nat
  groupCount : Nat
  blake3Root : Digest

/-- An archive whose metadata was checked. -/
structure ParsedArchive where
  entries : List EntryRecord
  groups : List GroupTableRecord
  restoreMap : List RestoreMapRecord
  codecRegistry : Option CodecRegistry
  report : VerificationReport
  payloadSection : SectionDirectoryRecord
  footerOffset : UInt64
  expectedRoot : Digest

/-- The table checks, and what the loop over the entries found. -/
def checkTables
    (limits : DecodeLimits)
    (header : GlobalHeader)
    (tables : Tables) : Result EntryScan := do
  ensure (tables.entries.length = header.entryCount.toNat ∧
    tables.groups.length = header.groupCount.toNat ∧
    tables.restoreMap.length = header.logicalChunkCount.toNat ∧
    tables.centralIndex.length = tables.entries.length ∧
    tables.integrity.length = tables.entries.length)
    (.invalidMetadata "table counts")
  let scan ← forEnum (checkEntry limits tables) 0 tables.entries
    EntryScan.start
  ensure (scan.originalSize = header.originalTotalSize)
    (.invalidMetadata "original size")
  let restored ← forEnum (checkRestore tables.entries) 0 tables.restoreMap []
  ensure (restored.length = scan.fileCount)
    (.invalidMetadata "restore map file count")
  let payloadEnd ← okOr
    (checkedAdd tables.payloadSection.offset tables.payloadSection.length)
    .integerOverflow
  let previousGroupEnd ← forEnum (checkGroup limits tables payloadEnd) 0
    tables.groups tables.payloadSection.offset
  ensure (previousGroupEnd = payloadEnd)
    (.invalidMetadata "unreferenced payload bytes")
  .ok scan

/-- Read and check all metadata of an archive. -/
def readCatalog
    (backends : Backends)
    (file : List UInt8)
    (limits : DecodeLimits) : Result ParsedArchive := do
  let container ← readContainer backends.digests file limits
  let tables ← readTables backends file limits container
  let scan ← checkTables limits container.header tables
  .ok {
    entries := tables.entries
    groups := tables.groups
    restoreMap := tables.restoreMap
    codecRegistry := tables.codecRegistry
    report := {
      archiveBytes := UInt64.ofNat file.length
      originalBytes := scan.originalSize
      entryCount := tables.entries.length
      fileCount := scan.fileCount
      directoryCount := scan.directoryCount
      hardlinkCount := scan.hardlinkCount
      symlinkCount := scan.symlinkCount
      groupCount := tables.groups.length
      blake3Root := Bytes.zeros 32 }
    payloadSection := tables.payloadSection
    footerOffset := container.header.footerOffset
    expectedRoot := container.footer.blake3Root }

end Pithos
