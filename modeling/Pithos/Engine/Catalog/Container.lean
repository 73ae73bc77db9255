import Pithos.Engine.Catalog.Spec

/-!
# What the container checks demand

The section directory, the section ranges and the fixed records.  A directory
that is read gives each section type at most once, in the order of the types,
and the sections lie apart between the directory and the footer.
-/

namespace Pithos

open Fallible
open Machine
open Intervals

/-! ## Section directory -/

/-- The demands on one directory record. -/
structure SectionOk (record : SectionDirectoryRecord) : Prop where
  sectionVersion : record.sectionVersion = 1
  flags : record.flags = 0
  reserved : record.reserved = 0
  sectionType : ∃ sectionType,
    SectionType.fromU16 record.sectionType = some sectionType ∧
      (sectionType ∈ rawSectionTypes ∨ sectionType = .codecRegistry)

/-- The types of the sections. -/
def sectionTypes (sections : List SectionDirectoryRecord) : List UInt16 :=
  sections.map (·.sectionType)

theorem findSection_eq_none
    {sections : List SectionDirectoryRecord}
    {sectionType : SectionType} :
    findSection sections sectionType = none ↔
      sectionType.toU16 ∉ sectionTypes sections := by
  simp [findSection, sectionTypes, List.find?_eq_none]

theorem insertSection_eq_ok
    {position : Nat}
    {chunk : List UInt8}
    {sections next : List SectionDirectoryRecord} :
    insertSection position chunk sections = .ok next ↔
      (SectionOk (SectionDirectoryRecord.decode chunk) ∧
        (SectionDirectoryRecord.decode chunk).sectionType ∉
          sectionTypes sections) ∧
      next = sections.orderedInsert
        (fun left right => left.sectionType ≤ right.sectionType)
        (SectionDirectoryRecord.decode chunk) := by
  simp only [insertSection, bind_eq_ok, ensure_eq_ok, okOr_eq_ok,
    exists_const, Except.ok.injEq, findSection_eq_none]
  constructor
  · rintro ⟨⟨sectionVersion, flags, reserved⟩, sectionType, known, supported,
      fresh, rfl⟩
    rw [SectionType.toU16_of_fromU16 known] at fresh
    exact ⟨⟨⟨sectionVersion, flags, reserved, sectionType, known, supported⟩,
      fresh⟩, rfl⟩
  · rintro ⟨⟨⟨sectionVersion, flags, reserved, sectionType, known, supported⟩,
      fresh⟩, rfl⟩
    rw [← SectionType.toU16_of_fromU16 known] at fresh
    exact ⟨⟨sectionVersion, flags, reserved⟩, sectionType, known, supported,
      fresh, rfl⟩

/-- The section map after some directory records. -/
def collectSections (records : List SectionDirectoryRecord) :
    List SectionDirectoryRecord :=
  records.foldl (fun sections record => sections.orderedInsert
    (fun left right => left.sectionType ≤ right.sectionType) record) []

theorem collectSections_perm (records : List SectionDirectoryRecord) :
    (collectSections records).Perm records := by
  induction records using List.reverseRecOn with
  | nil => exact List.Perm.refl _
  | append_singleton front last inductionHypothesis =>
      rw [collectSections, List.foldl_append]
      refine (List.perm_orderedInsert _ _ _).trans ?_
      exact (inductionHypothesis.cons last).trans
        (List.perm_append_singleton last front).symm

/-- Reading the directory succeeds exactly when every record is in order and no
type repeats. -/
theorem insertSections_eq_ok
    {chunks : List (List UInt8)}
    {sections : List SectionDirectoryRecord} :
    forEnum insertSection 0 chunks [] = .ok sections ↔
      ((∀ record ∈ chunks.map SectionDirectoryRecord.decode,
          SectionOk record) ∧
        (sectionTypes (chunks.map SectionDirectoryRecord.decode)).Nodup) ∧
      sections = collectSections (chunks.map SectionDirectoryRecord.decode) := by
  rw [forEnum_eq_ok @insertSection_eq_ok, sectionTypes, List.map_map,
    nodup_map_iff_split, collectSections, List.foldl_map]
  refine and_congr_left fun _ => ?_
  have types (before : List (List UInt8)) :
      (sectionTypes (before.foldl (fun sections chunk =>
        sections.orderedInsert
          (fun left right => left.sectionType ≤ right.sectionType)
          (SectionDirectoryRecord.decode chunk)) [])).Perm
        (before.map ((·.sectionType) ∘ SectionDirectoryRecord.decode)) := by
    have perm := (collectSections_perm
      (before.map SectionDirectoryRecord.decode)).map (·.sectionType)
    rwa [collectSections, List.foldl_map, List.map_map] at perm
  simp only [(types _).mem_iff, List.forall_mem_map]
  constructor
  · intro allGood
    refine ⟨?_, fun before chunk after split =>
      (allGood before chunk after split).2⟩
    intro chunk member
    obtain ⟨before, after, split⟩ := List.append_of_mem member
    exact (allGood before chunk after split).1
  · rintro ⟨allOk, fresh⟩ before chunk after split
    exact ⟨allOk chunk (by simp [split]), fresh before chunk after split⟩

/-- The section of a type is the one record of that type. -/
theorem findSection_of_mem
    {sections : List SectionDirectoryRecord}
    {record : SectionDirectoryRecord}
    {sectionType : SectionType}
    (distinct : (sectionTypes sections).Nodup)
    (member : record ∈ sections)
    (isType : record.sectionType = sectionType.toU16) :
    findSection sections sectionType = some record := by
  induction sections with
  | nil => simp at member
  | cons first rest inductionHypothesis =>
      have restDistinct := (List.nodup_cons.mp distinct)
      rcases List.mem_cons.mp member with rfl | inRest
      · simp [findSection, isType]
      · have different : first.sectionType ≠ sectionType.toU16 := by
          intro same
          apply restDistinct.1
          refine List.mem_map.mpr ⟨record, inRest, ?_⟩
          exact isType.trans same.symm
        have found := inductionHypothesis restDistinct.2 inRest
        simpa [findSection, different] using found

theorem mem_of_findSection
    {sections : List SectionDirectoryRecord}
    {record : SectionDirectoryRecord}
    {sectionType : SectionType}
    (found : findSection sections sectionType = some record) :
    record ∈ sections ∧ record.sectionType = sectionType.toU16 := by
  refine ⟨List.mem_of_find?_eq_some found, ?_⟩
  simpa using List.find?_some found

/-! ## Section ranges -/

/-- The positions of a section. -/
def SectionDirectoryRecord.range (record : SectionDirectoryRecord) :
    Nat × Nat :=
  (record.offset.toNat, record.offset.toNat + record.length.toNat)

/-- A section lies in the area between the directory and the footer. -/
structure InArea
    (directoryEnd footerOffset : UInt64)
    (record : SectionDirectoryRecord) : Prop where
  afterDirectory : directoryEnd.toNat ≤ record.range.1
  beforeFooter : record.range.2 ≤ footerOffset.toNat

theorem sectionRange_eq_ok
    {directoryEnd footerOffset : UInt64}
    {position : Nat}
    {record : SectionDirectoryRecord}
    {ranges next : List (Nat × Nat)} :
    sectionRange directoryEnd footerOffset position record ranges = .ok next ↔
      InArea directoryEnd footerOffset record ∧
        next = ranges ++ [record.range] := by
  simp only [sectionRange, bind_eq_ok, okOr_eq_ok, checkedAdd_eq_some,
    ensure_eq_ok, exists_const, Except.ok.injEq, UInt64.le_iff_toNat_le,
    SectionDirectoryRecord.range]
  constructor
  · rintro ⟨finish, sum, ⟨after, before⟩, rfl⟩
    rw [← sum] at before ⊢
    exact ⟨⟨after, before⟩, rfl⟩
  · rintro ⟨⟨after, before⟩, rfl⟩
    have maximum := footerOffset.toNat_lt
    simp only [SectionDirectoryRecord.range] at after before
    have value := @toNat_ofNat_of_lt
      (record.offset.toNat + record.length.toNat) (by omega)
    refine ⟨UInt64.ofNat (record.offset.toNat + record.length.toNat),
      value.symm, ⟨after, ?_⟩, ?_⟩
    · rwa [value]
    · rw [value]

/-- The range check succeeds exactly when every section lies in the area and
each, in sorted order, ends before the next. -/
theorem validateSectionRanges_eq_ok
    {records : List SectionDirectoryRecord}
    {directoryEnd footerOffset : UInt64}
    {result : Unit} :
    validateSectionRanges records directoryEnd footerOffset = .ok result ↔
      (∀ record ∈ records, InArea directoryEnd footerOffset record) ∧
        ((records.map SectionDirectoryRecord.range).insertionSort
          rangeBefore).IsChain fun left right => left.2 ≤ right.1 := by
  have collected (records : List SectionDirectoryRecord)
      (start : List (Nat × Nat)) :
      records.foldl (fun ranges record => ranges ++ [record.range]) start =
        start ++ records.map SectionDirectoryRecord.range := by
    induction records generalizing start with
    | nil => simp
    | cons first rest inductionHypothesis => simp [inductionHypothesis]
  simp only [validateSectionRanges, bind_eq_ok, ensure_eq_ok,
    forEnum_eq_ok (@sectionRange_eq_ok directoryEnd footerOffset), collected,
    List.nil_append]
  constructor
  · rintro ⟨_, ⟨inArea, rfl⟩, chain⟩
    refine ⟨?_, chain⟩
    intro record member
    obtain ⟨before, after, split⟩ := List.append_of_mem member
    exact inArea before record after split
  · rintro ⟨inArea, chain⟩
    refine ⟨_, ⟨?_, rfl⟩, chain⟩
    intro before record after split
    exact inArea record (by simp [split])

/-- Sections that pass the range check are pairwise apart. -/
theorem pairwise_apart_of_validateSectionRanges
    {records : List SectionDirectoryRecord}
    {directoryEnd footerOffset : UInt64}
    (checked : validateSectionRanges records directoryEnd footerOffset =
      .ok ()) :
    (records.map SectionDirectoryRecord.range).Pairwise Apart := by
  obtain ⟨_, chain⟩ := validateSectionRanges_eq_ok.mp checked
  refine pairwise_apart_of_sorted (List.perm_insertionSort rangeBefore _) ?_
    chain
  intro interval member
  obtain ⟨record, _, rfl⟩ := List.mem_map.mp member
  exact Nat.le_add_right _ _

/-! ## Fixed records -/

/-- Limits on what the header declares. -/
structure HeaderOk
    (header : GlobalHeader)
    (fileLength : Nat)
    (limits : DecodeLimits) : Prop where
  flags : header.flags = 0
  sectionKind : header.sectionCount = requiredRawSections ∨
    header.sectionCount = requiredCompressedSections
  sectionCount : header.sectionCount ≤ limits.maxSections
  entryCount : header.entryCount ≤ limits.maxEntries
  groupCount : header.groupCount ≤ limits.maxGroups
  chunkCount : header.logicalChunkCount ≤ limits.maxChunks
  originalSize : header.originalTotalSize ≤ limits.maxOriginalBytes
  footerOffset : header.footerOffset.toNat < fileLength

theorem validateHeaderLimits_eq_ok
    {header : GlobalHeader}
    {fileLength : Nat}
    {limits : DecodeLimits}
    {result : Unit} :
    validateHeaderLimits header fileLength limits = .ok result ↔
      HeaderOk header fileLength limits := by
  simp only [validateHeaderLimits, bind_eq_ok, ensure_eq_ok, exists_const]
  constructor
  · rintro ⟨flags, ⟨sectionKind, sectionCount⟩, entryCount, groupCount,
      chunkCount, originalSize, footerOffset⟩
    exact ⟨flags, sectionKind, sectionCount, entryCount, groupCount,
      chunkCount, originalSize, footerOffset⟩
  · intro ok
    exact ⟨ok.flags, ⟨ok.sectionKind, ok.sectionCount⟩, ok.entryCount,
      ok.groupCount, ok.chunkCount, ok.originalSize, ok.footerOffset⟩

/-- The bytes of the section directory. -/
def directoryBytes (file : List UInt8) (container : Container) : List UInt8 :=
  Bytes.slice file headerLen container.directoryLength.toNat

/-- The records of the section directory, in the order of the file. -/
def directoryRecords (file : List UInt8) (container : Container) :
    List SectionDirectoryRecord :=
  (Bytes.chunksExact sectionEntryLen (directoryBytes file container)).map
    SectionDirectoryRecord.decode

/-- Everything that reading the container demands. -/
structure ContainerOk
    (digests : Digests)
    (file : List UInt8)
    (limits : DecodeLimits)
    (container : Container) : Prop where
  header : GlobalHeader.decode digests (Bytes.slice file 0 headerLen) =
    .ok container.header
  headerLimits : HeaderOk container.header file.length limits
  footer : Footer.decode digests (Bytes.slice file
    container.header.footerOffset.toNat footerLen) = .ok container.footer
  archiveLength : container.footer.archiveLength.toNat = file.length
  version : container.footer.version = 1
  footerAtEnd : container.header.footerOffset.toNat + footerLen = file.length
  directoryOffset : container.header.sectionDirectoryOffset.toNat = headerLen
  directoryLength : container.directoryLength.toNat =
    container.header.sectionCount.toNat * sectionEntryLen
  directoryEnd : container.directoryEnd.toNat =
    headerLen + container.directoryLength.toNat
  directoryInside : container.directoryEnd ≤ container.header.footerOffset
  directoryLimit : container.directoryLength ≤ limits.maxMetadataBytes
  directoryCrc : digests.crc32c (directoryBytes file container) =
    container.footer.directoryCrc32c
  records : ∀ record ∈ directoryRecords file container, SectionOk record
  distinct : (sectionTypes (directoryRecords file container)).Nodup
  sections : container.sections =
    collectSections (directoryRecords file container)
  required : ∀ sectionType ∈ rawSectionTypes,
    (findSection container.sections sectionType).isSome
  ranges : validateSectionRanges container.sections container.directoryEnd
    container.header.footerOffset = .ok ()

theorem requireSections_eq_ok
    {sections : List SectionDirectoryRecord}
    {types : List SectionType}
    {result : Unit} :
    forEnum (fun _ sectionType (_ : Unit) => do
        let _ ← requiredSection sections sectionType
        .ok ()) 0 types () = .ok result ↔
      ∀ sectionType ∈ types, (findSection sections sectionType).isSome := by
  refine forEnum_unit_eq_ok fun position sectionType state next => ?_
  simp [bind_eq_ok, requiredSection, Option.isSome_iff_exists]

/-- The container is read exactly when it meets all demands. -/
theorem readContainer_eq_ok
    {digests : Digests}
    {file : List UInt8}
    {limits : DecodeLimits}
    {container : Container} :
    readContainer digests file limits = .ok container ↔
      ContainerOk digests file limits container := by
  have sizeValue : (UInt64.ofNat sectionEntryLen).toNat = sectionEntryLen := rfl
  have countValue (count : UInt32) : count.toUInt64.toNat = count.toNat := by
    simp
  simp only [readContainer, bind_eq_ok, ensure_eq_ok, readExact_eq_ok,
    readExactVec_eq_ok, okOr_eq_ok, validateHeaderLimits_eq_ok,
    checkedMul_eq_some, checkedAdd_eq_some, insertSections_eq_ok,
    requireSections_eq_ok, exists_const, Except.ok.injEq, sizeValue,
    countValue]
  constructor
  · rintro ⟨long, _, ⟨_, rfl⟩, header, headerDecoded, headerLimits, _,
      ⟨_, rfl⟩, footer, footerDecoded,
      ⟨archiveLength, version, footerAtEnd⟩, directoryLength, length,
      directoryEnd, finish, ⟨directoryOffset, directoryInside⟩, _,
      ⟨directoryLimit, _, rfl⟩, directoryCrc, _, ⟨⟨records, distinct⟩, rfl⟩,
      required, _, ranges, rfl⟩
    rw [directoryOffset] at finish directoryCrc records distinct ranges
    exact {
      header := headerDecoded
      headerLimits := headerLimits
      footer := footerDecoded
      archiveLength := archiveLength
      version := version
      footerAtEnd := footerAtEnd
      directoryOffset := directoryOffset
      directoryLength := length.symm
      directoryEnd := finish.symm
      directoryInside := directoryInside
      directoryLimit := directoryLimit
      directoryCrc := directoryCrc
      records := records
      distinct := distinct
      sections := by rw [directoryOffset]; rfl
      required := required
      ranges := by rw [directoryOffset]; exact ranges }
  · intro ok
    have atEnd := ok.footerAtEnd
    have inside := UInt64.le_iff_toNat_le.mp ok.directoryInside
    have finish := ok.directoryEnd
    have long : headerLen + footerLen ≤ file.length := by omega
    have directoryLength : (Bytes.slice file headerLen
        container.directoryLength.toNat).length =
          container.directoryLength.toNat := Bytes.length_slice (by omega)
    refine ⟨long, _, ⟨Bytes.length_slice (by omega), rfl⟩, _, ok.header,
      ok.headerLimits, _, ⟨Bytes.length_slice (by omega), rfl⟩, _, ok.footer,
      ⟨ok.archiveLength, ok.version, atEnd⟩, container.directoryLength,
      ok.directoryLength.symm, container.directoryEnd, ?_,
      ⟨ok.directoryOffset, ok.directoryInside⟩, _,
      ⟨ok.directoryLimit, ?_, rfl⟩, ?_, container.sections, ⟨⟨?_, ?_⟩, ?_⟩,
      ok.required, (), ok.ranges, rfl⟩
    · rw [ok.directoryOffset, finish]
    all_goals rw [ok.directoryOffset]
    · exact directoryLength
    · exact ok.directoryCrc
    · exact ok.records
    · exact ok.distinct
    · exact ok.sections

/-! ## Metadata sections -/

/-- A section whose bytes are checked. -/
structure SectionRead
    (digests : Digests)
    (file : List UInt8)
    (limits : DecodeLimits)
    (record : SectionDirectoryRecord)
    (bytes : List UInt8) : Prop where
  limit : record.length ≤ limits.maxMetadataBytes
  content : bytes =
    Bytes.slice file record.offset.toNat record.length.toNat
  complete : bytes.length = record.length.toNat
  checksum : digests.crc32c bytes = record.crc32c

theorem readCheckedSection_eq_ok
    {digests : Digests}
    {file bytes : List UInt8}
    {record : SectionDirectoryRecord}
    {limits : DecodeLimits} :
    readCheckedSection digests file record limits = .ok bytes ↔
      SectionRead digests file limits record bytes := by
  simp only [readCheckedSection, bind_eq_ok, readExactVec_eq_ok, ensure_eq_ok,
    exists_const, Except.ok.injEq]
  constructor
  · rintro ⟨_, ⟨limit, complete, rfl⟩, checksum, rfl⟩
    exact ⟨limit, rfl, complete, checksum⟩
  · rintro ⟨limit, rfl, complete, checksum⟩
    exact ⟨_, ⟨limit, complete, rfl⟩, checksum, rfl⟩

theorem readJsonSection_eq_ok
    {Value : Type}
    {codec : JsonCodec Value}
    {digests : Digests}
    {file : List UInt8}
    {record : SectionDirectoryRecord}
    {limits : DecodeLimits}
    {value : Value} :
    readJsonSection codec digests file record limits = .ok value ↔
      ∃ bytes, SectionRead digests file limits record bytes ∧
        codec.fromSlice bytes = some value := by
  simp only [readJsonSection, bind_eq_ok, readCheckedSection_eq_ok, okOr_eq_ok]

/-- The sections that hold the tables. -/
structure MetadataSections where
  entries : SectionDirectoryRecord
  groups : SectionDirectoryRecord
  restoreMap : SectionDirectoryRecord
  centralIndex : SectionDirectoryRecord
  integrity : SectionDirectoryRecord
  codecRegistry : Option SectionDirectoryRecord

/-- The records of the metadata sections. -/
def MetadataSections.records (located : MetadataSections) :
    List SectionDirectoryRecord :=
  [located.entries, located.groups, located.restoreMap, located.centralIndex,
    located.integrity] ++ located.codecRegistry.toList

/-- The length of some sections together. -/
def totalLength (records : List SectionDirectoryRecord) : Nat :=
  (records.map fun record => record.length.toNat).sum

theorem addSectionLengths_eq_ok
    {records : List SectionDirectoryRecord}
    {position : Nat}
    {start total : UInt64} :
    forEnum addSectionLength position records start = .ok total ↔
      start.toNat + totalLength records = total.toNat := by
  induction records generalizing position start with
  | nil => simp [totalLength, UInt64.toNat_inj]
  | cons first rest inductionHypothesis =>
      have sum : totalLength (first :: rest) =
          first.length.toNat + totalLength rest := by simp [totalLength]
      simp only [forEnum_cons, bind_eq_ok, addSectionLength, okOr_eq_ok,
        checkedAdd_eq_some, inductionHypothesis, sum]
      constructor
      · rintro ⟨next, added, rest⟩
        omega
      · intro whole
        have maximum := total.toNat_lt
        have value := @toNat_ofNat_of_lt
          (start.toNat + first.length.toNat) (by omega)
        exact ⟨UInt64.ofNat (start.toNat + first.length.toNat), value.symm,
          by omega⟩

/-- Everything that reading the tables demands. -/
structure TablesRead
    (backends : Backends)
    (file : List UInt8)
    (limits : DecodeLimits)
    (container : Container)
    (located : MetadataSections)
    (tables : Tables) : Prop where
  entrySection : findSection container.sections .entryTable =
    some located.entries
  groupSection : findSection container.sections .groupTable =
    some located.groups
  restoreSection : findSection container.sections .restoreMap =
    some located.restoreMap
  indexSection : findSection container.sections .centralIndex =
    some located.centralIndex
  integritySection : findSection container.sections .integrityTree =
    some located.integrity
  payloadSection : findSection container.sections .payloadArea =
    some tables.payloadSection
  codecSection : findSection container.sections .codecRegistry =
    located.codecRegistry
  codecExpected : ¬(container.header.sectionCount = requiredRawSections ∧
      located.codecRegistry.isSome ∨
    container.header.sectionCount = requiredCompressedSections ∧
      located.codecRegistry.isNone)
  metadataLimit : container.directoryLength.toNat +
    totalLength located.records ≤ limits.maxMetadataBytes.toNat
  entries : readJsonSection backends.json.entries backends.digests file
    located.entries limits = .ok tables.entries
  groups : readJsonSection backends.json.groups backends.digests file
    located.groups limits = .ok tables.groups
  restoreMap : readJsonSection backends.json.restoreMap backends.digests file
    located.restoreMap limits = .ok tables.restoreMap
  centralIndex : readJsonSection backends.json.centralIndex backends.digests
    file located.centralIndex limits = .ok tables.centralIndex
  integrity : readJsonSection backends.json.integrity backends.digests file
    located.integrity limits = .ok tables.integrity
  codecRegistry : readCodecRegistry backends.digests file limits
    located.codecRegistry = .ok tables.codecRegistry

/-- The tables are read exactly when they meet all demands. -/
theorem readTables_eq_ok
    {backends : Backends}
    {file : List UInt8}
    {limits : DecodeLimits}
    {container : Container}
    {tables : Tables} :
    readTables backends file limits container = .ok tables ↔
      ∃ located,
        TablesRead backends file limits container located tables := by
  simp only [readTables, requiredSection, bind_eq_ok, okOr_eq_ok, ensure_eq_ok,
    addSectionLengths_eq_ok, exists_const, Except.ok.injEq]
  constructor
  · rintro ⟨entrySection, entryFound, groupSection, groupFound,
      restoreSection, restoreFound, indexSection, indexFound,
      integritySection, integrityFound, payloadSection, payloadFound,
      codecExpected, aggregate, sum, metadataLimit, entries, entriesRead,
      groups, groupsRead, restoreMap, restoreRead, centralIndex, indexRead,
      integrity, integrityRead, codecRegistry, registryRead, rfl⟩
    rw [UInt64.le_iff_toNat_le, ← sum] at metadataLimit
    exact ⟨⟨entrySection, groupSection, restoreSection, indexSection,
      integritySection, findSection container.sections .codecRegistry⟩,
      entryFound, groupFound, restoreFound, indexFound, integrityFound,
      payloadFound, rfl, codecExpected, metadataLimit, entriesRead, groupsRead,
      restoreRead, indexRead, integrityRead, registryRead⟩
  · rintro ⟨located, read⟩
    have maximum := limits.maxMetadataBytes.toNat_lt
    have limit := read.metadataLimit
    have value := toNat_ofNat_of_lt (Nat.lt_of_le_of_lt limit maximum)
    rw [read.codecSection]
    refine ⟨_, read.entrySection, _, read.groupSection, _, read.restoreSection,
      _, read.indexSection, _, read.integritySection, _, read.payloadSection,
      read.codecExpected, _, value.symm, ?_, _, read.entries, _, read.groups,
      _, read.restoreMap, _, read.centralIndex, _, read.integrity, _,
      read.codecRegistry, rfl⟩
    rwa [UInt64.le_iff_toNat_le, value]

/-! ## The whole catalog -/

/-- The report of the catalog checks. -/
def catalogReport (file : List UInt8) (entries : List EntryRecord)
    (groups : List GroupTableRecord) : VerificationReport where
  archiveBytes := UInt64.ofNat file.length
  originalBytes := (scanEntries entries).originalSize
  entryCount := entries.length
  fileCount := (scanEntries entries).fileCount
  directoryCount := (scanEntries entries).directoryCount
  hardlinkCount := (scanEntries entries).hardlinkCount
  symlinkCount := (scanEntries entries).symlinkCount
  groupCount := groups.length
  blake3Root := Bytes.zeros 32

/-- What an accepted catalog comes from. -/
structure CatalogRead
    (backends : Backends)
    (file : List UInt8)
    (limits : DecodeLimits)
    (parsed : ParsedArchive)
    (container : Container)
    (located : MetadataSections)
    (tables : Tables) : Prop where
  containerOk : ContainerOk backends.digests file limits container
  tablesRead : TablesRead backends file limits container located tables
  tablesOk : TablesOk limits container.header tables
  result : parsed = {
    entries := tables.entries
    groups := tables.groups
    restoreMap := tables.restoreMap
    codecRegistry := tables.codecRegistry
    report := catalogReport file tables.entries tables.groups
    payloadSection := tables.payloadSection
    footerOffset := container.header.footerOffset
    expectedRoot := container.footer.blake3Root }

/-- The catalog is accepted exactly when all stages meet their demands. -/
theorem readCatalog_eq_ok
    {backends : Backends}
    {file : List UInt8}
    {limits : DecodeLimits}
    {parsed : ParsedArchive} :
    readCatalog backends file limits = .ok parsed ↔
      ∃ container located tables,
        CatalogRead backends file limits parsed container located tables := by
  simp only [readCatalog, bind_eq_ok, readContainer_eq_ok, readTables_eq_ok,
    checkTables_eq_ok, Except.ok.injEq]
  constructor
  · rintro ⟨container, containerOk, tables, ⟨located, read⟩, _,
      ⟨checks, rfl⟩, rfl⟩
    exact ⟨container, located, tables, containerOk, read, checks, rfl⟩
  · rintro ⟨container, located, tables, containerOk, read, checks, rfl⟩
    exact ⟨container, containerOk, tables, ⟨located, read⟩, _, ⟨checks, rfl⟩,
      rfl⟩

end Pithos
