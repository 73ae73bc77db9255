import Pithos.Engine.Pack.Assemble

/-!
# Reading an assembled archive back

An assembled archive is read back to the very tables it was assembled from.
What `verifyOpenFile` still demands is what the tables have to meet on their
own: the limits, the cross-checks, and groups that decode.  No hash or checksum
has to be computed to know this.
-/

namespace Pithos

open Fallible
open Machine

/-! ## Sections in place -/

/-- A section that stands in the file as its record says. -/
structure InPlace
    (digests : Digests)
    (file : List UInt8)
    (record : SectionDirectoryRecord)
    (bytes : List UInt8) : Prop where
  length : record.length.toNat = bytes.length
  checksum : record.crc32c = digests.crc32c bytes
  content : Bytes.slice file record.offset.toNat record.length.toNat = bytes

theorem InPlace.sectionRead
    {digests : Digests}
    {file bytes : List UInt8}
    {record : SectionDirectoryRecord}
    {limits : DecodeLimits}
    (inPlace : InPlace digests file record bytes)
    (limit : bytes.length ≤ limits.maxMetadataBytes.toNat) :
    SectionRead digests file limits record bytes where
  limit := by
    rw [UInt64.le_iff_toNat_le, inPlace.length]
    exact limit
  content := inPlace.content.symm
  complete := inPlace.length.symm
  checksum := inPlace.checksum.symm

theorem InPlace.readJsonSection_eq_ok
    {Value : Type}
    {codec : JsonCodec Value}
    {digests : Digests}
    {file : List UInt8}
    {record : SectionDirectoryRecord}
    {limits : DecodeLimits}
    {written value : Value}
    (readsBack : codec.ReadsBack written)
    (inPlace : InPlace digests file record (codec.toVec written))
    (limit : (codec.toVec written).length ≤ limits.maxMetadataBytes.toNat) :
    readJsonSection codec digests file record limits = .ok value ↔
      value = written := by
  rw [Pithos.readJsonSection_eq_ok]
  constructor
  · rintro ⟨bytes, read, decoded⟩
    have same : bytes = codec.toVec written :=
      read.content.trans inPlace.content
    rw [same, readsBack] at decoded
    exact (Option.some.inj decoded).symm
  · rintro rfl
    exact ⟨_, inPlace.sectionRead limit, readsBack⟩

section Located

variable
  {digests : Digests}
  {json : Json}
  {parts : ArchiveParts}
  {footerBytes : List UInt8}

theorem sectionTypes_container_nodup :
    (sectionTypes (parts.container digests json).sections).Nodup :=
  ((collectSections_perm _).map _).nodup_iff.mpr sectionTypes_nodup

theorem findSection_container
    {record : SectionDirectoryRecord}
    {sectionType : SectionType}
    (member : record ∈ parts.collected digests json)
    (isType : record.sectionType = sectionType.toU16) :
    findSection (parts.container digests json).sections sectionType =
      some record := by
  refine findSection_of_mem sectionTypes_container_nodup ?_ isType
  change record ∈ collectSections (parts.sections digests json)
  rw [(collectSections_perm _).mem_iff, sections_eq_collected]
  exact member

/-- Every metadata section is found, and stands in the file. -/
theorem inPlace_of_mem
    (fits : parts.footerOffset json < 2 ^ 64)
    {sectionType : SectionType}
    {bytes : List UInt8}
    (member : (sectionType, bytes) ∈ parts.metadataSections json) :
    ∃ record,
      findSection (parts.container digests json).sections sectionType =
        some record ∧
      InPlace digests (parts.body digests json ++ footerBytes) record bytes := by
  have total := @length_metadata json parts
  unfold ArchiveParts.footerOffset at fits
  have front : ((parts.header digests json).encode digests ++
      (parts.directory digests json ++ parts.payloadBytes)).length =
      parts.payloadEnd := by
    simp only [List.length_append, GlobalHeader.length_encode,
      length_directory, ArchiveParts.payloadEnd, ArchiveParts.payloadStart]
    omega
  rcases List.mem_append.mp member with inFront | inBack
  · obtain ⟨record, isRecord, isType, length, checksum, content⟩ :=
      @slice_writeSections digests _ _ (by omega) _ front
        (sectionBytes (parts.backSections json) ++ footerBytes) _ _ inFront
    refine ⟨record, findSection_container
      (List.mem_append_left _ isRecord) isType, length, checksum, ?_⟩
    have layout : parts.body digests json ++ footerBytes =
        (parts.header digests json).encode digests ++
          (parts.directory digests json ++ parts.payloadBytes) ++
        (sectionBytes (parts.frontSections json) ++
          (sectionBytes (parts.backSections json) ++ footerBytes)) := by
      simp [ArchiveParts.body, ArchiveParts.metadata,
        ArchiveParts.metadataSections, sectionBytes]
    rwa [layout]
  · obtain ⟨record, isRecord, isType, length, checksum, content⟩ :=
      @slice_writeSections digests
        (parts.payloadEnd + (sectionBytes (parts.frontSections json)).length)
        _ (by omega)
        ((parts.header digests json).encode digests ++
          (parts.directory digests json ++ parts.payloadBytes) ++
          sectionBytes (parts.frontSections json))
        (by rw [List.length_append, front]) footerBytes _ _ inBack
    refine ⟨record, findSection_container (List.mem_append_right _
      (List.mem_cons_of_mem _ isRecord)) isType, length, checksum, ?_⟩
    have layout : parts.body digests json ++ footerBytes =
        (parts.header digests json).encode digests ++
          (parts.directory digests json ++ parts.payloadBytes) ++
          sectionBytes (parts.frontSections json) ++
        (sectionBytes (parts.backSections json) ++ footerBytes) := by
      simp [ArchiveParts.body, ArchiveParts.metadata,
        ArchiveParts.metadataSections, sectionBytes]
    rwa [layout]

theorem length_le_metadata
    {sectionType : SectionType}
    {bytes : List UInt8}
    (member : (sectionType, bytes) ∈ parts.metadataSections json) :
    bytes.length ≤ (parts.metadata json).length := by
  obtain ⟨before, after, split⟩ := List.append_of_mem member
  simp only [ArchiveParts.metadata, sectionBytes, split, List.flatMap_append,
    List.flatMap_cons, List.length_append]
  omega

theorem findSection_payload :
    findSection (parts.container digests json).sections .payloadArea =
      some (parts.payloadRecord digests) :=
  findSection_container
    (List.mem_append_right _ List.mem_cons_self) rfl

theorem findSection_registry_eq_none
    (isRaw : parts.registryBytes = none) :
    findSection (parts.container digests json).sections .codecRegistry =
      none := by
  have types : (sectionTypes (parts.container digests json).sections).Perm
      (sectionTypes (parts.sections digests json)) :=
    (collectSections_perm _).map _
  rw [findSection_eq_none, types.mem_iff, sections_eq_collected,
    sectionTypes_collected, isRaw]
  decide

end Located

/-! ## Tables read back -/

namespace ArchiveParts

/-- The codec registry as a reader finds it. -/
def readRegistry (parts : ArchiveParts) : Result (Option CodecRegistry) :=
  match parts.registryBytes with
  | none => .ok none
  | some bytes => do
      let registry ← CodecRegistry.decode bytes 32
      .ok (some registry)

/-- The tables as a reader finds them. -/
def tables
    (digests : Digests)
    (parts : ArchiveParts)
    (registry : Option CodecRegistry) : Tables where
  entries := parts.entries
  groups := parts.groups
  restoreMap := parts.restoreMap
  centralIndex := parts.entries.map EntryRecord.indexRow
  integrity := parts.entries.map EntryRecord.integrityRow
  codecRegistry := registry
  payloadSection := parts.payloadRecord digests

/-- Every table of the archive is read back from its own text. -/
structure ReadsBack (json : Json) (parts : ArchiveParts) : Prop where
  entries : json.entries.ReadsBack parts.entries
  groups : json.groups.ReadsBack parts.groups
  restoreMap : json.restoreMap.ReadsBack parts.restoreMap
  centralIndex : json.centralIndex.ReadsBack
    (parts.entries.map EntryRecord.indexRow)
  integrity : json.integrity.ReadsBack
    (parts.entries.map EntryRecord.integrityRow)

end ArchiveParts

section Tables

variable
  {backends : Backends}
  {parts : ArchiveParts}
  {footerBytes : List UInt8}
  {limits : DecodeLimits}

/-- Where the metadata sections of an assembled archive stand. -/
structure LocatedParts
    (backends : Backends)
    (parts : ArchiveParts)
    (file : List UInt8)
    (located : MetadataSections) : Prop where
  entrySection : findSection
    (parts.container backends.digests backends.json).sections .entryTable =
      some located.entries
  groupSection : findSection
    (parts.container backends.digests backends.json).sections .groupTable =
      some located.groups
  restoreSection : findSection
    (parts.container backends.digests backends.json).sections .restoreMap =
      some located.restoreMap
  indexSection : findSection
    (parts.container backends.digests backends.json).sections .centralIndex =
      some located.centralIndex
  integritySection : findSection
    (parts.container backends.digests backends.json).sections .integrityTree =
      some located.integrity
  codecSection : findSection
    (parts.container backends.digests backends.json).sections .codecRegistry =
      located.codecRegistry
  entries : InPlace backends.digests file located.entries
    (backends.json.entries.toVec parts.entries)
  groups : InPlace backends.digests file located.groups
    (backends.json.groups.toVec parts.groups)
  restoreMap : InPlace backends.digests file located.restoreMap
    (backends.json.restoreMap.toVec parts.restoreMap)
  centralIndex : InPlace backends.digests file located.centralIndex
    (backends.json.centralIndex.toVec
      (parts.entries.map EntryRecord.indexRow))
  integrity : InPlace backends.digests file located.integrity
    (backends.json.integrity.toVec
      (parts.entries.map EntryRecord.integrityRow))
  registry : ∀ record ∈ located.codecRegistry,
    ∃ bytes ∈ parts.registryBytes, InPlace backends.digests file record bytes
  registryAbsent : located.codecRegistry = none ↔ parts.registryBytes = none

theorem exists_locatedParts
    (fits : parts.footerOffset backends.json < 2 ^ 64) :
    ∃ located, LocatedParts backends parts
      (parts.body backends.digests backends.json ++ footerBytes) located := by
  have inMetadata {sectionType : SectionType} {bytes : List UInt8}
      (member : (sectionType, bytes) ∈ parts.metadataSections backends.json) :=
    @inPlace_of_mem backends.digests backends.json parts footerBytes fits
      _ _ member
  obtain ⟨entries, entriesFound, entriesIn⟩ := @inMetadata .entryTable
    (backends.json.entries.toVec parts.entries)
    (by simp [ArchiveParts.metadataSections, ArchiveParts.frontSections])
  obtain ⟨groups, groupsFound, groupsIn⟩ := @inMetadata .groupTable
    (backends.json.groups.toVec parts.groups)
    (by simp [ArchiveParts.metadataSections, ArchiveParts.frontSections])
  obtain ⟨restoreMap, restoreFound, restoreIn⟩ := @inMetadata .restoreMap
    (backends.json.restoreMap.toVec parts.restoreMap)
    (by simp [ArchiveParts.metadataSections, ArchiveParts.backSections])
  obtain ⟨centralIndex, indexFound, indexIn⟩ := @inMetadata .centralIndex
    (backends.json.centralIndex.toVec
      (parts.entries.map EntryRecord.indexRow))
    (by simp [ArchiveParts.metadataSections, ArchiveParts.backSections])
  obtain ⟨integrity, integrityFound, integrityIn⟩ := @inMetadata .integrityTree
    (backends.json.integrity.toVec
      (parts.entries.map EntryRecord.integrityRow))
    (by simp [ArchiveParts.metadataSections, ArchiveParts.backSections])
  refine ⟨⟨entries, groups, restoreMap, centralIndex, integrity,
    findSection (parts.container backends.digests backends.json).sections
      .codecRegistry⟩, entriesFound, groupsFound, restoreFound, indexFound,
    integrityFound, rfl, entriesIn, groupsIn, restoreIn, indexIn, integrityIn,
    ?_, ?_⟩
  all_goals cases isRegistry : parts.registryBytes with
    | none => simp [findSection_registry_eq_none isRegistry]
    | some bytes =>
        obtain ⟨record, found, inPlace⟩ := @inMetadata .codecRegistry bytes
          (by simp [ArchiveParts.metadataSections,
            ArchiveParts.frontSections, isRegistry])
        simp [found, inPlace]

theorem LocatedParts.totalLength_records
    {file : List UInt8}
    {located : MetadataSections}
    (inPlace : LocatedParts backends parts file located) :
    totalLength located.records = (parts.metadata backends.json).length := by
  have registry : totalLength located.codecRegistry.toList =
      (parts.registryBytes.getD []).length := by
    cases isRegistry : located.codecRegistry with
    | none => simp [totalLength, inPlace.registryAbsent.mp isRegistry]
    | some record =>
        obtain ⟨bytes, isBytes, found⟩ := inPlace.registry record isRegistry
        simp [totalLength, Option.mem_def.mp isBytes, found.length]
  have registrySection : (sectionBytes (parts.registryBytes.map fun bytes =>
      (SectionType.codecRegistry, bytes)).toList).length =
      (parts.registryBytes.getD []).length := by
    cases parts.registryBytes <;> simp [sectionBytes]
  simp only [MetadataSections.records, totalLength, List.map_append,
    List.sum_append, List.map_cons, List.map_nil, List.sum_cons, List.sum_nil,
    inPlace.entries.length, inPlace.groups.length, inPlace.restoreMap.length,
    inPlace.centralIndex.length, inPlace.integrity.length]
  simp only [totalLength] at registry
  simp only [sectionBytes] at registrySection
  simp only [ArchiveParts.metadata, ArchiveParts.metadataSections,
    ArchiveParts.frontSections, ArchiveParts.backSections, sectionBytes,
    List.flatMap_append, List.flatMap_cons, List.flatMap_nil,
    List.length_append, List.length_nil, registry, registrySection]
  omega

theorem LocatedParts.readCodecRegistry_eq
    {file : List UInt8}
    {located : MetadataSections}
    (inPlace : LocatedParts backends parts file located)
    (limit : (parts.metadata backends.json).length ≤
      limits.maxMetadataBytes.toNat) :
    readCodecRegistry backends.digests file limits located.codecRegistry =
      parts.readRegistry := by
  cases isRegistry : located.codecRegistry with
  | none =>
      simp [readCodecRegistry, ArchiveParts.readRegistry,
        inPlace.registryAbsent.mp isRegistry]
  | some record =>
      obtain ⟨bytes, isBytes, found⟩ := inPlace.registry record isRegistry
      rw [Option.mem_def] at isBytes
      have short := @length_le_metadata backends.json parts .codecRegistry bytes
        (by simp [ArchiveParts.metadataSections, ArchiveParts.frontSections,
          isBytes])
      have read := readCheckedSection_eq_ok.mpr
        (found.sectionRead (short.trans limit))
      simp only [readCodecRegistry, read, ok_bind, ArchiveParts.readRegistry,
        isBytes]

/-- Each table of an assembled archive is read as it was written. -/
structure ReadAsWritten
    (backends : Backends)
    (parts : ArchiveParts)
    (file : List UInt8)
    (limits : DecodeLimits)
    (located : MetadataSections) : Prop where
  entries : ∀ {rows}, readJsonSection backends.json.entries backends.digests
    file located.entries limits = .ok rows ↔ rows = parts.entries
  groups : ∀ {rows}, readJsonSection backends.json.groups backends.digests
    file located.groups limits = .ok rows ↔ rows = parts.groups
  restoreMap : ∀ {rows}, readJsonSection backends.json.restoreMap
    backends.digests file located.restoreMap limits = .ok rows ↔
      rows = parts.restoreMap
  centralIndex : ∀ {rows}, readJsonSection backends.json.centralIndex
    backends.digests file located.centralIndex limits = .ok rows ↔
      rows = parts.entries.map EntryRecord.indexRow
  integrity : ∀ {rows}, readJsonSection backends.json.integrity
    backends.digests file located.integrity limits = .ok rows ↔
      rows = parts.entries.map EntryRecord.integrityRow

theorem LocatedParts.readAsWritten
    {file : List UInt8}
    {located : MetadataSections}
    (inPlace : LocatedParts backends parts file located)
    (readsBack : parts.ReadsBack backends.json)
    (limit : (parts.metadata backends.json).length ≤
      limits.maxMetadataBytes.toNat) :
    ReadAsWritten backends parts file limits located := by
  have short {sectionType : SectionType} {bytes : List UInt8}
      (member : (sectionType, bytes) ∈ parts.metadataSections backends.json) :=
    (length_le_metadata member).trans limit
  exact {
    entries := inPlace.entries.readJsonSection_eq_ok readsBack.entries
      (@short .entryTable _
        (by simp [ArchiveParts.metadataSections, ArchiveParts.frontSections]))
    groups := inPlace.groups.readJsonSection_eq_ok readsBack.groups
      (@short .groupTable _
        (by simp [ArchiveParts.metadataSections, ArchiveParts.frontSections]))
    restoreMap := inPlace.restoreMap.readJsonSection_eq_ok readsBack.restoreMap
      (@short .restoreMap _
        (by simp [ArchiveParts.metadataSections, ArchiveParts.backSections]))
    centralIndex := inPlace.centralIndex.readJsonSection_eq_ok
      readsBack.centralIndex (@short .centralIndex _
        (by simp [ArchiveParts.metadataSections, ArchiveParts.backSections]))
    integrity := inPlace.integrity.readJsonSection_eq_ok readsBack.integrity
      (@short .integrityTree _
        (by simp [ArchiveParts.metadataSections, ArchiveParts.backSections])) }

/-- The reader finds the sections where they were written. -/
theorem LocatedParts.eq_of_read
    {file : List UInt8}
    {located found : MetadataSections}
    {tables : Tables}
    (inPlace : LocatedParts backends parts file located)
    (read : TablesRead backends file limits
      (parts.container backends.digests backends.json) found tables) :
    found = located := by
  have entries := read.entrySection.symm.trans inPlace.entrySection
  have groups := read.groupSection.symm.trans inPlace.groupSection
  have restoreMap := read.restoreSection.symm.trans inPlace.restoreSection
  have centralIndex := read.indexSection.symm.trans inPlace.indexSection
  have integrity := read.integritySection.symm.trans inPlace.integritySection
  have registry := read.codecSection.symm.trans inPlace.codecSection
  cases found
  cases located
  simp_all

/-- The registry is present exactly when the number of sections counts it. -/
theorem LocatedParts.codecExpected
    {file : List UInt8}
    {located : MetadataSections}
    (inPlace : LocatedParts backends parts file located) :
    ¬((parts.container backends.digests backends.json).header.sectionCount =
          requiredRawSections ∧ located.codecRegistry.isSome ∨
      (parts.container backends.digests backends.json).header.sectionCount =
          requiredCompressedSections ∧ located.codecRegistry.isNone) := by
  change ¬(parts.sectionCount = _ ∧ _ ∨ parts.sectionCount = _ ∧ _)
  unfold ArchiveParts.sectionCount
  have absent := inPlace.registryAbsent
  cases isBytes : parts.registryBytes with
  | none => simp [absent.mpr isBytes, requiredRawSections,
      requiredCompressedSections]
  | some bytes =>
      have present : located.codecRegistry ≠ none := by
        rw [ne_eq, absent, isBytes]
        simp
      simp [Option.isSome_iff_ne_none, present, requiredRawSections,
        requiredCompressedSections]

/-- The tables of an assembled archive are read exactly when the metadata stays
within its limit and the registry is in order. -/
theorem readTables_parts
    (readsBack : parts.ReadsBack backends.json)
    (fits : parts.footerOffset backends.json < 2 ^ 64)
    {tables : Tables} :
    readTables backends
        (parts.body backends.digests backends.json ++ footerBytes) limits
        (parts.container backends.digests backends.json) = .ok tables ↔
      parts.directoryLength + (parts.metadata backends.json).length ≤
        limits.maxMetadataBytes.toNat ∧
      ∃ registry, parts.readRegistry = .ok registry ∧
        tables = parts.tables backends.digests registry := by
  obtain ⟨located, inPlace⟩ :=
    @exists_locatedParts backends parts footerBytes fits
  have small := parts.directoryLength_le
  have lengthValue : (parts.container backends.digests
      backends.json).directoryLength.toNat = parts.directoryLength :=
    toNat_ofNat_of_lt (by omega)
  have total := inPlace.totalLength_records
  rw [readTables_eq_ok]
  constructor
  · rintro ⟨found, read⟩
    obtain rfl := inPlace.eq_of_read read
    have limit := read.metadataLimit
    rw [lengthValue, total] at limit
    have metadataFits : (parts.metadata backends.json).length ≤
        limits.maxMetadataBytes.toNat := by omega
    have written := inPlace.readAsWritten readsBack metadataFits
    have registry := read.codecRegistry
    rw [inPlace.readCodecRegistry_eq metadataFits] at registry
    have entries := written.entries.mp read.entries
    have groups := written.groups.mp read.groups
    have restoreMap := written.restoreMap.mp read.restoreMap
    have centralIndex := written.centralIndex.mp read.centralIndex
    have integrity := written.integrity.mp read.integrity
    have payload := read.payloadSection.symm.trans findSection_payload
    refine ⟨limit, _, registry, ?_⟩
    cases tables
    simp_all [ArchiveParts.tables]
  · rintro ⟨limit, registry, isRegistry, rfl⟩
    have metadataFits : (parts.metadata backends.json).length ≤
        limits.maxMetadataBytes.toNat := by omega
    have written := inPlace.readAsWritten readsBack metadataFits
    exact ⟨located, {
      entrySection := inPlace.entrySection
      groupSection := inPlace.groupSection
      restoreSection := inPlace.restoreSection
      indexSection := inPlace.indexSection
      integritySection := inPlace.integritySection
      payloadSection := findSection_payload
      codecSection := inPlace.codecSection
      codecExpected := inPlace.codecExpected
      metadataLimit := by rwa [lengthValue, total]
      entries := written.entries.mpr rfl
      groups := written.groups.mpr rfl
      restoreMap := written.restoreMap.mpr rfl
      centralIndex := written.centralIndex.mpr rfl
      integrity := written.integrity.mpr rfl
      codecRegistry := by
        rw [inPlace.readCodecRegistry_eq metadataFits]
        exact isRegistry }⟩

end Tables

/-! ## Verification -/

/-- What is read inside the payload section comes from the payload. -/
theorem slice_payload
    {digests : Digests}
    {json : Json}
    {parts : ArchiveParts}
    {footerBytes : List UInt8}
    {offset length : Nat}
    (afterStart : parts.payloadStart ≤ offset)
    (beforeEnd : offset + length ≤ parts.payloadEnd) :
    Bytes.slice (parts.body digests json ++ footerBytes) offset length =
      Bytes.slice parts.payloadBytes (offset - parts.payloadStart) length := by
  have layout : parts.body digests json ++ footerBytes =
      ((parts.header digests json).encode digests ++
        parts.directory digests json) ++
      (parts.payloadBytes ++ (parts.metadata json ++ footerBytes)) := by
    simp [ArchiveParts.body]
  have frontLength : ((parts.header digests json).encode digests ++
      parts.directory digests json).length = parts.payloadStart := by
    rw [List.length_append, GlobalHeader.length_encode, length_directory]
    rfl
  unfold ArchiveParts.payloadEnd at beforeEnd
  rw [layout, Bytes.slice_append_right (by omega), frontLength,
    Bytes.slice_append_left _ (by omega)]

/-- A checksum carried along over pieces is the checksum of the whole. -/
theorem Digests.Lawful.foldl_crc32cAppend
    {digests : Digests}
    (lawful : digests.Lawful)
    (pieces : List (List UInt8)) :
    pieces.foldl digests.crc32cAppend 0 = digests.crc32c pieces.flatten := by
  have carried (before : List UInt8) :
      pieces.foldl digests.crc32cAppend (digests.crc32c before) =
        digests.crc32c (before ++ pieces.flatten) := by
    induction pieces generalizing before with
    | nil => simp
    | cons first rest inductionHypothesis =>
        simp only [List.foldl_cons, lawful.crc32cAppend_crc32c,
          inductionHypothesis, List.flatten_cons, List.append_assoc]
  have whole := carried []
  rwa [lawful.crc32c_nil, List.nil_append] at whole

/-- What the catalog of an assembled archive is read as. -/
def ArchiveParts.parsed
    (backends : Backends)
    (parts : ArchiveParts)
    (registry : Option CodecRegistry) : ParsedArchive where
  entries := parts.entries
  groups := parts.groups
  restoreMap := parts.restoreMap
  codecRegistry := registry
  report := {
    archiveBytes := UInt64.ofNat
      (parts.footerOffset backends.json + footerLen)
    originalBytes := (scanEntries parts.entries).originalSize
    entryCount := parts.entries.length
    fileCount := (scanEntries parts.entries).fileCount
    directoryCount := (scanEntries parts.entries).directoryCount
    hardlinkCount := (scanEntries parts.entries).hardlinkCount
    symlinkCount := (scanEntries parts.entries).symlinkCount
    groupCount := parts.groups.length
    blake3Root := Bytes.zeros 32 }
  payloadSection := parts.payloadRecord backends.digests
  footerOffset := UInt64.ofNat (parts.footerOffset backends.json)
  expectedRoot := backends.digests.blake3
    (parts.body backends.digests backends.json)

/-- What the tables of an archive have to meet on their own. -/
structure ArchiveParts.Acceptable
    (backends : Backends)
    (limits : DecodeLimits)
    (parts : ArchiveParts)
    (registry : Option CodecRegistry) : Prop where
  header : HeaderOk (parts.header backends.digests backends.json)
    (parts.footerOffset backends.json + footerLen) limits
  metadata : parts.directoryLength +
    (parts.metadata backends.json).length ≤ limits.maxMetadataBytes.toNat
  registryRead : parts.readRegistry = .ok registry
  tables : TablesOk limits (parts.header backends.digests backends.json)
    (parts.tables backends.digests registry)

section Verification

variable
  {backends : Backends}
  {parts : ArchiveParts}
  {footerBytes : List UInt8}
  {limits : DecodeLimits}

theorem readCatalog_parts
    (readsBack : parts.ReadsBack backends.json)
    (fits : parts.footerOffset backends.json + footerLen < 2 ^ 64)
    (footerLength : footerBytes.length = footerLen)
    (footerDecoded : Footer.decode backends.digests footerBytes =
      .ok (parts.footer backends.digests backends.json))
    {parsed : ParsedArchive} :
    readCatalog backends
        (parts.body backends.digests backends.json ++ footerBytes) limits =
        .ok parsed ↔
      ∃ registry, parts.Acceptable backends limits registry ∧
        parsed = parts.parsed backends registry := by
  have tablesFit : parts.footerOffset backends.json < 2 ^ 64 := by omega
  have fileLength : (parts.body backends.digests backends.json ++
      footerBytes).length = parts.footerOffset backends.json + footerLen := by
    rw [List.length_append, length_body, footerLength]
  rw [readCatalog_eq_ok]
  constructor
  · rintro ⟨container, located, tables, read⟩
    obtain ⟨rfl, header, _⟩ :=
      (containerOk_iff fits footerLength footerDecoded).mp read.containerOk
    obtain ⟨metadata, registry, isRegistry, rfl⟩ :=
      (readTables_parts readsBack tablesFit).mp
        (readTables_eq_ok.mpr ⟨located, read.tablesRead⟩)
    refine ⟨registry, ⟨header, metadata, isRegistry, read.tablesOk⟩, ?_⟩
    rw [read.result, catalogReport, fileLength]
    rfl
  · rintro ⟨registry, acceptable, rfl⟩
    have metadata := acceptable.metadata
    have containerOk := (containerOk_iff fits footerLength
      footerDecoded).mpr ⟨rfl, acceptable.header, by omega⟩
    obtain ⟨located, read⟩ := readTables_eq_ok.mp
      ((@readTables_parts _ _ footerBytes _ readsBack tablesFit _).mpr
        ⟨metadata, registry, acceptable.registryRead, rfl⟩)
    refine ⟨_, located, _, containerOk, read, acceptable.tables, ?_⟩
    rw [catalogReport, fileLength]
    rfl

/-- An assembled archive passes verification exactly when its tables are
acceptable and its groups decode to the right files. -/
theorem verifyOpenFile_parts
    (digestsLawful : backends.digests.Lawful)
    (readsBack : parts.ReadsBack backends.json)
    (fits : parts.footerOffset backends.json + footerLen < 2 ^ 64)
    (footerLength : footerBytes.length = footerLen)
    (footerDecoded : Footer.decode backends.digests footerBytes =
      .ok (parts.footer backends.digests backends.json))
    {verified : ParsedArchive} :
    verifyOpenFile backends
        (parts.body backends.digests backends.json ++ footerBytes) limits =
        .ok verified ↔
      ∃ registry, parts.Acceptable backends limits registry ∧
        (∀ record ∈ parts.groups, GroupVerified backends
          (parts.body backends.digests backends.json ++ footerBytes) limits
          (parts.parsed backends registry) record) ∧
        verified = (parts.parsed backends registry).withRoot := by
  have offsetValue : (UInt64.ofNat (parts.footerOffset backends.json)).toNat =
      parts.footerOffset backends.json := toNat_ofNat_of_lt (by omega)
  have upperBound : parts.payloadEnd ≤ parts.footerOffset backends.json := by
    unfold ArchiveParts.footerOffset
    omega
  have startValue : (UInt64.ofNat parts.payloadStart).toNat =
      parts.payloadStart := toNat_ofNat_of_lt (by
    unfold ArchiveParts.payloadEnd at upperBound
    omega)
  have payloadLength : (UInt64.ofNat parts.payloadBytes.length).toNat =
      parts.payloadBytes.length := toNat_ofNat_of_lt (by
    unfold ArchiveParts.payloadEnd at upperBound
    omega)
  have payloadSlice : Bytes.slice
      (parts.body backends.digests backends.json ++ footerBytes)
      parts.payloadStart parts.payloadBytes.length = parts.payloadBytes := by
    rw [slice_payload (Nat.le_refl _) (Nat.le_refl _), Nat.sub_self,
      Bytes.slice_all rfl]
  have wholePrefix : (parts.body backends.digests backends.json ++
      footerBytes).take (parts.footerOffset backends.json) =
      parts.body backends.digests backends.json :=
    List.take_left' length_body
  rw [verifyOpenFile_eq_ok]
  constructor
  · rintro ⟨parsed, accepted, payload, rfl⟩
    obtain ⟨registry, acceptable, rfl⟩ := (readCatalog_parts readsBack fits
      footerLength footerDecoded).mp accepted
    exact ⟨registry, acceptable, payload.groups, rfl⟩
  · rintro ⟨registry, acceptable, groups, rfl⟩
    refine ⟨_, (readCatalog_parts readsBack fits footerLength
      footerDecoded).mpr ⟨registry, acceptable, rfl⟩, ?_, rfl⟩
    refine {
      payloadInside := ?_
      payloadCrc := ?_
      groups := groups
      prefixInside := ?_
      root := ?_ }
    · change (Bytes.slice _ (UInt64.ofNat parts.payloadStart).toNat
        (UInt64.ofNat parts.payloadBytes.length).toNat).length = _
      rw [startValue, payloadLength, payloadSlice]
      exact payloadLength.symm
    · change backends.digests.crc32cAppend 0 (Bytes.slice _
        (UInt64.ofNat parts.payloadStart).toNat
        (UInt64.ofNat parts.payloadBytes.length).toNat) =
        parts.payload.foldl backends.digests.crc32cAppend 0
      rw [startValue, payloadLength, payloadSlice,
        digestsLawful.foldl_crc32cAppend, ← digestsLawful.crc32c_nil,
        digestsLawful.crc32cAppend_crc32c, List.nil_append]
      rfl
    · change (List.take (UInt64.ofNat
        (parts.footerOffset backends.json)).toNat _).length = (UInt64.ofNat
        (parts.footerOffset backends.json)).toNat
      rw [offsetValue, wholePrefix, length_body]
    · change backends.digests.blake3 (List.take (UInt64.ofNat
        (parts.footerOffset backends.json)).toNat _) = _
      rw [offsetValue, wholePrefix]
      rfl

end Verification

end Pithos
