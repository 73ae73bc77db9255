import Pithos.Engine.Crates

/-!
# The limits of the decoder

An accepted catalog stays within the limits that it was read with: how many
records its tables have, how large they are, how long its paths are, and what
each group may demand.  Only the ratio of a group's output to its input escapes
them, for a group that has no input at all.
-/

namespace Pithos

open Fallible
open Machine
open JsonText
open Bytes

/-- The sections that hold metadata: all but the payload. -/
def metadataSections (sections : List SectionDirectoryRecord) :
    List SectionDirectoryRecord :=
  sections.filter fun record =>
    record.sectionType ≠ SectionType.payloadArea.toU16

/-- The bounds on an archive, of which the container has the sections. -/
structure WithinLimits
    (limits : DecodeLimits)
    (container : Container)
    (parsed : ParsedArchive) : Prop where
  sections : container.sections.length ≤ limits.maxSections.toNat
  entries : parsed.entries.length ≤ limits.maxEntries.toNat
  groups : parsed.groups.length ≤ limits.maxGroups.toNat
  restoreRecords : parsed.restoreMap.length ≤ limits.maxChunks.toNat
  metadata : container.directoryLength.toNat +
    totalLength (metadataSections container.sections) ≤
      limits.maxMetadataBytes.toNat
  originalSize : originalSize parsed.entries ≤ limits.maxOriginalBytes.toNat
  paths : ∀ entry ∈ parsed.entries,
    entry.path.components.length ≤ limits.maxPathComponents.toNat ∧
      entry.path.encodedLen ≤ limits.maxPathBytes.toNat
  output : ∀ record ∈ parsed.groups,
    record.group.uncompressedLen ≤ limits.maxGroupOutput
  compressed : ∀ record ∈ parsed.groups,
    record.group.compressedLen.toNat ≤
      limits.maxGroupOutput.toNat + 1024 * 1024

/-- The output of every group, which decoding reserves, is bounded by its
input. -/
def ExpansionWithinLimits (limits : DecodeLimits) (parsed : ParsedArchive) :
    Prop :=
  ∀ record ∈ parsed.groups, record.group.uncompressedLen.toNat ≤
    limits.maxExpansionRatio.toNat * record.group.compressedLen.toNat

section Located

variable
  {backends : Backends}
  {file : List UInt8}
  {limits : DecodeLimits}
  {container : Container}
  {located : MetadataSections}
  {tables : Tables}

theorem ContainerOk.sectionTypes_nodup
    (ok : ContainerOk backends.digests file limits container) :
    (sectionTypes container.sections).Nodup := by
  rw [ok.sections]
  exact ((collectSections_perm (directoryRecords file container)).map
    SectionDirectoryRecord.sectionType).nodup_iff.mpr ok.distinct

theorem ContainerOk.length_sections
    (ok : ContainerOk backends.digests file limits container) :
    container.sections.length = container.header.sectionCount.toNat := by
  have inside := UInt64.le_iff_toNat_le.mp ok.directoryInside
  have atEnd := ok.footerAtEnd
  have finish := ok.directoryEnd
  rw [ok.sections, (collectSections_perm _).length_eq, directoryRecords,
    List.length_map, chunksExact, List.length_map, List.length_range,
    directoryBytes, length_slice (by omega), ok.directoryLength]
  exact Nat.mul_div_cancel _ (by decide)

/-- The types of the metadata sections, in the order they are located. -/
def metadataTypes : List SectionType :=
  [.entryTable, .groupTable, .restoreMap, .centralIndex, .integrityTree,
    .codecRegistry]

theorem mem_metadataTypes
    {sectionType : SectionType}
    (known : sectionType ∈ rawSectionTypes ∨ sectionType = .codecRegistry)
    (notPayload : sectionType ≠ .payloadArea) :
    sectionType ∈ metadataTypes := by
  cases sectionType <;> revert known notPayload <;> decide

theorem TablesRead.records_eq
    (read : TablesRead backends file limits container located tables) :
    located.records =
      metadataTypes.filterMap (findSection container.sections) := by
  simp [metadataTypes, MetadataSections.records, read.entrySection,
    read.groupSection, read.restoreSection, read.indexSection,
    read.integritySection, read.codecSection, List.filterMap_cons]
  cases located.codecRegistry <;> rfl

/-- The metadata sections are the sections that were located. -/
theorem TablesRead.perm_metadataSections
    (ok : ContainerOk backends.digests file limits container)
    (read : TablesRead backends file limits container located tables) :
    located.records.Perm (metadataSections container.sections) := by
  have distinct := ok.sectionTypes_nodup
  rw [read.records_eq]
  refine (List.perm_ext_iff_of_nodup ?_ ?_).mpr ?_
  · refine List.Nodup.filterMap ?_ (by decide)
    intro first second record isFirst isSecond
    have same := (mem_of_findSection isFirst).2.symm.trans
      (mem_of_findSection isSecond).2
    exact SectionType.toU16_injective same
  · exact (List.Nodup.of_map _ distinct).filter _
  · intro record
    rw [List.mem_filterMap, metadataSections, List.mem_filter,
      decide_eq_true_eq]
    constructor
    · rintro ⟨sectionType, isMetadata, found⟩
      obtain ⟨member, isType⟩ := mem_of_findSection found
      refine ⟨member, ?_⟩
      rw [isType]
      intro same
      rw [SectionType.toU16_injective same] at isMetadata
      exact absurd isMetadata (by decide)
    · rintro ⟨member, notPayload⟩
      have listed := member
      rw [ok.sections, (collectSections_perm _).mem_iff] at listed
      obtain ⟨sectionType, known, kind⟩ := (ok.records record listed).sectionType
      have isType := (SectionType.toU16_of_fromU16 known).symm
      refine ⟨sectionType, mem_metadataTypes kind ?_,
        findSection_of_mem distinct member isType⟩
      rintro rfl
      exact notPayload isType

theorem totalLength_perm
    {first second : List SectionDirectoryRecord}
    (same : first.Perm second) :
    totalLength first = totalLength second :=
  (same.map _).sum_nat

variable {parsed : ParsedArchive}

theorem CatalogRead.groupSizeOk
    (read : CatalogRead backends file limits parsed container located tables)
    {record : GroupTableRecord}
    (member : record ∈ parsed.groups) :
    GroupSizeOk limits record.group := by
  obtain rfl := read.result
  obtain ⟨position, found⟩ := List.mem_iff_getElem?.mp member
  exact (read.tablesOk.groups position record found).size

theorem CatalogRead.withinLimits
    (read : CatalogRead backends file limits parsed container located tables) :
    WithinLimits limits container parsed := by
  have sizes {record : GroupTableRecord} (member : record ∈ parsed.groups) :=
    read.groupSizeOk member
  have header := read.containerOk.headerLimits
  obtain rfl := read.result
  refine ⟨?_, ?_, ?_, ?_, ?_, read.tablesOk.sizeLimit, ?_, ?_, ?_⟩
  · rw [read.containerOk.length_sections]
    exact header.sectionCount
  · rw [read.tablesOk.entryCount]
    exact header.entryCount
  · rw [read.tablesOk.groupCount]
    exact header.groupCount
  · rw [read.tablesOk.restoreCount]
    exact header.chunkCount
  · rw [← totalLength_perm
      (read.tablesRead.perm_metadataSections read.containerOk)]
    exact read.tablesRead.metadataLimit
  · intro entry member
    obtain ⟨position, found⟩ := List.mem_iff_getElem?.mp member
    have path := (read.tablesOk.entries position entry found).path
    exact ⟨path.componentCount, path.byteCount⟩
  · exact fun record member => (sizes member).output
  · exact fun record member => (sizes member).compressed

end Located

/-- An accepted archive is within the limits, and its groups expand within them
exactly when no group without payload announces output. -/
theorem readCatalog_withinLimits
    {backends : Backends}
    {file : List UInt8}
    {limits : DecodeLimits}
    {parsed : ParsedArchive}
    (accepted : readCatalog backends file limits = .ok parsed)
    {container : Container}
    (opened : readContainer backends.digests file limits = .ok container) :
    WithinLimits limits container parsed ∧
      (ExpansionWithinLimits limits parsed ↔
        ∀ record ∈ parsed.groups, record.group.compressedLen = 0 →
          record.group.uncompressedLen = 0) := by
  obtain ⟨other, located, tables, read⟩ := readCatalog_eq_ok.mp accepted
  have same := opened.symm.trans (readContainer_eq_ok.mpr read.containerOk)
  obtain rfl := Except.ok.inj same
  refine ⟨read.withinLimits, ?_, ?_⟩
  · intro within record member empty
    have none := within record member
    rw [empty] at none
    exact UInt64.toNat_inj.mp (Nat.le_zero.mp none)
  · intro honest record member
    rcases (read.groupSizeOk member).expansion with empty | within
    · rw [honest record member empty]
      exact Nat.zero_le _
    · rwa [Nat.mul_comm]

/-! ## A group without payload -/

/-- A file of a gibibyte in a group without payload. -/
def hollowParts : ArchiveParts where
  entries := [
    { entryId := 0
      path := ⟨[utf8Component "f"]⟩
      size := 1073741824
      modifiedNs := 0
      mode := 0o644
      blake3 := zeros 32
      kind := .file 0 }]
  groups := [
    { group := {
        version := 1
        flags := 0
        groupId := 0
        codecChainId := 1
        chunkCount := 1
        uncompressedLen := 1073741824
        compressedLen := 0
        descriptorLen := 0
        payloadCrc32c := 0 }
      payloadOffset := 320 }]
  restoreMap := [
    { entryId := 0
      originalOffset := 0
      length := 1073741824
      groupId := 0
      groupOffset := 0 }]
  registryBytes := some (le32 1 ++ CodecRegistryRecord.encode
    { chainId := 1
      codecId := CodecId.store.toU16
      codecVersion := 1
      level := 0
      flags := codecFlagRequired })
  payload := []
  originalTotalSize := 1073741824

set_option maxRecDepth 100000 in
theorem hollowParts_checks : hollowParts.catalogChecks .default = .ok () := by
  decide

theorem hollowParts_accepted :
    ∃ container parsed,
      readContainer .crates hollowParts.archive .default = .ok container ∧
      readCatalog hollowParts.crates hollowParts.archive .default =
        .ok parsed ∧
      parsed.groups = hollowParts.groups := by
  obtain ⟨registry, accepted⟩ :=
    ArchiveParts.readCatalog_of_checks hollowParts_checks
  obtain ⟨container, _, _, read⟩ := readCatalog_eq_ok.mp accepted
  exact ⟨container, _, readContainer_eq_ok.mpr read.containerOk, accepted, rfl⟩

/-- The archive is accepted although its group announces a gibibyte from
nothing. -/
theorem hollowParts_expands :
    ¬ ∀ backends file limits parsed,
      readCatalog backends file limits = .ok parsed →
        ExpansionWithinLimits limits parsed := by
  intro always
  obtain ⟨_, parsed, _, accepted, groups⟩ := hollowParts_accepted
  have within := always _ _ _ _ accepted
  rw [ExpansionWithinLimits, groups] at within
  exact absurd (within _ List.mem_cons_self) (by decide)

/-- The other bounds hold of the archive all the same. -/
theorem hollowParts_withinLimits :
    ∃ container parsed,
      readCatalog hollowParts.crates hollowParts.archive .default =
        .ok parsed ∧
      WithinLimits .default container parsed ∧
      (ExpansionWithinLimits .default parsed ↔
        ∀ record ∈ parsed.groups, record.group.compressedLen = 0 →
          record.group.uncompressedLen = 0) := by
  obtain ⟨container, parsed, opened, accepted, _⟩ := hollowParts_accepted
  exact ⟨container, parsed, accepted, readCatalog_withinLimits accepted opened⟩

end Pithos
