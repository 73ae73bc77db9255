import Pithos.Engine.Verify

/-!
# Assembling an archive

The tail that both packers share: from the collected tables and payload they
write the metadata sections after the payload, then the header and the section
directory in front of it, and the footer at the end.  Reading the result back
needs no knowledge of the digests: every field is found where it was written.
-/

namespace Pithos

open Fallible
open Machine
open Intervals
open Layout

/-! ## The writer -/

/-- What a packer has collected when it starts to write metadata.  The payload
is kept in the pieces it was written in; the registry is there only in a
compressed archive. -/
structure ArchiveParts where
  entries : List EntryRecord
  groups : List GroupTableRecord
  restoreMap : List RestoreMapRecord
  registryBytes : Option (List UInt8)
  payload : List (List UInt8)
  originalTotalSize : UInt64

namespace ArchiveParts

/-- The metadata sections whose records stand before the payload's. -/
def frontSections (json : Json) (parts : ArchiveParts) :
    List (SectionType × List UInt8) :=
  (parts.registryBytes.map fun bytes => (.codecRegistry, bytes)).toList ++
    [(.entryTable, json.entries.toVec parts.entries),
      (.groupTable, json.groups.toVec parts.groups)]

/-- The metadata sections whose records stand after the payload's. -/
def backSections (json : Json) (parts : ArchiveParts) :
    List (SectionType × List UInt8) :=
  [(.restoreMap, json.restoreMap.toVec parts.restoreMap),
    (.centralIndex, json.centralIndex.toVec
      (parts.entries.map EntryRecord.indexRow)),
    (.integrityTree, json.integrity.toVec
      (parts.entries.map EntryRecord.integrityRow))]

/-- The metadata sections in the order they are written. -/
def metadataSections (json : Json) (parts : ArchiveParts) :
    List (SectionType × List UInt8) :=
  parts.frontSections json ++ parts.backSections json

/-- The number of sections. -/
def sectionCount (parts : ArchiveParts) : UInt32 :=
  match parts.registryBytes with
  | none => requiredRawSections
  | some _ => requiredCompressedSections

/-- The length of the section directory. -/
def directoryLength (parts : ArchiveParts) : Nat :=
  parts.sectionCount.toNat * sectionEntryLen

/-- Where the payload starts. -/
def payloadStart (parts : ArchiveParts) : Nat :=
  headerLen + parts.directoryLength

/-- The payload as it stands in the file. -/
def payloadBytes (parts : ArchiveParts) : List UInt8 :=
  parts.payload.flatten

/-- Where the payload ends. -/
def payloadEnd (parts : ArchiveParts) : Nat :=
  parts.payloadStart + parts.payloadBytes.length

end ArchiveParts

/-- The bytes of some sections, one after the other. -/
def sectionBytes (sections : List (SectionType × List UInt8)) : List UInt8 :=
  sections.flatMap (·.2)

/-- The directory record of one section. -/
def sectionRecord
    (digests : Digests)
    (sectionType : SectionType)
    (offset : Nat)
    (bytes : List UInt8) : SectionDirectoryRecord where
  sectionType := sectionType.toU16
  sectionVersion := 1
  flags := 0
  offset := UInt64.ofNat offset
  length := UInt64.ofNat bytes.length
  crc32c := digests.crc32c bytes
  reserved := 0

/-- The directory records of sections written one after the other. -/
def writeSections (digests : Digests) :
    Nat → List (SectionType × List UInt8) → List SectionDirectoryRecord
  | _, [] => []
  | offset, (sectionType, bytes) :: rest =>
      sectionRecord digests sectionType offset bytes ::
        writeSections digests (offset + bytes.length) rest

namespace ArchiveParts

variable (digests : Digests) (json : Json) (parts : ArchiveParts)

/-- The directory record of the payload.  Its checksum is carried along while
the pieces are written. -/
def payloadRecord : SectionDirectoryRecord where
  sectionType := SectionType.payloadArea.toU16
  sectionVersion := 1
  flags := 0
  offset := UInt64.ofNat parts.payloadStart
  length := UInt64.ofNat parts.payloadBytes.length
  crc32c := parts.payload.foldl digests.crc32cAppend 0
  reserved := 0

/-- All directory records, in the order they are collected. -/
def collected : List SectionDirectoryRecord :=
  writeSections digests parts.payloadEnd (parts.frontSections json) ++
    parts.payloadRecord digests ::
      writeSections digests
        (parts.payloadEnd + (sectionBytes (parts.frontSections json)).length)
        (parts.backSections json)

/-- The section directory, sorted by type. -/
def sections : List SectionDirectoryRecord :=
  (parts.collected digests json).insertionSort
    fun left right => left.sectionType ≤ right.sectionType

/-- The section directory as bytes. -/
def directory : List UInt8 :=
  (parts.sections digests json).flatMap SectionDirectoryRecord.encode

/-- The metadata as bytes. -/
def metadata : List UInt8 :=
  sectionBytes (parts.metadataSections json)

/-- Where the footer starts. -/
def footerOffset : Nat :=
  parts.payloadEnd + (parts.metadata json).length

/-- The header. -/
def header : GlobalHeader :=
  { GlobalHeader.new (Bytes.takeFixed 16
      (digests.blake3 (parts.metadata json)).val) with
    originalTotalSize := parts.originalTotalSize
    entryCount := UInt64.ofNat parts.entries.length
    logicalChunkCount := UInt64.ofNat parts.restoreMap.length
    groupCount := UInt64.ofNat parts.groups.length
    footerOffset := UInt64.ofNat (parts.footerOffset json)
    sectionCount := parts.sectionCount }

/-- Everything before the footer. -/
def body : List UInt8 :=
  (parts.header digests json).encode digests ++
    (parts.directory digests json ++
      (parts.payloadBytes ++ parts.metadata json))

/-- The footer. -/
def footer : Footer where
  archiveLength := UInt64.ofNat (parts.footerOffset json + footerLen)
  blake3Root := digests.blake3 (parts.body digests json)
  directoryCrc32c := digests.crc32c (parts.directory digests json)
  version := 1

/-- The finished archive. -/
def assemble : List UInt8 :=
  parts.body digests json ++ (parts.footer digests json).encode digests

end ArchiveParts

/-! ## Where the sections stand -/

section Sections

variable {digests : Digests} {json : Json} {parts : ArchiveParts}

theorem sectionTypes_writeSections
    (offset : Nat)
    (written : List (SectionType × List UInt8)) :
    sectionTypes (writeSections digests offset written) =
      written.map fun item => item.1.toU16 := by
  induction written generalizing offset with
  | nil => rfl
  | cons first rest inductionHypothesis =>
      have tail := inductionHypothesis (offset + first.2.length)
      simp only [sectionTypes] at tail
      simp [writeSections, sectionTypes, sectionRecord, tail]

/-- The records are collected in the order of their types. -/
theorem sectionTypes_collected :
    sectionTypes (parts.collected digests json) =
      (parts.registryBytes.map fun _ =>
        SectionType.codecRegistry.toU16).toList ++
      rawSectionTypes.map SectionType.toU16 := by
  have front := @sectionTypes_writeSections digests parts.payloadEnd
    (parts.frontSections json)
  have back := @sectionTypes_writeSections digests
    (parts.payloadEnd + (sectionBytes (parts.frontSections json)).length)
    (parts.backSections json)
  simp only [sectionTypes] at front back
  simp only [sectionTypes, ArchiveParts.collected, List.map_append,
    List.map_cons, front, back]
  cases isRegistry : parts.registryBytes <;>
    simp [ArchiveParts.frontSections, ArchiveParts.backSections, isRegistry,
      ArchiveParts.payloadRecord, rawSectionTypes]

theorem sections_eq_collected :
    parts.sections digests json = parts.collected digests json := by
  refine List.Pairwise.insertionSort_eq ?_
  have sorted : (sectionTypes (parts.collected digests json)).Pairwise
      (· ≤ ·) := by
    rw [sectionTypes_collected]
    cases parts.registryBytes with
    | none => decide
    | some bytes =>
        rw [Option.map_some]
        decide
  exact List.pairwise_map.mp sorted

theorem sectionTypes_nodup :
    (sectionTypes (parts.sections digests json)).Nodup := by
  rw [sections_eq_collected, sectionTypes_collected]
  cases parts.registryBytes with
  | none => decide
  | some bytes =>
      rw [Option.map_some]
      decide

theorem length_sections :
    (parts.sections digests json).length = parts.sectionCount.toNat := by
  have types := congrArg List.length
    (@sectionTypes_collected digests json parts)
  rw [sections_eq_collected]
  simp only [sectionTypes, List.length_map] at types
  rw [types, ArchiveParts.sectionCount]
  cases parts.registryBytes <;> rfl

/-- Where a record says that its section stands. -/
def SectionDirectoryRecord.segment (record : SectionDirectoryRecord) :
    Nat × Nat :=
  (record.offset.toNat, record.length.toNat)

/-- Sections written one after the other tile the bytes they fill. -/
theorem tiles_writeSections
    {offset : Nat}
    {written : List (SectionType × List UInt8)}
    (fits : offset + (sectionBytes written).length < 2 ^ 64) :
    Tiles offset ((writeSections digests offset written).map
        SectionDirectoryRecord.segment)
      (offset + (sectionBytes written).length) := by
  induction written generalizing offset with
  | nil => simp [writeSections, sectionBytes]
  | cons first rest inductionHypothesis =>
      have total : (sectionBytes (first :: rest)).length =
          first.2.length + (sectionBytes rest).length := by
        simp [sectionBytes]
      rw [total] at fits ⊢
      have tail := @inductionHypothesis (offset + first.2.length) (by omega)
      have offsetValue := @toNat_ofNat_of_lt offset (by omega)
      have lengthValue := @toNat_ofNat_of_lt first.2.length (by omega)
      simp only [writeSections, List.map_cons, tiles_cons, sectionRecord,
        SectionDirectoryRecord.segment, offsetValue, lengthValue, true_and]
      rw [Nat.add_assoc] at tail
      exact tail

/-- A written section is read back from where its record says. -/
theorem slice_writeSections
    {offset : Nat}
    {written : List (SectionType × List UInt8)}
    (fits : offset + (sectionBytes written).length < 2 ^ 64)
    {before : List UInt8}
    (atOffset : before.length = offset)
    (after : List UInt8)
    {sectionType : SectionType}
    {bytes : List UInt8}
    (member : (sectionType, bytes) ∈ written) :
    ∃ record ∈ writeSections digests offset written,
      record.sectionType = sectionType.toU16 ∧
      record.length.toNat = bytes.length ∧
      record.crc32c = digests.crc32c bytes ∧
      Bytes.slice (before ++ (sectionBytes written ++ after))
        record.offset.toNat record.length.toNat = bytes := by
  induction written generalizing offset before with
  | nil => simp at member
  | cons first rest inductionHypothesis =>
      have split : sectionBytes (first :: rest) =
          first.2 ++ sectionBytes rest := by simp [sectionBytes]
      rw [split, List.length_append] at fits
      rw [split]
      have offsetValue := @toNat_ofNat_of_lt offset (by omega)
      have lengthValue := @toNat_ofNat_of_lt first.2.length (by omega)
      rcases List.mem_cons.mp member with isFirst | inRest
      · subst isFirst
        refine ⟨_, List.mem_cons_self, rfl, lengthValue, rfl, ?_⟩
        simp only [sectionRecord, offsetValue, lengthValue, List.append_assoc]
        exact Bytes.slice_field before bytes _ atOffset rfl
      · obtain ⟨record, isRecord, isType, length, checksum, content⟩ :=
          @inductionHypothesis (offset + first.2.length) (by omega)
            (before ++ first.2) (by simp [atOffset]) inRest
        refine ⟨record, List.mem_cons_of_mem _ isRecord, isType, length,
          checksum, ?_⟩
        rwa [List.append_assoc, ← List.append_assoc first.2] at content

end Sections

/-! ## The container -/

/-- Sorted intervals that are pairwise apart follow each other. -/
theorem isChain_insertionSort_of_apart
    {intervals : List (Nat × Nat)}
    (ordered : ∀ interval ∈ intervals, interval.1 ≤ interval.2)
    (apart : intervals.Pairwise Apart) :
    (intervals.insertionSort rangeBefore).IsChain
      fun left right => left.2 ≤ right.1 := by
  have total : Std.Total rangeBefore := ⟨by
    intro left right
    unfold rangeBefore
    omega⟩
  have transitive : IsTrans (Nat × Nat) rangeBefore := ⟨by
    intro first second third
    unfold rangeBefore
    omega⟩
  have permuted := List.perm_insertionSort rangeBefore intervals
  have sorted := List.pairwise_insertionSort rangeBefore intervals
  have sortedApart : (intervals.insertionSort rangeBefore).Pairwise Apart :=
    (permuted.pairwise_iff (R := Apart) Apart.symm).mpr apart
  have sortedOrdered : ∀ interval ∈ intervals.insertionSort rangeBefore,
      interval.1 ≤ interval.2 :=
    fun interval member => ordered interval (permuted.mem_iff.mp member)
  refine List.Pairwise.isChain ?_
  refine (sorted.and sortedApart).imp_of_mem ?_
  rintro left right leftMember rightMember ⟨before, isApart⟩
  have leftOrdered := sortedOrdered left leftMember
  have rightOrdered := sortedOrdered right rightMember
  unfold rangeBefore at before
  unfold Apart at isApart
  omega

namespace ArchiveParts

variable (digests : Digests) (json : Json) (parts : ArchiveParts)

/-- The container that is read back. -/
def container : Container where
  header := parts.header digests json
  footer := parts.footer digests json
  directoryLength := UInt64.ofNat parts.directoryLength
  directoryEnd := UInt64.ofNat parts.payloadStart
  sections := collectSections (parts.sections digests json)

end ArchiveParts

section Container

variable
  {digests : Digests}
  {json : Json}
  {parts : ArchiveParts}

theorem ArchiveParts.directoryLength_le (parts : ArchiveParts) :
    parts.directoryLength = 192 ∨ parts.directoryLength = 224 := by
  unfold ArchiveParts.directoryLength ArchiveParts.sectionCount
  cases parts.registryBytes with
  | none => exact Or.inl rfl
  | some bytes => exact Or.inr rfl

theorem length_directory :
    (parts.directory digests json).length = parts.directoryLength := by
  unfold ArchiveParts.directory
  rw [List.length_flatMap]
  simp [ArchiveParts.directoryLength, length_sections]

theorem length_metadata :
    (parts.metadata json).length =
      (sectionBytes (parts.frontSections json)).length +
        (sectionBytes (parts.backSections json)).length := by
  simp [ArchiveParts.metadata, ArchiveParts.metadataSections, sectionBytes]

@[simp] theorem length_body :
    (parts.body digests json).length = parts.footerOffset json := by
  simp only [ArchiveParts.body, List.length_append, length_directory,
    GlobalHeader.length_encode, ArchiveParts.footerOffset,
    ArchiveParts.payloadEnd, ArchiveParts.payloadStart]
  omega

/-- The payload record and the metadata records together tile the area between
the directory and the footer. -/
theorem tiles_collected
    (fits : parts.footerOffset json < 2 ^ 64) :
    ∃ ordered : List SectionDirectoryRecord,
      ordered.Perm (parts.collected digests json) ∧
      Tiles parts.payloadStart (ordered.map SectionDirectoryRecord.segment)
        (parts.footerOffset json) := by
  have total := @length_metadata json parts
  unfold ArchiveParts.footerOffset at fits ⊢
  have front := @tiles_writeSections digests parts.payloadEnd
    (parts.frontSections json) (by omega)
  have back := @tiles_writeSections digests
    (parts.payloadEnd + (sectionBytes (parts.frontSections json)).length)
    (parts.backSections json) (by omega)
  refine ⟨parts.payloadRecord digests ::
    (writeSections digests parts.payloadEnd (parts.frontSections json) ++
      writeSections digests
        (parts.payloadEnd + (sectionBytes (parts.frontSections json)).length)
        (parts.backSections json)), ?_, ?_⟩
  · exact List.perm_middle.symm
  · have startValue := @toNat_ofNat_of_lt parts.payloadStart (by
      unfold ArchiveParts.payloadEnd at fits
      omega)
    have lengthValue := @toNat_ofNat_of_lt parts.payloadBytes.length (by
      unfold ArchiveParts.payloadEnd at fits
      omega)
    simp only [List.map_cons, List.map_append, tiles_cons,
      ArchiveParts.payloadRecord, SectionDirectoryRecord.segment, startValue,
      lengthValue, true_and]
    refine tiles_append.mpr ⟨_, front, ?_⟩
    rwa [total, ← Nat.add_assoc]

theorem validateSectionRanges_sections
    (fits : parts.footerOffset json < 2 ^ 64) :
    validateSectionRanges (collectSections (parts.sections digests json))
      (UInt64.ofNat parts.payloadStart)
      (UInt64.ofNat (parts.footerOffset json)) = .ok () := by
  obtain ⟨ordered, permuted, tiles⟩ := @tiles_collected digests json parts fits
  have bounds := tiles.le
  have startValue := @toNat_ofNat_of_lt parts.payloadStart (by omega)
  have endValue := toNat_ofNat_of_lt fits
  have same : (collectSections (parts.sections digests json)).Perm ordered := by
    refine (collectSections_perm _).trans ?_
    rw [sections_eq_collected]
    exact permuted.symm
  rw [validateSectionRanges_eq_ok]
  constructor
  · intro record member
    have inside := tiles.inside
      (List.mem_map_of_mem (same.mem_iff.mp member))
    unfold SectionDirectoryRecord.segment at inside
    constructor
    · rw [startValue]
      exact inside.1
    · rw [endValue]
      exact inside.2
  · refine isChain_insertionSort_of_apart ?_ ?_
    · intro interval member
      obtain ⟨record, _, rfl⟩ := List.mem_map.mp member
      exact Nat.le_add_right _ _
    · refine ((same.map _).pairwise_iff (R := Apart) Apart.symm).mpr ?_
      rw [List.pairwise_map]
      refine (List.pairwise_map.mp tiles.pairwise).imp ?_
      intro left right before
      exact Or.inl before

section Sealed

variable
  {footerBytes : List UInt8}
  {limits : DecodeLimits}

theorem slice_header :
    Bytes.slice (parts.body digests json ++ footerBytes) 0 headerLen =
      (parts.header digests json).encode digests := by
  simp only [ArchiveParts.body, List.append_assoc]
  exact Bytes.slice_head _ (GlobalHeader.length_encode _ _)

theorem slice_directory :
    Bytes.slice (parts.body digests json ++ footerBytes) headerLen
      parts.directoryLength = parts.directory digests json := by
  simp only [ArchiveParts.body, List.append_assoc]
  exact Bytes.slice_field _ _ _ (GlobalHeader.length_encode _ _)
    length_directory

theorem slice_footer
    (footerLength : footerBytes.length = footerLen) :
    Bytes.slice (parts.body digests json ++ footerBytes)
      (parts.footerOffset json) footerLen = footerBytes := by
  have field := Bytes.slice_field (parts.body digests json) footerBytes []
    length_body footerLength
  rwa [List.append_nil] at field

theorem directoryRecords_eq
    {container : Container}
    (length : container.directoryLength.toNat = parts.directoryLength) :
    directoryRecords (parts.body digests json ++ footerBytes) container =
      parts.sections digests json := by
  unfold directoryRecords directoryBytes
  rw [length, slice_directory, ArchiveParts.directory,
    Bytes.chunksExact_flatMap (by decide) SectionDirectoryRecord.length_encode,
    List.map_map]
  conv_rhs => rw [← List.map_id (parts.sections digests json)]
  exact List.map_congr_left fun record _ => record.decode_encode

theorem sectionOk_sections :
    ∀ record ∈ parts.sections digests json, SectionOk record := by
  have written (offset : Nat) (items : List (SectionType × List UInt8))
      (known : ∀ item ∈ items,
        item.1 ∈ rawSectionTypes ∨ item.1 = .codecRegistry) :
      ∀ record ∈ writeSections digests offset items, SectionOk record := by
    induction items generalizing offset with
    | nil => simp [writeSections]
    | cons first rest inductionHypothesis =>
        intro record member
        rcases List.mem_cons.mp member with rfl | inRest
        · exact ⟨rfl, rfl, rfl, first.1, SectionType.fromU16_toU16 _,
            known first (by simp)⟩
        · exact inductionHypothesis _
            (fun item inItems => known item (by simp [inItems])) record inRest
  intro record member
  rw [sections_eq_collected, ArchiveParts.collected] at member
  rcases List.mem_append.mp member with inFront | inRest
  · refine written _ _ ?_ record inFront
    intro item isItem
    unfold ArchiveParts.frontSections at isItem
    cases isRegistry : parts.registryBytes <;>
      simp only [isRegistry, Option.map_none, Option.map_some,
        Option.toList_none, Option.toList_some, List.nil_append,
        List.cons_append, List.mem_cons, List.not_mem_nil, or_false] at isItem
    · rcases isItem with rfl | rfl <;> exact Or.inl (by simp [rawSectionTypes])
    · rcases isItem with rfl | rfl | rfl
      · exact Or.inr rfl
      · exact Or.inl (by simp [rawSectionTypes])
      · exact Or.inl (by simp [rawSectionTypes])
  · rcases List.mem_cons.mp inRest with rfl | inBack
    · exact ⟨rfl, rfl, rfl, .payloadArea,
        SectionType.fromU16_toU16 .payloadArea, Or.inl (by decide)⟩
    · refine written _ _ ?_ record inBack
      intro item isItem
      simp only [ArchiveParts.backSections, List.mem_cons, List.not_mem_nil,
        or_false] at isItem
      rcases isItem with rfl | rfl | rfl <;>
        exact Or.inl (by simp [rawSectionTypes])

theorem toNat_directoryLength :
    (UInt64.ofNat parts.directoryLength).toNat = parts.directoryLength := by
  have small := parts.directoryLength_le
  exact toNat_ofNat_of_lt (by omega)

theorem toNat_payloadStart :
    (UInt64.ofNat parts.payloadStart).toNat =
      headerLen + parts.directoryLength := by
  have small := parts.directoryLength_le
  exact toNat_ofNat_of_lt (by
    unfold ArchiveParts.payloadStart headerLen
    omega)

theorem length_sealed (footerLength : footerBytes.length = footerLen) :
    (parts.body digests json ++ footerBytes).length =
      parts.footerOffset json + footerLen := by
  rw [List.length_append, length_body, footerLength]

/-- The footer is found where the header says. -/
theorem decode_slice_footer
    (fits : parts.footerOffset json + footerLen < 2 ^ 64)
    (footerLength : footerBytes.length = footerLen)
    (footerDecoded : Footer.decode digests footerBytes =
      .ok (parts.footer digests json)) :
    Footer.decode digests (Bytes.slice
        (parts.body digests json ++ footerBytes)
        (parts.header digests json).footerOffset.toNat footerLen) =
      .ok (parts.footer digests json) := by
  change Footer.decode digests (Bytes.slice _
    (UInt64.ofNat (parts.footerOffset json)).toNat footerLen) = _
  rw [toNat_ofNat_of_lt (by omega), slice_footer footerLength]
  exact footerDecoded

/-- Every section that an archive must have is among those written. -/
theorem findSection_isSome
    {sectionType : SectionType}
    (required : sectionType ∈ rawSectionTypes) :
    (findSection (collectSections (parts.sections digests json))
      sectionType).isSome := by
  rw [Option.isSome_iff_ne_none, ne_eq, findSection_eq_none, not_not]
  have types : (sectionTypes (collectSections
      (parts.sections digests json))).Perm
      (sectionTypes (parts.sections digests json)) :=
    (collectSections_perm _).map _
  rw [types.mem_iff, sections_eq_collected, sectionTypes_collected]
  exact List.mem_append_right _ (List.mem_map_of_mem required)

/-- A container read from an assembled archive is that of its parts. -/
theorem ContainerOk.eq_assembled
    (fits : parts.footerOffset json + footerLen < 2 ^ 64)
    (footerLength : footerBytes.length = footerLen)
    (footerDecoded : Footer.decode digests footerBytes =
      .ok (parts.footer digests json))
    {container : Container}
    (ok : ContainerOk digests (parts.body digests json ++ footerBytes) limits
      container) :
    container = parts.container digests json := by
  have headerEq : parts.header digests json = container.header := by
    have sameHeader := ok.header
    rw [slice_header, (parts.header digests json).decode_encode digests rfl
      (UInt16.le_refl minorVersion)] at sameHeader
    exact Except.ok.inj sameHeader
  have footerEq : parts.footer digests json = container.footer := by
    have sameFooter := ok.footer
    rw [← headerEq, decode_slice_footer fits footerLength footerDecoded]
      at sameFooter
    exact Except.ok.inj sameFooter
  have directoryLength : container.directoryLength.toNat =
      parts.directoryLength := by
    rw [ok.directoryLength, ← headerEq]
    rfl
  have sections := ok.sections
  rw [directoryRecords_eq directoryLength] at sections
  have finish := ok.directoryEnd
  rw [directoryLength] at finish
  obtain ⟨header, footer, length, directoryEnd, found⟩ := container
  simp only [ArchiveParts.container, Container.mk.injEq]
  refine ⟨headerEq.symm, footerEq.symm, ?_, ?_, sections⟩
  · rw [← UInt64.toNat_inj, toNat_directoryLength]
    exact directoryLength
  · rw [← UInt64.toNat_inj, toNat_payloadStart]
    exact finish

/-- The container of an assembled archive is read, within the limits. -/
theorem containerOk_assembled
    (fits : parts.footerOffset json + footerLen < 2 ^ 64)
    (footerLength : footerBytes.length = footerLen)
    (footerDecoded : Footer.decode digests footerBytes =
      .ok (parts.footer digests json))
    (headerLimits : HeaderOk (parts.header digests json)
      (parts.footerOffset json + footerLen) limits)
    (directoryLimit : parts.directoryLength ≤ limits.maxMetadataBytes.toNat) :
    ContainerOk digests (parts.body digests json ++ footerBytes) limits
      (parts.container digests json) := by
  have offsetValue := @toNat_ofNat_of_lt (parts.footerOffset json) (by omega)
  have records : directoryRecords (parts.body digests json ++ footerBytes)
      (parts.container digests json) = parts.sections digests json :=
    directoryRecords_eq toNat_directoryLength
  exact {
    header := by
      rw [slice_header]
      exact (parts.header digests json).decode_encode digests rfl
        (UInt16.le_refl minorVersion)
    headerLimits := by rwa [length_sealed footerLength]
    footer := decode_slice_footer fits footerLength footerDecoded
    archiveLength := by
      rw [length_sealed footerLength]
      exact toNat_ofNat_of_lt fits
    version := rfl
    footerAtEnd := by
      rw [length_sealed footerLength]
      change (UInt64.ofNat (parts.footerOffset json)).toNat + footerLen = _
      rw [offsetValue]
    directoryOffset := rfl
    directoryLength := toNat_directoryLength
    directoryEnd := by
      change (UInt64.ofNat parts.payloadStart).toNat =
        headerLen + (UInt64.ofNat parts.directoryLength).toNat
      rw [toNat_payloadStart, toNat_directoryLength]
    directoryInside := by
      rw [UInt64.le_iff_toNat_le]
      change (UInt64.ofNat parts.payloadStart).toNat ≤
        (UInt64.ofNat (parts.footerOffset json)).toNat
      rw [toNat_payloadStart, offsetValue]
      unfold ArchiveParts.footerOffset ArchiveParts.payloadEnd
        ArchiveParts.payloadStart
      omega
    directoryLimit := by
      rw [UInt64.le_iff_toNat_le]
      change (UInt64.ofNat parts.directoryLength).toNat ≤ _
      rwa [toNat_directoryLength]
    directoryCrc := by
      unfold directoryBytes
      change digests.crc32c (Bytes.slice _ headerLen
        (UInt64.ofNat parts.directoryLength).toNat) = _
      rw [toNat_directoryLength, slice_directory]
      rfl
    records := by
      rw [records]
      exact sectionOk_sections
    distinct := by
      rw [records]
      exact sectionTypes_nodup
    sections := by
      rw [records]
      rfl
    required := fun _ required => findSection_isSome required
    ranges := validateSectionRanges_sections (by omega) }

/-- The container of an assembled archive is read back, within the limits. -/
theorem containerOk_iff
    (fits : parts.footerOffset json + footerLen < 2 ^ 64)
    (footerLength : footerBytes.length = footerLen)
    (footerDecoded : Footer.decode digests footerBytes =
      .ok (parts.footer digests json))
    {container : Container} :
    ContainerOk digests (parts.body digests json ++ footerBytes) limits
        container ↔
      container = parts.container digests json ∧
        HeaderOk (parts.header digests json)
          (parts.footerOffset json + footerLen) limits ∧
        parts.directoryLength ≤ limits.maxMetadataBytes.toNat := by
  constructor
  · intro ok
    have same := ok.eq_assembled fits footerLength footerDecoded
    subst same
    have headerLimits := ok.headerLimits
    rw [length_sealed footerLength] at headerLimits
    have limit := UInt64.le_iff_toNat_le.mp ok.directoryLimit
    change (UInt64.ofNat parts.directoryLength).toNat ≤ _ at limit
    rw [toNat_directoryLength] at limit
    exact ⟨rfl, headerLimits, limit⟩
  · rintro ⟨rfl, headerLimits, limit⟩
    exact containerOk_assembled fits footerLength footerDecoded headerLimits
      limit

end Sealed

end Container

end Pithos
