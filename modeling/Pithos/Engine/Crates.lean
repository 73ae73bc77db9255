import Pithos.Library.Blake3
import Pithos.Library.Crc32c
import Pithos.Format.Text
import Pithos.Engine.Corruption
import Pithos.Engine.Pack.Readback

/-!
# The crates of the engine

CRC32C and BLAKE3 as they are, and the JSON text of the tables.  Around one
archive they are backends that the engine can run with: the JSON reader knows
the text of the archive's own tables.
-/

namespace Pithos

open Fallible
open Machine
open JsonText
open Bytes
open HostPath

/-- CRC32C and BLAKE3. -/
def Digests.crates : Digests where
  crc32c := Crc32c.checksum
  crc32cAppend := Crc32c.append
  blake3 bytes := Bytes.takeFixed 32 (Blake3.hash bytes)

theorem Digests.crates_lawful : Digests.crates.Lawful where
  crc32c_nil := Crc32c.checksum_nil
  crc32cAppend_crc32c := Crc32c.append_checksum

theorem Digests.crates_detectsOneByte : Digests.crates.DetectsOneByte :=
  fun _ _ change => Crc32c.checksum_ne_of_oneByteChange change

namespace ArchiveParts

/-- The crates around one uncompressed archive. -/
def crates (parts : ArchiveParts) : Backends where
  digests := .crates
  json := {
    entries := .knowing (fun table => array (table.map EntryRecord.text))
      parts.entries
    groups := .knowing (fun table => array (table.map GroupTableRecord.text))
      parts.groups
    restoreMap := .knowing
      (fun table => array (table.map RestoreMapRecord.text)) parts.restoreMap
    centralIndex := .knowing
      (fun table => array (table.map CentralIndexRecord.text))
      (parts.entries.map EntryRecord.indexRow)
    integrity := .knowing
      (fun table => array (table.map IntegrityRecord.text))
      (parts.entries.map EntryRecord.integrityRow)
    linkTarget := .knowing LinkTarget.text ⟨[]⟩ }
  codecs := {
    compress := fun _ _ _ => .error .unsupportedCodec
    decompress := fun _ _ => .error .unsupportedCodec }

theorem readsBack_crates (parts : ArchiveParts) :
    parts.ReadsBack parts.crates.json where
  entries := JsonCodec.readsBack_knowing _ _
  groups := JsonCodec.readsBack_knowing _ _
  restoreMap := JsonCodec.readsBack_knowing _ _
  centralIndex := JsonCodec.readsBack_knowing _ _
  integrity := JsonCodec.readsBack_knowing _ _

/-- The payload where it stands, after a blank header. -/
def payloadAlone (parts : ArchiveParts) : List UInt8 :=
  List.replicate parts.payloadStart 0 ++ parts.payloadBytes

/-- A group inside the payload section is decoded from the payload alone. -/
theorem decodeGroup_payloadAlone
    {backends : Backends}
    {parts : ArchiveParts}
    {footerBytes : List UInt8}
    {record : GroupTableRecord}
    (afterStart : parts.payloadStart ≤ record.payloadOffset.toNat)
    (beforeEnd : record.payloadOffset.toNat +
      record.group.compressedLen.toNat ≤ parts.payloadEnd)
    (registry : Option CodecRegistry)
    (limits : DecodeLimits) :
    decodeGroup backends
        (parts.body backends.digests backends.json ++ footerBytes) record
        registry limits =
      decodeGroup backends parts.payloadAlone record registry limits := by
  have same : Bytes.slice
      (parts.body backends.digests backends.json ++ footerBytes)
      record.payloadOffset.toNat record.group.compressedLen.toNat =
      Bytes.slice parts.payloadAlone record.payloadOffset.toNat
        record.group.compressedLen.toNat := by
    rw [slice_payload afterStart beforeEnd, payloadAlone,
      Bytes.slice_append_right (by simpa using afterStart),
      List.length_replicate]
  simp only [decodeGroup, readExactVec, readExact, same]

/-- An accepted group lies inside the payload. -/
theorem inPayload_of_groupOk
    {digests : Digests}
    {json : Json}
    {parts : ArchiveParts}
    (fits : parts.footerOffset json + footerLen < 2 ^ 64)
    {registry : Option CodecRegistry}
    {limits : DecodeLimits}
    {position : Nat}
    {record : GroupTableRecord}
    (groupOk : GroupOk limits (parts.tables digests registry)
      ((parts.payloadRecord digests).offset +
        (parts.payloadRecord digests).length) position record) :
    parts.payloadStart ≤ record.payloadOffset.toNat ∧
      record.payloadOffset.toNat + record.group.compressedLen.toNat ≤
        parts.payloadEnd := by
  have upperBound : parts.payloadStart + parts.payloadBytes.length ≤
      parts.footerOffset json := by
    unfold footerOffset payloadEnd
    omega
  have startValue : (UInt64.ofNat parts.payloadStart).toNat =
      parts.payloadStart := toNat_ofNat_of_lt (by omega)
  have lengthValue : (UInt64.ofNat parts.payloadBytes.length).toNat =
      parts.payloadBytes.length := toNat_ofNat_of_lt (by omega)
  have afterStart : (UInt64.ofNat parts.payloadStart).toNat ≤
      record.payloadOffset.toNat := UInt64.le_iff_toNat_le.mp groupOk.afterStart
  have beforeEnd : record.payloadOffset.toNat +
      record.group.compressedLen.toNat ≤ (UInt64.ofNat parts.payloadStart +
        UInt64.ofNat parts.payloadBytes.length).toNat := groupOk.beforeEnd
  rw [UInt64.toNat_add, startValue, lengthValue,
    Nat.mod_eq_of_lt (by omega)] at beforeEnd
  rw [startValue] at afterStart
  exact ⟨afterStart, beforeEnd⟩

/-- What is left to check of an uncompressed archive once it is known how it
was assembled. -/
def checks (parts : ArchiveParts) (limits : DecodeLimits) : Result Unit := do
  ensure (parts.footerOffset parts.crates.json + footerLen < 2 ^ 64)
    .integerOverflow
  ensure (parts.directoryLength + (parts.metadata parts.crates.json).length ≤
    limits.maxMetadataBytes.toNat) (.resourceLimit "metadata bytes")
  validateHeaderLimits (parts.header .crates parts.crates.json)
    (parts.footerOffset parts.crates.json + footerLen) limits
  let _ ← checkTables limits (parts.header .crates parts.crates.json)
    (parts.tables .crates none)
  forEnum (verifyGroup parts.crates parts.payloadAlone limits
    (parts.parsed parts.crates none)) 0 parts.groups ()

/-- An assembled archive that passes these checks is verified. -/
theorem verifyOpenFile_of_checks
    {parts : ArchiveParts}
    (isRaw : parts.registryBytes = none)
    {footerBytes : List UInt8}
    (footerLength : footerBytes.length = footerLen)
    (footerDecoded : Footer.decode .crates footerBytes =
      .ok (parts.footer .crates parts.crates.json))
    {limits : DecodeLimits}
    (checked : parts.checks limits = .ok ()) :
    verifyOpenFile parts.crates
        (parts.body .crates parts.crates.json ++ footerBytes) limits =
      .ok (parts.parsed parts.crates none).withRoot := by
  simp only [checks, bind_eq_ok, ensure_eq_ok, exists_const,
    validateHeaderLimits_eq_ok, checkTables_eq_ok,
    forEnum_unit_eq_ok (@verifyGroup_eq_ok parts.crates _ limits _)]
    at checked
  obtain ⟨fits, metadata, header, _, ⟨tables, _⟩, groups⟩ := checked
  refine (verifyOpenFile_parts Digests.crates_lawful parts.readsBack_crates
    fits footerLength footerDecoded).mpr ⟨none, ?_, ?_, rfl⟩
  · refine ⟨header, metadata, ?_, tables⟩
    rw [readRegistry, isRaw]
  · intro record member
    obtain ⟨decoded, isDecoded, restores⟩ := groups record member
    obtain ⟨position, atPosition⟩ := List.mem_iff_getElem?.mp member
    have groupOk := tables.groups position record atPosition
    obtain ⟨afterStart, beforeEnd⟩ := inPayload_of_groupOk fits groupOk
    refine ⟨decoded, ?_, restores⟩
    exact (decodeGroup_payloadAlone afterStart beforeEnd _ limits).trans
      isDecoded

end ArchiveParts

/-! ## A small archive -/

/-- A component of UTF-8 text. -/
def utf8Component (name : String) : PathComponent :=
  ⟨.utf8, textBytes name⟩

/-- A directory entry without metadata. -/
def directoryEntry (entryId : UInt64) (path : List PathComponent) :
    EntryRecord where
  entryId := entryId
  path := ⟨path⟩
  size := 0
  modifiedNs := 0
  mode := 0o755
  blake3 := zeros 32
  kind := .directory

/-- A link to a directory. -/
def linkEntry
    (entryId : UInt64)
    (path : List PathComponent)
    (target : List LinkComponent) : EntryRecord where
  entryId := entryId
  path := ⟨path⟩
  size := 0
  modifiedNs := 0
  mode := 0o777
  blake3 := zeros 32
  kind := .symlink ⟨target⟩ true

/-- An archive without files. -/
def partsWithoutFiles (entries : List EntryRecord) : ArchiveParts where
  entries := entries
  groups := []
  restoreMap := []
  registryBytes := none
  payload := []
  originalTotalSize := 0

/-- A directory, a file of one byte in it, and a link to the directory. -/
def sampleParts : ArchiveParts where
  entries := [
    directoryEntry 0 [utf8Component "d"],
    { entryId := 1
      path := ⟨[utf8Component "d", utf8Component "f"]⟩
      size := 1
      modifiedNs := 0
      mode := 0o644
      blake3 := Digests.crates.blake3 [0x61]
      kind := .file 0 },
    linkEntry 2 [utf8Component "l"] [.normal (utf8Component "d")]]
  groups := [
    { group := {
        version := 1
        flags := 0
        groupId := 0
        codecChainId := 0
        chunkCount := 1
        uncompressedLen := 1
        compressedLen := 1
        descriptorLen := 0
        payloadCrc32c := Digests.crates.crc32c [0x61] }
      payloadOffset := 288 }]
  restoreMap := [
    { entryId := 1
      originalOffset := 0
      length := 1
      groupId := 0
      groupOffset := 0 }]
  registryBytes := none
  payload := [[0x61]]
  originalTotalSize := 1

namespace ArchiveParts

/-- The archive as the packer writes it. -/
def archive (parts : ArchiveParts) : List UInt8 :=
  parts.assemble .crates parts.crates.json

/-- What verification reads from the archive. -/
def verified (parts : ArchiveParts) : ParsedArchive :=
  (parts.parsed parts.crates none).withRoot

theorem verified_footerOffset_le (parts : ArchiveParts) :
    parts.verified.footerOffset.toNat ≤
      parts.footerOffset parts.crates.json :=
  Nat.mod_le (parts.footerOffset parts.crates.json) (2 ^ 64)

theorem verifyOpenFile_archive
    {parts : ArchiveParts}
    (isRaw : parts.registryBytes = none)
    (checked : parts.checks .default = .ok ()) :
    verifyOpenFile parts.crates parts.archive .default =
      .ok parts.verified :=
  verifyOpenFile_of_checks isRaw (Footer.length_encode _ _)
    (Footer.decode_encode _ _) checked

/-- What is left to check of the catalog of an archive, compressed or not, once
it is known how it was assembled. -/
def catalogChecks (parts : ArchiveParts) (limits : DecodeLimits) :
    Result Unit := do
  ensure (parts.footerOffset parts.crates.json + footerLen < 2 ^ 64)
    .integerOverflow
  ensure (parts.directoryLength + (parts.metadata parts.crates.json).length ≤
    limits.maxMetadataBytes.toNat) (.resourceLimit "metadata bytes")
  validateHeaderLimits (parts.header .crates parts.crates.json)
    (parts.footerOffset parts.crates.json + footerLen) limits
  let registry ← parts.readRegistry
  let _ ← checkTables limits (parts.header .crates parts.crates.json)
    (parts.tables .crates registry)
  .ok ()

theorem acceptable_of_checks
    {parts : ArchiveParts}
    {limits : DecodeLimits}
    (checked : parts.catalogChecks limits = .ok ()) :
    parts.footerOffset parts.crates.json + footerLen < 2 ^ 64 ∧
      ∃ registry, parts.Acceptable parts.crates limits registry := by
  simp only [catalogChecks, bind_eq_ok, ensure_eq_ok, exists_const,
    validateHeaderLimits_eq_ok, checkTables_eq_ok] at checked
  obtain ⟨fits, metadata, header, registry, registryRead, _, ⟨tables, _⟩, _⟩ :=
    checked
  exact ⟨fits, registry, header, metadata, registryRead, tables⟩

/-- An assembled archive that passes these checks has a catalog. -/
theorem readCatalog_of_checks
    {parts : ArchiveParts}
    {limits : DecodeLimits}
    (checked : parts.catalogChecks limits = .ok ()) :
    ∃ registry, readCatalog parts.crates parts.archive limits =
      .ok (parts.parsed parts.crates registry) := by
  obtain ⟨fits, registry, acceptable⟩ := acceptable_of_checks checked
  exact ⟨registry, (readCatalog_parts parts.readsBack_crates fits
    (Footer.length_encode _ _) (Footer.decode_encode _ _)).mpr
      ⟨registry, acceptable, rfl⟩⟩

/-- An archive with a catalog whose groups are verified from the payload alone is
verified. -/
theorem verifyOpenFile_of_catalogChecks
    {parts : ArchiveParts}
    {limits : DecodeLimits}
    (checked : parts.catalogChecks limits = .ok ())
    (groups : ∀ registry, parts.readRegistry = .ok registry →
      ∀ record ∈ parts.groups, GroupVerified parts.crates parts.payloadAlone
        limits (parts.parsed parts.crates registry) record) :
    ∃ registry, parts.readRegistry = .ok registry ∧
      verifyOpenFile parts.crates parts.archive limits =
        .ok (parts.parsed parts.crates registry).withRoot := by
  obtain ⟨fits, registry, acceptable⟩ := acceptable_of_checks checked
  refine ⟨registry, acceptable.registryRead,
    (verifyOpenFile_parts Digests.crates_lawful parts.readsBack_crates fits
      (Footer.length_encode _ _) (Footer.decode_encode _ _)).mpr
      ⟨registry, acceptable, ?_, rfl⟩⟩
  intro record member
  obtain ⟨decoded, isDecoded, restores⟩ :=
    groups registry acceptable.registryRead record member
  obtain ⟨position, atPosition⟩ := List.mem_iff_getElem?.mp member
  obtain ⟨afterStart, beforeEnd⟩ := inPayload_of_groupOk fits
    (acceptable.tables.groups position record atPosition)
  refine ⟨decoded, ?_, restores⟩
  exact (decodeGroup_payloadAlone afterStart beforeEnd _ limits).trans isDecoded

end ArchiveParts

/-- The digest of the file of the sample. -/
theorem sampleDigest : Digests.crates.blake3 [0x61] =
    ⟨[0x17, 0x76, 0x2F, 0xDD, 0xD9, 0x69, 0xA4, 0x53,
      0x92, 0x5D, 0x65, 0x71, 0x7A, 0xC3, 0xEE, 0xA2,
      0x13, 0x20, 0xB6, 0x6B, 0x54, 0x34, 0x2F, 0xDE,
      0x15, 0x12, 0x8D, 0x6C, 0xAF, 0x21, 0x21, 0x5F], rfl⟩ := by
  decide +kernel

theorem sampleParts_checks : sampleParts.checks .default = .ok () := by
  unfold sampleParts
  rw [sampleDigest]
  decide +kernel

theorem sampleParts_verified :
    verifyOpenFile sampleParts.crates sampleParts.archive .default =
      .ok sampleParts.verified :=
  ArchiveParts.verifyOpenFile_archive rfl sampleParts_checks

end Pithos
