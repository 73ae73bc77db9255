import Pithos.Core

/-!
# Fixed records of the container

The global header, the section directory, the codec registry and the footer,
with their byte layouts.  All fixed integers are little-endian.  The header and
the footer carry a CRC32C of their own bytes outside the checksum field.

The checksum and hash functions come from other crates; they are parameters,
collected in `Digests`.
-/

namespace Pithos

open Machine
open Fallible

/-- A BLAKE3 digest. -/
abbrev Digest := Bytes.Fixed 32

/-- The checksum and hash functions of the crates the archiver links. -/
structure Digests where
  crc32c : List UInt8 → UInt32
  crc32cAppend : UInt32 → List UInt8 → UInt32
  blake3 : List UInt8 → Digest

/-- What the checksum crate documents: appending to the checksum of a prefix
gives the checksum of the whole, and the checksum of nothing is zero. -/
structure Digests.Lawful (digests : Digests) : Prop where
  crc32c_nil : digests.crc32c [] = 0
  crc32cAppend_crc32c : ∀ first second,
    digests.crc32cAppend (digests.crc32c first) second =
      digests.crc32c (first ++ second)

/-- `UDOC\r\n\x1A\n`. -/
def globalMagic : List UInt8 := [0x55, 0x44, 0x4F, 0x43, 0x0D, 0x0A, 0x1A, 0x0A]

/-- `UFTR`. -/
def footerMagic : List UInt8 := [0x55, 0x46, 0x54, 0x52]

/-- `HEADER_LEN`. -/
def headerLen : Nat := 96

/-- `FOOTER_LEN`. -/
def footerLen : Nat := 64

/-- `SECTION_ENTRY_LEN`. -/
def sectionEntryLen : Nat := 32

/-- `CODEC_REGISTRY_RECORD_LEN`. -/
def codecRegistryRecordLen : Nat := 16

/-- `CODEC_FLAG_REQUIRED`. -/
def codecFlagRequired : UInt32 := 1

/-- `REQUIRED_RAW_SECTIONS`. -/
def requiredRawSections : UInt32 := 6

/-- `REQUIRED_COMPRESSED_SECTIONS`. -/
def requiredCompressedSections : UInt32 := 7

/-- The major version of the format. -/
def majorVersion : UInt16 := 0

/-- The minor version of the format. -/
def minorVersion : UInt16 := 1

/-- The section types of the container. -/
inductive SectionType
  | codecRegistry
  | entryTable
  | objectGraph
  | baseDictionaryArea
  | groupTable
  | payloadArea
  | restoreMap
  | centralIndex
  | integrityTree
  | optionalTelemetry
  deriving DecidableEq, Repr

namespace SectionType

/-- The number of a section type in the directory. -/
def toU16 : SectionType → UInt16
  | codecRegistry => 1
  | entryTable => 2
  | objectGraph => 3
  | baseDictionaryArea => 4
  | groupTable => 5
  | payloadArea => 6
  | restoreMap => 7
  | centralIndex => 8
  | integrityTree => 9
  | optionalTelemetry => 10

/-- The section type with a given number. -/
def fromU16 (value : UInt16) : Option SectionType :=
  match value.toNat with
  | 1 => some codecRegistry
  | 2 => some entryTable
  | 3 => some objectGraph
  | 4 => some baseDictionaryArea
  | 5 => some groupTable
  | 6 => some payloadArea
  | 7 => some restoreMap
  | 8 => some centralIndex
  | 9 => some integrityTree
  | 10 => some optionalTelemetry
  | _ => none

@[simp] theorem fromU16_toU16 (sectionType : SectionType) :
    fromU16 sectionType.toU16 = some sectionType := by
  cases sectionType <;> rfl

theorem toU16_injective : Function.Injective toU16 := by
  intro left right equal
  have decoded := congrArg fromU16 equal
  simpa using decoded

theorem toU16_of_fromU16
    {value : UInt16}
    {sectionType : SectionType}
    (decoded : fromU16 value = some sectionType) :
    sectionType.toU16 = value := by
  rw [← UInt16.toNat_inj]
  unfold fromU16 at decoded
  split at decoded <;> cases decoded <;> simp_all [toU16]

end SectionType

/-! ## Global header -/

/-- The first bytes of an archive. -/
structure GlobalHeader where
  major : UInt16
  minor : UInt16
  flags : UInt64
  archiveId : Bytes.Fixed 16
  originalTotalSize : UInt64
  entryCount : UInt64
  logicalChunkCount : UInt64
  groupCount : UInt64
  sectionDirectoryOffset : UInt64
  footerOffset : UInt64
  sectionCount : UInt32
  deriving DecidableEq

namespace GlobalHeader

/-- A header of the current version with nothing counted yet. -/
def new (archiveId : Bytes.Fixed 16) : GlobalHeader where
  major := majorVersion
  minor := minorVersion
  flags := 0
  archiveId := archiveId
  originalTotalSize := 0
  entryCount := 0
  logicalChunkCount := 0
  groupCount := 0
  sectionDirectoryOffset := UInt64.ofNat headerLen
  footerOffset := 0
  sectionCount := requiredRawSections

/-- The header bytes before the checksum field. -/
def encodeFront (header : GlobalHeader) : List UInt8 :=
  globalMagic ++ (le16 header.major ++ (le16 header.minor ++
    (le32 (UInt32.ofNat headerLen) ++ (le64 header.flags ++
    (header.archiveId.val ++ (le64 header.originalTotalSize ++
    (le64 header.entryCount ++ (le64 header.logicalChunkCount ++
    (le64 header.groupCount ++ (le64 header.sectionDirectoryOffset ++
      le64 header.footerOffset))))))))))

/-- The checksum over everything but the checksum field. -/
def headerCrc (digests : Digests) (buffer : List UInt8) : UInt32 :=
  digests.crc32cAppend (digests.crc32c (buffer.take 88))
    (Bytes.slice buffer 92 4)

/-- The header as bytes.  The checksum field at `88..92` stands before the
section count. -/
def encode (digests : Digests) (header : GlobalHeader) : List UInt8 :=
  let front := header.encodeFront
  let tail := le32 header.sectionCount
  let crc := headerCrc digests (front ++ (le32 0 ++ tail))
  front ++ (le32 crc ++ tail)

/-- Read a header, checking its magic, its checksum and its version. -/
def decode (digests : Digests) (buffer : List UInt8) :
    Result GlobalHeader := do
  ensure (buffer.take 8 = globalMagic) .invalidMagic
  ensure (readU32 buffer 88 = headerCrc digests buffer) .checksumMismatch
  ensure ((readU32 buffer 12).toNat = headerLen ∧
    readU16 buffer 8 = majorVersion ∧ readU16 buffer 10 ≤ minorVersion)
    .unsupportedContainerVersion
  .ok {
    major := readU16 buffer 8
    minor := readU16 buffer 10
    flags := readU64 buffer 16
    archiveId := Bytes.takeFixed 16 (Bytes.slice buffer 24 16)
    originalTotalSize := readU64 buffer 40
    entryCount := readU64 buffer 48
    logicalChunkCount := readU64 buffer 56
    groupCount := readU64 buffer 64
    sectionDirectoryOffset := readU64 buffer 72
    footerOffset := readU64 buffer 80
    sectionCount := readU32 buffer 92 }

@[simp] theorem length_encodeFront (header : GlobalHeader) :
    header.encodeFront.length = 88 := by
  simp [encodeFront, globalMagic, header.archiveId.property]

@[simp] theorem length_encode
    (digests : Digests)
    (header : GlobalHeader) :
    (header.encode digests).length = headerLen := by
  simp [encode, headerLen]

/-- The checksum does not see the checksum field. -/
theorem headerCrc_congr
    (digests : Digests)
    {front tail : List UInt8}
    (frontLength : front.length = 88)
    (tailLength : tail.length = 4)
    (first second : UInt32) :
    headerCrc digests (front ++ (le32 first ++ tail)) =
      headerCrc digests (front ++ (le32 second ++ tail)) := by
  have slices (value : UInt32) :
      Bytes.slice (front ++ (le32 value ++ tail)) 92 4 = tail := by
    have frontLength : (front ++ le32 value).length = 92 := by
      simp [frontLength]
    simpa using Bytes.slice_field (front ++ le32 value) tail [] frontLength
      tailLength
  unfold headerCrc
  rw [List.take_append_of_le_length (by omega),
    List.take_append_of_le_length (by omega), slices, slices]

/-- Every field of an encoded header stands at its documented offset. -/
theorem encode_fields
    (digests : Digests)
    (header : GlobalHeader) :
    let buffer := header.encode digests
    Bytes.slice buffer 8 2 = le16 header.major ∧
      Bytes.slice buffer 10 2 = le16 header.minor ∧
      Bytes.slice buffer 12 4 = le32 (UInt32.ofNat headerLen) ∧
      Bytes.slice buffer 16 8 = le64 header.flags ∧
      Bytes.slice buffer 24 16 = header.archiveId.val ∧
      Bytes.slice buffer 40 8 = le64 header.originalTotalSize ∧
      Bytes.slice buffer 48 8 = le64 header.entryCount ∧
      Bytes.slice buffer 56 8 = le64 header.logicalChunkCount ∧
      Bytes.slice buffer 64 8 = le64 header.groupCount ∧
      Bytes.slice buffer 72 8 = le64 header.sectionDirectoryOffset ∧
      Bytes.slice buffer 80 8 = le64 header.footerOffset := by
  have magicLength : globalMagic.length = 8 := rfl
  have idLength := header.archiveId.property
  simp (disch := simp [magicLength, idLength]) only [encode, encodeFront,
    List.append_assoc, Bytes.slice_append_right, Bytes.slice_head,
    magicLength, idLength, length_le16, length_le32, length_le64,
    Nat.reduceSub, and_self]

/-- The stored checksum of an encoded header is the checksum of its bytes. -/
theorem encode_crc
    (digests : Digests)
    (header : GlobalHeader) :
    readU32 (header.encode digests) 88 =
      headerCrc digests (header.encode digests) := by
  have stored : Bytes.slice (header.encode digests) 88 4 =
      le32 (headerCrc digests
        (header.encodeFront ++ (le32 0 ++ le32 header.sectionCount))) :=
    Bytes.slice_field _ _ _ header.length_encodeFront (by simp)
  rw [readU32_eq stored]
  exact headerCrc_congr digests header.length_encodeFront (by simp) _ _

/-- A header of a supported version is read back from its own bytes. -/
theorem decode_encode
    (digests : Digests)
    (header : GlobalHeader)
    (majorSupported : header.major = majorVersion)
    (minorSupported : header.minor ≤ minorVersion) :
    decode digests (header.encode digests) = .ok header := by
  obtain ⟨major, minor, length, flags, archiveId, originalTotalSize,
    entryCount, logicalChunkCount, groupCount, sectionDirectoryOffset,
    footerOffset⟩ := header.encode_fields digests
  have magic : (header.encode digests).take 8 = globalMagic := by
    simp [encode, encodeFront, globalMagic]
  have sectionCount : Bytes.slice (header.encode digests) 92 4 =
      le32 header.sectionCount := by
    simp (disch := simp) only [encode, Bytes.slice_append_right,
      length_encodeFront, length_le32, Nat.reduceSub]
    exact Bytes.slice_all (by simp)
  unfold decode
  rw [ensure_of magic, ok_bind, ensure_of (header.encode_crc digests), ok_bind,
    readU16_eq major, readU16_eq minor, readU32_eq length,
    ensure_of ⟨rfl, majorSupported, minorSupported⟩, ok_bind,
    readU64_eq flags, archiveId, Bytes.takeFixed_coe,
    readU64_eq originalTotalSize, readU64_eq entryCount,
    readU64_eq logicalChunkCount, readU64_eq groupCount,
    readU64_eq sectionDirectoryOffset, readU64_eq footerOffset,
    readU32_eq sectionCount]

end GlobalHeader

/-! ## Section directory -/

/-- One record of the section directory. -/
structure SectionDirectoryRecord where
  sectionType : UInt16
  sectionVersion : UInt16
  flags : UInt32
  offset : UInt64
  length : UInt64
  crc32c : UInt32
  reserved : UInt32
  deriving DecidableEq, Repr

namespace SectionDirectoryRecord

/-- The record as bytes. -/
def encode (record : SectionDirectoryRecord) : List UInt8 :=
  le16 record.sectionType ++ (le16 record.sectionVersion ++
    (le32 record.flags ++ (le64 record.offset ++ (le64 record.length ++
      (le32 record.crc32c ++ le32 record.reserved)))))

/-- Read a record. -/
def decode (buffer : List UInt8) : SectionDirectoryRecord where
  sectionType := readU16 buffer 0
  sectionVersion := readU16 buffer 2
  flags := readU32 buffer 4
  offset := readU64 buffer 8
  length := readU64 buffer 16
  crc32c := readU32 buffer 24
  reserved := readU32 buffer 28

@[simp] theorem length_encode (record : SectionDirectoryRecord) :
    record.encode.length = sectionEntryLen := by
  simp [encode, sectionEntryLen]

/-- A record is read back from its own bytes. -/
theorem decode_encode (record : SectionDirectoryRecord) :
    decode record.encode = record := by
  have fields :
      Bytes.slice record.encode 0 2 = le16 record.sectionType ∧
        Bytes.slice record.encode 2 2 = le16 record.sectionVersion ∧
        Bytes.slice record.encode 4 4 = le32 record.flags ∧
        Bytes.slice record.encode 8 8 = le64 record.offset ∧
        Bytes.slice record.encode 16 8 = le64 record.length ∧
        Bytes.slice record.encode 24 4 = le32 record.crc32c := by
    simp (disch := simp) only [encode, Bytes.slice_append_right,
      Bytes.slice_head, length_le16, length_le32, length_le64,
      Nat.reduceSub, and_self]
  have reserved : Bytes.slice record.encode 28 4 = le32 record.reserved := by
    simp (disch := simp) only [encode, Bytes.slice_append_right,
      length_le16, length_le32, length_le64, Nat.reduceSub]
    exact Bytes.slice_all (by simp)
  obtain ⟨sectionType, sectionVersion, flags, offset, length, crc⟩ := fields
  unfold decode
  rw [readU16_eq sectionType, readU16_eq sectionVersion, readU32_eq flags,
    readU64_eq offset, readU64_eq length, readU32_eq crc, readU32_eq reserved]

end SectionDirectoryRecord

/-! ## Codec registry -/

/-- One record of the codec registry. -/
structure CodecRegistryRecord where
  chainId : UInt32
  codecId : UInt16
  codecVersion : UInt16
  level : Int32
  flags : UInt32
  deriving DecidableEq

namespace CodecRegistryRecord

/-- The record as bytes. -/
def encode (record : CodecRegistryRecord) : List UInt8 :=
  le32 record.chainId ++ (le16 record.codecId ++ (le16 record.codecVersion ++
    (le32 record.level.toUInt32 ++ le32 record.flags)))

/-- Read a record. -/
def decode (buffer : List UInt8) : CodecRegistryRecord where
  chainId := readU32 buffer 0
  codecId := readU16 buffer 4
  codecVersion := readU16 buffer 6
  level := (readU32 buffer 8).toInt32
  flags := readU32 buffer 12

/-- What the decoder demands of one record. -/
def validateForDecode (record : CodecRegistryRecord) : Result Unit := do
  ensure (record.chainId ≠ 0)
    (.invalidMetadata "codec chain zero is reserved for RAW")
  ensure (record.flags &&& ~~~codecFlagRequired = 0)
    (.invalidMetadata "unknown codec registry flags")
  ensure (record.codecId ≤ 3 ∧ record.codecVersion = 1 ∨
    record.flags &&& codecFlagRequired = 0) .unsupportedCodec

@[simp] theorem length_encode (record : CodecRegistryRecord) :
    record.encode.length = codecRegistryRecordLen := by
  simp [encode, codecRegistryRecordLen]

/-- A record is read back from its own bytes. -/
theorem decode_encode (record : CodecRegistryRecord) :
    decode record.encode = record := by
  have fields :
      Bytes.slice record.encode 0 4 = le32 record.chainId ∧
        Bytes.slice record.encode 4 2 = le16 record.codecId ∧
        Bytes.slice record.encode 6 2 = le16 record.codecVersion ∧
        Bytes.slice record.encode 8 4 = le32 record.level.toUInt32 := by
    simp (disch := simp) only [encode, Bytes.slice_append_right,
      Bytes.slice_head, length_le16, length_le32, Nat.reduceSub, and_self]
  have flags : Bytes.slice record.encode 12 4 = le32 record.flags := by
    simp (disch := simp) only [encode, Bytes.slice_append_right,
      length_le16, length_le32, Nat.reduceSub]
    exact Bytes.slice_all (by simp)
  obtain ⟨chainId, codecId, codecVersion, level⟩ := fields
  unfold decode
  rw [readU32_eq chainId, readU16_eq codecId, readU16_eq codecVersion,
    readU32_eq level, readU32_eq flags, Int32.toInt32_toUInt32]

end CodecRegistryRecord

/-- The codec chains an archive uses. -/
structure CodecRegistry where
  records : List CodecRegistryRecord
  deriving DecidableEq

namespace CodecRegistry

/-- Write a registry; chain zero and repeated chains are refused. -/
def encode (registry : CodecRegistry) : Result (List UInt8) := do
  ensure (registry.records.length < 2 ^ 32) .integerOverflow
  forEnum
    (fun _ record (output : List UInt32 × List UInt8) => do
      ensure (record.chainId ≠ 0 ∧ record.chainId ∉ output.1)
        (.invalidMetadata "duplicate or reserved codec chain")
      .ok (record.chainId :: output.1, output.2 ++ record.encode))
    0 registry.records
    ([], le32 (UInt32.ofNat registry.records.length)) >>= fun output =>
  .ok output.2

/-- Read a registry of at most `maxRecords` records. -/
def decode (input : List UInt8) (maxRecords : UInt32) :
    Result CodecRegistry := do
  ensure (4 ≤ input.length) .invalidRange
  ensure (readU32 input 0 ≤ maxRecords)
    (.resourceLimit "codec registry record count")
  ensure (input.length =
    4 + (readU32 input 0).toNat * codecRegistryRecordLen) .invalidRange
  let records ← forEnum
    (fun _ recordBytes (records : List CodecRegistryRecord) => do
      CodecRegistryRecord.validateForDecode
        (CodecRegistryRecord.decode recordBytes)
      ensure ((CodecRegistryRecord.decode recordBytes).chainId ∉
        records.map (·.chainId)) (.invalidMetadata "duplicate codec chain")
      .ok (records ++ [CodecRegistryRecord.decode recordBytes]))
    0 (Bytes.chunksExact codecRegistryRecordLen (input.drop 4)) []
  .ok ⟨records⟩

/-- The record of a chain. -/
def chain (registry : CodecRegistry) (chainId : UInt32) :
    Option CodecRegistryRecord :=
  registry.records.find? fun record => record.chainId = chainId

end CodecRegistry

/-! ## Footer -/

/-- The last bytes of an archive. -/
structure Footer where
  archiveLength : UInt64
  blake3Root : Digest
  directoryCrc32c : UInt32
  version : UInt32
  deriving DecidableEq

namespace Footer

/-- The footer bytes before the checksum field.  The last four are reserved. -/
def encodeFront (footer : Footer) : List UInt8 :=
  footerMagic ++ (le64 footer.archiveLength ++ (footer.blake3Root.val ++
    (le32 footer.directoryCrc32c ++ (le32 footer.version ++ le32 0))))

/-- The checksum over everything but the checksum field. -/
def footerCrc (digests : Digests) (buffer : List UInt8) : UInt32 :=
  digests.crc32cAppend (digests.crc32c (buffer.take 56))
    (Bytes.slice buffer 60 4)

/-- The footer as bytes, with the checksum field at `56..60`. -/
def encode (digests : Digests) (footer : Footer) : List UInt8 :=
  footer.encodeFront ++
    (le32 (footerCrc digests (footer.encodeFront ++ (le32 0 ++ le32 0))) ++
      le32 0)

/-- Read a footer, checking its magic and its checksum. -/
def decode (digests : Digests) (buffer : List UInt8) : Result Footer := do
  ensure (buffer.take 4 = footerMagic) .invalidMagic
  ensure (readU32 buffer 56 = footerCrc digests buffer) .checksumMismatch
  .ok {
    archiveLength := readU64 buffer 4
    blake3Root := Bytes.takeFixed 32 (Bytes.slice buffer 12 32)
    directoryCrc32c := readU32 buffer 44
    version := readU32 buffer 48 }

@[simp] theorem length_encodeFront (footer : Footer) :
    footer.encodeFront.length = 56 := by
  simp [encodeFront, footerMagic, footer.blake3Root.property]

@[simp] theorem length_encode
    (digests : Digests)
    (footer : Footer) :
    (footer.encode digests).length = footerLen := by
  simp [encode, footerLen]

/-- The checksum does not see the checksum field. -/
theorem footerCrc_congr
    (digests : Digests)
    {front tail : List UInt8}
    (frontLength : front.length = 56)
    (tailLength : tail.length = 4)
    (first second : UInt32) :
    footerCrc digests (front ++ (le32 first ++ tail)) =
      footerCrc digests (front ++ (le32 second ++ tail)) := by
  have slices (value : UInt32) :
      Bytes.slice (front ++ (le32 value ++ tail)) 60 4 = tail := by
    have frontLength : (front ++ le32 value).length = 60 := by
      simp [frontLength]
    simpa using Bytes.slice_field (front ++ le32 value) tail [] frontLength
      tailLength
  unfold footerCrc
  rw [List.take_append_of_le_length (by omega),
    List.take_append_of_le_length (by omega), slices, slices]

/-- A footer with other bytes after the checksum field. -/
def encodeTail (digests : Digests) (footer : Footer) (tail : List UInt8) :
    List UInt8 :=
  footer.encodeFront ++
    (le32 (footerCrc digests (footer.encodeFront ++ (le32 0 ++ tail))) ++ tail)

theorem length_encodeTail
    (digests : Digests)
    (footer : Footer)
    {tail : List UInt8}
    (tailLength : tail.length = 4) :
    (footer.encodeTail digests tail).length = footerLen := by
  simp [encodeTail, footerLen, tailLength]

/-- A footer is read back whatever stands after the checksum field. -/
theorem decode_encodeTail
    (digests : Digests)
    (footer : Footer)
    {tail : List UInt8}
    (tailLength : tail.length = 4) :
    decode digests (footer.encodeTail digests tail) = .ok footer := by
  have magicLength : footerMagic.length = 4 := rfl
  have rootLength := footer.blake3Root.property
  have fields :
      Bytes.slice (footer.encodeTail digests tail) 4 8 =
          le64 footer.archiveLength ∧
        Bytes.slice (footer.encodeTail digests tail) 12 32 =
          footer.blake3Root.val ∧
        Bytes.slice (footer.encodeTail digests tail) 44 4 =
          le32 footer.directoryCrc32c ∧
        Bytes.slice (footer.encodeTail digests tail) 48 4 =
          le32 footer.version := by
    simp (disch := simp [magicLength, rootLength]) only [encodeTail,
      encodeFront, List.append_assoc, Bytes.slice_append_right,
      Bytes.slice_head, magicLength, rootLength, length_le32, length_le64,
      Nat.reduceSub, and_self]
  have magic : (footer.encodeTail digests tail).take 4 = footerMagic := by
    simp [encodeTail, encodeFront, footerMagic]
  have crc : readU32 (footer.encodeTail digests tail) 56 =
      footerCrc digests (footer.encodeTail digests tail) := by
    have stored : Bytes.slice (footer.encodeTail digests tail) 56 4 =
        le32 (footerCrc digests (footer.encodeFront ++ (le32 0 ++ tail))) :=
      Bytes.slice_field _ _ _ footer.length_encodeFront (by simp)
    rw [readU32_eq stored]
    exact footerCrc_congr digests footer.length_encodeFront tailLength _ _
  obtain ⟨archiveLength, root, directoryCrc, version⟩ := fields
  unfold decode
  rw [ensure_of magic, ok_bind, ensure_of crc, ok_bind,
    readU64_eq archiveLength, root, Bytes.takeFixed_coe,
    readU32_eq directoryCrc, readU32_eq version]

/-- A footer is read back from its own bytes. -/
theorem decode_encode
    (digests : Digests)
    (footer : Footer) :
    decode digests (footer.encode digests) = .ok footer :=
  decode_encodeTail digests footer (length_le32 0)

end Footer

end Pithos
