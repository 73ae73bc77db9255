import Pithos.Format.Path

/-!
# Metadata tables

The records of the entry table, the group table, the restore map, the central
index and the integrity tree.  The tables are stored as JSON; the JSON crate is
a parameter, one pair of functions for each table type.
-/

namespace Pithos

open Machine
open Fallible

/-- What an entry is. -/
inductive EntryKind
  | file (groupId : UInt64)
  | directory
  | hardlink (targetEntryId : UInt64)
  | symlink (target : LinkTarget) (targetIsDir : Bool)
  deriving DecidableEq, Repr

/-- One record of the entry table. -/
structure EntryRecord where
  entryId : UInt64
  path : ArchivePath
  size : UInt64
  modifiedNs : Int64
  mode : UInt32
  blake3 : Digest
  kind : EntryKind
  deriving DecidableEq

/-- A physical group of bytes. -/
structure GroupRecord where
  version : UInt16
  flags : UInt16
  groupId : UInt64
  codecChainId : UInt32
  chunkCount : UInt32
  uncompressedLen : UInt64
  compressedLen : UInt64
  descriptorLen : UInt32
  payloadCrc32c : UInt32
  deriving DecidableEq, Repr

/-- `UGRP`. -/
def groupMagic : List UInt8 := [0x55, 0x47, 0x52, 0x50]

/-- `GROUP_RECORD_LEN`. -/
def groupRecordLen : Nat := 48

namespace GroupRecord

/-- The record as bytes. -/
def encode (record : GroupRecord) : List UInt8 :=
  groupMagic ++ (le16 record.version ++ (le16 record.flags ++
    (le64 record.groupId ++ (le32 record.codecChainId ++
    (le32 record.chunkCount ++ (le64 record.uncompressedLen ++
    (le64 record.compressedLen ++ (le32 record.descriptorLen ++
      le32 record.payloadCrc32c))))))))

/-- Read a record, checking its magic. -/
def decode (buffer : List UInt8) : Result GroupRecord := do
  ensure (buffer.take 4 = groupMagic) .invalidMagic
  .ok {
    version := readU16 buffer 4
    flags := readU16 buffer 6
    groupId := readU64 buffer 8
    codecChainId := readU32 buffer 16
    chunkCount := readU32 buffer 20
    uncompressedLen := readU64 buffer 24
    compressedLen := readU64 buffer 32
    descriptorLen := readU32 buffer 40
    payloadCrc32c := readU32 buffer 44 }

@[simp] theorem length_encode (record : GroupRecord) :
    record.encode.length = groupRecordLen := by
  simp [encode, groupMagic, groupRecordLen]

/-- A record is read back from its own bytes. -/
theorem decode_encode (record : GroupRecord) :
    decode record.encode = .ok record := by
  have magicLength : groupMagic.length = 4 := rfl
  have fields :
      Bytes.slice record.encode 4 2 = le16 record.version ∧
        Bytes.slice record.encode 6 2 = le16 record.flags ∧
        Bytes.slice record.encode 8 8 = le64 record.groupId ∧
        Bytes.slice record.encode 16 4 = le32 record.codecChainId ∧
        Bytes.slice record.encode 20 4 = le32 record.chunkCount ∧
        Bytes.slice record.encode 24 8 = le64 record.uncompressedLen ∧
        Bytes.slice record.encode 32 8 = le64 record.compressedLen ∧
        Bytes.slice record.encode 40 4 = le32 record.descriptorLen := by
    simp (disch := simp [magicLength]) only [encode,
      Bytes.slice_append_right, Bytes.slice_head, magicLength, length_le16,
      length_le32, length_le64, Nat.reduceSub, and_self]
  have crc : Bytes.slice record.encode 44 4 = le32 record.payloadCrc32c := by
    simp (disch := simp [magicLength]) only [encode,
      Bytes.slice_append_right, magicLength, length_le16, length_le32,
      length_le64, Nat.reduceSub]
    exact Bytes.slice_all (by simp)
  have magic : record.encode.take 4 = groupMagic := by
    simp [encode, groupMagic]
  obtain ⟨version, flags, groupId, codecChainId, chunkCount, uncompressedLen,
    compressedLen, descriptorLen⟩ := fields
  unfold decode
  rw [ensure_of magic, ok_bind, readU16_eq version, readU16_eq flags,
    readU64_eq groupId, readU32_eq codecChainId, readU32_eq chunkCount,
    readU64_eq uncompressedLen, readU64_eq compressedLen,
    readU32_eq descriptorLen, readU32_eq crc]

end GroupRecord

/-- One record of the group table. -/
structure GroupTableRecord where
  group : GroupRecord
  payloadOffset : UInt64
  deriving DecidableEq, Repr

/-- Where the bytes of a file entry stand in a decoded group. -/
structure RestoreMapRecord where
  entryId : UInt64
  originalOffset : UInt64
  length : UInt64
  groupId : UInt64
  groupOffset : UInt64
  deriving DecidableEq, Repr

/-- One record of the central index. -/
structure CentralIndexRecord where
  path : ArchivePath
  entryId : UInt64
  groupId : Option UInt64
  deriving DecidableEq, Repr

/-- One record of the integrity tree. -/
structure IntegrityRecord where
  entryId : UInt64
  blake3 : Digest
  deriving DecidableEq

/-- The group of a file entry. -/
def EntryKind.groupId? : EntryKind → Option UInt64
  | file groupId => some groupId
  | directory | hardlink _ | symlink _ _ => none

/-- The central index row of an entry. -/
def EntryRecord.indexRow (entry : EntryRecord) : CentralIndexRecord where
  path := entry.path
  entryId := entry.entryId
  groupId := entry.kind.groupId?

/-- The integrity row of an entry. -/
def EntryRecord.integrityRow (entry : EntryRecord) : IntegrityRecord where
  entryId := entry.entryId
  blake3 := entry.blake3

/-! ## Serialisation -/

/-- The JSON crate at one type. -/
structure JsonCodec (Value : Type) where
  toVec : Value → List UInt8
  fromSlice : List UInt8 → Option Value

/-- A value is read back from its own text. -/
def JsonCodec.ReadsBack
    {Value : Type}
    (codec : JsonCodec Value)
    (value : Value) : Prop :=
  codec.fromSlice (codec.toVec value) = some value

/-- The JSON crate at every type that the engine stores. -/
structure Json where
  entries : JsonCodec (List EntryRecord)
  groups : JsonCodec (List GroupTableRecord)
  restoreMap : JsonCodec (List RestoreMapRecord)
  centralIndex : JsonCodec (List CentralIndexRecord)
  integrity : JsonCodec (List IntegrityRecord)
  linkTarget : JsonCodec LinkTarget

end Pithos
