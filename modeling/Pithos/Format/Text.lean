import Pithos.Format.Tables

/-!
# The text of the tables

What the JSON crate writes for a table: no spaces, fields in the order of the
record, byte strings as arrays of numbers, and the kind of an entry as a field
beside its own.
-/

namespace Pithos

open Bytes

namespace JsonText

/-- A text in quotes; no text of the format needs an escape. -/
def quoted (text : String) : List UInt8 :=
  0x22 :: textBytes text ++ [0x22]

/-- The decimal digits of a number. -/
def number (value : Nat) : List UInt8 :=
  (Nat.toDigits 10 value).map fun digit => UInt8.ofNat digit.toNat

/-- A number with its sign. -/
def signed : Int → List UInt8
  | .ofNat value => number value
  | .negSucc value => 0x2D :: number (value + 1)

/-- `true` or `false`. -/
def boolean : Bool → List UInt8
  | true => textBytes "true"
  | false => textBytes "false"

/-- Items with commas between them. -/
def separated : List (List UInt8) → List UInt8
  | [] => []
  | [item] => item
  | item :: rest => item ++ 0x2C :: separated rest

/-- An array of texts. -/
def array (items : List (List UInt8)) : List UInt8 :=
  0x5B :: separated items ++ [0x5D]

/-- An object with its fields in order. -/
def object (fields : List (String × List UInt8)) : List UInt8 :=
  0x7B :: separated (fields.map fun field =>
    quoted field.1 ++ 0x3A :: field.2) ++ [0x7D]

/-- Bytes as an array of numbers. -/
def byteString (bytes : List UInt8) : List UInt8 :=
  array (bytes.map fun byte => number byte.toNat)

end JsonText

open JsonText

/-- The text of a path encoding. -/
def PathEncoding.text : PathEncoding → List UInt8
  | utf8 => quoted "Utf8"
  | unixBytes => quoted "UnixBytes"
  | windowsUtf16Le => quoted "WindowsUtf16Le"

/-- The text of a component of a path. -/
def PathComponent.text (component : PathComponent) : List UInt8 :=
  object [("encoding", component.encoding.text),
    ("bytes", byteString component.bytes)]

/-- The text of a path. -/
def ArchivePath.text (path : ArchivePath) : List UInt8 :=
  object [("components", array (path.components.map PathComponent.text))]

/-- The text of a component of a link target. -/
def LinkComponent.text : LinkComponent → List UInt8
  | parent => quoted "Parent"
  | normal component => object [("Normal", component.text)]

/-- The text of a link target. -/
def LinkTarget.text (target : LinkTarget) : List UInt8 :=
  object [("components", array (target.components.map LinkComponent.text))]

/-- The kind of an entry is tagged by its first field. -/
def EntryKind.text : EntryKind → List UInt8
  | file groupId =>
      object [("kind", quoted "file"), ("group_id", number groupId.toNat)]
  | directory => object [("kind", quoted "directory")]
  | hardlink targetEntryId =>
      object [("kind", quoted "hardlink"),
        ("target_entry_id", number targetEntryId.toNat)]
  | symlink target targetIsDir =>
      object [("kind", quoted "symlink"), ("target", target.text),
        ("target_is_dir", boolean targetIsDir)]

/-- The text of an entry. -/
def EntryRecord.text (entry : EntryRecord) : List UInt8 :=
  object [("entry_id", number entry.entryId.toNat),
    ("path", entry.path.text),
    ("size", number entry.size.toNat),
    ("modified_ns", signed entry.modifiedNs.toInt),
    ("mode", number entry.mode.toNat),
    ("blake3", byteString entry.blake3.val),
    ("kind", entry.kind.text)]

/-- The text of the header of a group. -/
def GroupRecord.text (group : GroupRecord) : List UInt8 :=
  object [("version", number group.version.toNat),
    ("flags", number group.flags.toNat),
    ("group_id", number group.groupId.toNat),
    ("codec_chain_id", number group.codecChainId.toNat),
    ("chunk_count", number group.chunkCount.toNat),
    ("uncompressed_len", number group.uncompressedLen.toNat),
    ("compressed_len", number group.compressedLen.toNat),
    ("descriptor_len", number group.descriptorLen.toNat),
    ("payload_crc32c", number group.payloadCrc32c.toNat)]

/-- The text of a row of the group table. -/
def GroupTableRecord.text (record : GroupTableRecord) : List UInt8 :=
  object [("group", record.group.text),
    ("payload_offset", number record.payloadOffset.toNat)]

/-- The text of a row of the restore map. -/
def RestoreMapRecord.text (restore : RestoreMapRecord) : List UInt8 :=
  object [("entry_id", number restore.entryId.toNat),
    ("original_offset", number restore.originalOffset.toNat),
    ("length", number restore.length.toNat),
    ("group_id", number restore.groupId.toNat),
    ("group_offset", number restore.groupOffset.toNat)]

/-- The text of a row of the central index. -/
def CentralIndexRecord.text (row : CentralIndexRecord) : List UInt8 :=
  object [("path", row.path.text),
    ("entry_id", number row.entryId.toNat),
    ("group_id", match row.groupId with
      | none => textBytes "null"
      | some groupId => number groupId.toNat)]

/-- The text of a row of the integrity table. -/
def IntegrityRecord.text (row : IntegrityRecord) : List UInt8 :=
  object [("entry_id", number row.entryId.toNat),
    ("blake3", byteString row.blake3.val)]

/-- A codec that writes a text, and reads back the text of one value. -/
def JsonCodec.knowing
    {Value : Type}
    (text : Value → List UInt8)
    (value : Value) : JsonCodec Value where
  toVec := text
  fromSlice bytes := if bytes = text value then some value else none

theorem JsonCodec.readsBack_knowing
    {Value : Type}
    (text : Value → List UInt8)
    (value : Value) :
    (JsonCodec.knowing text value).ReadsBack value :=
  if_pos rfl

end Pithos
