import Pithos.Library.Blake3
import Pithos.Library.Crc32c
import Pithos.Format.Tables

/-!
# Round trips of the binary records

A record that is written and read back is the same record, and bytes that a
decoder accepts are the only bytes that encode what it read.  The footer is the
exception in the second direction: four of its bytes are written as zeros and
never read.
-/

namespace Pithos

open Machine
open Fallible

/-! ## Fixed records -/

namespace GlobalHeader

/-- Bytes that decode to a header are the bytes of that header. -/
theorem encode_of_decode
    {digests : Digests}
    {buffer : List UInt8}
    {header : GlobalHeader}
    (size : buffer.length = headerLen)
    (decoded : decode digests buffer = .ok header) :
    header.encode digests = buffer := by
  have inside : buffer.length = 96 := size
  simp only [decode, bind_eq_ok, ensure_eq_ok, exists_const,
    Except.ok.injEq] at decoded
  obtain ⟨magic, crc, ⟨length, majorSupported, minorSupported⟩, rfl⟩ := decoded
  have magicBytes : globalMagic = Bytes.slice buffer 0 8 := magic.symm
  have lengthField : UInt32.ofNat headerLen = readU32 buffer 12 := by
    rw [← length, UInt32.ofNat_toNat]
  have archiveId : (Bytes.takeFixed 16 (Bytes.slice buffer 24 16)).val =
      Bytes.slice buffer 24 16 :=
    Bytes.takeFixed_val (Bytes.length_slice (by omega))
  have front : encodeFront
      { major := readU16 buffer 8, minor := readU16 buffer 10,
        flags := readU64 buffer 16,
        archiveId := Bytes.takeFixed 16 (Bytes.slice buffer 24 16),
        originalTotalSize := readU64 buffer 40,
        entryCount := readU64 buffer 48,
        logicalChunkCount := readU64 buffer 56,
        groupCount := readU64 buffer 64,
        sectionDirectoryOffset := readU64 buffer 72,
        footerOffset := readU64 buffer 80,
        sectionCount := readU32 buffer 92 } = Bytes.slice buffer 0 88 := by
    simp (disch := omega) only [encodeFront, lengthField, magicBytes,
      archiveId, le16_readU16, le32_readU32, le64_readU64,
      Bytes.slice_append_slice_of_eq, Nat.reduceAdd]
  have frontLength : (Bytes.slice buffer 0 88).length = 88 :=
    Bytes.length_slice (by omega)
  have tailLength : (Bytes.slice buffer 92 4).length = 4 :=
    Bytes.length_slice (by omega)
  have whole : Bytes.slice buffer 0 88 ++
      (le32 (readU32 buffer 88) ++ Bytes.slice buffer 92 4) = buffer := by
    rw [le32_readU32 (by omega), Bytes.slice_append_slice_of_eq _ rfl,
      Bytes.slice_append_slice_of_eq _ rfl]
    exact Bytes.slice_all inside
  unfold encode
  simp only [front, le32_readU32 (show 92 + 4 ≤ buffer.length by omega)]
  rw [headerCrc_congr digests frontLength tailLength 0 (readU32 buffer 88),
    whole, ← crc, whole]

end GlobalHeader

namespace SectionDirectoryRecord

/-- A record read from bytes has these bytes. -/
theorem encode_decode
    {buffer : List UInt8}
    (size : buffer.length = sectionEntryLen) :
    (decode buffer).encode = buffer := by
  have inside : buffer.length = 32 := size
  simp (disch := omega) only [encode, decode, le16_readU16, le32_readU32,
    le64_readU64, Bytes.slice_append_slice_of_eq, Nat.reduceAdd]
  exact Bytes.slice_all inside

end SectionDirectoryRecord

namespace GroupRecord

/-- Bytes that decode to a record are the bytes of that record. -/
theorem encode_of_decode
    {buffer : List UInt8}
    {record : GroupRecord}
    (size : buffer.length = groupRecordLen)
    (decoded : decode buffer = .ok record) :
    record.encode = buffer := by
  have inside : buffer.length = 48 := size
  simp only [decode, bind_eq_ok, ensure_eq_ok, exists_const,
    Except.ok.injEq] at decoded
  obtain ⟨magic, rfl⟩ := decoded
  have magicBytes : groupMagic = Bytes.slice buffer 0 4 := magic.symm
  simp (disch := omega) only [encode, magicBytes, le16_readU16, le32_readU32,
    le64_readU64, Bytes.slice_append_slice_of_eq, Nat.reduceAdd]
  exact Bytes.slice_all inside

end GroupRecord

namespace CodecRegistryRecord

/-- A record read from bytes has these bytes. -/
theorem encode_decode
    {buffer : List UInt8}
    (size : buffer.length = codecRegistryRecordLen) :
    (decode buffer).encode = buffer := by
  have inside : buffer.length = 16 := size
  simp (disch := omega) only [encode, decode, UInt32.toUInt32_toInt32,
    le16_readU16, le32_readU32, Bytes.slice_append_slice_of_eq, Nat.reduceAdd]
  exact Bytes.slice_all inside

end CodecRegistryRecord

/-! ## Codec registry -/

/-- What the decoder demands of one record. -/
structure CodecRegistryRecord.Decodable (record : CodecRegistryRecord) :
    Prop where
  notRaw : record.chainId ≠ 0
  knownFlags : record.flags &&& ~~~codecFlagRequired = 0
  knownWhenRequired : record.codecId ≤ 3 ∧ record.codecVersion = 1 ∨
    record.flags &&& codecFlagRequired = 0

theorem CodecRegistryRecord.validateForDecode_eq_ok
    {record : CodecRegistryRecord}
    {done : Unit} :
    record.validateForDecode = .ok done ↔ record.Decodable := by
  simp only [validateForDecode, bind_eq_ok, ensure_eq_ok, exists_const]
  constructor
  · rintro ⟨notRaw, flags, known⟩
    exact ⟨notRaw, flags, known⟩
  · rintro ⟨notRaw, flags, known⟩
    exact ⟨notRaw, flags, known⟩

namespace CodecRegistry

/-- The chains of a registry, in order. -/
def chainIds (registry : CodecRegistry) : List UInt32 :=
  registry.records.map (·.chainId)

/-- A registry is written exactly when its chains are distinct and none is
reserved, and the bytes are the count followed by the records. -/
theorem encode_eq_ok
    {registry : CodecRegistry}
    {bytes : List UInt8} :
    registry.encode = .ok bytes ↔
      registry.records.length < 2 ^ 32 ∧ 0 ∉ registry.chainIds ∧
        registry.chainIds.Nodup ∧
        bytes = le32 (UInt32.ofNat registry.records.length) ++
          registry.records.flatMap (·.encode) := by
  let update (output : List UInt32 × List UInt8)
      (record : CodecRegistryRecord) : List UInt32 × List UInt8 :=
    (record.chainId :: output.1, output.2 ++ record.encode)
  have written (records : List CodecRegistryRecord)
      (output : List UInt32 × List UInt8) :
      records.foldl update output =
        ((records.map (·.chainId)).reverse ++ output.1,
          output.2 ++ records.flatMap (·.encode)) := by
    induction records generalizing output with
    | nil => simp
    | cons record records inductionHypothesis =>
        rw [List.foldl_cons, inductionHypothesis]
        simp [update]
  have steps (position : Nat) (record : CodecRegistryRecord)
      (output next : List UInt32 × List UInt8) :
      (do
        ensure (record.chainId ≠ 0 ∧ record.chainId ∉ output.1)
          (.invalidMetadata "duplicate or reserved codec chain")
        .ok (record.chainId :: output.1, output.2 ++ record.encode) :
          Result (List UInt32 × List UInt8)) = .ok next ↔
        (record.chainId ≠ 0 ∧ record.chainId ∉ output.1) ∧
          next = update output record := by
    simp only [bind_eq_ok, ensure_eq_ok, exists_const, Except.ok.injEq, update]
    exact and_congr_right fun _ => eq_comm
  unfold encode
  simp only [bind_eq_ok, ensure_eq_ok, exists_const, forEnum_eq_ok steps,
    written, List.append_nil, List.mem_reverse, Except.ok.injEq, chainIds,
    nodup_map_iff_split, List.mem_map, not_exists, not_and]
  constructor
  · rintro ⟨few, _, ⟨good, rfl⟩, rfl⟩
    refine ⟨few, ?_, fun before record after split => (good before record after
      split).2, rfl⟩
    intro record member
    obtain ⟨before, after, split⟩ := List.append_of_mem member
    exact (good before record after split).1
  · rintro ⟨few, notRaw, distinct, rfl⟩
    refine ⟨few, _, ⟨?_, rfl⟩, rfl⟩
    intro before record after split
    exact ⟨notRaw record (by simp [split]), distinct before record after split⟩

/-- A registry is read exactly when its count is right and within the limit,
its records are decodable and its chains are distinct. -/
theorem decode_eq_ok
    {input : List UInt8}
    {maxRecords : UInt32}
    {registry : CodecRegistry} :
    decode input maxRecords = .ok registry ↔
      readU32 input 0 ≤ maxRecords ∧
        input.length = 4 + (readU32 input 0).toNat * codecRegistryRecordLen ∧
        (∀ record ∈ registry.records, record.Decodable) ∧
        registry.chainIds.Nodup ∧
        registry.records =
          (Bytes.chunksExact codecRegistryRecordLen (input.drop 4)).map
            CodecRegistryRecord.decode := by
  let update (records : List CodecRegistryRecord) (recordBytes : List UInt8) :
      List CodecRegistryRecord :=
    records ++ [CodecRegistryRecord.decode recordBytes]
  have collected (pieces : List (List UInt8))
      (records : List CodecRegistryRecord) :
      pieces.foldl update records =
        records ++ pieces.map CodecRegistryRecord.decode := by
    induction pieces generalizing records with
    | nil => simp
    | cons piece pieces inductionHypothesis =>
        rw [List.foldl_cons, inductionHypothesis]
        simp [update]
  have steps (position : Nat) (recordBytes : List UInt8)
      (records next : List CodecRegistryRecord) :
      (do
        CodecRegistryRecord.validateForDecode
          (CodecRegistryRecord.decode recordBytes)
        ensure ((CodecRegistryRecord.decode recordBytes).chainId ∉
          records.map (·.chainId)) (.invalidMetadata "duplicate codec chain")
        .ok (records ++ [CodecRegistryRecord.decode recordBytes]) :
          Result (List CodecRegistryRecord)) = .ok next ↔
        ((CodecRegistryRecord.decode recordBytes).Decodable ∧
          (CodecRegistryRecord.decode recordBytes).chainId ∉
            records.map (·.chainId)) ∧ next = update records recordBytes := by
    simp only [bind_eq_ok, ensure_eq_ok, exists_const, Except.ok.injEq, update,
      CodecRegistryRecord.validateForDecode_eq_ok, and_assoc]
    exact and_congr_right fun _ => and_congr_right fun _ => eq_comm
  obtain ⟨records⟩ := registry
  unfold decode
  simp only [bind_eq_ok, ensure_eq_ok, exists_const, forEnum_eq_ok steps,
    collected, List.nil_append, Except.ok.injEq, CodecRegistry.mk.injEq,
    exists_eq_right, chainIds]
  constructor
  · rintro ⟨_, few, size, good, rfl⟩
    refine ⟨few, size, ?_, ?_, rfl⟩
    · intro record member
      obtain ⟨piece, pieceMember, rfl⟩ := List.mem_map.mp member
      obtain ⟨before, after, split⟩ := List.append_of_mem pieceMember
      exact (good before piece after split).1
    · rw [List.map_map, nodup_map_iff_split]
      intro before piece after split
      have fresh := (good before piece after split).2
      rwa [List.map_map] at fresh
  · rintro ⟨few, size, decodable, distinct, rfl⟩
    refine ⟨by omega, few, size, ?_, rfl⟩
    intro before piece after split
    rw [List.map_map, nodup_map_iff_split] at distinct
    have fresh := distinct before piece after split
    refine ⟨decodable _ (List.mem_map_of_mem (by simp [split])), ?_⟩
    rwa [List.map_map]

/-- A registry the decoder accepts is read back from its own bytes. -/
theorem decode_encode
    {registry : CodecRegistry}
    {maxRecords : UInt32}
    (few : registry.records.length ≤ maxRecords.toNat)
    (decodable : ∀ record ∈ registry.records, record.Decodable)
    (distinct : registry.chainIds.Nodup) :
    ∃ bytes, registry.encode = .ok bytes ∧
      decode bytes maxRecords = .ok registry := by
  have countBound : registry.records.length < 2 ^ 32 :=
    Nat.lt_of_le_of_lt few maxRecords.toNat_lt
  have notRaw : 0 ∉ registry.chainIds := by
    intro member
    obtain ⟨record, recordMember, isRaw⟩ := List.mem_map.mp member
    exact (decodable record recordMember).notRaw isRaw
  refine ⟨_, encode_eq_ok.mpr ⟨countBound, notRaw, distinct, rfl⟩,
    decode_eq_ok.mpr ?_⟩
  have recordLength (record : CodecRegistryRecord) :
      record.encode.length = codecRegistryRecordLen := record.length_encode
  have count : (readU32 (le32 (UInt32.ofNat registry.records.length) ++
      registry.records.flatMap (·.encode)) 0).toNat =
        registry.records.length := by
    rw [readU32_eq (Bytes.slice_head _ (length_le32 _)), UInt32.toNat_ofNat',
      Nat.mod_eq_of_lt countBound]
  have body : (le32 (UInt32.ofNat registry.records.length) ++
      registry.records.flatMap (·.encode)).drop 4 =
        registry.records.flatMap (·.encode) :=
    List.drop_left' (length_le32 _)
  refine ⟨?_, ?_, decodable, distinct, ?_⟩
  · rwa [UInt32.le_iff_toNat_le, count]
  · rw [count, List.length_append, length_le32, List.length_flatMap]
    simp only [recordLength, List.map_const', List.sum_replicate_nat]
  · rw [body, Bytes.chunksExact_flatMap (by decide) recordLength, List.map_map]
    simp [Function.comp_def, CodecRegistryRecord.decode_encode]

/-- Bytes that decode to a registry are the bytes of that registry. -/
theorem encode_of_decode
    {input : List UInt8}
    {maxRecords : UInt32}
    {registry : CodecRegistry}
    (decoded : decode input maxRecords = .ok registry) :
    registry.encode = .ok input := by
  obtain ⟨few, size, decodable, distinct, isRecords⟩ :=
    decode_eq_ok.mp decoded
  have bodySize : (input.drop 4).length =
      (readU32 input 0).toNat * codecRegistryRecordLen := by
    rw [List.length_drop]
    omega
  have count : registry.records.length = (readU32 input 0).toNat := by
    rw [isRecords, List.length_map, Bytes.chunksExact, List.length_map,
      List.length_range, bodySize, Nat.mul_div_cancel _ (by decide)]
  have written : (Bytes.chunksExact codecRegistryRecordLen
      (input.drop 4)).map (fun piece =>
        (CodecRegistryRecord.decode piece).encode) =
          Bytes.chunksExact codecRegistryRecordLen (input.drop 4) :=
    (List.map_congr_left fun piece member =>
      CodecRegistryRecord.encode_decode
        (Bytes.length_of_mem_chunksExact member)).trans (List.map_id _)
  refine encode_eq_ok.mpr ⟨?_, ?_, distinct, ?_⟩
  · rw [count]
    exact (readU32 input 0).toNat_lt
  · intro member
    obtain ⟨record, recordMember, isRaw⟩ := List.mem_map.mp member
    exact (decodable record recordMember).notRaw isRaw
  · rw [count, UInt32.ofNat_toNat, le32_readU32 (by omega), isRecords,
      List.flatMap_map, List.flatMap_def, written,
      Bytes.flatten_chunksExact (by decide) bodySize]
    exact (List.take_append_drop 4 input).symm

end CodecRegistry

/-! ## All records -/

/-- Every record is read back from its own bytes: the directory and group
records and the footer always, the header of a supported version, and a
registry within the limit whose chains are distinct and whose records are
decodable.  And of a header, a directory record, a group record and a registry
there is one encoding only. -/
theorem binaryRecords_roundTrip (digests : Digests) :
    (∀ record : SectionDirectoryRecord,
        SectionDirectoryRecord.decode record.encode = record) ∧
      (∀ record : GroupRecord,
        GroupRecord.decode record.encode = .ok record) ∧
      (∀ footer : Footer,
        Footer.decode digests (footer.encode digests) = .ok footer) ∧
      (∀ header : GlobalHeader, header.major = majorVersion →
        header.minor ≤ minorVersion →
        GlobalHeader.decode digests (header.encode digests) = .ok header) ∧
      (∀ (registry : CodecRegistry) (maxRecords : UInt32),
        registry.records.length ≤ maxRecords.toNat →
        registry.chainIds.Nodup →
        (∀ record ∈ registry.records, record.chainId ≠ 0 ∧
          record.flags &&& ~~~codecFlagRequired = 0 ∧
          (record.codecId ≤ 3 ∧ record.codecVersion = 1 ∨
            record.flags &&& codecFlagRequired = 0)) →
        ∃ bytes, registry.encode = .ok bytes ∧
          CodecRegistry.decode bytes maxRecords = .ok registry) ∧
      (∀ (buffer : Bytes.Fixed headerLen) (header : GlobalHeader),
        GlobalHeader.decode digests buffer.val = .ok header →
        header.encode digests = buffer.val) ∧
      (∀ buffer : Bytes.Fixed sectionEntryLen,
        (SectionDirectoryRecord.decode buffer.val).encode = buffer.val) ∧
      (∀ (buffer : Bytes.Fixed groupRecordLen) (record : GroupRecord),
        GroupRecord.decode buffer.val = .ok record →
        record.encode = buffer.val) ∧
      (∀ (input : List UInt8) (maxRecords : UInt32) (registry : CodecRegistry),
        CodecRegistry.decode input maxRecords = .ok registry →
        registry.encode = .ok input) := by
  refine ⟨SectionDirectoryRecord.decode_encode, GroupRecord.decode_encode,
    Footer.decode_encode digests, GlobalHeader.decode_encode digests, ?_,
    fun buffer _ => GlobalHeader.encode_of_decode buffer.property,
    fun buffer => SectionDirectoryRecord.encode_decode buffer.property,
    fun buffer _ => GroupRecord.encode_of_decode buffer.property,
    fun _ _ _ => CodecRegistry.encode_of_decode⟩
  intro registry maxRecords few distinct good
  refine CodecRegistry.decode_encode few (fun record member => ?_) distinct
  obtain ⟨notRaw, flags, known⟩ := good record member
  exact ⟨notRaw, flags, known⟩

/-- A header with fields of its own, and a registry of two chains, one of them
unknown and not required, with CRC32C and BLAKE3. -/
theorem filledArchive_roundTrip :
    let digests : Digests := ⟨Crc32c.checksum, Crc32c.append,
      fun bytes => Bytes.takeFixed 32 (Blake3.hash bytes)⟩
    let registry : CodecRegistry :=
      ⟨[⟨1, 2, 1, 3, codecFlagRequired⟩, ⟨0xFFFFFFFF, 9, 700, -5, 0⟩]⟩
    let header : GlobalHeader := {
      major := majorVersion
      minor := minorVersion
      flags := 0x8000000000000001
      archiveId := Bytes.takeFixed 16 (Blake3.hash [0x61])
      originalTotalSize := 70000
      entryCount := 3
      logicalChunkCount := 2
      groupCount := 2
      sectionDirectoryOffset := 1024
      footerOffset := 0x123456789A
      sectionCount := 9 }
    GlobalHeader.decode digests (header.encode digests) = .ok header ∧
      ∃ bytes, registry.encode = .ok bytes ∧
        CodecRegistry.decode bytes 32 = .ok registry := by
  intro digests registry header
  obtain ⟨_, _, _, headers, registries, _⟩ := binaryRecords_roundTrip digests
  exact ⟨headers header rfl (by decide),
    registries registry 32 (by decide) (by decide) (by decide)⟩

end Pithos
