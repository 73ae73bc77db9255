import Pithos.Engine.Catalog.Soundness

/-!
# Verifying an archive

`verifyOpenFile` reads the catalog and then the payload: the checksum of the
payload section, the checksum and decoding of every group, the hash of every
file in it, and the hash of everything before the footer.  The same group
decoder and slicing serve the operations that read single entries.
-/

namespace Pithos

open Fallible
open Machine

/-! ## Groups and slices -/

/-- The codec of a group. -/
def groupCodec (record : GroupTableRecord) (registry : Option CodecRegistry) :
    Result CodecId :=
  if record.group.codecChainId = 0 then do
    ensure registry.isNone .unsupportedCodec
    .ok .store
  else do
    let registry ← okOr registry .unsupportedCodec
    let codec ← okOr (registry.chain record.group.codecChainId)
      .unsupportedCodec
    okOr (CodecId.fromU16 codec.codecId) .unsupportedCodec

/-- Read, check and decode one group. -/
def decodeGroup
    (backends : Backends)
    (file : List UInt8)
    (record : GroupTableRecord)
    (registry : Option CodecRegistry)
    (limits : DecodeLimits) : Result (List UInt8) := do
  let maximumCompressed ← okOr
    (checkedAdd limits.maxGroupOutput (1024 * 1024)) .integerOverflow
  let payload ← readExactVec file record.payloadOffset
    record.group.compressedLen maximumCompressed
  ensure (backends.digests.crc32c payload = record.group.payloadCrc32c)
    .checksumMismatch
  let codecId ← groupCodec record registry
  backends.codecs.decode codecId payload record.group.uncompressedLen

/-- The part of a decoded group that a restore record, or a range in it,
names. -/
def restoredSlice
    (decodedGroup : List UInt8)
    (restore : RestoreMapRecord)
    (offset length : UInt64) : Result (List UInt8) := do
  let entryEnd ← okOr (checkedAdd offset length) .integerOverflow
  ensure (entryEnd ≤ restore.length) .invalidRange
  let start ← okOr (checkedAdd restore.groupOffset offset) .integerOverflow
  let finish ← okOr (checkedAdd start length) .integerOverflow
  ensure (finish.toNat ≤ decodedGroup.length) .invalidRange
  .ok (Bytes.slice decodedGroup start.toNat length.toNat)

/-- A slice is given exactly when the range lies in the record and the record in
the group. -/
theorem restoredSlice_eq_ok
    {decodedGroup bytes : List UInt8}
    {restore : RestoreMapRecord}
    {offset length : UInt64} :
    restoredSlice decodedGroup restore offset length = .ok bytes ↔
      offset.toNat + length.toNat ≤ restore.length.toNat ∧
        restore.groupOffset.toNat + offset.toNat + length.toNat < 2 ^ 64 ∧
        restore.groupOffset.toNat + offset.toNat + length.toNat ≤
          decodedGroup.length ∧
        bytes = Bytes.slice decodedGroup
          (restore.groupOffset.toNat + offset.toNat) length.toNat := by
  simp only [restoredSlice, bind_eq_ok, okOr_eq_ok, checkedAdd_eq_some,
    ensure_eq_ok, exists_const, Except.ok.injEq, UInt64.le_iff_toNat_le]
  constructor
  · rintro ⟨entryEnd, entrySum, within, start, startSum, finish, finishSum,
      inside, rfl⟩
    have := finish.toNat_lt
    refine ⟨by omega, by omega, by omega, ?_⟩
    rw [startSum]
  · rintro ⟨within, fits, inside, rfl⟩
    have := restore.length.toNat_lt
    have endValue := @toNat_ofNat_of_lt (offset.toNat + length.toNat)
      (by omega)
    have startValue := @toNat_ofNat_of_lt
      (restore.groupOffset.toNat + offset.toNat) (by omega)
    have finishValue := toNat_ofNat_of_lt fits
    refine ⟨_, endValue.symm, by omega, _, startValue.symm, UInt64.ofNat
      (restore.groupOffset.toNat + offset.toNat + length.toNat), ?_, ?_, ?_⟩
    · rw [startValue, finishValue]
    · rw [finishValue]
      exact inside
    · rw [startValue]

/-! ## Verification -/

/-- Check the hash of one file in a decoded group. -/
def verifyRestore
    (digests : Digests)
    (entries : List EntryRecord)
    (decoded : List UInt8)
    (_position : Nat)
    (restore : RestoreMapRecord)
    (_checked : Unit) : Result Unit := do
  let entry ← okOr entries[restore.entryId.toNat]?
    (.invalidMetadata "restore entry")
  let bytes ← restoredSlice decoded restore 0 restore.length
  ensure (digests.blake3 bytes = entry.blake3) .hashMismatch

/-- Decode one group and check the hashes of its files. -/
def verifyGroup
    (backends : Backends)
    (file : List UInt8)
    (limits : DecodeLimits)
    (parsed : ParsedArchive)
    (_position : Nat)
    (record : GroupTableRecord)
    (_checked : Unit) : Result Unit := do
  let decoded ← decodeGroup backends file record parsed.codecRegistry limits
  forEnum (verifyRestore backends.digests parsed.entries decoded) 0
    (mappings parsed.restoreMap record.group.groupId) ()

/-- Verify an archive, payload included. -/
def verifyOpenFile
    (backends : Backends)
    (file : List UInt8)
    (limits : DecodeLimits) : Result ParsedArchive := do
  let parsed ← readCatalog backends file limits
  let (payloadCrc, _) ← digestRange backends.digests file
    parsed.payloadSection.offset parsed.payloadSection.length
  ensure (payloadCrc = parsed.payloadSection.crc32c) .checksumMismatch
  forEnum (verifyGroup backends file limits parsed) 0 parsed.groups ()
  let (_, root) ← digestRange backends.digests file 0 parsed.footerOffset
  ensure (root = parsed.expectedRoot) .hashMismatch
  .ok { parsed with report := { parsed.report with blake3Root := root } }

/-! ## What verification demands -/

/-- The file of a restore record has the hash of its entry. -/
def RestoreVerified
    (digests : Digests)
    (entries : List EntryRecord)
    (decoded : List UInt8)
    (restore : RestoreMapRecord) : Prop :=
  ∃ entry bytes, entries[restore.entryId.toNat]? = some entry ∧
    restoredSlice decoded restore 0 restore.length = .ok bytes ∧
    digests.blake3 bytes = entry.blake3

/-- A group decodes, and to files with the right hashes. -/
def GroupVerified
    (backends : Backends)
    (file : List UInt8)
    (limits : DecodeLimits)
    (parsed : ParsedArchive)
    (record : GroupTableRecord) : Prop :=
  ∃ decoded,
    decodeGroup backends file record parsed.codecRegistry limits =
      .ok decoded ∧
    ∀ restore ∈ mappings parsed.restoreMap record.group.groupId,
      RestoreVerified backends.digests parsed.entries decoded restore

theorem verifyGroup_eq_ok
    {backends : Backends}
    {file : List UInt8}
    {limits : DecodeLimits}
    {parsed : ParsedArchive}
    {position : Nat}
    {record : GroupTableRecord}
    {state result : Unit} :
    verifyGroup backends file limits parsed position record state =
        .ok result ↔
      GroupVerified backends file limits parsed record := by
  have restores (decoded : List UInt8) (position : Nat)
      (restore : RestoreMapRecord) (state next : Unit) :
      verifyRestore backends.digests parsed.entries decoded position restore
          state = .ok next ↔
        RestoreVerified backends.digests parsed.entries decoded restore := by
    simp only [verifyRestore, RestoreVerified, bind_eq_ok, okOr_eq_ok,
      ensure_eq_ok, exists_and_left]
  simp only [verifyGroup, GroupVerified, bind_eq_ok,
    forEnum_unit_eq_ok (restores _)]

/-- Everything that verification demands beyond the catalog. -/
structure PayloadVerified
    (backends : Backends)
    (file : List UInt8)
    (limits : DecodeLimits)
    (parsed : ParsedArchive) : Prop where
  payloadInside : (Bytes.slice file parsed.payloadSection.offset.toNat
    parsed.payloadSection.length.toNat).length =
      parsed.payloadSection.length.toNat
  payloadCrc : backends.digests.crc32cAppend 0
    (Bytes.slice file parsed.payloadSection.offset.toNat
      parsed.payloadSection.length.toNat) = parsed.payloadSection.crc32c
  groups : ∀ record ∈ parsed.groups,
    GroupVerified backends file limits parsed record
  prefixInside : (file.take parsed.footerOffset.toNat).length =
    parsed.footerOffset.toNat
  root : backends.digests.blake3 (file.take parsed.footerOffset.toNat) =
    parsed.expectedRoot

/-- The archive with the verified root in its report. -/
def ParsedArchive.withRoot (parsed : ParsedArchive) : ParsedArchive :=
  { parsed with
    report := { parsed.report with blake3Root := parsed.expectedRoot } }

/-- Verification succeeds exactly when the catalog is accepted and the payload
meets all demands. -/
theorem verifyOpenFile_eq_ok
    {backends : Backends}
    {file : List UInt8}
    {limits : DecodeLimits}
    {verified : ParsedArchive} :
    verifyOpenFile backends file limits = .ok verified ↔
      ∃ parsed, readCatalog backends file limits = .ok parsed ∧
        PayloadVerified backends file limits parsed ∧
        verified = parsed.withRoot := by
  simp only [verifyOpenFile, digestRange, bind_eq_ok, ensure_eq_ok,
    readExact_eq_ok, Except.ok.injEq, exists_const,
    forEnum_unit_eq_ok (@verifyGroup_eq_ok backends file limits _)]
  constructor
  · rintro ⟨parsed, accepted, _, ⟨_, ⟨payloadInside, rfl⟩, rfl⟩, payloadCrc,
      groups, _, ⟨_, ⟨prefixInside, rfl⟩, rfl⟩, root, rfl⟩
    simp only [Bytes.slice, UInt64.toNat_zero, List.drop_zero] at root prefixInside
    refine ⟨parsed, accepted, ⟨payloadInside, payloadCrc, groups, prefixInside,
      root⟩, ?_⟩
    simp only [Bytes.slice, UInt64.toNat_zero, List.drop_zero, root,
      ParsedArchive.withRoot]
  · rintro ⟨parsed, accepted, ok, rfl⟩
    refine ⟨parsed, accepted, _, ⟨_, ⟨ok.payloadInside, rfl⟩, rfl⟩,
      ok.payloadCrc, ok.groups, _, ⟨_, ⟨?_, rfl⟩, rfl⟩, ?_, ?_⟩
    all_goals simp only [Bytes.slice, UInt64.toNat_zero, List.drop_zero]
    · exact ok.prefixInside
    · exact ok.root
    · rw [ok.root]
      rfl

end Pithos
