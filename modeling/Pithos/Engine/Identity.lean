import Pithos.Engine.Corruption

/-!
# Archive identity

The daemon remembers a published archive by its length and its root hash.  The
root covers everything before the footer.  Of the footer, every named field is
then determined; the eight bytes that no field names are covered only by the
footer's own checksum, which is determined by them.
-/

namespace Pithos

open Fallible
open Machine
open Bytes

/-- What the daemon records of a published archive. -/
structure ArchiveIdentity where
  length : UInt64
  blake3 : Digest
  deriving DecidableEq

/-- The identity of a verified archive. -/
def ParsedArchive.identity (verified : ParsedArchive) : ArchiveIdentity where
  length := verified.report.archiveBytes
  blake3 := verified.report.blake3Root

namespace Footer

/-- The bytes of a footer that no field names, at `52..56` and `60..64`. -/
def reserved (buffer : List UInt8) : List UInt8 :=
  slice buffer 52 4 ++ slice buffer 60 4

/-- What a footer is decoded from. -/
theorem fields_of_decode
    {digests : Digests}
    {buffer : List UInt8}
    {footer : Footer}
    (decoded : decode digests buffer = .ok footer) :
    buffer.take 4 = footerMagic ∧
      readU32 buffer 56 = footerCrc digests buffer ∧
      footer = {
        archiveLength := readU64 buffer 4
        blake3Root := takeFixed 32 (slice buffer 12 32)
        directoryCrc32c := readU32 buffer 44
        version := readU32 buffer 48 } := by
  simp only [decode, bind_eq_ok, ensure_eq_ok, exists_const,
    Except.ok.injEq] at decoded
  exact ⟨decoded.1, decoded.2.1, decoded.2.2.symm⟩

/-- The bytes of a footer in order, cut at its fields. -/
theorem eq_fields
    {buffer : List UInt8}
    (length : buffer.length = footerLen) :
    buffer = buffer.take 4 ++ (slice buffer 4 8 ++ (slice buffer 12 32 ++
      (slice buffer 44 4 ++ (slice buffer 48 4 ++ (slice buffer 52 4 ++
        (slice buffer 56 4 ++ slice buffer 60 4)))))) := by
  have head : buffer.take 4 = slice buffer 0 4 := rfl
  rw [head, slice_append_slice buffer 56 4 4, slice_append_slice buffer 52 4 8,
    slice_append_slice buffer 48 4 12, slice_append_slice buffer 44 4 16,
    slice_append_slice buffer 12 32 20, slice_append_slice buffer 4 8 52,
    slice_append_slice buffer 0 4 60]
  exact (slice_all length).symm

/-- A footer is determined by its fields and its reserved bytes. -/
theorem eq_of_decode
    {digests : Digests}
    {first second : List UInt8}
    {footer : Footer}
    (firstLength : first.length = footerLen)
    (secondLength : second.length = footerLen)
    (firstDecoded : decode digests first = .ok footer)
    (secondDecoded : decode digests second = .ok footer)
    (sameReserved : reserved first = reserved second) :
    first = second := by
  have firstSize : first.length = 64 := firstLength
  have secondSize : second.length = 64 := secondLength
  obtain ⟨firstMagic, firstCrc, firstFields⟩ := fields_of_decode firstDecoded
  obtain ⟨secondMagic, secondCrc, secondFields⟩ :=
    fields_of_decode secondDecoded
  have fields := firstFields.symm.trans secondFields
  rw [Footer.mk.injEq] at fields
  obtain ⟨sameLength, sameRoot, sameDirectory, sameVersion⟩ := fields
  have lengthField := slice_eq_of_readU64_eq (by omega) (by omega) sameLength
  have directoryField :=
    slice_eq_of_readU32_eq (by omega) (by omega) sameDirectory
  have versionField := slice_eq_of_readU32_eq (by omega) (by omega) sameVersion
  have rootField : slice first 12 32 = slice second 12 32 := by
    have values := congrArg Subtype.val sameRoot
    rwa [takeFixed_val (length_slice (by omega)),
      takeFixed_val (length_slice (by omega))] at values
  obtain ⟨front, tail⟩ := List.append_inj sameReserved (by
    rw [length_slice (by omega), length_slice (by omega)])
  have covered : first.take 56 = second.take 56 := by
    have cut (buffer : List UInt8) : buffer.take 56 = buffer.take 4 ++
        (slice buffer 4 8 ++ (slice buffer 12 32 ++ (slice buffer 44 4 ++
          (slice buffer 48 4 ++ slice buffer 52 4)))) := by
      have head : buffer.take 4 = slice buffer 0 4 := rfl
      have whole : buffer.take 56 = slice buffer 0 56 := rfl
      rw [head, whole, slice_append_slice buffer 48 4 4,
        slice_append_slice buffer 44 4 8, slice_append_slice buffer 12 32 12,
        slice_append_slice buffer 4 8 44, slice_append_slice buffer 0 4 52]
    rw [cut first, cut second, firstMagic, secondMagic, lengthField, rootField,
      directoryField, versionField, front]
  have crcField : slice first 56 4 = slice second 56 4 := by
    refine slice_eq_of_readU32_eq (by omega) (by omega) ?_
    rw [firstCrc, secondCrc, footerCrc, footerCrc, covered, tail]
  rw [eq_fields firstLength, eq_fields secondLength, firstMagic, secondMagic,
    lengthField, rootField, directoryField, versionField, front, crcField,
    tail]

end Footer

/-- The reserved bytes of an archive: those of the footer at its end. -/
def reservedBytes (file : List UInt8) : List UInt8 :=
  Footer.reserved (file.drop (file.length - footerLen))

/-- What the identity of a verified file says about it. -/
structure Identified
    (digests : Digests)
    (file : List UInt8)
    (limits : DecodeLimits)
    (container : Container)
    (identity : ArchiveIdentity) : Prop where
  containerOk : ContainerOk digests file limits container
  root : digests.blake3 (file.take container.header.footerOffset.toNat) =
    container.footer.blake3Root
  length : identity.length.toNat = file.length
  blake3 : identity.blake3 = container.footer.blake3Root

theorem identified_of_verifyOpenFile
    {backends : Backends}
    {file : List UInt8}
    {limits : DecodeLimits}
    {verified : ParsedArchive}
    (accepted : verifyOpenFile backends file limits = .ok verified) :
    ∃ container, Identified backends.digests file limits container
      verified.identity := by
  obtain ⟨parsed, read, payload, rfl⟩ := verifyOpenFile_eq_ok.mp accepted
  obtain ⟨container, _, _, containerOk, _, _, rfl⟩ := readCatalog_eq_ok.mp read
  have bound := container.footer.archiveLength.toNat_lt
  rw [containerOk.archiveLength] at bound
  exact ⟨container, containerOk, payload.root, toNat_ofNat_of_lt bound, rfl⟩

section Identified

variable
  {digests : Digests}
  {first second : List UInt8}
  {limits otherLimits : DecodeLimits}
  {container otherContainer : Container}
  {identity : ArchiveIdentity}

theorem Identified.length_eq
    (identified : Identified digests first limits container identity)
    (otherIdentified : Identified digests second otherLimits otherContainer
      identity) :
    first.length = second.length :=
  identified.length.symm.trans otherIdentified.length

/-- The same identity means the same bytes before the footer. -/
theorem Identified.prefix_eq
    (identified : Identified digests first limits container identity)
    (otherIdentified : Identified digests second otherLimits otherContainer
      identity)
    (noCollision : digests.NoPrefixCollision
      container.header.footerOffset.toNat first second) :
    otherContainer.header.footerOffset.toNat =
        container.header.footerOffset.toNat ∧
      first.take container.header.footerOffset.toNat =
        second.take container.header.footerOffset.toNat := by
  have sameLength := identified.length_eq otherIdentified
  have firstEnd := identified.containerOk.footerAtEnd
  have secondEnd := otherIdentified.containerOk.footerAtEnd
  have sameOffset : otherContainer.header.footerOffset.toNat =
      container.header.footerOffset.toNat := by omega
  refine ⟨sameOffset, noCollision ?_⟩
  rw [identified.root, ← identified.blake3, otherIdentified.blake3,
    ← otherIdentified.root, sameOffset]

theorem slice_eq_of_take_eq
    {length offset count : Nat}
    (same : first.take length = second.take length)
    (inside : offset + count ≤ length) :
    slice first offset count = slice second offset count := by
  have cut (file : List UInt8) :
      slice (file.take length) offset count = slice file offset count := by
    rw [slice, slice, List.drop_take, List.take_take]
    congr 1
    omega
  rw [← cut first, ← cut second, same]

/-- The same identity means the same fields of the footer. -/
theorem Identified.footer_eq
    (identified : Identified digests first limits container identity)
    (otherIdentified : Identified digests second otherLimits otherContainer
      identity)
    (noCollision : digests.NoPrefixCollision
      container.header.footerOffset.toNat first second) :
    container.footer = otherContainer.footer := by
  obtain ⟨_, samePrefix⟩ := identified.prefix_eq otherIdentified noCollision
  have sameLength := identified.length_eq otherIdentified
  have ok := identified.containerOk
  have otherOk := otherIdentified.containerOk
  have inside := UInt64.le_iff_toNat_le.mp ok.directoryInside
  have directoryEnd := ok.directoryEnd
  have sameHeader : container.header = otherContainer.header := by
    have decoded := ok.header
    rw [slice_eq_of_take_eq samePrefix (by omega), otherOk.header] at decoded
    exact (Except.ok.inj decoded).symm
  have sameDirectory : directoryBytes first container =
      directoryBytes second otherContainer := by
    have directoryLength := ok.directoryLength
    rw [sameHeader, ← otherOk.directoryLength] at directoryLength
    rw [directoryBytes, directoryBytes, ← directoryLength]
    exact slice_eq_of_take_eq samePrefix (by omega)
  have archiveLength : container.footer.archiveLength =
      otherContainer.footer.archiveLength := by
    rw [← UInt64.toNat_inj, ok.archiveLength, otherOk.archiveLength,
      sameLength]
  have root := identified.blake3.symm.trans otherIdentified.blake3
  have directoryCrc : container.footer.directoryCrc32c =
      otherContainer.footer.directoryCrc32c := by
    rw [← ok.directoryCrc, ← otherOk.directoryCrc, sameDirectory]
  have version := ok.version.trans otherOk.version.symm
  calc container.footer = ⟨container.footer.archiveLength,
        container.footer.blake3Root, container.footer.directoryCrc32c,
        container.footer.version⟩ := rfl
    _ = otherContainer.footer := by
        rw [archiveLength, root, directoryCrc, version]

end Identified

/-- Two verified files with the same identity and the same reserved bytes are
the same file. -/
theorem eq_of_reservedBytes_eq
    {backends : Backends}
    {first second : List UInt8}
    (noCollision : backends.digests.NoPrefixCollision
      (first.length - footerLen) first second)
    {limits otherLimits : DecodeLimits}
    {verified otherVerified : ParsedArchive}
    (accepted : verifyOpenFile backends first limits = .ok verified)
    (otherAccepted : verifyOpenFile backends second otherLimits =
      .ok otherVerified)
    (sameIdentity : verified.identity = otherVerified.identity)
    (sameReserved : reservedBytes first = reservedBytes second) :
    first = second := by
  obtain ⟨container, identified⟩ := identified_of_verifyOpenFile accepted
  obtain ⟨otherContainer, otherIdentified⟩ :=
    identified_of_verifyOpenFile otherAccepted
  rw [← sameIdentity] at otherIdentified
  have atEnd := identified.containerOk.footerAtEnd
  have offset : first.length - footerLen =
      container.header.footerOffset.toNat := by omega
  rw [offset] at noCollision
  obtain ⟨sameOffset, samePrefix⟩ :=
    identified.prefix_eq otherIdentified noCollision
  have footerEq := identified.footer_eq otherIdentified noCollision
  have sameLength := identified.length_eq otherIdentified
  have footerBytes (file : List UInt8) (length : file.length = first.length) :
      slice file container.header.footerOffset.toNat footerLen =
        file.drop container.header.footerOffset.toNat := by
    rw [slice, List.take_of_length_le]
    rw [List.length_drop]
    omega
  have firstDecoded := identified.containerOk.footer
  have secondDecoded := otherIdentified.containerOk.footer
  rw [footerBytes first rfl] at firstDecoded
  rw [sameOffset, footerBytes second sameLength.symm, ← footerEq]
    at secondDecoded
  rw [reservedBytes, reservedBytes, ← sameLength, offset] at sameReserved
  have sameFooter := Footer.eq_of_decode
    (by rw [List.length_drop]; omega) (by rw [List.length_drop]; omega)
    firstDecoded secondDecoded sameReserved
  rw [← List.take_append_drop container.header.footerOffset.toNat first,
    samePrefix, sameFooter, List.take_append_drop]

end Pithos
