import Pithos.Engine.Verify

/-!
# Corruption detection

The root hash in the footer covers everything before it, and the footer's own
checksum covers the footer outside the checksum field.  The footer stands where
the header says and at the end of the file, so a file of another length cannot
keep the same header.
-/

namespace Pithos

open Fallible
open Machine
open Bytes

/-- The checksum detects every change of a single byte. -/
def Digests.DetectsOneByte (digests : Digests) : Prop :=
  ∀ first second, OneByteChange first second →
    digests.crc32c first ≠ digests.crc32c second

/-- The hash does not confuse the first bytes of two files. -/
def Digests.NoPrefixCollision
    (digests : Digests)
    (length : Nat)
    (first second : List UInt8) : Prop :=
  digests.blake3 (first.take length) = digests.blake3 (second.take length) →
    first.take length = second.take length

/-- How a file is corrupted, given where its footer starts. -/
inductive Corruption (footerOffset : Nat) (file : List UInt8) :
    List UInt8 → Prop
  | beforeFooter (changed : List UInt8)
      (sameLength : changed.length = file.length)
      (sameFooter : changed.drop footerOffset = file.drop footerOffset)
      (different : changed ≠ file) : Corruption footerOffset file changed
  | oneByte (changed : List UInt8)
      (change : OneByteChange file changed) :
      Corruption footerOffset file changed
  | cut (length : Nat)
      (shorter : length < file.length) :
      Corruption footerOffset file (file.take length)
  | extended (suffix : List UInt8)
      (nonempty : suffix ≠ []) :
      Corruption footerOffset file (file ++ suffix)

/-! ## The footer checksum -/

theorem footerCrc_eq
    {digests : Digests}
    (lawful : digests.Lawful)
    (buffer : List UInt8) :
    Footer.footerCrc digests buffer =
      digests.crc32c (buffer.take 56 ++ slice buffer 60 4) :=
  lawful.crc32cAppend_crc32c _ _

theorem Footer.crc_of_decode
    {digests : Digests}
    {buffer : List UInt8}
    {footer : Footer}
    (decoded : Footer.decode digests buffer = .ok footer) :
    readU32 buffer 56 = Footer.footerCrc digests buffer := by
  simp only [Footer.decode, bind_eq_ok, ensure_eq_ok, exists_const] at decoded
  exact decoded.2.1

/-- Of two footers that differ in one byte, at most one is accepted. -/
theorem Footer.decode_oneByteChange
    {digests : Digests}
    (lawful : digests.Lawful)
    (detects : digests.DetectsOneByte)
    {first second : List UInt8}
    (firstLength : first.length = footerLen)
    (change : OneByteChange first second)
    {footer other : Footer}
    (firstDecoded : Footer.decode digests first = .ok footer)
    (secondDecoded : Footer.decode digests second = .ok other) : False := by
  have secondLength := change.length_eq.symm.trans firstLength
  unfold footerLen at firstLength secondLength
  have firstCrc := Footer.crc_of_decode firstDecoded
  have secondCrc := Footer.crc_of_decode secondDecoded
  rw [footerCrc_eq lawful] at firstCrc secondCrc
  have field (buffer : List UInt8) :
      slice buffer 56 4 = (buffer.drop 56).take 4 := rfl
  have tail (buffer : List UInt8) (length : buffer.length = 64) :
      slice buffer 60 4 = (buffer.drop 56).drop 4 := by
    rw [List.drop_drop, slice, List.take_of_length_le (by simp [length])]
  rcases change.split 56 with ⟨front, back⟩ | ⟨front, back⟩
  · -- The change is covered, and the checksum field is the same.
    have sameField : readU32 first 56 = readU32 second 56 := by
      rw [readU32, readU32, field, field, back]
    have sameTail : slice first 60 4 = slice second 60 4 := by
      rw [tail first firstLength, tail second secondLength, back]
    rw [firstCrc, secondCrc, sameTail] at sameField
    exact detects _ _ (front.append_right _) sameField
  · rcases back.split 4 with ⟨stored, after⟩ | ⟨stored, after⟩
    · -- The change is in the checksum field; what it covers is the same.
      have sameCrc : readU32 first 56 = readU32 second 56 := by
        rw [firstCrc, secondCrc, front, tail first firstLength,
          tail second secondLength, after]
      have sameField := slice_eq_of_readU32_eq (by omega) (by omega) sameCrc
      exact stored.ne sameField
    · have sameField : readU32 first 56 = readU32 second 56 := by
        rw [readU32, readU32, field, field, stored]
      rw [firstCrc, secondCrc, front, tail first firstLength,
        tail second secondLength] at sameField
      exact detects _ _ (after.append_left _) sameField

/-! ## Accepted files -/

/-- What an accepted file says about its own header, footer and root. -/
structure Sealed
    (digests : Digests)
    (file : List UInt8)
    (header : GlobalHeader)
    (footer : Footer) : Prop where
  headerDecoded : GlobalHeader.decode digests (slice file 0 headerLen) =
    .ok header
  footerDecoded : Footer.decode digests
    (slice file header.footerOffset.toNat footerLen) = .ok footer
  footerAtEnd : header.footerOffset.toNat + footerLen = file.length
  long : headerLen ≤ header.footerOffset.toNat
  root : digests.blake3 (file.take header.footerOffset.toNat) =
    footer.blake3Root

theorem sealed_of_verifyOpenFile
    {backends : Backends}
    {file : List UInt8}
    {limits : DecodeLimits}
    {verified : ParsedArchive}
    (accepted : verifyOpenFile backends file limits = .ok verified) :
    ∃ header footer, Sealed backends.digests file header footer ∧
      verified.footerOffset = header.footerOffset := by
  obtain ⟨parsed, read, payload, rfl⟩ := verifyOpenFile_eq_ok.mp accepted
  obtain ⟨container, _, _, containerOk, _, _, rfl⟩ := readCatalog_eq_ok.mp read
  have inside := UInt64.le_iff_toNat_le.mp containerOk.directoryInside
  have finish := containerOk.directoryEnd
  exact ⟨container.header, container.footer, ⟨containerOk.header,
    containerOk.footer, containerOk.footerAtEnd, by omega, payload.root⟩, rfl⟩

/-- Two sealed files with the same first bytes have the same length. -/
theorem Sealed.length_eq
    {digests : Digests}
    {first second : List UInt8}
    {header otherHeader : GlobalHeader}
    {footer otherFooter : Footer}
    (firstSealed : Sealed digests first header footer)
    (secondSealed : Sealed digests second otherHeader otherFooter)
    (sameHeader : slice first 0 headerLen = slice second 0 headerLen) :
    first.length = second.length := by
  have decoded := firstSealed.headerDecoded
  rw [sameHeader, secondSealed.headerDecoded] at decoded
  cases decoded
  rw [← firstSealed.footerAtEnd, ← secondSealed.footerAtEnd]

/-- Two sealed files of one length with the same footer bytes are the same. -/
theorem Sealed.eq_of_sameFooter
    {digests : Digests}
    {first second : List UInt8}
    {header otherHeader : GlobalHeader}
    {footer otherFooter : Footer}
    (firstSealed : Sealed digests first header footer)
    (secondSealed : Sealed digests second otherHeader otherFooter)
    (noCollision : digests.NoPrefixCollision header.footerOffset.toNat
      first second)
    (sameLength : second.length = first.length)
    (sameFooter : second.drop header.footerOffset.toNat =
      first.drop header.footerOffset.toNat) :
    second = first := by
  have firstEnd := firstSealed.footerAtEnd
  have secondEnd := secondSealed.footerAtEnd
  have sameOffset : otherHeader.footerOffset.toNat =
      header.footerOffset.toNat := by omega
  have sameRoot : footer.blake3Root = otherFooter.blake3Root := by
    have firstDecoded := firstSealed.footerDecoded
    have secondDecoded := secondSealed.footerDecoded
    rw [sameOffset, slice, sameFooter] at secondDecoded
    rw [slice, secondDecoded] at firstDecoded
    cases firstDecoded
    rfl
  have samePrefix := noCollision (by
    rw [firstSealed.root, sameRoot, ← secondSealed.root, sameOffset])
  rw [← List.take_append_drop header.footerOffset.toNat first, samePrefix,
    ← sameFooter, List.take_append_drop]

/-- Two sealed files do not differ in exactly one byte. -/
theorem Sealed.not_oneByteChange
    {digests : Digests}
    (lawful : digests.Lawful)
    (detects : digests.DetectsOneByte)
    {first second : List UInt8}
    {header otherHeader : GlobalHeader}
    {footer otherFooter : Footer}
    (firstSealed : Sealed digests first header footer)
    (secondSealed : Sealed digests second otherHeader otherFooter)
    (noCollision : digests.NoPrefixCollision header.footerOffset.toNat
      first second) :
    ¬OneByteChange first second := by
  intro change
  have sameLength := change.length_eq
  have firstEnd := firstSealed.footerAtEnd
  have secondEnd := secondSealed.footerAtEnd
  rcases change.split header.footerOffset.toNat with
    ⟨_, sameFooter⟩ | ⟨_, footerChange⟩
  · exact change.ne (firstSealed.eq_of_sameFooter secondSealed noCollision
      sameLength.symm sameFooter.symm).symm
  · have whole (file : List UInt8) (length : file.length = first.length) :
        slice file header.footerOffset.toNat footerLen =
          file.drop header.footerOffset.toNat := by
      rw [slice, List.take_of_length_le]
      simp [length]
      omega
    have sameOffset : otherHeader.footerOffset.toNat =
        header.footerOffset.toNat := by omega
    have firstDecoded := firstSealed.footerDecoded
    have secondDecoded := secondSealed.footerDecoded
    rw [whole first rfl] at firstDecoded
    rw [sameOffset, whole second sameLength.symm] at secondDecoded
    refine Footer.decode_oneByteChange lawful detects ?_ footerChange
      firstDecoded secondDecoded
    simp
    omega

end Pithos
