import Mathlib.Logic.Function.Iterate
import Pithos.Library.Bytes

/-!
# CRC32C

The Castagnoli checksum, one byte at a time.  The register keeps all that was
shifted out of it: a shift by one bit is injective, and so is every longer run,
which is why the checksum changes whenever a single byte does.
-/

namespace Crc32c

/-- The reflected Castagnoli polynomial. -/
def polynomial : UInt32 := 0x82F63B78

/-- Shift the register by one bit. -/
def shift (register : UInt32) : UInt32 :=
  if register.toBitVec.getLsbD 0 then
    (register >>> 1) ^^^ polynomial
  else
    register >>> 1

/-- Feed one byte. -/
def feed (register : UInt32) (byte : UInt8) : UInt32 :=
  shift^[8] (register ^^^ byte.toUInt32)

/-- The checksum of what was summed before followed by more bytes. -/
def append (checksum : UInt32) (bytes : List UInt8) : UInt32 :=
  ~~~(bytes.foldl feed (~~~checksum))

/-- The checksum of some bytes. -/
def checksum (bytes : List UInt8) : UInt32 :=
  append 0 bytes

example : checksum [0x31, 0x32, 0x33, 0x34, 0x35, 0x36, 0x37, 0x38, 0x39] =
    0xE3069283 := by
  decide +kernel

/-! ## Shifts -/

/-- The top bit of a shifted register is the bit that was shifted out. -/
theorem getLsbD_shift_top (register : UInt32) :
    (shift register).toBitVec.getLsbD 31 = register.toBitVec.getLsbD 0 := by
  unfold shift
  cases low : register.toBitVec.getLsbD 0 <;>
    simp [polynomial]

theorem shift_injective : Function.Injective shift := by
  intro first second same
  have sameLow : first.toBitVec.getLsbD 0 = second.toBitVec.getLsbD 0 := by
    rw [← getLsbD_shift_top first, same, getLsbD_shift_top]
  have sameRest : first >>> 1 = second >>> 1 := by
    rw [shift, shift, sameLow] at same
    split at same
    · exact (UInt32.xor_left_inj _).mp same
    · exact same
  apply UInt32.toBitVec_inj.mp
  apply BitVec.eq_of_getLsbD_eq
  intro index _
  cases index with
  | zero => exact sameLow
  | succ index =>
      have bits := congrArg (fun value => value.toBitVec.getLsbD index) sameRest
      simpa [Nat.add_comm] using bits

theorem feed_injective_left (byte : UInt8) :
    Function.Injective fun register => feed register byte := by
  intro first second same
  exact (UInt32.xor_left_inj _).mp (shift_injective.iterate 8 same)

theorem feed_injective_right (register : UInt32) :
    Function.Injective (feed register) := by
  intro first second same
  have words := (UInt32.xor_right_inj _).mp (shift_injective.iterate 8 same)
  exact UInt8.toUInt32_inj.mp words

theorem foldl_feed_injective (bytes : List UInt8) :
    Function.Injective fun register => bytes.foldl feed register := by
  induction bytes with
  | nil => exact Function.injective_id
  | cons byte rest inductionHypothesis =>
      exact inductionHypothesis.comp (feed_injective_left byte)

/-! ## The checksum -/

@[simp] theorem checksum_nil : checksum [] = 0 := by
  decide

/-- Summing in pieces gives the checksum of the whole. -/
theorem append_checksum (first second : List UInt8) :
    append (checksum first) second = checksum (first ++ second) := by
  simp [checksum, append, List.foldl_append]

/-- Every change of a single byte changes the checksum. -/
theorem checksum_ne_of_oneByteChange
    {first second : List UInt8}
    (change : Bytes.OneByteChange first second) :
    checksum first ≠ checksum second := by
  obtain ⟨before, old, new, after, rfl, rfl, different⟩ := change
  intro same
  have registers := UInt32.not_inj.mp same
  rw [List.foldl_append, List.foldl_append, List.foldl_cons,
    List.foldl_cons] at registers
  exact different (feed_injective_right _ (foldl_feed_injective after registers))

end Crc32c
