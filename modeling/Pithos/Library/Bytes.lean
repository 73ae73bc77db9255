import Mathlib.Algebra.GroupWithZero.Nat
import Mathlib.Data.List.Basic
import Mathlib.Data.List.TakeDrop
import Mathlib.Tactic.Common

/-!
# Byte strings

Slices of byte strings, byte strings of a fixed length, and the little-endian
encoding of a number in a fixed count of bytes.  The two directions of the
encoding are inverse to each other on numbers that fit and on byte strings of
the right length.
-/

namespace Bytes

/-- The bytes at positions `offset, …, offset + length - 1`, cut short at the
end of the buffer. -/
def slice (buffer : List UInt8) (offset length : Nat) : List UInt8 :=
  (buffer.drop offset).take length

theorem length_slice
    {buffer : List UInt8}
    {offset length : Nat}
    (inside : offset + length ≤ buffer.length) :
    (slice buffer offset length).length = length := by
  simp only [slice, List.length_take, List.length_drop]
  omega

@[simp] theorem slice_zero_length
    (buffer : List UInt8)
    (offset : Nat) :
    slice buffer offset 0 = [] := by
  simp [slice]

theorem slice_append_left
    {front : List UInt8}
    (back : List UInt8)
    {offset length : Nat}
    (inside : offset + length ≤ front.length) :
    slice (front ++ back) offset length = slice front offset length := by
  unfold slice
  rw [List.drop_append_of_le_length (by omega)]
  rw [List.take_append_of_le_length]
  simp only [List.length_drop]
  omega

theorem slice_append_right
    {front back : List UInt8}
    {offset length : Nat}
    (beyond : front.length ≤ offset) :
    slice (front ++ back) offset length =
      slice back (offset - front.length) length := by
  unfold slice
  rw [List.drop_append, List.drop_eq_nil_of_le beyond, List.nil_append]

/-- A field at the start of a buffer is read back. -/
theorem slice_head
    {field : List UInt8}
    (back : List UInt8)
    {length : Nat}
    (fieldLength : field.length = length) :
    slice (field ++ back) 0 length = field := by
  subst fieldLength
  simp [slice]

/-- A field is read back at the length of what stands before it. -/
theorem slice_field
    (front field back : List UInt8)
    {offset length : Nat}
    (frontLength : front.length = offset)
    (fieldLength : field.length = length) :
    slice (front ++ (field ++ back)) offset length = field := by
  subst frontLength
  rw [slice_append_right (Nat.le_refl _), Nat.sub_self,
    slice_head back fieldLength]

theorem slice_all
    {buffer : List UInt8}
    {length : Nat}
    (exact : buffer.length = length) :
    slice buffer 0 length = buffer := by
  subst exact
  simp [slice]

/-- Two adjacent slices make one. -/
theorem slice_append_slice
    (buffer : List UInt8)
    (offset first second : Nat) :
    slice buffer offset first ++ slice buffer (offset + first) second =
      slice buffer offset (first + second) := by
  unfold slice
  rw [List.take_add, List.drop_drop]

/-- Two slices make one when the second starts where the first ends. -/
theorem slice_append_slice_of_eq
    (buffer : List UInt8)
    {offset first next second : Nat}
    (adjacent : next = offset + first) :
    slice buffer offset first ++ slice buffer next second =
      slice buffer offset (first + second) := by
  rw [adjacent, slice_append_slice]

/-- A slice of a slice is a slice. -/
theorem slice_slice
    (buffer : List UInt8)
    {offset length inner innerLength : Nat}
    (inside : inner + innerLength ≤ length) :
    slice (slice buffer offset length) inner innerLength =
      slice buffer (offset + inner) innerLength := by
  unfold slice
  rw [List.drop_take, List.drop_drop, List.take_take]
  congr 1
  omega

/-- The consecutive pieces of exactly `size` bytes; a shorter rest is left
out. -/
def chunksExact (size : Nat) (bytes : List UInt8) : List (List UInt8) :=
  (List.range (bytes.length / size)).map fun index =>
    slice bytes (index * size) size

/-- Records of one size, written one after the other, are the pieces of that
size. -/
theorem chunksExact_flatMap
    {Item : Type}
    {encode : Item → List UInt8}
    {size : Nat}
    (sizePositive : 0 < size)
    (encodeLength : ∀ item, (encode item).length = size)
    (items : List Item) :
    chunksExact size (items.flatMap encode) = items.map encode := by
  induction items with
  | nil => simp [chunksExact]
  | cons item items inductionHypothesis =>
      have count :
          ((encode item ++ items.flatMap encode).length / size) =
            (items.flatMap encode).length / size + 1 := by
        rw [List.length_append, encodeLength, Nat.add_comm,
          Nat.add_div_right _ sizePositive]
      have later (index : Nat) :
          slice (encode item ++ items.flatMap encode) ((index + 1) * size)
              size =
            slice (items.flatMap encode) (index * size) size := by
        have beyond : (encode item).length ≤ (index + 1) * size := by
          rw [encodeLength, Nat.succ_mul]
          omega
        rw [slice_append_right beyond, encodeLength, Nat.succ_mul,
          Nat.add_sub_cancel]
      simp only [chunksExact, List.flatMap_cons, count,
        List.range_succ_eq_map, List.map_cons, List.map_map, Nat.zero_mul,
        slice_head _ (encodeLength item), Function.comp_def, Nat.succ_eq_add_one,
        later]
      rw [List.cons.injEq]
      exact ⟨rfl, inductionHypothesis⟩

/-- The pieces of a byte string of a whole number of pieces make it up. -/
theorem flatten_chunksExact
    {size count : Nat}
    {bytes : List UInt8}
    (sizePositive : 0 < size)
    (whole : bytes.length = count * size) :
    (chunksExact size bytes).flatten = bytes := by
  have upTo (pieces : Nat) :
      ((List.range pieces).map fun index =>
        slice bytes (index * size) size).flatten =
          slice bytes 0 (pieces * size) := by
    induction pieces with
    | zero => simp
    | succ pieces inductionHypothesis =>
        rw [List.range_succ, List.map_append, List.flatten_append,
          inductionHypothesis, List.map_singleton, List.flatten_singleton,
          slice_append_slice_of_eq _ (Nat.zero_add _).symm, Nat.succ_mul]
  rw [chunksExact, whole, Nat.mul_div_cancel _ sizePositive, upTo]
  exact slice_all whole

/-- Each piece has the size. -/
theorem length_of_mem_chunksExact
    {size : Nat}
    {bytes piece : List UInt8}
    (member : piece ∈ chunksExact size bytes) :
    piece.length = size := by
  obtain ⟨index, bound, rfl⟩ := List.mem_map.mp member
  refine length_slice ?_
  calc index * size + size = (index + 1) * size := (Nat.succ_mul _ _).symm
    _ ≤ bytes.length / size * size :=
        Nat.mul_le_mul_right _ (List.mem_range.mp bound)
    _ ≤ bytes.length := Nat.div_mul_le_self _ _

/-! ## Changes of one byte -/

/-- Two byte strings that differ in exactly one place. -/
def OneByteChange (first second : List UInt8) : Prop :=
  ∃ before old new after, first = before ++ old :: after ∧
    second = before ++ new :: after ∧ old ≠ new

theorem OneByteChange.ne
    {first second : List UInt8}
    (change : OneByteChange first second) :
    first ≠ second := by
  obtain ⟨before, old, new, after, rfl, rfl, different⟩ := change
  simpa using different

theorem OneByteChange.append_left
    {first second : List UInt8}
    (front : List UInt8)
    (change : OneByteChange first second) :
    OneByteChange (front ++ first) (front ++ second) := by
  obtain ⟨before, old, new, after, rfl, rfl, different⟩ := change
  exact ⟨front ++ before, old, new, after, by simp, by simp, different⟩

theorem OneByteChange.append_right
    {first second : List UInt8}
    (change : OneByteChange first second)
    (back : List UInt8) :
    OneByteChange (first ++ back) (second ++ back) := by
  obtain ⟨before, old, new, after, rfl, rfl, different⟩ := change
  exact ⟨before, old, new, after ++ back, by simp, by simp, different⟩

theorem OneByteChange.length_eq
    {first second : List UInt8}
    (change : OneByteChange first second) :
    first.length = second.length := by
  obtain ⟨before, old, new, after, rfl, rfl, _⟩ := change
  simp

/-- Cut at any position, the change is on one side and the other side is the
same. -/
theorem OneByteChange.split
    {first second : List UInt8}
    (change : OneByteChange first second)
    (cut : Nat) :
    OneByteChange (first.take cut) (second.take cut) ∧
        first.drop cut = second.drop cut ∨
      first.take cut = second.take cut ∧
        OneByteChange (first.drop cut) (second.drop cut) := by
  obtain ⟨before, old, new, after, rfl, rfl, different⟩ := change
  by_cases early : before.length < cut
  · left
    obtain ⟨extra, rfl⟩ := Nat.exists_eq_add_of_lt early
    refine ⟨⟨before, old, new, after.take extra, ?_, ?_, different⟩, ?_⟩
    all_goals simp [Nat.add_assoc, List.take_append, List.drop_append,
      List.take_of_length_le, List.drop_eq_nil_of_le]
  · right
    have late : cut ≤ before.length := Nat.le_of_not_lt early
    rw [List.take_append_of_le_length late, List.take_append_of_le_length late,
      List.drop_append_of_le_length late, List.drop_append_of_le_length late]
    exact ⟨rfl, before.drop cut, old, new, after, rfl, rfl, different⟩

/-! ## Fixed lengths -/

/-- A byte string of exactly `length` bytes. -/
abbrev Fixed (length : Nat) :=
  {bytes : List UInt8 // bytes.length = length}

/-- The first `length` bytes, filled up with zeros when there are fewer. -/
def takeFixed (length : Nat) (bytes : List UInt8) : Fixed length :=
  ⟨(bytes ++ List.replicate length 0).take length, by simp⟩

theorem takeFixed_val
    {length : Nat}
    {bytes : List UInt8}
    (exact : bytes.length = length) :
    (takeFixed length bytes).val = bytes := by
  subst exact
  simp [takeFixed]

@[simp] theorem takeFixed_coe
    {length : Nat}
    (bytes : Fixed length) :
    takeFixed length bytes.val = bytes :=
  Subtype.ext (takeFixed_val bytes.property)

/-- The all-zero byte string. -/
def zeros (length : Nat) : Fixed length :=
  ⟨List.replicate length 0, by simp⟩

/-- The bytes of a text, in UTF-8. -/
def textBytes (text : String) : List UInt8 :=
  text.toByteArray.data.toList

theorem length_textBytes (text : String) :
    (textBytes text).length = text.utf8ByteSize := by
  rw [textBytes, Array.length_toList, ByteArray.size_data, String.size_toByteArray]

theorem length_flatMap_textBytes (texts : List String) :
    (texts.flatMap textBytes).length =
      (texts.map String.utf8ByteSize).sum := by
  rw [List.length_flatMap]
  exact congrArg List.sum (List.map_congr_left fun text _ =>
    length_textBytes text)

/-- A character of one byte is its number. -/
theorem textBytes_eq_map
    {text : String}
    (narrow : ∀ character ∈ text.toList, character.utf8Size = 1) :
    textBytes text = text.toList.map fun character => character.val.toUInt8 := by
  have each (character : Char) (member : character ∈ text.toList) :
      String.utf8EncodeChar character = [character.val.toUInt8] :=
    String.utf8EncodeChar_eq_singleton (narrow character member)
  rw [textBytes, ← String.utf8Encode_toList, List.utf8Encode,
    List.toList_data_toByteArray, List.flatMap_congr each,
    List.map_eq_flatMap]

/-- A text of characters of one byte each is as long as its bytes. -/
theorem utf8ByteSize_eq_length
    {text : String}
    (narrow : ∀ character ∈ text.toList, character.utf8Size = 1) :
    text.utf8ByteSize = text.length := by
  rw [← length_textBytes, textBytes_eq_map narrow, List.length_map,
    String.length_toList]

/-! ## Little-endian numbers -/

/-- The `count` low bytes of a number, least significant first. -/
def toLittleEndian : Nat → Nat → List UInt8
  | 0, _ => []
  | count + 1, value =>
      UInt8.ofNat (value % 256) :: toLittleEndian count (value / 256)

/-- The number that a byte string encodes, least significant byte first. -/
def ofLittleEndian : List UInt8 → Nat
  | [] => 0
  | byte :: bytes => byte.toNat + 256 * ofLittleEndian bytes

@[simp] theorem length_toLittleEndian (count value : Nat) :
    (toLittleEndian count value).length = count := by
  induction count generalizing value with
  | zero => rfl
  | succ count inductionHypothesis =>
      simp [toLittleEndian, inductionHypothesis]

theorem ofLittleEndian_lt (bytes : List UInt8) :
    ofLittleEndian bytes < 256 ^ bytes.length := by
  induction bytes with
  | nil => simp [ofLittleEndian]
  | cons byte bytes inductionHypothesis =>
      have byteBound := byte.toNat_lt
      simp only [ofLittleEndian, List.length_cons, Nat.pow_succ]
      omega

theorem ofLittleEndian_toLittleEndian (count value : Nat) :
    ofLittleEndian (toLittleEndian count value) = value % 256 ^ count := by
  induction count generalizing value with
  | zero => simp [toLittleEndian, ofLittleEndian, Nat.mod_one]
  | succ count inductionHypothesis =>
      have lowByte : (UInt8.ofNat (value % 256)).toNat = value % 256 := by
        simp
      rw [toLittleEndian, ofLittleEndian, inductionHypothesis, lowByte,
        Nat.pow_succ, Nat.mul_comm (256 ^ count) 256, Nat.mod_mul]

/-- Encoding what was decoded gives the same bytes back. -/
theorem toLittleEndian_ofLittleEndian (bytes : List UInt8) :
    toLittleEndian bytes.length (ofLittleEndian bytes) = bytes := by
  induction bytes with
  | nil => rfl
  | cons byte bytes inductionHypothesis =>
      have byteBound := byte.toNat_lt
      have lowByte :
          (byte.toNat + 256 * ofLittleEndian bytes) % 256 = byte.toNat := by
        omega
      have highBytes :
          (byte.toNat + 256 * ofLittleEndian bytes) / 256 =
            ofLittleEndian bytes := by
        omega
      simp only [List.length_cons, toLittleEndian, ofLittleEndian, lowByte,
        highBytes, inductionHypothesis]
      simp

/-- Byte strings of one length that encode the same number are the same. -/
theorem ofLittleEndian_inj
    {first second : List UInt8}
    (sameLength : first.length = second.length)
    (sameNumber : ofLittleEndian first = ofLittleEndian second) :
    first = second := by
  rw [← toLittleEndian_ofLittleEndian first,
    ← toLittleEndian_ofLittleEndian second, sameLength, sameNumber]

end Bytes
