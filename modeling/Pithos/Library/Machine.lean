import Pithos.Library.Bytes

/-!
# Machine integers

Checked and saturating arithmetic on 64-bit unsigned numbers, read through their
values as natural numbers, and the little-endian reading and writing of 16, 32
and 64-bit fields at a position of a buffer.
-/

namespace Machine

/-- Sum of two words, absent on overflow. -/
def checkedAdd (left right : UInt64) : Option UInt64 :=
  if left.toNat + right.toNat < 2 ^ 64 then some (left + right) else none

/-- Product of two words, absent on overflow. -/
def checkedMul (left right : UInt64) : Option UInt64 :=
  if left.toNat * right.toNat < 2 ^ 64 then some (left * right) else none

/-- Difference of two words, absent on underflow. -/
def checkedSub (left right : UInt64) : Option UInt64 :=
  if right.toNat ≤ left.toNat then some (left - right) else none

@[simp] theorem checkedAdd_eq_some
    {left right sum : UInt64} :
    checkedAdd left right = some sum ↔
      left.toNat + right.toNat = sum.toNat := by
  unfold checkedAdd
  split
  · rename_i fits
    have value : (left + right).toNat = left.toNat + right.toNat := by
      rw [UInt64.toNat_add, Nat.mod_eq_of_lt fits]
    rw [Option.some.injEq, ← UInt64.toNat_inj, value]
  · rename_i overflow
    have sumBound := sum.toNat_lt
    simp only [reduceCtorEq, false_iff]
    omega

@[simp] theorem checkedMul_eq_some
    {left right product : UInt64} :
    checkedMul left right = some product ↔
      left.toNat * right.toNat = product.toNat := by
  unfold checkedMul
  split
  · rename_i fits
    have value : (left * right).toNat = left.toNat * right.toNat := by
      rw [UInt64.toNat_mul, Nat.mod_eq_of_lt fits]
    rw [Option.some.injEq, ← UInt64.toNat_inj, value]
  · rename_i overflow
    have productBound := product.toNat_lt
    simp only [reduceCtorEq, false_iff]
    omega

@[simp] theorem checkedSub_eq_some
    {left right difference : UInt64} :
    checkedSub left right = some difference ↔
      left.toNat = right.toNat + difference.toNat := by
  unfold checkedSub
  split
  · rename_i fits
    have value : (left - right).toNat = left.toNat - right.toNat :=
      UInt64.toNat_sub_of_le left right fits
    rw [Option.some.injEq, ← UInt64.toNat_inj, value]
    omega
  · simp only [reduceCtorEq, false_iff]
    omega

theorem checkedAdd_isSome_iff
    {left right : UInt64} :
    (∃ sum, checkedAdd left right = some sum) ↔
      left.toNat + right.toNat < 2 ^ 64 := by
  unfold checkedAdd
  split <;> simp_all

/-- A sum that fits is the checked sum. -/
theorem checkedAdd_of_lt
    {left right : UInt64}
    (fits : left.toNat + right.toNat < 2 ^ 64) :
    ∃ sum, checkedAdd left right = some sum ∧
      sum.toNat = left.toNat + right.toNat := by
  obtain ⟨sum, found⟩ := checkedAdd_isSome_iff.mpr fits
  exact ⟨sum, found, (checkedAdd_eq_some.mp found).symm⟩

/-- The word with a given value below the word size. -/
theorem toNat_ofNat_of_lt
    {value : Nat}
    (fits : value < 2 ^ 64) :
    (UInt64.ofNat value).toNat = value := by
  rw [UInt64.toNat_ofNat', Nat.mod_eq_of_lt fits]

/-- A number that some word holds is a number that fits. -/
theorem exists_toNat_iff
    {value : Nat}
    {next : UInt64 → Prop} :
    (∃ word : UInt64, value = word.toNat ∧ next word) ↔
      ∃ fits : value < 2 ^ 64, next (UInt64.ofNatLT value fits) := by
  constructor
  · rintro ⟨word, rfl, holds⟩
    exact ⟨word.toNat_lt, by simpa using holds⟩
  · rintro ⟨fits, holds⟩
    exact ⟨_, UInt64.toNat_ofNatLT.symm, holds⟩

/-! ## The larger and the smaller word -/

theorem toNat_larger (left right : UInt64) :
    (if left ≤ right then right else left).toNat =
      max left.toNat right.toNat := by
  split
  · rename_i below
    rw [Nat.max_eq_right (UInt64.le_iff_toNat_le.mp below)]
  · rename_i above
    rw [UInt64.le_iff_toNat_le] at above
    rw [Nat.max_eq_left (by omega)]

theorem toNat_smaller (left right : UInt64) :
    (if left ≤ right then left else right).toNat =
      min left.toNat right.toNat := by
  split
  · rename_i below
    rw [Nat.min_eq_left (UInt64.le_iff_toNat_le.mp below)]
  · rename_i above
    rw [UInt64.le_iff_toNat_le] at above
    rw [Nat.min_eq_right (by omega)]

theorem toNat_min (left right : UInt64) :
    (min left right).toNat = min left.toNat right.toNat :=
  toNat_smaller left right

theorem toNat_max (left right : UInt64) :
    (max left right).toNat = max left.toNat right.toNat :=
  toNat_larger left right

theorem toNat_min_le (left right : UInt64) :
    (min left right).toNat ≤ right.toNat := by
  rw [toNat_min]
  exact Nat.min_le_right _ _

/-- A sum that does not overflow is within a bound. -/
theorem checkedAdd_any_le
    {left right bound : UInt64} :
    ((checkedAdd left right).any fun sum => sum ≤ bound) = true ↔
      left.toNat + right.toNat ≤ bound.toNat := by
  rw [Option.any_eq_true]
  constructor
  · rintro ⟨sum, found, below⟩
    have value := checkedAdd_eq_some.mp found
    have bounded := UInt64.le_iff_toNat_le.mp (of_decide_eq_true below)
    omega
  · intro below
    have maximum := bound.toNat_lt
    obtain ⟨sum, found, value⟩ := @checkedAdd_of_lt left right (by omega)
    refine ⟨sum, found, decide_eq_true ?_⟩
    rw [UInt64.le_iff_toNat_le, value]
    exact below

theorem eq_of_ofNat_eq
    {first second : Nat}
    (firstFits : first < 2 ^ 64)
    (secondFits : second < 2 ^ 64)
    (same : UInt64.ofNat first = UInt64.ofNat second) :
    first = second := by
  have values := congrArg UInt64.toNat same
  rwa [toNat_ofNat_of_lt firstFits, toNat_ofNat_of_lt secondFits] at values

/-! ## Saturating arithmetic -/

/-- Sum of two words, at most the largest word. -/
def saturatingAdd (left right : UInt64) : UInt64 :=
  (checkedAdd left right).getD 0xFFFFFFFFFFFFFFFF

/-- Product of two words, at most the largest word. -/
def saturatingMul (left right : UInt64) : UInt64 :=
  (checkedMul left right).getD 0xFFFFFFFFFFFFFFFF

/-- Difference of two words, zero on underflow. -/
def saturatingSub (left right : UInt64) : UInt64 :=
  (checkedSub left right).getD 0

@[simp] theorem toNat_saturatingAdd (left right : UInt64) :
    (saturatingAdd left right).toNat =
      min (left.toNat + right.toNat) (2 ^ 64 - 1) := by
  unfold saturatingAdd checkedAdd
  split
  · rename_i fits
    rw [Option.getD_some, UInt64.toNat_add, Nat.mod_eq_of_lt fits]
    omega
  · rename_i overflow
    rw [Option.getD_none, Nat.min_eq_right (by omega)]
    rfl

@[simp] theorem toNat_saturatingMul (left right : UInt64) :
    (saturatingMul left right).toNat =
      min (left.toNat * right.toNat) (2 ^ 64 - 1) := by
  unfold saturatingMul checkedMul
  split
  · rename_i fits
    rw [Option.getD_some, UInt64.toNat_mul, Nat.mod_eq_of_lt fits]
    omega
  · rename_i overflow
    rw [Option.getD_none, Nat.min_eq_right (by omega)]
    rfl

@[simp] theorem toNat_saturatingSub (left right : UInt64) :
    (saturatingSub left right).toNat = left.toNat - right.toNat := by
  unfold saturatingSub checkedSub
  split
  · rename_i fits
    exact UInt64.toNat_sub_of_le left right fits
  · rename_i underflow
    rw [Option.getD_none]
    exact (Nat.sub_eq_zero_of_le (by omega)).symm

/-! ## Fields of a buffer -/

/-- The two bytes of a 16-bit field. -/
def le16 (value : UInt16) : List UInt8 :=
  Bytes.toLittleEndian 2 value.toNat

/-- The four bytes of a 32-bit field. -/
def le32 (value : UInt32) : List UInt8 :=
  Bytes.toLittleEndian 4 value.toNat

/-- The eight bytes of a 64-bit field. -/
def le64 (value : UInt64) : List UInt8 :=
  Bytes.toLittleEndian 8 value.toNat

@[simp] theorem length_le16 (value : UInt16) : (le16 value).length = 2 := by
  simp [le16]

@[simp] theorem length_le32 (value : UInt32) : (le32 value).length = 4 := by
  simp [le32]

@[simp] theorem length_le64 (value : UInt64) : (le64 value).length = 8 := by
  simp [le64]

/-- Read a 16-bit field at a position. -/
def readU16 (buffer : List UInt8) (offset : Nat) : UInt16 :=
  UInt16.ofNat (Bytes.ofLittleEndian (Bytes.slice buffer offset 2))

/-- Read a 32-bit field at a position. -/
def readU32 (buffer : List UInt8) (offset : Nat) : UInt32 :=
  UInt32.ofNat (Bytes.ofLittleEndian (Bytes.slice buffer offset 4))

/-- Read a 64-bit field at a position. -/
def readU64 (buffer : List UInt8) (offset : Nat) : UInt64 :=
  UInt64.ofNat (Bytes.ofLittleEndian (Bytes.slice buffer offset 8))

theorem readU16_eq
    {buffer : List UInt8}
    {offset : Nat}
    {value : UInt16}
    (field : Bytes.slice buffer offset 2 = le16 value) :
    readU16 buffer offset = value := by
  have bound := value.toNat_lt
  rw [readU16, field, le16, Bytes.ofLittleEndian_toLittleEndian]
  rw [← UInt16.toNat_inj, UInt16.toNat_ofNat']
  omega

theorem readU32_eq
    {buffer : List UInt8}
    {offset : Nat}
    {value : UInt32}
    (field : Bytes.slice buffer offset 4 = le32 value) :
    readU32 buffer offset = value := by
  have bound := value.toNat_lt
  rw [readU32, field, le32, Bytes.ofLittleEndian_toLittleEndian]
  rw [← UInt32.toNat_inj, UInt32.toNat_ofNat']
  omega

theorem readU64_eq
    {buffer : List UInt8}
    {offset : Nat}
    {value : UInt64}
    (field : Bytes.slice buffer offset 8 = le64 value) :
    readU64 buffer offset = value := by
  have bound := value.toNat_lt
  rw [readU64, field, le64, Bytes.ofLittleEndian_toLittleEndian]
  rw [← UInt64.toNat_inj, UInt64.toNat_ofNat']
  omega

/-- Writing a field that was read gives its bytes. -/
theorem le16_readU16
    {buffer : List UInt8}
    {offset : Nat}
    (inside : offset + 2 ≤ buffer.length) :
    le16 (readU16 buffer offset) = Bytes.slice buffer offset 2 := by
  have size := Bytes.length_slice inside
  have bound : Bytes.ofLittleEndian (Bytes.slice buffer offset 2) <
      2 ^ 16 := by
    have bound := Bytes.ofLittleEndian_lt (Bytes.slice buffer offset 2)
    rwa [size] at bound
  have whole := Bytes.toLittleEndian_ofLittleEndian
    (Bytes.slice buffer offset 2)
  rw [size] at whole
  rw [le16, readU16, UInt16.toNat_ofNat', Nat.mod_eq_of_lt bound, whole]

theorem le32_readU32
    {buffer : List UInt8}
    {offset : Nat}
    (inside : offset + 4 ≤ buffer.length) :
    le32 (readU32 buffer offset) = Bytes.slice buffer offset 4 := by
  have size := Bytes.length_slice inside
  have bound : Bytes.ofLittleEndian (Bytes.slice buffer offset 4) <
      2 ^ 32 := by
    have bound := Bytes.ofLittleEndian_lt (Bytes.slice buffer offset 4)
    rwa [size] at bound
  have whole := Bytes.toLittleEndian_ofLittleEndian
    (Bytes.slice buffer offset 4)
  rw [size] at whole
  rw [le32, readU32, UInt32.toNat_ofNat', Nat.mod_eq_of_lt bound, whole]

theorem le64_readU64
    {buffer : List UInt8}
    {offset : Nat}
    (inside : offset + 8 ≤ buffer.length) :
    le64 (readU64 buffer offset) = Bytes.slice buffer offset 8 := by
  have size := Bytes.length_slice inside
  have bound : Bytes.ofLittleEndian (Bytes.slice buffer offset 8) <
      2 ^ 64 := by
    have bound := Bytes.ofLittleEndian_lt (Bytes.slice buffer offset 8)
    rwa [size] at bound
  have whole := Bytes.toLittleEndian_ofLittleEndian
    (Bytes.slice buffer offset 8)
  rw [size] at whole
  rw [le64, readU64, UInt64.toNat_ofNat', Nat.mod_eq_of_lt bound, whole]

/-- A 32-bit field is determined by its value. -/
theorem slice_eq_of_readU32_eq
    {first second : List UInt8}
    {offset : Nat}
    (firstInside : offset + 4 ≤ first.length)
    (secondInside : offset + 4 ≤ second.length)
    (same : readU32 first offset = readU32 second offset) :
    Bytes.slice first offset 4 = Bytes.slice second offset 4 := by
  have firstLength := Bytes.length_slice firstInside
  have secondLength := Bytes.length_slice secondInside
  have firstBound : Bytes.ofLittleEndian (Bytes.slice first offset 4) <
      2 ^ 32 := by
    have bound := Bytes.ofLittleEndian_lt (Bytes.slice first offset 4)
    rwa [firstLength] at bound
  have secondBound : Bytes.ofLittleEndian (Bytes.slice second offset 4) <
      2 ^ 32 := by
    have bound := Bytes.ofLittleEndian_lt (Bytes.slice second offset 4)
    rwa [secondLength] at bound
  refine Bytes.ofLittleEndian_inj (firstLength.trans secondLength.symm) ?_
  rw [readU32, readU32, ← UInt32.toNat_inj, UInt32.toNat_ofNat',
    UInt32.toNat_ofNat', Nat.mod_eq_of_lt firstBound,
    Nat.mod_eq_of_lt secondBound] at same
  exact same

/-- A 64-bit field is determined by its value. -/
theorem slice_eq_of_readU64_eq
    {first second : List UInt8}
    {offset : Nat}
    (firstInside : offset + 8 ≤ first.length)
    (secondInside : offset + 8 ≤ second.length)
    (same : readU64 first offset = readU64 second offset) :
    Bytes.slice first offset 8 = Bytes.slice second offset 8 := by
  have firstLength := Bytes.length_slice firstInside
  have secondLength := Bytes.length_slice secondInside
  have firstBound : Bytes.ofLittleEndian (Bytes.slice first offset 8) <
      2 ^ 64 := by
    have bound := Bytes.ofLittleEndian_lt (Bytes.slice first offset 8)
    rwa [firstLength] at bound
  have secondBound : Bytes.ofLittleEndian (Bytes.slice second offset 8) <
      2 ^ 64 := by
    have bound := Bytes.ofLittleEndian_lt (Bytes.slice second offset 8)
    rwa [secondLength] at bound
  refine Bytes.ofLittleEndian_inj (firstLength.trans secondLength.symm) ?_
  rw [readU64, readU64, ← UInt64.toNat_inj, UInt64.toNat_ofNat',
    UInt64.toNat_ofNat', Nat.mod_eq_of_lt firstBound,
    Nat.mod_eq_of_lt secondBound] at same
  exact same

end Machine
