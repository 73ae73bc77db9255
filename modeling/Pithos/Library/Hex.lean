import Mathlib.Algebra.GroupWithZero.Nat
import Mathlib.Tactic.Common
import Mathlib.Data.List.Basic

/-!
# Hexadecimal numbers of fixed width

A number is written with a fixed number of lower case digits, most significant
first, and read back digit by digit.  Reading also takes upper case digits.
-/

namespace Hex

/-- The digit with a given value. -/
def digit (value : Nat) : Char :=
  if value < 10 then Char.ofNat (48 + value) else Char.ofNat (87 + value)

/-- The value of a digit. -/
def digitValue (character : Char) : Option Nat :=
  if 48 ≤ character.toNat ∧ character.toNat ≤ 57 then
    some (character.toNat - 48)
  else if 97 ≤ character.toNat ∧ character.toNat ≤ 102 then
    some (character.toNat - 87)
  else if 65 ≤ character.toNat ∧ character.toNat ≤ 70 then
    some (character.toNat - 55)
  else none

/-- A number with the given count of digits. -/
def write : Nat → Nat → List Char
  | 0, _ => []
  | width + 1, value => write width (value / 16) ++ [digit (value % 16)]

/-- Read digits after what was already read. -/
def readFrom : Nat → List Char → Option Nat
  | value, [] => some value
  | value, character :: rest =>
      (digitValue character).bind fun next => readFrom (value * 16 + next) rest

/-- Read digits. -/
def read (text : List Char) : Option Nat :=
  readFrom 0 text

theorem digitValue_digit
    {value : Nat}
    (small : value < 16) :
    digitValue (digit value) = some value := by
  have all : ∀ value < 16, digitValue (digit value) = some value := by decide
  exact all value small

/-- A digit of either case is a character of one byte. -/
theorem utf8Size_of_digitValue
    {character : Char}
    (isDigit : (digitValue character.toLower).isSome = true) :
    character.utf8Size = 1 := by
  have narrow : character.val ≤ 127 := by
    unfold digitValue Char.toLower at isDigit
    split at isDigit
    · rename_i upper
      exact UInt32.le_trans upper.2 (by decide)
    · rw [UInt32.le_iff_toNat_le]
      have value : character.toNat = character.val.toNat := rfl
      split at isDigit
      · simp
        omega
      · split at isDigit
        · simp
          omega
        · split at isDigit
          · simp
            omega
          · cases isDigit
  simp [Char.utf8Size, narrow]

@[simp] theorem length_write (width value : Nat) :
    (write width value).length = width := by
  induction width generalizing value with
  | zero => rfl
  | succ width inductionHypothesis => simp [write, inductionHypothesis]

/-- Every written character is a digit. -/
theorem exists_digit_of_mem_write
    {width value : Nat}
    {character : Char}
    (member : character ∈ write width value) :
    ∃ small, small < 16 ∧ character = digit small := by
  induction width generalizing value with
  | zero => simp [write] at member
  | succ width inductionHypothesis =>
      rcases List.mem_append.mp member with inFront | isLast
      · exact inductionHypothesis inFront
      · refine ⟨value % 16, Nat.mod_lt _ (by decide), ?_⟩
        simpa using isLast

theorem readFrom_append
    (value : Nat)
    (front back : List Char) :
    readFrom value (front ++ back) =
      (readFrom value front).bind fun next => readFrom next back := by
  induction front generalizing value with
  | nil => rfl
  | cons first rest inductionHypothesis =>
      simp only [List.cons_append, readFrom]
      cases digitValue first with
      | none => rfl
      | some next => exact inductionHypothesis _

/-- A number that fits in its width is read back. -/
theorem read_write
    {width value : Nat}
    (fits : value < 16 ^ width) :
    read (write width value) = some value := by
  induction width generalizing value with
  | zero =>
      have isZero : value = 0 := by simpa using fits
      simp [isZero, write, read, readFrom]
  | succ width inductionHypothesis =>
      have front := @inductionHypothesis (value / 16) (by
        rw [Nat.div_lt_iff_lt_mul (by decide)]
        rwa [Nat.pow_succ] at fits)
      have last := digitValue_digit (Nat.mod_lt value (by decide : 0 < 16))
      rw [read] at front
      rw [read, write, readFrom_append, front, Option.bind_some, readFrom, last,
        Option.bind_some, readFrom]
      congr 1
      omega

theorem isSome_digitValue_of_readFrom
    {value number : Nat}
    {text : List Char}
    (isNumber : readFrom value text = some number) :
    ∀ character ∈ text, (digitValue character).isSome = true := by
  induction text generalizing value with
  | nil => simp
  | cons first rest inductionHypothesis =>
      rw [readFrom, Option.bind_eq_some_iff] at isNumber
      obtain ⟨next, isNext, later⟩ := isNumber
      intro character member
      rcases List.mem_cons.mp member with rfl | inRest
      · rw [isNext]
        rfl
      · exact inductionHypothesis later character inRest

/-- What is read consists of digits and letters. -/
theorem toNat_of_read
    {number : Nat}
    {text : List Char}
    (isNumber : read text = some number)
    {character : Char}
    (member : character ∈ text) :
    48 ≤ character.toNat ∧ character.toNat ≤ 57 ∨
      97 ≤ character.toNat ∧ character.toNat ≤ 102 ∨
      65 ≤ character.toNat ∧ character.toNat ≤ 70 := by
  have isDigit := isSome_digitValue_of_readFrom isNumber character member
  unfold digitValue at isDigit
  split at isDigit
  · exact Or.inl ‹_›
  · split at isDigit
    · exact Or.inr (Or.inl ‹_›)
    · split at isDigit
      · exact Or.inr (Or.inr ‹_›)
      · cases isDigit

end Hex
