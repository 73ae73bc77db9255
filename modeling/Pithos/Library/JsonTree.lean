import Mathlib.Algebra.Order.BigOperators.Group.List
import Mathlib.Algebra.Order.Ring.Nat
import Pithos.Library.Bytes
import Pithos.Library.Hex

/-!
# Compact JSON

JSON values, their text without blanks, and bounds for its length.  A string is
kept as UTF-8, and a number with a fraction as its text.
-/

/-- A JSON value. -/
inductive JsonTree
  | null
  | bool (value : Bool)
  | integer (value : Int)
  | fraction (text : List UInt8)
  | string (utf8 : List UInt8)
  | array (items : List JsonTree)
  | object (fields : List (String × JsonTree))

namespace JsonTree

open Bytes

/-! ## Writing -/

/-- The decimal digits of a number, with its sign. -/
def decimal (value : Int) : List UInt8 :=
  (if value < 0 then [45] else []) ++
    (Nat.toDigits 10 value.natAbs).map fun digit => UInt8.ofNat digit.toNat

/-- A hexadecimal digit as a byte. -/
def hexDigit (value : Nat) : UInt8 :=
  UInt8.ofNat (Hex.digit value).toNat

/-- A byte as it stands in a string. -/
def escape (byte : UInt8) : List UInt8 :=
  if byte = 34 ∨ byte = 92 then [92, byte]
  else if byte = 8 then [92, 98]
  else if byte = 9 then [92, 116]
  else if byte = 10 then [92, 110]
  else if byte = 12 then [92, 102]
  else if byte = 13 then [92, 114]
  else if byte < 32 then
    [92, 117, 48, 48, hexDigit (byte.toNat / 16), hexDigit (byte.toNat % 16)]
  else [byte]

/-- A string between quotes. -/
def quoted (utf8 : List UInt8) : List UInt8 :=
  34 :: utf8.flatMap escape ++ [34]

mutual

/-- The text of a value, without blanks. -/
def compact : JsonTree → List UInt8
  | .null => textBytes "null"
  | .bool true => textBytes "true"
  | .bool false => textBytes "false"
  | .integer value => decimal value
  | .fraction text => text
  | .string utf8 => quoted utf8
  | .array items => 91 :: [44].intercalate (compactItems items) ++ [93]
  | .object fields => 123 :: [44].intercalate (compactFields fields) ++ [125]

/-- The texts of the items of an array. -/
def compactItems : List JsonTree → List (List UInt8)
  | [] => []
  | item :: items => item.compact :: compactItems items

/-- The texts of the fields of an object. -/
def compactFields : List (String × JsonTree) → List (List UInt8)
  | [] => []
  | (name, value) :: fields =>
      (quoted (textBytes name) ++ 58 :: value.compact) :: compactFields fields

end

/-- A string value. -/
def text (value : String) : JsonTree :=
  .string (textBytes value)

@[simp] theorem compact_text (value : String) :
    (text value).compact = quoted (textBytes value) := by
  rw [text, compact]

/-! ## Lengths -/

theorem length_decimal_le
    {value : Int}
    {digits : Nat}
    (some : 0 < digits)
    (small : value.natAbs < 10 ^ digits) :
    (decimal value).length ≤ digits + 1 := by
  have count := (Nat.length_toDigits_le_iff (by decide : 1 < 10) some).mpr small
  rw [decimal, List.length_append, List.length_map]
  split
  · rw [List.length_singleton]
    omega
  · rw [List.length_nil]
    omega

theorem length_decimal_natCast_le
    {value digits : Nat}
    (some : 0 < digits)
    (small : value < 10 ^ digits) :
    (decimal value).length ≤ digits := by
  rw [decimal, if_neg (by omega), List.nil_append, List.length_map,
    Int.natAbs_natCast]
  exact (Nat.length_toDigits_le_iff (by decide) some).mpr small

theorem length_escape_le (byte : UInt8) : (escape byte).length ≤ 6 := by
  unfold escape
  repeat' split
  all_goals simp

/-- A string grows sixfold at most. -/
theorem length_quoted_le (utf8 : List UInt8) :
    (quoted utf8).length ≤ 6 * utf8.length + 2 := by
  have each : (utf8.flatMap escape).length ≤ utf8.length * 6 := by
    rw [List.length_flatMap]
    have bound := List.sum_le_card_nsmul
      (utf8.map fun byte => (escape byte).length) 6 (by
        intro length member
        obtain ⟨byte, _, rfl⟩ := List.mem_map.mp member
        exact length_escape_le byte)
    simpa using bound
  rw [quoted, List.length_append, List.length_cons, List.length_singleton]
  omega

/-- The bytes stand in a string as they are. -/
def Plain (utf8 : List UInt8) : Prop :=
  ∀ byte ∈ utf8, escape byte = [byte]

instance (utf8 : List UInt8) : Decidable (Plain utf8) :=
  inferInstanceAs (Decidable (∀ byte ∈ utf8, escape byte = [byte]))

theorem length_quoted_of_plain
    {utf8 : List UInt8}
    (plain : Plain utf8) :
    (quoted utf8).length = utf8.length + 2 := by
  have same : utf8.flatMap escape = utf8 := by
    rw [List.flatMap_congr plain, List.flatMap_singleton']
  rw [quoted, same, List.length_append, List.length_cons,
    List.length_singleton]

/-- Visible characters other than the quote and the backslash stand as they
are. -/
theorem length_quoted_of_visible
    {text : String}
    (visible : ∀ character ∈ text.toList, 32 ≤ character.toNat ∧
      character.toNat < 127 ∧ character.toNat ≠ 34 ∧ character.toNat ≠ 92) :
    (quoted (textBytes text)).length = text.length + 2 := by
  have narrow (character : Char) (member : character ∈ text.toList) :
      character.utf8Size = 1 := by
    have small : character.val ≤ 127 := by
      rw [UInt32.le_iff_toNat_le]
      exact (visible character member).2.1.le
    simp [Char.utf8Size, small]
  have asIs : ∀ value < 127, 32 ≤ value ∧ value ≠ 34 ∧ value ≠ 92 →
      escape (UInt8.ofNat value) = [UInt8.ofNat value] := by decide
  have plain : Plain (textBytes text) := by
    rw [textBytes_eq_map narrow]
    intro byte member
    obtain ⟨character, isCharacter, rfl⟩ := List.mem_map.mp member
    obtain ⟨least, most, other⟩ := visible character isCharacter
    exact asIs character.toNat most ⟨least, other⟩
  rw [length_quoted_of_plain plain, textBytes_eq_map narrow, List.length_map,
    String.length_toList]

/-- Texts that are put together with a byte between them. -/
theorem length_intercalate
    {separator : UInt8}
    {texts : List (List UInt8)}
    (some : texts ≠ []) :
    ([separator].intercalate texts).length + 1 =
      (texts.map fun text => text.length + 1).sum := by
  induction texts with
  | nil => exact absurd rfl some
  | cons first rest induction =>
      cases rest with
      | nil => simp
      | cons second rest =>
          have later := induction (by simp)
          rw [List.intercalate_cons_cons, List.length_append,
            List.length_append, List.map_cons, List.sum_cons, ← later,
            List.length_singleton]
          omega

theorem compactFields_eq_map (fields : List (String × JsonTree)) :
    compactFields fields = fields.map fun field =>
      quoted (textBytes field.1) ++ 58 :: field.2.compact := by
  induction fields with
  | nil => rfl
  | cons field fields induction =>
      rw [compactFields, induction, List.map_cons]

/-- The fields of an object share the length of its text. -/
theorem length_compact_object
    {fields : List (String × JsonTree)}
    (some : fields ≠ []) :
    (object fields).compact.length =
      1 + (fields.map fun field =>
        (quoted (textBytes field.1)).length + field.2.compact.length +
          2).sum := by
  have joined := @length_intercalate 44 (compactFields fields) (by
    rw [compactFields_eq_map]
    simpa using some)
  have each : (compactFields fields).map (fun text => text.length + 1) =
      fields.map fun field => (quoted (textBytes field.1)).length +
        field.2.compact.length + 2 := by
    rw [compactFields_eq_map, List.map_map]
    refine List.map_congr_left fun field _ => ?_
    simp only [Function.comp_apply, List.length_append, List.length_cons]
    omega
  rw [each] at joined
  rw [compact, List.length_append, List.length_cons, List.length_singleton,
    ← joined]
  omega

end JsonTree
