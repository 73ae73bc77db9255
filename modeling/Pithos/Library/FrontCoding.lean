import Mathlib.Data.List.Basic
import Mathlib.Tactic.Common

/-!
# Front coding

A list of words is coded word by word: how many items a word shares with the
front of the word before it, and the items after these.  A decoder refuses a
word that shares more items than the word before it has.
-/

namespace FrontCoding

variable {Item : Type*}

section Encode

variable [DecidableEq Item]

/-- How many items two words share at their fronts. -/
def commonPrefixLen : List Item → List Item → Nat
  | left :: lefts, right :: rights =>
      if left ≠ right then 0 else commonPrefixLen lefts rights + 1
  | _, _ => 0

theorem take_commonPrefixLen (left right : List Item) :
    left.take (commonPrefixLen left right) =
      right.take (commonPrefixLen left right) := by
  induction left, right using commonPrefixLen.induct with
  | case1 left lefts right rights different =>
      simp [commonPrefixLen, different]
  | case2 left lefts right rights same inductionHypothesis =>
      simp only [ne_eq, not_not] at same
      simp [commonPrefixLen, same, inductionHypothesis]
  | case3 left right notBoth =>
      rw [commonPrefixLen]
      · rfl
      · exact notBoth

theorem commonPrefixLen_le (left right : List Item) :
    commonPrefixLen left right ≤ left.length := by
  induction left, right using commonPrefixLen.induct with
  | case1 left lefts right rights different =>
      simp [commonPrefixLen, different]
  | case2 left lefts right rights same inductionHypothesis =>
      simp only [ne_eq, not_not] at same
      simpa [commonPrefixLen, same] using inductionHypothesis
  | case3 left right notBoth =>
      rw [commonPrefixLen]
      · exact Nat.zero_le _
      · exact notBoth

/-- Code words, given the word before them. -/
def encode : List Item → List (List Item) → List (Nat × List Item)
  | _, [] => []
  | previous, word :: words =>
      (commonPrefixLen previous word,
        word.drop (commonPrefixLen previous word)) :: encode word words

/-- One more word is coded with the last of the words before it. -/
theorem encode_concat
    (previous : List Item)
    (words : List (List Item))
    (word : List Item) :
    encode previous (words ++ [word]) =
      encode previous words ++
        [(commonPrefixLen (words.getLast?.getD previous) word,
          word.drop (commonPrefixLen (words.getLast?.getD previous) word))] := by
  induction words generalizing previous with
  | nil => rfl
  | cons first words inductionHypothesis =>
      rw [List.cons_append, encode, inductionHypothesis, encode,
        List.cons_append, List.getLast?_cons, Option.getD_some]

end Encode

/-- Read coded words, given the word before them. -/
def decode : List Item → List (Nat × List Item) → Option (List (List Item))
  | _, [] => some []
  | previous, (shared, suffix) :: coded =>
      if shared ≤ previous.length then
        (decode (previous.take shared ++ suffix) coded).map
          ((previous.take shared ++ suffix) :: ·)
      else none

/-- A coded word is read from the word before it. -/
theorem decode_cons_eq_some
    {previous suffix : List Item}
    {shared : Nat}
    {coded : List (Nat × List Item)}
    {words : List (List Item)} :
    decode previous ((shared, suffix) :: coded) = some words ↔
      shared ≤ previous.length ∧ ∃ rest,
        decode (previous.take shared ++ suffix) coded = some rest ∧
        words = (previous.take shared ++ suffix) :: rest := by
  rw [decode]
  by_cases inside : shared ≤ previous.length
  · simp [inside, eq_comm]
  · simp [inside]

/-- Coded words are read back. -/
theorem decode_encode
    [DecidableEq Item]
    (previous : List Item)
    (words : List (List Item)) :
    decode previous (encode previous words) = some words := by
  induction words generalizing previous with
  | nil => rfl
  | cons word words inductionHypothesis =>
      have whole : previous.take (commonPrefixLen previous word) ++
          word.drop (commonPrefixLen previous word) = word := by
        rw [take_commonPrefixLen, List.take_append_drop]
      rw [encode, decode_cons_eq_some, whole]
      exact ⟨commonPrefixLen_le previous word, words,
        inductionHypothesis word, rfl⟩

/-- As many words are read as there are coded ones. -/
theorem length_of_decode
    {previous : List Item}
    {coded : List (Nat × List Item)}
    {words : List (List Item)}
    (isRead : decode previous coded = some words) :
    words.length = coded.length := by
  induction coded generalizing previous words with
  | nil =>
      cases isRead
      rfl
  | cons first coded inductionHypothesis =>
      obtain ⟨shared, suffix⟩ := first
      obtain ⟨_, rest, isRest, rfl⟩ := decode_cons_eq_some.mp isRead
      rw [List.length_cons, List.length_cons, inductionHypothesis isRest]

end FrontCoding
