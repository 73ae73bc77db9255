import Mathlib.Data.List.Nodup
import Mathlib.Logic.Equiv.Defs
import Mathlib.Tactic.Common
import Pithos.Library.Fallible

/-!
# Updating every value of a map

The loop over all values of an ordered map that changes each of them in place
and stops at the first one that fails.
-/

namespace MapValues

open Std

variable {ε κ α β : Type} [Ord κ] [TransOrd κ] [LawfulEqOrd κ]

/-! ## Lookup by equality of keys -/

theorem getElem?_insert_eq
    [DecidableEq κ]
    (values : ExtTreeMap κ α)
    (key other : κ)
    (value : α) :
    (values.insert key value)[other]? =
      if key = other then some value else values[other]? := by
  rw [ExtTreeMap.getElem?_insert]
  simp only [Std.compare_eq_iff_eq]

theorem getElem?_erase_eq
    [DecidableEq κ]
    (values : ExtTreeMap κ α)
    (key other : κ) :
    (values.erase key)[other]? =
      if key = other then none else values[other]? := by
  rw [ExtTreeMap.getElem?_erase]
  simp only [Std.compare_eq_iff_eq]

omit [LawfulEqOrd κ] in
theorem size_insert_of_getElem?_eq_none
    {values : ExtTreeMap κ α}
    {key : κ}
    (absent : values[key]? = none)
    (value : α) :
    (values.insert key value).size = values.size + 1 := by
  rw [ExtTreeMap.size_insert, if_neg]
  rw [ExtTreeMap.contains_iff_mem]
  intro present
  rw [ExtTreeMap.getElem?_eq_some_getElem present] at absent
  cases absent

omit [LawfulEqOrd κ] in
theorem size_insert_of_getElem?_eq_some
    {values : ExtTreeMap κ α}
    {key : κ}
    {old : α}
    (found : values[key]? = some old)
    (value : α) :
    (values.insert key value).size = values.size := by
  rw [ExtTreeMap.size_insert, if_pos]
  rw [ExtTreeMap.contains_iff_mem]
  by_contra absent
  rw [ExtTreeMap.getElem?_eq_none absent] at found
  cases found

theorem size_ne_zero_of_getElem?_eq_some
    {values : ExtTreeMap κ α}
    {key : κ}
    {value : α}
    (found : values[key]? = some value) :
    values.size ≠ 0 := by
  have member := ExtTreeMap.mem_toList_iff_getElem?_eq_some.mpr found
  rw [← ExtTreeMap.length_toList]
  exact Nat.ne_of_gt (List.length_pos_of_mem member)

/-! ## The loop -/

/-- The first failure of a fallible function on some values. -/
def firstFailure (change : κ → α → Except ε β) : List (κ × α) → Option ε
  | [] => none
  | (key, value) :: rest =>
      match change key value with
      | .error failure => some failure
      | .ok _ => firstFailure change rest

/-- Change every value, or fail with the first failure in the order of the
keys. -/
def tryMap (change : κ → α → Except ε α) (values : ExtTreeMap κ α) :
    Except ε (ExtTreeMap κ α) :=
  match firstFailure change values.toList with
  | some failure => .error failure
  | none => .ok (values.map fun key value =>
      match change key value with
      | .ok changed => changed
      | .error _ => value)

omit [Ord κ] [TransOrd κ] [LawfulEqOrd κ] in
theorem firstFailure_eq_none
    {change : κ → α → Except ε β}
    {items : List (κ × α)} :
    firstFailure change items = none ↔
      ∀ item ∈ items, ∃ changed, change item.1 item.2 = .ok changed := by
  induction items with
  | nil => simp [firstFailure]
  | cons first rest inductionHypothesis =>
      obtain ⟨key, value⟩ := first
      rw [firstFailure, List.forall_mem_cons]
      cases result : change key value with
      | error failure => simp
      | ok changed => simp [inductionHypothesis]

/-- Changing all values succeeds exactly when every change does, and has the
changed value at every key. -/
theorem tryMap_eq_ok
    {change : κ → α → Except ε α}
    {values changed : ExtTreeMap κ α} :
    tryMap change values = .ok changed ↔
      changed.size = values.size ∧
      (∀ key : κ, values[key]? = none → changed[key]? = none) ∧
      ∀ (key : κ) value, values[key]? = some value →
        ∃ next, change key value = .ok next ∧ changed[key]? = some next := by
  unfold tryMap
  cases failed : firstFailure change values.toList with
  | some failure =>
      simp only [reduceCtorEq, false_iff]
      rintro ⟨_, _, all⟩
      have none : firstFailure change values.toList = none := by
        rw [firstFailure_eq_none]
        rintro ⟨key, value⟩ member
        rw [ExtTreeMap.mem_toList_iff_getElem?_eq_some] at member
        obtain ⟨next, changes, _⟩ := all key value member
        exact ⟨next, changes⟩
      rw [failed] at none
      cases none
  | none =>
      rw [firstFailure_eq_none] at failed
      have changes (key : κ) (value : α) (found : values[key]? = some value) :
          ∃ next, change key value = .ok next :=
        failed (key, value)
          (ExtTreeMap.mem_toList_iff_getElem?_eq_some.mpr found)
      simp only [Except.ok.injEq]
      constructor
      · rintro rfl
        refine ⟨ExtTreeMap.size_map, ?_, ?_⟩
        · intro key absent
          rw [ExtTreeMap.getElem?_map, absent, Option.map_none]
        · intro key value found
          obtain ⟨next, isNext⟩ := changes key value found
          refine ⟨next, isNext, ?_⟩
          rw [ExtTreeMap.getElem?_map, found, Option.map_some, isNext]
      · rintro ⟨_, absent, all⟩
        refine ExtTreeMap.ext_getElem? fun key => ?_
        rw [ExtTreeMap.getElem?_map]
        cases found : values[key]? with
        | none => rw [absent key found, Option.map_none]
        | some value =>
            obtain ⟨next, isNext, isChanged⟩ := all key value found
            rw [isChanged, Option.map_some, isNext]

end MapValues
