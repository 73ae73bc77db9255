import Pithos.Library.Lists
import Mathlib.Algebra.BigOperators.Fin
import Mathlib.Order.Bounds.Basic
import Mathlib.Tactic.Ring

/-!
# Rolling hashes

A polynomial hash of the windows of a list, one window after the other: the hash
of the next window comes from the one before by the item that enters and the item
that leaves.  The window is kept in a ring, a list with a cursor at its oldest
item.
-/

namespace RollingHash

open Lists

/-! ## Polynomial hashes -/

section Polynomial

variable {R S : Type*} [CommRing R] [CommSemiring S]

/-- The value of a list as a number in a base, the first item the highest
digit. -/
def polyHash (base : S) (values : List S) : S :=
  values.foldl (fun hash value => hash * base + value) 0

@[simp] theorem polyHash_nil (base : S) : polyHash base [] = 0 := rfl

theorem polyHash_concat (base : S) (values : List S) (last : S) :
    polyHash base (values ++ [last]) = polyHash base values * base + last := by
  rw [polyHash, List.foldl_concat]
  rfl

theorem polyHash_cons (base first : S) (values : List S) :
    polyHash base (first :: values) =
      first * base ^ values.length + polyHash base values := by
  induction values using List.reverseRecOn with
  | nil => rw [← List.nil_append [first], polyHash_concat]; simp
  | append_singleton values last induction =>
      rw [← List.cons_append, polyHash_concat, polyHash_concat, induction,
        List.length_append, List.length_singleton]
      ring

/-- The hash as a sum over the positions. -/
theorem polyHash_eq_sum
    {Item : Type*}
    (base : S)
    (value : Item → S)
    (items : List Item) :
    polyHash base (items.map value) =
      ∑ index : Fin items.length,
        value items[index] * base ^ (items.length - 1 - index) := by
  induction items with
  | nil => rfl
  | cons first items induction =>
      rw [List.map_cons, polyHash_cons, induction, List.length_map]
      change _ = ∑ index : Fin (items.length + 1),
        value (first :: items)[index] * base ^ (items.length + 1 - 1 - index)
      rw [Fin.sum_univ_succ]
      refine congrArg₂ (· + ·) ?_ (Finset.sum_congr rfl fun index _ => ?_)
      · simp
      · have exponent : items.length + 1 - 1 - index.succ.val =
            items.length - 1 - index.val := by
          rw [Fin.val_succ]
          omega
        rw [exponent]
        rfl

/-- The hash of the next window. -/
theorem polyHash_roll (base first last : R) (middle : List R) :
    polyHash base (middle ++ [last]) =
      polyHash base (first :: middle) * base + last -
        first * base ^ (middle.length + 1) := by
  rw [polyHash_concat, polyHash_cons]
  ring

/-- A homomorphism carries hashes over. -/
theorem polyHash_map (hom : S →+* R) (base : S) (values : List S) :
    polyHash (hom base) (values.map hom) = hom (polyHash base values) := by
  induction values using List.reverseRecOn with
  | nil => simp
  | append_singleton values last induction =>
      rw [List.map_append, List.map_singleton, polyHash_concat,
        polyHash_concat, induction, map_add, map_mul]

end Polynomial

/-! ## Rings -/

section Ring

variable {Item : Type*} {ring : List Item} {cursor width : Nat} {last : Item}

/-- What a ring holds, the oldest item first. -/
def contents (ring : List Item) (cursor : Nat) : List Item :=
  ring.drop cursor ++ ring.take cursor

@[simp] theorem contents_zero (ring : List Item) : contents ring 0 = ring := by
  rw [contents, List.drop_zero, List.take_zero, List.append_nil]

/-- Replacing the oldest item makes it leave and the new one enter. -/
theorem contents_replace
    (full : ring.length = width)
    (inside : cursor < width)
    (last : Item) :
    ∃ first middle, ring[cursor]? = some first ∧
      middle.length + 1 = width ∧
      contents ring cursor = first :: middle ∧
      contents (ring.set cursor last) ((cursor + 1) % width) =
        middle ++ [last] := by
  subst full
  refine ⟨ring[cursor], ring.drop (cursor + 1) ++ ring.take cursor,
    List.getElem?_eq_getElem inside, ?_, ?_, ?_⟩
  · rw [List.length_append, List.length_drop, List.length_take]
    omega
  · rw [contents, List.drop_eq_getElem_cons inside, List.cons_append]
  · have front : (ring.set cursor last).take (cursor + 1) =
        ring.take cursor ++ [last] := by
      rw [List.take_succ_eq_append_getElem (by rwa [List.length_set]),
        List.getElem_set_self, List.take_set_of_le (Nat.le_refl cursor)]
    rcases Nat.lt_or_ge (cursor + 1) ring.length with more | atEnd
    · rw [Nat.mod_eq_of_lt more, contents, front,
        List.drop_set_of_lt (by omega), List.append_assoc]
    · obtain isEnd : cursor + 1 = ring.length := by omega
      rw [isEnd, Nat.mod_self, contents_zero, List.drop_length,
        List.nil_append, ← front, isEnd, ← @List.length_set _ _ cursor last,
        List.take_length]

end Ring

/-! ## Windows -/

section Windows

variable {Item : Type*} {items : List Item} {width : Nat} {last : Item}

/-- The last items of a list, at most as many as the window is wide. -/
def lastItems (width : Nat) (items : List Item) : List Item :=
  items.drop (items.length - width)

/-- The windows of a list, from the left. -/
def windows (width : Nat) (items : List Item) : List (List Item) :=
  (List.range (items.length + 1 - width)).map fun start =>
    between items start (start + width)

theorem lastItems_concat_of_lt (short : items.length < width) :
    lastItems width items = items ∧
      lastItems width (items ++ [last]) = items ++ [last] := by
  unfold lastItems
  rw [List.length_append, List.length_singleton,
    Nat.sub_eq_zero_of_le (Nat.le_of_lt short), Nat.sub_eq_zero_of_le short]
  exact ⟨rfl, rfl⟩

/-- Where a full window moves on by one item, its first item leaves. -/
theorem lastItems_concat
    {first : Item}
    {middle : List Item}
    (isWindow : lastItems width items = first :: middle)
    (full : width ≤ items.length) :
    lastItems width (items ++ [last]) = middle ++ [last] := by
  unfold lastItems at *
  have next : items.length + 1 - width = items.length - width + 1 := by omega
  rw [List.length_append, List.length_singleton, next,
    List.drop_append_of_le_length (by
      have := congrArg List.length isWindow
      rw [List.length_drop, List.length_cons] at this
      omega),
    ← List.drop_drop, isWindow, List.drop_one, List.tail_cons]

theorem windows_of_lt (short : items.length < width) :
    windows width items = [] := by
  rw [windows, Nat.sub_eq_zero_of_le (by omega), List.range_zero,
    List.map_nil]

/-- One more item adds one more window, once there are enough. -/
theorem windows_concat (full : width ≤ items.length + 1) :
    windows width (items ++ [last]) =
      windows width items ++ [lastItems width (items ++ [last])] := by
  have count : (items ++ [last]).length + 1 - width =
      items.length + 1 - width + 1 := by
    rw [List.length_append, List.length_singleton]
    omega
  rw [windows, count, List.range_succ, List.map_append, List.map_singleton]
  refine congrArg₂ (· ++ ·) (List.map_congr_left fun start member => ?_) ?_
  · have inside := List.mem_range.mp member
    unfold between
    rw [List.drop_append_of_le_length (by omega), List.take_append_of_le_length
      (by rw [List.length_drop]; omega)]
  · unfold between lastItems
    rw [List.length_append, List.length_singleton, List.take_of_length_le (by
      rw [List.length_drop, List.length_append, List.length_singleton]
      omega)]

theorem mem_windows {window : List Item} :
    window ∈ windows width items ↔
      ∃ start, start + width ≤ items.length ∧
        window = between items start (start + width) := by
  simp only [windows, List.mem_map, List.mem_range]
  refine exists_congr fun start => ?_
  refine and_congr (by omega) eq_comm

end Windows

/-! ## Maxima -/

section Maximum

variable {Value : Type*} [LinearOrder Value] [OrderBot Value]

/-- The largest of some values, or the least of all when there are none. -/
def largest (values : List Value) : Value := values.foldl max ⊥

theorem largest_concat (values : List Value) (last : Value) :
    largest (values ++ [last]) = max (largest values) last :=
  List.foldl_concat ..

theorem isGreatest_largest {values : List Value} (nonempty : values ≠ []) :
    IsGreatest {value | value ∈ values} (largest values) := by
  induction values using List.reverseRecOn with
  | nil => exact absurd rfl nonempty
  | append_singleton values last induction =>
      rw [largest_concat]
      by_cases empty : values = []
      · subst empty
        have isBottom : largest ([] : List Value) = ⊥ := rfl
        rw [isBottom, bot_sup_eq]
        simp [IsGreatest, upperBounds]
      · obtain ⟨member, bound⟩ := induction empty
        constructor
        · rcases max_choice (largest values) last with left | right
          · rw [left]
            exact List.mem_append_left _ member
          · rw [right]
            exact List.mem_append_right _ List.mem_cons_self
        · intro value isValue
          rcases List.mem_append.mp isValue with old | new
          · exact le_max_of_le_left (bound old)
          · rw [List.mem_singleton.mp new]
            exact le_max_right _ _

end Maximum

end RollingHash
