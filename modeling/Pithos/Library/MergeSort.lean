import Pithos.Library.Lists
import Mathlib.Data.List.Destutter
import Mathlib.Data.List.Chain
import Mathlib.Data.List.Sort
import Mathlib.Order.Defs.LinearOrder
import Mathlib.Tactic.Common

/-!
# Bottom-up merge sort

The merge sort that first merges runs of one item, then runs of two, of four
and so on.  A pass over the list merges neighbouring runs; it keeps the items
and doubles the length of the sorted runs.

Sorting by a key puts items of one key next to each other, so that neighbours
tell whether a key repeats.  When none does, the sorted list depends on the
items alone and not on their order.
-/

namespace MergeSort

open Lists

variable {Item : Type*}

/-- One pass: neighbouring runs of `width` items are merged, from the left. -/
def mergePass (le : Item → Item → Bool) (width : Nat) (items : List Item) :
    List Item :=
  if width = 0 ∨ items.length = 0 then items
  else
    (items.take width).merge ((items.drop width).take width) le ++
      mergePass le width (items.drop (2 * width))
termination_by items.length
decreasing_by
  rw [List.length_drop]
  omega

@[simp] theorem mergePass_nil (le : Item → Item → Bool) (width : Nat) :
    mergePass le width [] = [] := by
  rw [mergePass, if_pos (Or.inr List.length_nil)]

/-- A pass keeps the items. -/
theorem mergePass_perm
    (le : Item → Item → Bool)
    (width : Nat)
    (items : List Item) :
    (mergePass le width items).Perm items := by
  induction items using mergePass.induct width with
  | case1 items done => rw [mergePass, if_pos done]
  | case2 items more inductionHypothesis =>
      rw [mergePass, if_neg more]
      have split : items = items.take width ++
          ((items.drop width).take width ++ items.drop (2 * width)) := by
        rw [Nat.two_mul, ← List.drop_drop, List.take_append_drop,
          List.take_append_drop]
      calc _ ++ mergePass le width (items.drop (2 * width))
          |>.Perm ((items.take width ++ (items.drop width).take width) ++
            items.drop (2 * width)) :=
            (List.merge_perm_append _).append inductionHypothesis
        _ = items := by rw [List.append_assoc, ← split]

@[simp] theorem length_mergePass
    (le : Item → Item → Bool)
    (width : Nat)
    (items : List Item) :
    (mergePass le width items).length = items.length :=
  (mergePass_perm le width items).length_eq

/-- Passes over runs of `width`, then of twice the width, until one run is
left. -/
def sortFrom (le : Item → Item → Bool) (width : Nat) (items : List Item) :
    List Item :=
  if 0 < width ∧ width < items.length then
    sortFrom le (2 * width) (mergePass le width items)
  else items
termination_by items.length - width
decreasing_by
  rw [length_mergePass]
  omega

/-- Sort the items. -/
def sort (le : Item → Item → Bool) (items : List Item) : List Item :=
  sortFrom le 1 items

theorem sortFrom_perm
    (le : Item → Item → Bool)
    (width : Nat)
    (items : List Item) :
    (sortFrom le width items).Perm items := by
  induction width, items using sortFrom.induct le with
  | case1 width items more inductionHypothesis =>
      rw [sortFrom, if_pos more]
      exact inductionHypothesis.trans (mergePass_perm le width items)
  | case2 width items done => rw [sortFrom, if_neg done]

/-- Sorting keeps the items. -/
theorem sort_perm (le : Item → Item → Bool) (items : List Item) :
    (sort le items).Perm items :=
  sortFrom_perm le 1 items

/-! ## Sorted runs -/

/-- Each run of `width` items, counted from the front, is sorted. -/
def RunsSorted (le : Item → Item → Bool) (width : Nat) (items : List Item) :
    Prop :=
  ∀ index, ((items.drop (index * width)).take width).Pairwise fun left right =>
    le left right

theorem runsSorted_one (le : Item → Item → Bool) (items : List Item) :
    RunsSorted le 1 items := by
  intro index
  match rest : items.drop (index * 1) with
  | [] => exact List.Pairwise.nil
  | item :: items => exact List.pairwise_singleton _ item

theorem RunsSorted.drop
    {le : Item → Item → Bool}
    {width : Nat}
    {items : List Item}
    (sorted : RunsSorted le width items)
    (count : Nat) :
    RunsSorted le width (items.drop (count * width)) := by
  intro index
  have run := sorted (count + index)
  rwa [Nat.add_mul, ← List.drop_drop] at run

theorem RunsSorted.pairwise
    {le : Item → Item → Bool}
    {width : Nat}
    {items : List Item}
    (sorted : RunsSorted le width items)
    (oneRun : items.length ≤ width) :
    items.Pairwise fun left right => le left right := by
  have run := sorted 0
  rwa [Nat.zero_mul, List.drop_zero, List.take_of_length_le oneRun] at run

section Order

variable
  {le : Item → Item → Bool}
  (transitive : ∀ first second third, le first second → le second third →
    le first third)
  (total : ∀ first second, le first second || le second first)

include transitive total

/-- A pass doubles the length of the sorted runs. -/
theorem RunsSorted.mergePass
    {width : Nat}
    {items : List Item}
    (positive : 0 < width)
    (sorted : RunsSorted le width items) :
    RunsSorted le (2 * width) (mergePass le width items) := by
  induction items using mergePass.induct width with
  | case1 items done =>
      have empty : items = [] :=
        List.eq_nil_of_length_eq_zero (by omega)
      subst empty
      intro index
      rw [mergePass_nil, List.drop_nil, List.take_nil]
      exact List.Pairwise.nil
  | case2 items more inductionHypothesis =>
      rw [MergeSort.mergePass, if_neg more]
      have firstSorted := sorted 0
      rw [Nat.zero_mul, List.drop_zero] at firstSorted
      have secondSorted := sorted 1
      rw [Nat.one_mul] at secondSorted
      have mergedSorted := List.pairwise_merge transitive total _ _
        firstSorted secondSorted
      have restSorted := inductionHypothesis (sorted.drop 2)
      have mergedLength : ((items.take width).merge
          ((items.drop width).take width) le).length =
            min (2 * width) items.length := by
        rw [(List.merge_perm_append le).length_eq]
        simp only [List.length_append, List.length_take, List.length_drop]
        omega
      generalize (items.take width).merge ((items.drop width).take width) le =
        merged at mergedSorted mergedLength
      by_cases short : items.length ≤ 2 * width
      · -- The two runs are all there is.
        have rest : items.drop (2 * width) = [] := List.drop_eq_nil_of_le short
        have nothing : MergeSort.mergePass le width
            (items.drop (2 * width)) = [] := by
          rw [rest, mergePass_nil]
        rw [nothing, List.append_nil]
        intro index
        exact mergedSorted.sublist
          ((List.take_sublist _ _).trans (List.drop_sublist _ _))
      · intro index
        have full : merged.length = 2 * width := by omega
        cases index with
        | zero =>
            rw [Nat.zero_mul, List.drop_zero, List.take_left' full]
            exact mergedSorted
        | succ index =>
            have next : (index + 1) * (2 * width) =
                2 * width + index * (2 * width) := by
              rw [Nat.succ_mul, Nat.add_comm]
            rw [next, ← List.drop_drop, List.drop_left' full]
            exact restSorted index

theorem sortFrom_pairwise
    {width : Nat}
    {items : List Item}
    (positive : 0 < width)
    (sorted : RunsSorted le width items) :
    (sortFrom le width items).Pairwise fun left right => le left right := by
  induction width, items using sortFrom.induct le with
  | case1 width items more inductionHypothesis =>
      rw [sortFrom, if_pos more]
      exact inductionHypothesis (by omega)
        (sorted.mergePass transitive total positive)
  | case2 width items done =>
      rw [sortFrom, if_neg done]
      exact sorted.pairwise (by omega)

/-- Sorting sorts. -/
theorem sort_pairwise (items : List Item) :
    (sort le items).Pairwise fun left right => le left right :=
  sortFrom_pairwise transitive total Nat.one_pos (runsSorted_one le items)

end Order

/-! ## Stability -/

section Stability

variable
  {le : Item → Item → Bool}
  (transitive : ∀ first second third, le first second → le second third →
    le first third)
  (total : ∀ first second, le first second || le second first)
  {same : Item → Bool}
  (equal : ∀ first second, same first → same second → le first second)

include transitive equal in
/-- A merge of sorted runs keeps the order of equal items. -/
theorem filter_merge
    {first second : List Item}
    (firstSorted : first.Pairwise fun left right => le left right)
    (secondSorted : second.Pairwise fun left right => le left right) :
    (first.merge second le).filter same =
      first.filter same ++ second.filter same := by
  induction first, second using List.merge.induct le with
  | case1 second => rw [List.nil_merge, List.filter_nil, List.nil_append]
  | case2 first _ => rw [List.merge_right, List.filter_nil, List.append_nil]
  | case3 left first right second inOrder induction =>
      rw [List.cons_merge_cons_pos _ _ _ inOrder, List.filter_cons,
        @List.filter_cons _ left first,
        induction firstSorted.of_cons secondSorted]
      split <;> rfl
  | case4 left first right second outOfOrder induction =>
      rw [List.cons_merge_cons_neg _ _ _ outOfOrder, List.filter_cons,
        induction firstSorted secondSorted.of_cons,
        @List.filter_cons _ right second]
      split
      · -- no item of the first run is equal to one that comes before it
        rename_i isSame
        have none : (left :: first).filter same = [] := by
          refine List.filter_eq_nil_iff.mpr fun item member itemSame => ?_
          have below := equal item right itemSame isSame
          rcases List.mem_cons.mp member with rfl | later
          · exact outOfOrder below
          · exact outOfOrder (transitive left item right
              (List.rel_of_pairwise_cons firstSorted later) below)
        rw [none, List.nil_append, List.nil_append]
      · rfl

include transitive equal in
theorem RunsSorted.filter_mergePass
    {width : Nat}
    {items : List Item}
    (sorted : RunsSorted le width items) :
    (MergeSort.mergePass le width items).filter same = items.filter same := by
  induction items using mergePass.induct width with
  | case1 items done => rw [MergeSort.mergePass, if_pos done]
  | case2 items more inductionHypothesis =>
      have firstSorted := sorted 0
      rw [Nat.zero_mul, List.drop_zero] at firstSorted
      have secondSorted := sorted 1
      rw [Nat.one_mul] at secondSorted
      rw [MergeSort.mergePass, if_neg more, List.filter_append,
        filter_merge transitive equal firstSorted secondSorted,
        inductionHypothesis (sorted.drop 2), List.append_assoc,
        ← List.filter_append, Nat.two_mul, ← List.drop_drop,
        List.take_append_drop, ← List.filter_append, List.take_append_drop]

include transitive total equal

theorem filter_sortFrom
    {width : Nat}
    {items : List Item}
    (positive : 0 < width)
    (sorted : RunsSorted le width items) :
    (sortFrom le width items).filter same = items.filter same := by
  induction width, items using sortFrom.induct le with
  | case1 width items more inductionHypothesis =>
      rw [sortFrom, if_pos more, inductionHypothesis (by omega)
        (sorted.mergePass transitive total positive),
        sorted.filter_mergePass transitive equal]
  | case2 width items done => rw [sortFrom, if_neg done]

/-- Sorting keeps the order of equal items. -/
theorem filter_sort (items : List Item) :
    (sort le items).filter same = items.filter same :=
  filter_sortFrom transitive total equal Nat.one_pos (runsSorted_one le items)

end Stability

/-! ## Sorting by a key -/

section Key

variable {Key : Type*} [LinearOrder Key] {key : Item → Key}

/-- Sort by a key. -/
def sortByKey (key : Item → Key) (items : List Item) : List Item :=
  sort (fun left right => decide (key left ≤ key right)) items

theorem sortByKey_perm (key : Item → Key) (items : List Item) :
    (sortByKey key items).Perm items :=
  sort_perm _ items

@[simp] theorem length_sortByKey (key : Item → Key) (items : List Item) :
    (sortByKey key items).length = items.length :=
  (sortByKey_perm key items).length_eq

@[simp] theorem mem_sortByKey {item : Item} {items : List Item} :
    item ∈ sortByKey key items ↔ item ∈ items :=
  (sortByKey_perm key items).mem_iff

theorem sortByKey_pairwise (key : Item → Key) (items : List Item) :
    (sortByKey key items).Pairwise fun left right =>
      key left ≤ key right := by
  have sorted := @sort_pairwise _
    (fun left right : Item => decide (key left ≤ key right))
    (fun _ _ _ first second => decide_eq_true
      ((of_decide_eq_true first).trans (of_decide_eq_true second)))
    (fun first second => by simpa using le_total (key first) (key second))
    items
  exact sorted.imp of_decide_eq_true

/-- In a list sorted by its keys, a key that repeats repeats in neighbours. -/
theorem pairwise_lt_of_isChain
    {items : List Item}
    (sorted : items.Pairwise fun left right => key left ≤ key right)
    (distinct : items.IsChain fun left right => key left ≠ key right) :
    items.Pairwise fun left right => key left < key right := by
  refine pairwise_of_isChain ?_ ?_ sorted distinct
  · exact fun first second third => lt_trans
  · exact fun left right => lt_of_le_of_ne

/-- No two neighbours of the sorted list share a key exactly when no two items
do. -/
theorem isChain_sortByKey_iff {items : List Item} :
    ((sortByKey key items).IsChain fun left right =>
        key left ≠ key right) ↔ (items.map key).Nodup := by
  have sorted := sortByKey_pairwise key items
  rw [← ((sortByKey_perm key items).map key).nodup_iff]
  constructor
  · intro distinct
    exact List.pairwise_map.mpr
      ((pairwise_lt_of_isChain sorted distinct).imp ne_of_lt)
  · intro distinct
    exact (List.pairwise_map.mp distinct).isChain

/-- In a list sorted by its keys, the items with the least key come first. -/
theorem takeWhile_eq_filter
    {least : Key}
    {items : List Item}
    (sorted : items.Pairwise fun left right => key left ≤ key right)
    (below : ∀ item ∈ items, least ≤ key item) :
    items.takeWhile (fun item => key item = least) =
        items.filter (fun item => key item = least) ∧
      items.dropWhile (fun item => key item = least) =
        items.filter fun item => key item ≠ least := by
  induction items with
  | nil => exact ⟨rfl, rfl⟩
  | cons first items induction =>
      rw [List.pairwise_cons] at sorted
      by_cases same : key first = least
      · obtain ⟨taken, dropped⟩ := induction sorted.2
          fun item member => below item (List.mem_cons_of_mem first member)
        rw [List.takeWhile_cons_of_pos (by simpa using same), taken,
          List.dropWhile_cons_of_pos (by simpa using same), dropped,
          List.filter_cons_of_pos (by simpa using same),
          List.filter_cons_of_neg (by simpa using same)]
        exact ⟨rfl, rfl⟩
      · -- all that follows is above the least key
        have above (item : Item) (member : item ∈ first :: items) :
            key item ≠ least := by
          have firstAbove := lt_of_le_of_ne
            (below first List.mem_cons_self) (Ne.symm same)
          rcases List.mem_cons.mp member with rfl | later
          · exact same
          · exact ne_of_gt (firstAbove.trans_le (sorted.1 item later))
        rw [List.takeWhile_cons_of_neg (by simpa using same),
          List.dropWhile_cons_of_neg (by simpa using same)]
        constructor
        · refine (List.filter_eq_nil_iff.mpr ?_).symm
          intro item member
          simpa using above item member
        · refine (List.filter_eq_self.mpr ?_).symm
          intro item member
          simpa using above item member

/-- Items of distinct keys are put in strictly increasing order. -/
theorem sortByKey_pairwise_lt
    {items : List Item}
    (distinct : (items.map key).Nodup) :
    (sortByKey key items).Pairwise fun left right => key left < key right :=
  pairwise_lt_of_isChain (sortByKey_pairwise key items)
    (isChain_sortByKey_iff.mpr distinct)

/-- Items of distinct keys are sorted into one list, in whatever order they
come. -/
theorem sortByKey_eq_of_perm
    {first second : List Item}
    (distinct : (first.map key).Nodup)
    (same : first.Perm second) :
    sortByKey key first = sortByKey key second := by
  have antisymmetric (left right : Item) (before : key left < key right)
      (after : key right < key left) : left = right :=
    absurd before (lt_asymm after)
  exact List.Perm.eq_of_pairwise
    (fun left right _ _ => antisymmetric left right)
    (sortByKey_pairwise_lt distinct)
    (sortByKey_pairwise_lt ((same.map key).nodup_iff.mp distinct))
    ((sortByKey_perm key first).trans
      (same.trans (sortByKey_perm key second).symm))

/-- Items that stand in order are what sorting gives, when only equal items
share a key. -/
theorem sortByKey_eq_of_perm_sorted
    {items sorted : List Item}
    (same : items.Perm sorted)
    (ordered : sorted.Pairwise fun left right => key left ≤ key right)
    (apart : ∀ left ∈ sorted, ∀ right ∈ sorted,
      key left = key right → left = right) :
    sortByKey key items = sorted := by
  refine List.Perm.eq_of_pairwise ?_ (sortByKey_pairwise key items) ordered
    ((sortByKey_perm key items).trans same)
  intro left right isLeft isRight below above
  rw [mem_sortByKey, same.mem_iff] at isLeft
  exact apart left isLeft right isRight (le_antisymm below above)

end Key

/-! ## Values without repetitions -/

section Distinct

variable {Key : Type*} [LinearOrder Key]

end Distinct

end MergeSort
