import Mathlib.Data.List.Chain
import Mathlib.Data.List.Forall2
import Mathlib.Data.List.Nodup
import Mathlib.Data.List.Sort
import Mathlib.Tactic.Common

/-!
# Lists

General facts about lists: the item of a key that does not repeat, the last item
of a list, a list that is changed behind a prefix, neighbours that are in order,
lists that correspond item by item, also when they are sorted, and the segments
of a list.
-/

namespace Lists

variable {First Second Third Value Item : Type*}

/-- The only item with its key. -/
theorem filter_key_eq_singleton
    {Key : Type*}
    [DecidableEq Key]
    {key : Item → Key}
    {items : List Item}
    {item : Item}
    (distinct : (items.map key).Nodup)
    (member : item ∈ items) :
    items.filter (fun other => key other = key item) = [item] := by
  obtain ⟨before, after, rfl⟩ := List.append_of_mem member
  rw [List.map_append, List.map_cons, List.nodup_middle,
    List.nodup_cons, List.mem_append, not_or] at distinct
  obtain ⟨⟨notBefore, notAfter⟩, _⟩ := distinct
  rw [List.filter_append, List.filter_cons_of_pos (by simp),
    List.filter_eq_nil_iff.mpr, List.filter_eq_nil_iff.mpr, List.nil_append]
  · intro other isAfter same
    exact notAfter (of_decide_eq_true same ▸ List.mem_map_of_mem isAfter)
  · intro other isBefore same
    exact notBefore (of_decide_eq_true same ▸ List.mem_map_of_mem isBefore)

/-- An item of a list that was extended is an old item or the last one. -/
theorem getElem?_concat_eq_some
    {items : List Item}
    {last item : Item}
    {index : Nat} :
    (items ++ [last])[index]? = some item ↔
      items[index]? = some item ∨ index = items.length ∧ last = item := by
  rw [List.getElem?_append]
  split
  · rename_i inside
    simp [Nat.ne_of_lt inside]
  · rename_i beyond
    rw [List.getElem?_eq_none (Nat.not_lt.mp beyond)]
    simp only [reduceCtorEq, false_or]
    rw [List.getElem?_singleton]
    split <;> simp <;> omega

/-- A change behind a prefix leaves the prefix alone. -/
theorem prefix_modify
    {first items : List Item}
    {index : Nat}
    {change : Item → Item}
    (isPrefix : first <+: items)
    (behind : first.length ≤ index) :
    first <+: items.modify index change := by
  rw [List.prefix_iff_getElem?]
  intro position within
  rw [List.getElem?_modify_ne _ _ (by omega)]
  exact List.prefix_iff_getElem?.mp isPrefix position within

/-- In a list in order whose neighbours are apart, all items are strictly in
order. -/
theorem pairwise_of_isChain
    {before apart strictly : Item → Item → Prop}
    (transitive : ∀ first second third, strictly first second →
      strictly second third → strictly first third)
    (isStrict : ∀ left right, before left right → apart left right →
      strictly left right)
    {items : List Item}
    (sorted : items.Pairwise before)
    (distinct : items.IsChain apart) :
    items.Pairwise strictly := by
  have : IsTrans Item strictly := ⟨transitive⟩
  refine List.isChain_iff_pairwise.mp (List.isChain_iff_getElem.mpr ?_)
  intro index bound
  exact isStrict _ _
    (List.isChain_iff_getElem.mp sorted.isChain index bound)
    (List.isChain_iff_getElem.mp distinct index bound)

/-! ## Corresponding lists -/

/-- Lists that correspond item by item have the same images. -/
theorem map_eq_map_of_forall₂
    {related : First → Second → Prop}
    {left : First → Value}
    {right : Second → Value}
    (same : ∀ first second, related first second → left first = right second)
    {firsts : List First}
    {seconds : List Second}
    (corresponding : List.Forall₂ related firsts seconds) :
    firsts.map left = seconds.map right := by
  rw [← List.forall₂_eq_eq_eq, List.forall₂_map_left_iff,
    List.forall₂_map_right_iff]
  exact corresponding.imp same

/-- Correspondences compose. -/
theorem forall₂_trans
    {related : First → Second → Prop}
    {further : Second → Third → Prop}
    {goal : First → Third → Prop}
    {firsts : List First}
    {seconds : List Second}
    {thirds : List Third}
    (areRelated : List.Forall₂ related firsts seconds)
    (areFurther : List.Forall₂ further seconds thirds)
    (composed : ∀ first second third, related first second →
      further second third → goal first third) :
    List.Forall₂ goal firsts thirds := by
  induction areRelated generalizing thirds with
  | nil =>
      cases areFurther
      exact .nil
  | cons isRelated _ inductionHypothesis =>
      cases areFurther with
      | cons isFurther rest =>
          exact .cons (composed _ _ _ isRelated isFurther)
            (inductionHypothesis rest)

/-- Every item on the right corresponds to one on the left. -/
theorem exists_left_of_forall₂
    {related : First → Second → Prop}
    {firsts : List First}
    {seconds : List Second}
    (corresponding : List.Forall₂ related firsts seconds)
    {second : Second}
    (member : second ∈ seconds) :
    ∃ first ∈ firsts, related first second := by
  induction corresponding with
  | nil => cases member
  | cons isRelated _ inductionHypothesis =>
      rcases List.mem_cons.mp member with rfl | member
      · exact ⟨_, List.mem_cons_self, isRelated⟩
      · obtain ⟨first, isFirst, related⟩ := inductionHypothesis member
        exact ⟨first, List.mem_cons_of_mem _ isFirst, related⟩

/-- Lists that correspond still do so after they are sorted by orders that
correspond. -/
theorem forall₂_insertionSort
    {related : First → Second → Prop}
    {order : First → First → Prop}
    {otherOrder : Second → Second → Prop}
    [DecidableRel order]
    [DecidableRel otherOrder]
    (sameOrder : ∀ {left other right otherRight}, related left other →
      related right otherRight → (order left right ↔ otherOrder other otherRight))
    {firsts : List First}
    {seconds : List Second}
    (corresponding : List.Forall₂ related firsts seconds) :
    List.Forall₂ related (firsts.insertionSort order)
      (seconds.insertionSort otherOrder) := by
  have insert {item : First} {other : Second} (isRelated : related item other)
      {firsts : List First} {seconds : List Second}
      (corresponding : List.Forall₂ related firsts seconds) :
      List.Forall₂ related (firsts.orderedInsert order item)
        (seconds.orderedInsert otherOrder other) := by
    induction corresponding with
    | nil => exact .cons isRelated .nil
    | @cons first second firsts seconds head tail inductionHypothesis =>
        rw [List.orderedInsert_cons, List.orderedInsert_cons]
        by_cases before : order item first
        · rw [if_pos before, if_pos ((sameOrder isRelated head).mp before)]
          exact .cons isRelated (.cons head tail)
        · rw [if_neg before,
            if_neg fun after => before ((sameOrder isRelated head).mpr after)]
          exact .cons head inductionHypothesis
  induction corresponding with
  | nil => exact .nil
  | cons isRelated _ inductionHypothesis =>
      exact insert isRelated inductionHypothesis

/-- The items that pass a test are followed by the first one that does not. -/
theorem exists_after_takeWhile
    {test : Item → Bool}
    {items : List Item}
    (fails : ∃ item ∈ items, test item = false) :
    (∃ item, items[(items.takeWhile test).length]? = some item ∧
      test item = false) ∧
    ∀ index < (items.takeWhile test).length, ∀ item,
      items[index]? = some item → test item = true := by
  induction items with
  | nil =>
      obtain ⟨item, member, _⟩ := fails
      cases member
  | cons first items induction =>
      by_cases passes : test first = true
      · rw [List.takeWhile_cons_of_pos passes, List.length_cons]
        obtain ⟨item, member, itemFails⟩ := fails
        rcases List.mem_cons.mp member with rfl | later
        · rw [passes] at itemFails
          cases itemFails
        · obtain ⟨found, before⟩ := induction ⟨item, later, itemFails⟩
          refine ⟨by simpa using found, fun index inside other isOther => ?_⟩
          cases index with
          | zero => simp_all
          | succ index =>
              exact before index (by omega) other (by simpa using isOther)
      · rw [List.takeWhile_cons_of_neg passes]
        exact ⟨⟨first, rfl, by simpa using passes⟩,
          fun index inside => absurd inside (Nat.not_lt_zero index)⟩

/-! ## Segments -/

/-- The items between two indices. -/
def between (items : List Item) (start stop : Nat) : List Item :=
  (items.drop start).take (stop - start)

/-- The list with some items put over its own, from an index on. -/
def overwrite (items : List Item) (index : Nat) (added : List Item) :
    List Item :=
  items.take index ++ added ++ items.drop (index + added.length)

theorem between_self (items : List Item) (index : Nat) :
    between items index index = [] := by
  rw [between, Nat.sub_self, List.take_zero]

/-- Two neighbouring segments. -/
theorem take_append_between
    {items : List Item}
    {start stop : Nat}
    (before : start ≤ stop) :
    items.take start ++ between items start stop = items.take stop := by
  obtain ⟨more, rfl⟩ := Nat.exists_eq_add_of_le before
  rw [between, Nat.add_sub_cancel_left, List.take_add]

/-- Segments that follow each other make up the front of a list. -/
theorem flatMap_between
    {bound : Nat → Nat}
    (monotone : ∀ index, bound index ≤ bound (index + 1))
    (atStart : bound 0 = 0)
    (items : List Item)
    (count : Nat) :
    ((List.range count).flatMap fun index =>
      between items (bound index) (bound (index + 1))) =
        items.take (bound count) := by
  induction count with
  | zero => rw [atStart, List.take_zero, List.range_zero, List.flatMap_nil]
  | succ count induction =>
      rw [List.range_succ, List.flatMap_append, induction,
        List.flatMap_singleton, take_append_between (monotone count)]

/-- A segment that ends before what is added. -/
theorem between_append_left
    {items added : List Item}
    {start stop : Nat}
    (inside : stop ≤ items.length) :
    between (items ++ added) start stop = between items start stop := by
  unfold between
  rcases Nat.le_total start items.length with within | beyond
  · rw [List.drop_append_of_le_length within, List.take_append_of_le_length (by
      rw [List.length_drop]
      omega)]
  · rw [Nat.sub_eq_zero_of_le (by omega), List.take_zero, List.take_zero]

/-- A segment that starts behind the list. -/
theorem between_of_length_le
    {items : List Item}
    {start stop : Nat}
    (beyond : items.length ≤ start) :
    between items start stop = [] := by
  rw [between, List.drop_of_length_le beyond, List.take_nil]

/-- A segment in which the next item falls. -/
theorem between_concat
    {items : List Item}
    {start stop : Nat}
    {last : Item}
    (before : start ≤ items.length)
    (after : items.length < stop) :
    between (items ++ [last]) start stop =
      between items start stop ++ [last] := by
  unfold between
  rw [List.drop_append_of_le_length before, List.take_of_length_le (by
    rw [List.length_append, List.length_drop, List.length_singleton]
    omega), List.take_of_length_le (by
    rw [List.length_drop]
    omega)]

theorem between_eq_cons
    {items : List Item}
    {start stop : Nat}
    (before : start < stop)
    (inside : stop ≤ items.length) :
    ∃ item, items[start]? = some item ∧
      between items start stop = item :: between items (start + 1) stop := by
  have found : start < items.length := by omega
  refine ⟨items[start], List.getElem?_eq_getElem found, ?_⟩
  obtain ⟨more, isMore⟩ := Nat.exists_eq_add_of_lt before
  rw [between, between, List.drop_eq_getElem_cons found, isMore,
    show start + more + 1 - start = more + 1 by omega,
    show start + more + 1 - (start + 1) = more by omega, List.take_succ_cons]

theorem drop_min_length (items : List Item) (count : Nat) :
    items.drop (min count items.length) = items.drop count := by
  rcases Nat.le_total count items.length with inside | beyond
  · rw [Nat.min_eq_left inside]
  · rw [Nat.min_eq_right beyond, List.drop_length,
      List.drop_of_length_le beyond]

/-- A segment of a given width, as far as there are items. -/
theorem between_min (items : List Item) (start width : Nat) :
    between items (min start items.length)
        (min (start + width) items.length) =
      (items.drop start).take width := by
  rw [between, drop_min_length, List.take_eq_take_iff, List.length_drop]
  omega

theorem length_between
    {items : List Item}
    {start stop : Nat}
    (inside : stop ≤ items.length) :
    (between items start stop).length = stop - start := by
  rw [between, List.length_take, List.length_drop]
  omega

@[simp] theorem overwrite_nil (items : List Item) (index : Nat) :
    overwrite items index [] = items := by
  rw [overwrite, List.append_nil, List.length_nil, Nat.add_zero,
    List.take_append_drop]

theorem overwrite_set
    {items added : List Item}
    {index : Nat}
    {item : Item}
    (inside : index < items.length) :
    overwrite (items.set index item) (index + 1) added =
      overwrite items index (item :: added) := by
  unfold overwrite
  rw [List.take_succ_eq_append_getElem (by rwa [List.length_set]),
    List.getElem_set_self, List.take_set_of_le (Nat.le_refl index),
    List.drop_set_of_lt (by omega), List.length_cons]
  simp [Nat.add_comm, Nat.add_left_comm]

theorem length_overwrite
    {items added : List Item}
    {index : Nat}
    (inside : index + added.length ≤ items.length) :
    (overwrite items index added).length = items.length := by
  simp only [overwrite, List.length_append, List.length_take,
    List.length_drop]
  omega

theorem overwrite_append
    {items first second : List Item}
    {index : Nat}
    (inside : index + first.length + second.length ≤ items.length) :
    overwrite (overwrite items index first) (index + first.length) second =
      overwrite items index (first ++ second) := by
  have written : (items.take index ++ first).length =
      index + first.length := by
    rw [List.length_append, List.length_take]
    omega
  unfold overwrite
  rw [List.take_left' written, ← List.drop_drop, List.drop_left' written,
    List.drop_drop, List.length_append]
  simp only [List.append_assoc, Nat.add_assoc]

end Lists
