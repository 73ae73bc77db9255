import Mathlib.Algebra.GroupWithZero.Nat
import Pithos.Library.Checkpoint
import Pithos.Library.MergeSort

/-!
# Sorting with checkpoints

The sort of the analysis asks a checkpoint at every step.  It merges runs of a
slice into a scratch list, by index, copies the scratch list back and doubles the
length of the runs.

Sums and products of indices saturate at the largest one.  Memory for the scratch
list is taken as available.
-/

namespace Pithos.Sorting

open Checkpoint
open MergeSort
open Lists

variable {ε Item : Type}

/-- The greatest `usize`. -/
def usizeMax : Nat := 2 ^ 64 - 1

/-- Sum of two indices, at most the largest one. -/
def addUsize (left right : Nat) : Nat := min (left + right) usizeMax

/-- Product of two indices, at most the largest one. -/
def mulUsize (left right : Nat) : Nat := min (left * right) usizeMax

/-- While both runs have items, move the smaller of the first two.  The scratch
list and the three indices after it. -/
def mergeHeads
    (compare : Item → Item → Ordering)
    (items : List Item)
    (middle stop : Nat)
    (scratch : List Item)
    (left right output : Nat) :
    Checked ε (List Item × Nat × Nat × Nat) :=
  if left < middle ∧ right < stop then do
    checkpoint
    let first ← read items left
    let second ← read items right
    if compare first second ≠ .gt then do
      let scratch ← write scratch output first
      mergeHeads compare items middle stop scratch (left + 1) right (output + 1)
    else do
      let scratch ← write scratch output second
      mergeHeads compare items middle stop scratch left (right + 1) (output + 1)
  else pure (scratch, left, right, output)
termination_by (middle - left) + (stop - right)

/-- Move what is left of a run.  The scratch list and its index after it. -/
def copyRest
    (items : List Item)
    (stop : Nat)
    (scratch : List Item)
    (index output : Nat) : Checked ε (List Item × Nat) :=
  if index < stop then do
    checkpoint
    let item ← read items index
    let scratch ← write scratch output item
    copyRest items stop scratch (index + 1) (output + 1)
  else pure (scratch, output)
termination_by stop - index

/-- Merge two neighbouring runs into the scratch list. -/
def mergeRun
    (compare : Item → Item → Ordering)
    (items : List Item)
    (start middle stop : Nat)
    (scratch : List Item) : Checked ε (List Item) := do
  let (scratch, left, right, output) ←
    mergeHeads compare items middle stop scratch start middle start
  let (scratch, output) ← copyRest items middle scratch left output
  let (scratch, _) ← copyRest items stop scratch right output
  pure scratch

/-- Where the first of two runs ends. -/
def runMiddle (length : UInt64) (width start : Nat) : Nat :=
  min (addUsize start width) length.toNat

/-- Where the second of two runs ends. -/
def runStop (length : UInt64) (width start : Nat) : Nat :=
  min (addUsize (runMiddle length width start) width) length.toNat

theorem runStop_eq (length : UInt64) (width start : Nat) :
    runStop length width start = min (start + 2 * width) length.toNat := by
  have bound := length.toNat_lt
  unfold runStop runMiddle addUsize usizeMax
  omega

theorem runMiddle_eq (length : UInt64) (width start : Nat) :
    runMiddle length width start = min (start + width) length.toNat := by
  have bound := length.toNat_lt
  unfold runMiddle addUsize usizeMax
  omega

/-- Merge the runs of the slice, two by two, from a start on. -/
def mergeRuns
    {length : UInt64}
    (compare : Item → Item → Ordering)
    (width : Nat)
    (positive : 0 < width)
    (items : Vector Item length.toNat)
    (scratch : List Item)
    (start : Nat) : Checked ε (List Item) :=
  if start < length.toNat then do
    checkpoint
    let middle := runMiddle length width start
    let stop := runStop length width start
    let scratch ← mergeRun compare items.toList start middle stop scratch
    mergeRuns compare width positive items scratch stop
  else pure scratch
termination_by length.toNat - start
decreasing_by
  rw [runStop_eq]
  omega

/-- Copy the scratch list over the slice, from an index on. -/
def copyBack
    {length : Nat}
    (scratch : List Item)
    (items : Vector Item length)
    (index : Nat) : Checked ε (Vector Item length) :=
  if inside : index < length then
    match scratch[index]? with
    | some sorted => do
        checkpoint
        copyBack scratch (items.set index sorted) (index + 1)
    | none => pure items
  else pure items
termination_by length - index

/-- Passes over runs of a width, then of twice the width, until one run is
left. -/
def passes
    {length : UInt64}
    (compare : Item → Item → Ordering)
    (width : Nat)
    (positive : 0 < width)
    (items : Vector Item length.toNat)
    (scratch : List Item) : Checked ε (Vector Item length.toNat) :=
  if width < length.toNat then do
    let scratch ← mergeRuns compare width positive items scratch 0
    let items ← copyBack scratch items 0
    passes compare (mulUsize width 2)
      (by unfold mulUsize usizeMax; omega) items scratch
  else pure items
termination_by length.toNat - width
decreasing_by
  have bound := length.toNat_lt
  unfold mulUsize usizeMax
  omega

/-- Push copies of the items. -/
def fillScratch : List Item → List Item → Checked ε (List Item)
  | [], scratch => pure scratch
  | item :: items, scratch => do
      checkpoint
      fillScratch items (scratch ++ [item])

/-- Sort a slice. -/
def trySortByCheckpoint
    {length : UInt64}
    (compare : Item → Item → Ordering)
    (items : Vector Item length.toNat) :
    Checked ε (Vector Item length.toNat) :=
  if length.toNat < 2 then do
    checkpoint
    pure items
  else do
    checkpoint
    let scratch ← fillScratch items.toList []
    passes compare 1 Nat.one_pos items scratch

/-- The order that a comparison gives. -/
def isOrdered (compare : Item → Item → Ordering) (left right : Item) : Bool :=
  (compare left right).isLE

/-! ## What the loops yield -/

section Loops

variable
  {compare : Item → Item → Ordering}
  {items scratch : List Item}
  {middle stop left right index output : Nat}

/-- A run is copied. -/
theorem copyRest_yields
    (inside : stop ≤ items.length)
    (within : index ≤ stop)
    (room : output + (stop - index) ≤ scratch.length) :
    Yields (copyRest items stop scratch index output : Checked ε _)
      (overwrite scratch output (between items index stop),
        output + (stop - index)) := by
  induction more : stop - index generalizing scratch index output with
  | zero =>
      obtain rfl : index = stop := by omega
      rw [copyRest, if_neg (Nat.lt_irrefl index), between_self, overwrite_nil]
      exact Yields.ret _
  | succ count induction =>
      have before : index < stop := by omega
      obtain ⟨item, found, isSegment⟩ := between_eq_cons before inside
      rw [copyRest, if_pos before]
      refine Yields.check (Yields.read found (Yields.write (by omega) ?_))
      have rest := @induction (scratch.set output item) (index + 1)
        (output + 1) before (by rw [List.length_set]; omega) (by omega)
      rw [overwrite_set (by omega), ← isSegment] at rest
      rwa [show output + (count + 1) = output + 1 + count by omega]

/-- The first two loops of a merge leave what is left of one run. -/
theorem mergeHeads_yields
    (inside : stop ≤ items.length)
    (firstWithin : left ≤ middle)
    (secondWithin : right ≤ stop)
    (middleWithin : middle ≤ items.length)
    (room : output + (middle - left) + (stop - right) ≤ scratch.length) :
    ∃ scratch' left' right' output',
      Yields (mergeHeads compare items middle stop scratch left right output :
          Checked ε _) (scratch', left', right', output') ∧
        left' ≤ middle ∧ right' ≤ stop ∧
        scratch'.length = scratch.length ∧
        output' + (middle - left') + (stop - right') =
          output + (middle - left) + (stop - right) ∧
        overwrite scratch' output'
            (between items left' middle ++ between items right' stop) =
          overwrite scratch output
            ((between items left middle).merge (between items right stop)
              (isOrdered compare)) := by
  obtain ⟨count, few⟩ :
      ∃ count, (middle - left) + (stop - right) ≤ count := ⟨_, Nat.le_refl _⟩
  induction count generalizing scratch left right output with
  | zero =>
      obtain ⟨rfl, rfl⟩ : left = middle ∧ right = stop := by omega
      refine ⟨scratch, left, right, output, ?_, by omega, by omega, rfl, rfl,
        ?_⟩
      · rw [mergeHeads, if_neg (by omega)]
        exact Yields.ret _
      · rw [between_self, between_self, List.merge_right, List.append_nil]
  | succ count induction =>
      by_cases both : left < middle ∧ right < stop
      · obtain ⟨first, foundFirst, isFirst⟩ :=
          between_eq_cons both.1 middleWithin
        obtain ⟨second, foundSecond, isSecond⟩ :=
          between_eq_cons both.2 inside
        rw [mergeHeads, if_pos both, isFirst, isSecond]
        by_cases inOrder : compare first second ≠ .gt
        · obtain ⟨scratch', left', right', output', yields, leftEnd, rightEnd,
            sameLength, sameRoom, merged⟩ :=
            @induction (scratch.set output first) (left + 1) right (output + 1)
              (by omega) (by omega) (by rw [List.length_set]; omega) (by omega)
          refine ⟨scratch', left', right', output', ?_, leftEnd, rightEnd,
            by rwa [List.length_set] at sameLength, by omega, ?_⟩
          · refine Yields.check (Yields.read foundFirst
              (Yields.read foundSecond ?_))
            rw [if_pos inOrder]
            exact Yields.write (by omega) yields
          · rw [List.cons_merge_cons_pos _ _ _
                (Ordering.ne_gt_iff_isLE.mp inOrder),
              ← isSecond, merged, overwrite_set (by omega)]
        · obtain ⟨scratch', left', right', output', yields, leftEnd, rightEnd,
            sameLength, sameRoom, merged⟩ :=
            @induction (scratch.set output second) left (right + 1) (output + 1)
              (by omega) (by omega) (by rw [List.length_set]; omega) (by omega)
          refine ⟨scratch', left', right', output', ?_, leftEnd, rightEnd,
            by rwa [List.length_set] at sameLength, by omega, ?_⟩
          · refine Yields.check (Yields.read foundFirst
              (Yields.read foundSecond ?_))
            rw [if_neg inOrder]
            exact Yields.write (by omega) yields
          · rw [List.cons_merge_cons_neg _ _ _
                fun isLE => inOrder (Ordering.ne_gt_iff_isLE.mpr isLE),
              ← isFirst, merged, overwrite_set (by omega)]
      · refine ⟨scratch, left, right, output, ?_, firstWithin, secondWithin,
          rfl, rfl, ?_⟩
        · rw [mergeHeads, if_neg both]
          exact Yields.ret _
        · -- one of the runs is used up
          rcases Nat.lt_or_ge left middle with more | done
          · obtain rfl : right = stop := by omega
            rw [between_self, List.merge_right, List.append_nil]
          · obtain rfl : left = middle := by omega
            rw [between_self, List.nil_merge, List.nil_append]

/-- Two runs are merged over their place. -/
theorem mergeRun_yields
    (firstWithin : index ≤ middle)
    (secondWithin : middle ≤ stop)
    (inside : stop ≤ items.length)
    (sameLength : scratch.length = items.length) :
    Yields (mergeRun compare items index middle stop scratch : Checked ε _)
      (overwrite scratch index
        ((between items index middle).merge (between items middle stop)
          (isOrdered compare))) := by
  obtain ⟨scratch', left, right, output, heads, leftEnd, rightEnd,
    keepsLength, keepsRoom, merged⟩ :=
    @mergeHeads_yields ε Item compare items scratch middle stop index middle
      index inside firstWithin secondWithin (by omega) (by omega)
  have isFirst := @length_between Item items left middle (by omega)
  have isSecond := @length_between Item items right stop inside
  have first := @copyRest_yields ε Item items scratch' middle left output
    (by omega) leftEnd (by omega)
  have second := @copyRest_yields ε Item items
    (overwrite scratch' output (between items left middle)) stop right
    (output + (middle - left)) inside rightEnd
    (by rw [length_overwrite (by omega)]; omega)
  rw [← isFirst, overwrite_append (by omega), merged, isFirst] at second
  exact heads.bind (first.bind (second.bind (Yields.ret _)))

end Loops

section Passes

variable
  {length : UInt64}
  {compare : Item → Item → Ordering}
  {width start : Nat}
  {items : Vector Item length.toNat}
  {scratch : List Item}

/-- The runs that the slice has from a start on are merged into the scratch
list. -/
theorem mergeRuns_yields
    (positive : 0 < width)
    (sameLength : scratch.length = length.toNat)
    (within : start ≤ length.toNat) :
    Yields (mergeRuns compare width positive items scratch start : Checked ε _)
      (scratch.take start ++
        mergePass (isOrdered compare) width (items.toList.drop start)) := by
  have itemsLength : items.toList.length = length.toNat := Vector.length_toList
  obtain ⟨count, few⟩ : ∃ count, length.toNat - start ≤ count :=
    ⟨_, Nat.le_refl _⟩
  induction count generalizing scratch start with
  | zero =>
      obtain rfl : start = length.toNat := by omega
      rw [mergeRuns, if_neg (Nat.lt_irrefl _),
        List.drop_of_length_le itemsLength.le, mergePass_nil, List.append_nil,
        List.take_of_length_le sameLength.le]
      exact Yields.ret _
  | succ count induction =>
      by_cases more : start < length.toNat
      · have isMiddle : runMiddle length width start =
            min (start + width) items.toList.length := by
          rw [itemsLength, runMiddle_eq]
        have isStop : runStop length width start =
            min (start + 2 * width) items.toList.length := by
          rw [itemsLength, runStop_eq]
        have isFirst : between items.toList start
            (runMiddle length width start) =
              (items.toList.drop start).take width := by
          rw [← between_min, Nat.min_eq_left (by omega), isMiddle]
        have isSecond : between items.toList (runMiddle length width start)
            (runStop length width start) =
              ((items.toList.drop start).drop width).take width := by
          rw [List.drop_drop, ← between_min, isMiddle, isStop, Nat.two_mul,
            Nat.add_assoc]
        have isRest : items.toList.drop (runStop length width start) =
            (items.toList.drop start).drop (2 * width) := by
          rw [isStop, drop_min_length, List.drop_drop]
        have merged := @mergeRun_yields ε Item compare items.toList scratch
          (runMiddle length width start) (runStop length width start) start
          (by omega) (by omega) (by omega) (by omega)
        have mergedLength : ((between items.toList start
            (runMiddle length width start)).merge (between items.toList
              (runMiddle length width start) (runStop length width start))
                (isOrdered compare)).length =
            runStop length width start - start := by
          rw [List.length_merge, length_between (by omega),
            length_between (by omega)]
          omega
        rw [isFirst, isSecond] at merged mergedLength
        have front : (scratch.take start ++
            ((items.toList.drop start).take width).merge
              (((items.toList.drop start).drop width).take width)
                (isOrdered compare)).length =
            runStop length width start := by
          rw [List.length_append, mergedLength, List.length_take]
          omega
        have room : start + (((items.toList.drop start).take width).merge
            (((items.toList.drop start).drop width).take width)
              (isOrdered compare)).length ≤ scratch.length := by
          omega
        have rest := @induction (runStop length width start) _
          ((length_overwrite room).trans sameLength) (by omega) (by omega)
        rw [mergeRuns, if_pos more]
        refine Yields.check (merged.bind ?_)
        rw [mergePass, if_neg (by rw [List.length_drop]; omega),
          ← List.append_assoc, ← isRest]
        rwa [overwrite, List.take_left' front] at rest
      · obtain rfl : start = length.toNat := by omega
        rw [mergeRuns, if_neg more, List.drop_of_length_le itemsLength.le,
          mergePass_nil, List.append_nil,
          List.take_of_length_le sameLength.le]
        exact Yields.ret _

/-- The scratch list is copied over the slice. -/
theorem copyBack_yields
    {count index : Nat}
    {items : Vector Item count}
    (sameLength : scratch.length = count) :
    ∃ copied, Yields (copyBack scratch items index : Checked ε _) copied ∧
      copied.toList = items.toList.take index ++ scratch.drop index := by
  induction more : count - index generalizing items index with
  | zero =>
      have itemsLength : items.toList.length = count := Vector.length_toList
      refine ⟨items, ?_, ?_⟩
      · rw [copyBack, dif_neg (by omega)]
        exact Yields.ret _
      · rw [List.take_of_length_le (by omega),
          List.drop_of_length_le (by omega), List.append_nil]
  | succ fewer induction =>
      have inside : index < count := by omega
      have found : index < scratch.length := by omega
      obtain ⟨copied, yields, isCopied⟩ :=
        @induction (index + 1) (items.set index scratch[index]) (by omega)
      refine ⟨copied, ?_, ?_⟩
      · rw [copyBack, dif_pos inside, List.getElem?_eq_getElem found]
        exact Yields.check yields
      · have itemsLength : items.toList.length = count := Vector.length_toList
        rw [isCopied, Vector.toList_set inside,
          List.take_succ_eq_append_getElem (by
            rw [List.length_set]
            omega),
          List.getElem_set_self, List.take_set_of_le (Nat.le_refl index),
          List.append_assoc, List.singleton_append,
          ← List.drop_eq_getElem_cons found]

theorem fillScratch_yields (items scratch : List Item) :
    Yields (fillScratch items scratch : Checked ε _) (scratch ++ items) := by
  induction items generalizing scratch with
  | nil =>
      rw [List.append_nil]
      exact Yields.ret scratch
  | cons item items induction =>
      have rest := induction (scratch ++ [item])
      rw [List.append_assoc, List.singleton_append] at rest
      exact Yields.check rest

theorem sortFrom_of_le
    {le : Item → Item → Bool}
    {items : List Item}
    (oneRun : items.length ≤ width) :
    sortFrom le width items = items := by
  rw [sortFrom, if_neg (by omega)]

theorem passes_yields
    (positive : 0 < width)
    (sameLength : scratch.length = length.toNat) :
    ∃ sorted, Yields (passes compare width positive items scratch :
        Checked ε _) sorted ∧
      sorted.toList = sortFrom (isOrdered compare) width items.toList := by
  obtain ⟨count, few⟩ : ∃ count, length.toNat - width ≤ count :=
    ⟨_, Nat.le_refl _⟩
  induction count generalizing width items scratch with
  | zero =>
      have itemsLength : items.toList.length = length.toNat :=
        Vector.length_toList
      refine ⟨items, ?_, (sortFrom_of_le (by omega)).symm⟩
      rw [passes, if_neg (by omega)]
      exact Yields.ret _
  | succ count induction =>
      have itemsLength : items.toList.length = length.toNat :=
        Vector.length_toList
      by_cases more : width < length.toNat
      · have merged := @mergeRuns_yields ε Item length compare width 0 items
          scratch positive sameLength (Nat.zero_le _)
        rw [List.take_zero, List.nil_append, List.drop_zero] at merged
        have mergedLength : (mergePass (isOrdered compare) width
            items.toList).length = length.toNat := by
          rw [length_mergePass, itemsLength]
        obtain ⟨copied, copies, isCopied⟩ :=
          @copyBack_yields ε Item _ _ 0 items mergedLength
        rw [List.take_zero, List.nil_append, List.drop_zero] at isCopied
        have doubled : mulUsize width 2 = min (2 * width) usizeMax := by
          rw [mulUsize, Nat.mul_comm]
        have bound := length.toNat_lt
        have isMax : usizeMax = 2 ^ 64 - 1 := rfl
        obtain ⟨sorted, yields, isSorted⟩ :=
          @induction (mulUsize width 2) copied _ (by omega) mergedLength
            (by omega)
        refine ⟨sorted, ?_, ?_⟩
        · rw [passes, if_pos more]
          exact merged.bind (copies.bind yields)
        · rw [isSorted, isCopied]
          conv_rhs => rw [sortFrom, if_pos ⟨positive, by omega⟩]
          rcases Nat.le_total (2 * width) usizeMax with small | large
          · rw [doubled, Nat.min_eq_left small]
          · -- past the largest index, one run is left
            rw [doubled, Nat.min_eq_right large, sortFrom_of_le (by omega),
              sortFrom_of_le (by omega)]
      · refine ⟨items, ?_, (sortFrom_of_le (by omega)).symm⟩
        rw [passes, if_neg more]
        exact Yields.ret _

/-- The slice ends up as the list that the merge sort makes of it. -/
theorem trySortByCheckpoint_yields :
    ∃ sorted, Yields (trySortByCheckpoint compare items : Checked ε _) sorted ∧
      sorted.toList = sort (isOrdered compare) items.toList := by
  have itemsLength : items.toList.length = length.toNat := Vector.length_toList
  by_cases short : length.toNat < 2
  · refine ⟨items, ?_, (sortFrom_of_le (by omega)).symm⟩
    rw [trySortByCheckpoint, if_pos short]
    exact Yields.check (Yields.ret _)
  · have filled := @fillScratch_yields ε Item items.toList []
    rw [List.nil_append] at filled
    obtain ⟨sorted, yields, isSorted⟩ :=
      @passes_yields ε Item length compare 1 items items.toList Nat.one_pos
        itemsLength
    refine ⟨sorted, ?_, isSorted⟩
    rw [trySortByCheckpoint, if_neg short]
    exact Yields.check (filled.bind yields)

/-- By a comparison of keys, the slice is sorted by its keys. -/
theorem trySortByCheckpoint_sortByKey
    {Key : Type}
    [LinearOrder Key]
    (key : Item → Key)
    (items : Vector Item length.toNat) :
    ∃ sorted,
      Yields (trySortByCheckpoint (compareOn key) items : Checked ε _) sorted ∧
        sorted.toList = sortByKey key items.toList := by
  have sameOrder : isOrdered (compareOn key) =
      fun left right => decide (key left ≤ key right) := by
    funext left right
    rw [Bool.eq_iff_iff, decide_eq_true_iff, isOrdered,
      Ordering.isLE_iff_ne_gt, compareOn, compare_gt_iff_gt, not_lt]
  rw [sortByKey, ← sameOrder]
  exact trySortByCheckpoint_yields

end Passes

/-! ## Stable sorting -/

section Stable

variable
  {compare : Item → Item → Ordering}
  [Std.TransCmp compare]

theorem isOrdered_trans
    {first second third : Item}
    (before : isOrdered compare first second)
    (after : isOrdered compare second third) :
    isOrdered compare first third :=
  Std.TransCmp.isLE_trans before after

theorem isOrdered_total (first second : Item) :
    isOrdered compare first second || isOrdered compare second first := by
  unfold isOrdered
  rw [@Std.OrientedCmp.eq_swap _ compare _ second first]
  cases compare first second <;> rfl

theorem isOrdered_of_eq
    {item first second : Item}
    (isFirst : compare item first = .eq)
    (isSecond : compare item second = .eq) :
    isOrdered compare first second := by
  have swapped : compare first item = .eq := by
    rw [@Std.OrientedCmp.eq_swap _ compare _ first item, isFirst]
    rfl
  exact Std.TransCmp.isLE_trans (by rw [swapped]; rfl) (by rw [isSecond]; rfl)

/-- The sort asks its checkpoint a number of times.  If all of these pass, the
slice ends up sorted, with the items it had, equal ones in the order they had.
The first of them that fails ends the sort with its error. -/
theorem sorts_stably
    {length : UInt64}
    (items : Vector Item length.toNat) :
    ∃ (sorted : Vector Item length.toNat) (calls : Nat),
      (sorted.toList.Pairwise fun left right => compare left right ≠ .gt) ∧
      sorted.toList.Perm items.toList ∧
      (∀ item, sorted.toList.filter (fun other => compare item other == .eq) =
        items.toList.filter fun other => compare item other == .eq) ∧
      (∀ answers : Nat → Except ε Unit,
        (∀ call < calls, answers call = .ok ()) →
        trySortByCheckpoint compare items answers 0 = .ok (sorted, calls)) ∧
      ∀ answers : Nat → Except ε Unit, ∀ call < calls, ∀ error,
        (∀ earlier < call, answers earlier = .ok ()) →
        answers call = .error error →
        trySortByCheckpoint compare items answers 0 =
          .error (.failed error) := by
  obtain ⟨sorted, ⟨calls, takes⟩, isSorted⟩ :=
    @trySortByCheckpoint_yields ε Item length compare items
  have inOrder := @sort_pairwise _ (isOrdered compare)
    (fun _ _ _ => isOrdered_trans) isOrdered_total items.toList
  refine ⟨sorted, calls, ?_, ?_, ?_, ?_, ?_⟩
  · rw [isSorted]
    exact inOrder.imp Ordering.ne_gt_iff_isLE.mpr
  · rw [isSorted]
    exact sort_perm _ _
  · intro item
    rw [isSorted]
    refine filter_sort (fun _ _ _ => isOrdered_trans) isOrdered_total ?_ _
    intro first second isFirst isSecond
    exact isOrdered_of_eq (eq_of_beq isFirst) (eq_of_beq isSecond)
  · intro answers passes
    have finished := takes.finishes answers 0 fun call early => by
      rw [Nat.zero_add]
      exact passes call early
    rwa [Nat.zero_add] at finished
  · intro answers call early error passed failed
    refine takes.stops answers 0 call early error ?_ ?_
    · intro earlier before
      rw [Nat.zero_add]
      exact passed earlier before
    · rwa [Nat.zero_add]

/-- Five pairs sorted by their first numbers. -/
theorem sorts_stably_five :
    let byFirst : Nat × Nat → Nat × Nat → Ordering := compareOn Prod.fst
    let items : Vector (Nat × Nat) (5 : UInt64).toNat :=
      #v[(2, 0), (1, 1), (2, 2), (1, 3), (0, 4)]
    ∃ (sorted : Vector (Nat × Nat) (5 : UInt64).toNat) (calls : Nat),
      sorted.toList.Perm items.toList ∧
      ∀ answers : Nat → Except Unit Unit,
        (∀ call < calls, answers call = .ok ()) →
        trySortByCheckpoint byFirst items answers 0 = .ok (sorted, calls) := by
  obtain ⟨sorted, calls, _, isPerm, _, finishes, _⟩ :=
    @sorts_stably Unit (Nat × Nat) (compareOn Prod.fst) inferInstance 5
      #v[(2, 0), (1, 1), (2, 2), (1, 3), (0, 4)]
  exact ⟨sorted, calls, isPerm, finishes⟩

end Stable

end Pithos.Sorting
