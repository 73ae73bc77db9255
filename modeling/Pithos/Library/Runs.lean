import Mathlib.Algebra.BigOperators.Group.List.Basic
import Mathlib.Algebra.Order.Monoid.Canonical.Defs
import Mathlib.Algebra.Order.BigOperators.Group.List
import Mathlib.Data.List.Chain
import Mathlib.Data.List.Infix
import Mathlib.Tactic.Common

/-!
# Splitting a sequence into runs

A sequence of weighted items is split into runs of neighbours.  A run of several
items has to stay within a bound; a single item may exceed it.  A split in which
no run can take the first item of the next one has the fewest runs: from the end
of each of its runs on, less is left than in any other split.
-/

namespace Runs

variable
  {Item Weight : Type*}
  [AddCommMonoid Weight]
  [LinearOrder Weight]
  [CanonicallyOrderedAdd Weight]
  {weight : Item → Weight}
  {bound : Weight}

/-- The weight of a run. -/
def total (weight : Item → Weight) (run : List Item) : Weight :=
  (run.map weight).sum

/-- A run of several items is within the bound. -/
def Within (weight : Item → Weight) (bound : Weight) (run : List Item) :
    Prop :=
  run.length ≤ 1 ∨ total weight run ≤ bound

/-- The items, in order, split into runs. -/
structure Splits
    (weight : Item → Weight)
    (bound : Weight)
    (items : List Item)
    (runs : List (List Item)) : Prop where
  flatten : runs.flatten = items
  nonempty : ∀ run ∈ runs, run ≠ []
  within : ∀ run ∈ runs, Within weight bound run

/-- No run can take the first item of the next one. -/
def Tight
    (weight : Item → Weight)
    (bound : Weight)
    (runs : List (List Item)) : Prop :=
  runs.IsChain fun left right =>
    ∀ first ∈ right.head?, bound < total weight left + weight first

omit [LinearOrder Weight] [CanonicallyOrderedAdd Weight] in
@[simp] theorem total_append (first second : List Item) :
    total weight (first ++ second) =
      total weight first + total weight second := by
  simp [total]

omit [LinearOrder Weight] [CanonicallyOrderedAdd Weight] in
@[simp] theorem total_singleton (item : Item) :
    total weight [item] = weight item := by
  simp [total]

/-- A run that holds several items that are too heavy together is not within the
bound. -/
theorem not_within_of_infix
    {before run after : List Item}
    {first : Item}
    (nonempty : run ≠ [])
    (heavy : bound < total weight run + weight first) :
    ¬Within weight bound (before ++ run ++ [first] ++ after) := by
  rintro (short | light)
  · have := List.length_pos_iff.mpr nonempty
    simp only [List.length_append, List.length_singleton] at short
    omega
  · refine absurd light (not_le_of_gt (heavy.trans_le ?_))
    simp only [total_append, total_singleton]
    calc total weight run + weight first
        ≤ total weight before + (total weight run + weight first) :=
          le_add_self
      _ = total weight before + total weight run + weight first :=
          (add_assoc _ _ _).symm
      _ ≤ total weight before + total weight run + weight first +
          total weight after := le_self_add

/-- A tight split of the rest of a sequence has no more runs than any split of
the sequence. -/
theorem Tight.length_le
    {runs other : List (List Item)}
    (tight : Tight weight bound runs)
    (nonempty : ∀ run ∈ runs, run ≠ [])
    (within : ∀ run ∈ other, Within weight bound run)
    (rest : runs.flatten <:+ other.flatten) :
    runs.length ≤ other.length := by
  induction runs generalizing other with
  | nil => exact Nat.zero_le _
  | cons run runs inductionHypothesis =>
      have runNonempty := nonempty run List.mem_cons_self
      cases other with
      | nil =>
          have empty := List.suffix_nil.mp rest
          exact absurd (List.append_eq_nil_iff.mp empty).1 runNonempty
      | cons first other =>
          rw [List.length_cons, List.length_cons]
          refine Nat.succ_le_succ (inductionHypothesis tight.of_cons
            (fun run member => nonempty run (List.mem_cons_of_mem _ member))
            (fun run member => within run (List.mem_cons_of_mem _ member)) ?_)
          have left : runs.flatten <:+ first ++ other.flatten :=
            (List.suffix_append run runs.flatten).trans rest
          refine List.suffix_of_suffix_length_le left
            (List.suffix_append first other.flatten) ?_
          -- Otherwise the first run of the other split holds `run` and the
          -- first item after it.
          by_contra longer
          cases runs with
          | nil => simp at longer
          | cons next runs =>
              obtain ⟨item, items, rfl⟩ := List.exists_cons_of_ne_nil
                (nonempty next (List.mem_cons_of_mem _ List.mem_cons_self))
              have heavy := (List.isChain_cons_cons.mp tight).1 item rfl
              obtain ⟨before, same⟩ := rest
              have cut : (before ++ run ++ [item]) ++ (items ++ runs.flatten) =
                  first ++ other.flatten := by simpa using same
              have isHeld : ∃ after,
                  first = before ++ run ++ [item] ++ after := by
                rcases List.append_eq_append_iff.mp cut with
                  ⟨after, isFirst, _⟩ | ⟨after, isFront, isRest⟩
                · exact ⟨after, isFirst⟩
                · have few := congrArg List.length isRest
                  rw [List.length_append] at few
                  simp only [List.flatten_cons, List.cons_append,
                    List.length_cons] at longer
                  have empty : after = [] :=
                    List.eq_nil_of_length_eq_zero (by omega)
                  exact ⟨[], by simpa [empty] using isFront.symm⟩
              obtain ⟨after, rfl⟩ := isHeld
              exact not_within_of_infix runNonempty heavy
                (within _ List.mem_cons_self)

/-! ## Packing in order -/

section Packing

omit [CanonicallyOrderedAdd Weight]

/-- Take the next item into the current run, or begin a run with it. -/
def packItem
    (weight : Item → Weight)
    (bound : Weight)
    (packed : List (List Item) × List Item)
    (item : Item) : List (List Item) × List Item :=
  if packed.2 ≠ [] ∧ bound < total weight packed.2 + weight item then
    (packed.1 ++ [packed.2], [item])
  else (packed.1, packed.2 ++ [item])

/-- The closed runs and the current one once all items are packed. -/
def packAll
    (weight : Item → Weight)
    (bound : Weight)
    (items : List Item) : List (List Item) × List Item :=
  items.foldl (packItem weight bound) ([], [])

/-- Pack the items in order. -/
def pack
    (weight : Item → Weight)
    (bound : Weight)
    (items : List Item) : List (List Item) :=
  (packAll weight bound items).1 ++
    if (packAll weight bound items).2 = [] then []
    else [(packAll weight bound items).2]

/-- Runs that hold the items in order, the last of which may still grow. -/
structure Packed
    (weight : Item → Weight)
    (bound : Weight)
    (done : List Item)
    (packed : List (List Item) × List Item) : Prop where
  splits : Splits weight bound done (packed.1 ++ [packed.2])
  tight : Tight weight bound (packed.1 ++ [packed.2])

theorem Packed.current_ne_nil
    {done : List Item}
    {packed : List (List Item) × List Item}
    (isPacked : Packed weight bound done packed) :
    packed.2 ≠ [] :=
  isPacked.splits.nonempty _ (by simp)

/-- The first run. -/
theorem packed_singleton (weight : Item → Weight) (bound : Weight)
    (item : Item) : Packed weight bound [item] ([], [item]) where
  splits := ⟨rfl, by simp, by simp [Within]⟩
  tight := List.isChain_singleton _

/-- An item that fits goes into the current run. -/
theorem Packed.extend
    {done : List Item}
    {packed : List (List Item) × List Item}
    (isPacked : Packed weight bound done packed)
    {item : Item}
    (fits : total weight packed.2 + weight item ≤ bound) :
    Packed weight bound (done ++ [item]) (packed.1, packed.2 ++ [item]) where
  splits := by
    have flatten := isPacked.splits.flatten
    refine ⟨by rw [← flatten]; simp, ?_, ?_⟩
    · intro run member
      rcases List.mem_append.mp member with old | new
      · exact isPacked.splits.nonempty run (List.mem_append_left _ old)
      · rw [List.mem_singleton.mp new]
        simp
    · intro run member
      rcases List.mem_append.mp member with old | new
      · exact isPacked.splits.within run (List.mem_append_left _ old)
      · rw [List.mem_singleton.mp new]
        refine Or.inr ?_
        rwa [total_append, total_singleton]
  tight := by
    obtain ⟨front, _, last⟩ := List.isChain_append.mp isPacked.tight
    refine List.isChain_append.mpr ⟨front, List.isChain_singleton _, ?_⟩
    intro left isLeft right isRight first isFirst
    cases isRight
    refine last left isLeft packed.2 rfl first ?_
    rwa [List.head?_append_of_ne_nil _ isPacked.current_ne_nil] at isFirst

/-- An item that does not fit begins a run. -/
theorem Packed.close
    {done : List Item}
    {packed : List (List Item) × List Item}
    (isPacked : Packed weight bound done packed)
    {item : Item}
    (heavy : bound < total weight packed.2 + weight item) :
    Packed weight bound (done ++ [item])
      (packed.1 ++ [packed.2], [item]) where
  splits := by
    have flatten := isPacked.splits.flatten
    refine ⟨by rw [← flatten]; simp, ?_, ?_⟩
    · intro run member
      rcases List.mem_append.mp member with old | new
      · exact isPacked.splits.nonempty run old
      · rw [List.mem_singleton.mp new]
        simp
    · intro run member
      rcases List.mem_append.mp member with old | new
      · exact isPacked.splits.within run old
      · rw [List.mem_singleton.mp new]
        exact Or.inl (Nat.le_refl 1)
  tight := by
    refine List.isChain_append.mpr
      ⟨isPacked.tight, List.isChain_singleton _, ?_⟩
    intro left isLeft right isRight first isFirst
    cases isRight
    cases isFirst
    rw [List.getLast?_concat, Option.mem_some_iff] at isLeft
    rwa [← isLeft]

/-- One more item is packed. -/
theorem Packed.step
    {done : List Item}
    {packed : List (List Item) × List Item}
    (isPacked : Packed weight bound done packed)
    (item : Item) :
    Packed weight bound (done ++ [item])
      (packItem weight bound packed item) := by
  rw [packItem]
  split
  · rename_i heavy
    exact isPacked.close heavy.2
  · rename_i light
    refine isPacked.extend (not_lt.mp fun heavy => light ?_)
    exact ⟨isPacked.current_ne_nil, heavy⟩

@[simp] theorem packAll_nil :
    packAll weight bound ([] : List Item) = ([], []) := rfl

theorem packAll_concat (items : List Item) (item : Item) :
    packAll weight bound (items ++ [item]) =
      packItem weight bound (packAll weight bound items) item := by
  rw [packAll, List.foldl_append]
  rfl

/-- The closed runs and the current one hold all items in order. -/
theorem flatten_packAll (items : List Item) :
    (packAll weight bound items).1.flatten ++ (packAll weight bound items).2 =
      items := by
  induction items using List.reverseRecOn with
  | nil => rfl
  | append_singleton items item inductionHypothesis =>
      conv_rhs => rw [← inductionHypothesis]
      rw [packAll_concat, packItem]
      split
      · simp
      · simp

/-- Packing items gives runs of them that are tight. -/
theorem packed_packAll
    {items : List Item}
    (nonempty : items ≠ []) :
    Packed weight bound items (packAll weight bound items) := by
  induction items using List.reverseRecOn with
  | nil => exact absurd rfl nonempty
  | append_singleton items item inductionHypothesis =>
      rw [packAll_concat]
      by_cases first : items = []
      · subst first
        exact packed_singleton weight bound item
      · exact (inductionHypothesis first).step item

theorem pack_of_ne_nil
    {items : List Item}
    (nonempty : items ≠ []) :
    pack weight bound items = (packAll weight bound items).1 ++
      [(packAll weight bound items).2] := by
  rw [pack, if_neg (packed_packAll nonempty).current_ne_nil]

theorem splits_pack (items : List Item) :
    Splits weight bound items (pack weight bound items) := by
  by_cases none : items = []
  · subst none
    exact ⟨rfl, nofun, nofun⟩
  · rw [pack_of_ne_nil none]
    exact (packed_packAll none).splits

theorem tight_pack (items : List Item) :
    Tight weight bound (pack weight bound items) := by
  by_cases none : items = []
  · subst none
    exact List.isChain_nil
  · rw [pack_of_ne_nil none]
    exact (packed_packAll none).tight

end Packing

end Runs
