import Mathlib.Data.List.Sort

/-!
# Intervals of positions

Half-open intervals, given by their two ends, that are pairwise apart.
Comparing the neighbours of a chain of intervals is enough to know that all of
them are apart.
-/

namespace Intervals

/-- Two half-open intervals without a common position, one before the other. -/
def Apart (left right : Nat × Nat) : Prop :=
  left.2 ≤ right.1 ∨ right.2 ≤ left.1

theorem Apart.symm
    {left right : Nat × Nat}
    (apart : Apart left right) :
    Apart right left := Or.symm apart

/-- Intervals whose neighbours follow each other are pairwise apart. -/
theorem pairwise_of_isChain
    {intervals : List (Nat × Nat)}
    (ordered : ∀ interval ∈ intervals, interval.1 ≤ interval.2)
    (chain : intervals.IsChain fun left right => left.2 ≤ right.1) :
    intervals.Pairwise fun left right => left.2 ≤ right.1 := by
  induction intervals with
  | nil => exact List.Pairwise.nil
  | cons first rest inductionHypothesis =>
      have restApart := inductionHypothesis
        (fun interval member => ordered interval (by simp [member])) chain.of_cons
      refine List.Pairwise.cons ?_ restApart
      intro later member
      cases rest with
      | nil => simp at member
      | cons second rest =>
          have neighbours : first.2 ≤ second.1 := by
            simpa using (List.isChain_cons_cons.mp chain).1
          rcases List.mem_cons.mp member with rfl | inRest
          · exact neighbours
          · have afterSecond : second.2 ≤ later.1 :=
              (List.pairwise_cons.mp restApart).1 later inRest
            have secondOrdered := ordered second (by simp)
            omega

/-- Sorting the intervals and comparing neighbours shows that the intervals are
pairwise apart in the given order too. -/
theorem pairwise_apart_of_sorted
    {intervals sorted : List (Nat × Nat)}
    (permuted : sorted.Perm intervals)
    (ordered : ∀ interval ∈ intervals, interval.1 ≤ interval.2)
    (chain : sorted.IsChain fun left right => left.2 ≤ right.1) :
    intervals.Pairwise Apart := by
  have sortedOrdered : ∀ interval ∈ sorted, interval.1 ≤ interval.2 :=
    fun interval member => ordered interval (permuted.mem_iff.mp member)
  have sortedApart : sorted.Pairwise Apart :=
    (pairwise_of_isChain sortedOrdered chain).imp fun before => Or.inl before
  exact (permuted.pairwise_iff Apart.symm).mp sortedApart

end Intervals
