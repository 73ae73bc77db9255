import Mathlib.Data.Fintype.Card
import Mathlib.Data.Set.Finite.List
import Mathlib.Tactic.Common

/-!
# Things that need other things

An order of things in which each comes after those it needs.  Whatever has been
finished, as long as something in the order has not been, something that has not
been finished needs only what has.  An order excludes cycles, and where each of
finitely many things needs another one there is a cycle.
-/

namespace Dependencies

variable {α : Type}

/-- A list, the last first, in which each comes after those it needs. -/
inductive Ordered (Needs : α → α → Prop) : List α → Prop
  | nil : Ordered Needs []
  | cons {done : List α} {last : α}
      (ordered : Ordered Needs done)
      (ready : ∀ other, Needs last other → other ∈ done) :
      Ordered Needs (last :: done)

/-- What is in the order needs only what is in the order. -/
theorem Ordered.closed
    {Needs : α → α → Prop}
    {done : List α}
    (ordered : Ordered Needs done)
    {one other : α}
    (member : one ∈ done)
    (needs : Needs one other) :
    other ∈ done := by
  induction ordered with
  | nil => cases member
  | @cons done last _ ready inductionHypothesis =>
      rcases List.mem_cons.mp member with rfl | member
      · exact List.mem_cons_of_mem _ (ready other needs)
      · exact List.mem_cons_of_mem _ (inductionHypothesis member)

/-- The first thing in the order that is not finished needs only finished
things. -/
theorem Ordered.exists_ready
    {Needs : α → α → Prop}
    {done : List α}
    (ordered : Ordered Needs done)
    {Finished : α → Prop}
    {one : α}
    (member : one ∈ done)
    (unfinished : ¬Finished one) :
    ∃ next ∈ done, ¬Finished next ∧ ∀ other, Needs next other →
      Finished other := by
  induction ordered generalizing one with
  | nil => cases member
  | @cons done last _ ready inductionHypothesis =>
      by_cases earlier : ∃ other ∈ done, ¬Finished other
      · obtain ⟨other, isEarlier, isOpen⟩ := earlier
        obtain ⟨next, isNext, rest⟩ := inductionHypothesis isEarlier isOpen
        exact ⟨next, List.mem_cons_of_mem _ isNext, rest⟩
      · have finished (other : α) (isEarlier : other ∈ done) :
            Finished other :=
          not_not.mp fun isOpen => earlier ⟨other, isEarlier, isOpen⟩
        rcases List.mem_cons.mp member with rfl | member
        · exact ⟨_, List.mem_cons_self, unfinished, fun other needs =>
            finished other (ready other needs)⟩
        · exact absurd (finished one member) unfinished

/-- Whatever is in the order is not part of a cycle. -/
theorem Ordered.acyclic
    {Needs : α → α → Prop}
    {done : List α}
    (ordered : Ordered Needs done)
    {one : α}
    (member : one ∈ done) :
    ¬Relation.TransGen Needs one one := by
  have accessible : Acc (fun other one => Needs one other) one := by
    induction ordered generalizing one with
    | nil => cases member
    | @cons done last _ ready inductionHypothesis =>
        rcases List.mem_cons.mp member with rfl | member
        · exact .intro _ fun other needs =>
            inductionHypothesis (ready other needs)
        · exact inductionHypothesis member
  have reached := accessible.transGen
  clear accessible member
  intro cycle
  induction reached with
  | intro one _ inductionHypothesis =>
      exact inductionHypothesis one (Relation.transGen_swap.mpr cycle) cycle

/-- Where each of finitely many things needs another one of them, some need
themselves in the end. -/
theorem exists_cycle
    {Needs : α → α → Prop}
    {things : List α}
    (nonempty : things ≠ [])
    (each : ∀ one ∈ things, ∃ other ∈ things, Needs one other) :
    ∃ one, Relation.TransGen Needs one one := by
  by_contra acyclic
  have finite : Finite {one // one ∈ things} := things.finite_toSet
  let Before (one other : {one // one ∈ things}) : Prop :=
    Relation.TransGen Needs other.val one.val
  have trans : IsTrans _ Before :=
    ⟨fun _ _ _ first second => second.trans first⟩
  have irrefl : Std.Irrefl Before := ⟨fun one cycle => acyclic ⟨_, cycle⟩⟩
  have wellFounded := Finite.wellFounded_of_trans_of_irrefl Before
  obtain ⟨first, member⟩ := List.exists_mem_of_ne_nil things nonempty
  obtain ⟨least, _, none⟩ := wellFounded.has_min Set.univ
    ⟨⟨first, member⟩, trivial⟩
  obtain ⟨other, isOther, needs⟩ := each least.val least.property
  exact none ⟨other, isOther⟩ trivial (.single needs)

end Dependencies
