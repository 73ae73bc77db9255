import Mathlib.Logic.Relation
import Mathlib.Tactic.Common

/-!
# Runs and simulations

A run is a sequence of states in which every state steps to the next one.  A
simulation lifts from steps to runs: what one system does step by step another
does too, in states that are related all along.
-/

namespace Simulation

variable {State Abstract : Type}

/-- A sequence of steps from a given state. -/
structure IsRun
    (step : State → State → Prop)
    (start : State)
    (run : Nat → State) : Prop where
  start : run 0 = start
  step : ∀ time, step (run time) (run (time + 1))

/-- Every state of a run is reachable. -/
theorem IsRun.reachable
    {step : State → State → Prop}
    {start : State}
    {run : Nat → State}
    (isRun : IsRun step start run)
    (time : Nat) :
    Relation.ReflTransGen step start (run time) := by
  induction time with
  | zero => rw [isRun.start]
  | succ time inductionHypothesis =>
      exact inductionHypothesis.tail (isRun.step time)

/-- What holds at the start and is kept by every step holds all along. -/
theorem IsRun.invariant
    {step : State → State → Prop}
    {start : State}
    {run : Nat → State}
    (isRun : IsRun step start run)
    {Invariant : State → Prop}
    (initially : Invariant start)
    (kept : ∀ before after, Invariant before → step before after →
      Invariant after)
    (time : Nat) :
    Invariant (run time) := by
  induction time with
  | zero => rw [isRun.start]; exact initially
  | succ time inductionHypothesis =>
      exact kept _ _ inductionHypothesis (isRun.step time)

/-- A relation that the steps of one system carry along steps of another. -/
structure Simulates
    (step : State → State → Prop)
    (start : State)
    (abstractStep : Abstract → Abstract → Prop)
    (abstractStart : Abstract)
    (related : State → Abstract → Prop) : Prop where
  start : related start abstractStart
  step : ∀ {before after abstract}, related before abstract →
    step before after →
    ∃ next, related after next ∧ abstractStep abstract next

/-- Every run of the first system goes along a run of the second. -/
theorem Simulates.exists_run
    {step : State → State → Prop}
    {start : State}
    {abstractStep : Abstract → Abstract → Prop}
    {abstractStart : Abstract}
    {related : State → Abstract → Prop}
    (simulates : Simulates step start abstractStep abstractStart related)
    {run : Nat → State}
    (isRun : IsRun step start run) :
    ∃ abstractRun, IsRun abstractStep abstractStart abstractRun ∧
      ∀ time, related (run time) (abstractRun time) := by
  classical
  have advance (time : Nat) (abstract : Abstract) :
      ∃ next, related (run time) abstract →
        related (run (time + 1)) next ∧ abstractStep abstract next := by
    by_cases isRelated : related (run time) abstract
    · obtain ⟨next, nextRelated, stepped⟩ :=
        simulates.step isRelated (isRun.step time)
      exact ⟨next, fun _ => ⟨nextRelated, stepped⟩⟩
    · exact ⟨abstract, fun assumed => absurd assumed isRelated⟩
  choose next isNext using advance
  let abstractRun : Nat → Abstract :=
    fun time => Nat.rec abstractStart next time
  have relatedAll (time : Nat) : related (run time) (abstractRun time) := by
    induction time with
    | zero => rw [isRun.start]; exact simulates.start
    | succ time inductionHypothesis =>
        exact (isNext time _ inductionHypothesis).1
  exact ⟨abstractRun, ⟨rfl, fun time => (isNext time _ (relatedAll time)).2⟩,
    relatedAll⟩

end Simulation
