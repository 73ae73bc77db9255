import Mathlib.Data.List.Basic
import Mathlib.Tactic.Common

/-!
# Actions on a state that outlives failures

An action changes a state and may fail; what it changed before it failed stays
changed.  A triple says what an action does from states with a precondition,
with one postcondition for success and one for failure.  The rules cover
sequencing, lifted results and loops over a list.  A relation between the state
before and the state after, kept by all parts of an action, is kept by the whole.
-/

/-- A computation on a state that may fail and keeps its changes. -/
def StateAction (State Failure Value : Type) : Type :=
  State → Except Failure Value × State

namespace StateAction

variable {State Failure Value Next Item : Type}

instance : Monad (StateAction State Failure) where
  pure value := fun state => (.ok value, state)
  bind action next := fun state =>
    match action state with
    | (.ok value, after) => next value after
    | (.error failure, after) => (.error failure, after)

/-- Fail without changing the state. -/
def fail (failure : Failure) : StateAction State Failure Value :=
  fun state => (.error failure, state)

/-- A result that does not depend on the state. -/
def lift (result : Except Failure Value) : StateAction State Failure Value :=
  fun state => (result, state)

/-- A result that depends on the state and does not change it. -/
def inspect (read : State → Except Failure Value) :
    StateAction State Failure Value :=
  fun state => (read state, state)

/-- A change of the state that is made whole or not at all. -/
def attempt (change : State → Except Failure (Value × State)) :
    StateAction State Failure Value :=
  fun state =>
    match change state with
    | .ok (value, after) => (.ok value, after)
    | .error failure => (.error failure, state)

/-- Rename the failures of an action. -/
def mapError
    {Other : Type}
    (rename : Failure → Other)
    (action : StateAction State Failure Value) : StateAction State Other Value :=
  fun state =>
    match action state with
    | (.ok value, after) => (.ok value, after)
    | (.error failure, after) => (.error (rename failure), after)

/-- Run an action and then, whatever its outcome, a cleanup whose own outcome is
ignored. -/
def cleanupAfter
    (action : StateAction State Failure Value)
    (cleanup : StateAction State Failure Unit) : StateAction State Failure Value :=
  fun state => ((action state).1, (cleanup (action state).2).2)

theorem bind_of_ok
    {action : StateAction State Failure Value}
    {next : Value → StateAction State Failure Next}
    {state after : State}
    {value : Value}
    (ran : action state = (.ok value, after)) :
    (action >>= next) state = next value after := by
  change (match action state with
    | (.ok value, after) => next value after
    | (.error failure, after) => (.error failure, after)) = _
  rw [ran]

theorem bind_of_error
    {action : StateAction State Failure Value}
    {next : Value → StateAction State Failure Next}
    {state after : State}
    {failure : Failure}
    (ran : action state = (.error failure, after)) :
    (action >>= next) state = (.error failure, after) := by
  change (match action state with
    | (.ok value, after) => next value after
    | (.error failure, after) => (.error failure, after)) = _
  rw [ran]

/-- A sequence succeeds when both its parts do. -/
theorem bind_eq_ok
    {action : StateAction State Failure Value}
    {next : Value → StateAction State Failure Next}
    {state final : State}
    {result : Next} :
    (action >>= next) state = (.ok result, final) ↔
      ∃ value after, action state = (.ok value, after) ∧
        next value after = (.ok result, final) := by
  match ran : action state with
  | (.ok value, after) =>
      rw [bind_of_ok ran]
      constructor
      · intro rest
        exact ⟨value, after, rfl, rest⟩
      · rintro ⟨_, _, same, rest⟩
        cases same
        exact rest
  | (.error failure, after) =>
      rw [bind_of_error ran]
      constructor
      · intro failed
        cases failed
      · rintro ⟨_, _, same, _⟩
        cases same

theorem bind_assoc
    {Last : Type}
    (action : StateAction State Failure Value)
    (next : Value → StateAction State Failure Next)
    (last : Next → StateAction State Failure Last) :
    (action >>= next >>= last) = (action >>= fun value => next value >>= last) := by
  funext state
  match ran : action state with
  | (.ok value, after) =>
      rw [bind_of_ok ran]
      match rest : next value after with
      | (.ok result, final) =>
          rw [bind_of_ok rest, bind_of_ok (by rw [bind_of_ok ran, rest])]
      | (.error failure, final) =>
          rw [bind_of_error rest, bind_of_error (by rw [bind_of_ok ran, rest])]
  | (.error failure, after) =>
      rw [bind_of_error ran, bind_of_error (bind_of_error ran)]

theorem lift_eq_ok
    {result : Except Failure Value}
    {state final : State}
    {value : Value} :
    lift result state = (.ok value, final) ↔
      result = .ok value ∧ final = state := by
  unfold lift
  rw [Prod.mk.injEq, eq_comm (a := state)]

theorem mapError_eq_ok
    {Other : Type}
    {rename : Failure → Other}
    {action : StateAction State Failure Value}
    {state final : State}
    {value : Value} :
    mapError rename action state = (.ok value, final) ↔
      action state = (.ok value, final) := by
  unfold mapError
  match action state with
  | (.ok other, after) => simp
  | (.error failure, after) => simp

/-- Renaming failures does not change the state. -/
theorem mapError_snd
    {Other : Type}
    (rename : Failure → Other)
    (action : StateAction State Failure Value)
    (state : State) :
    (mapError rename action state).2 = (action state).2 := by
  unfold mapError
  match action state with
  | (.ok value, after) => rfl
  | (.error failure, after) => rfl

theorem attempt_of_ok
    {change : State → Except Failure (Value × State)}
    {state after : State}
    {value : Value}
    (changed : change state = .ok (value, after)) :
    attempt change state = (.ok value, after) := by
  simp only [attempt, changed]

theorem attempt_of_error
    {change : State → Except Failure (Value × State)}
    {state : State}
    {failure : Failure}
    (failed : change state = .error failure) :
    attempt change state = (.error failure, state) := by
  simp only [attempt, failed]

theorem attempt_eq_ok
    {change : State → Except Failure (Value × State)}
    {state after : State}
    {value : Value} :
    attempt change state = (.ok value, after) ↔
      change state = .ok (value, after) := by
  unfold attempt
  cases change state with
  | ok changed => simp [Prod.ext_iff]
  | error failure => simp

/-- A change that fails changes nothing. -/
theorem eq_of_attempt_eq_error
    {change : State → Except Failure (Value × State)}
    {state after : State}
    {failure : Failure}
    (failed : attempt change state = (.error failure, after)) :
    after = state := by
  unfold attempt at failed
  cases changed : change state with
  | ok result =>
      rw [changed] at failed
      cases failed
  | error other =>
      rw [changed] at failed
      exact (Prod.mk.inj failed).2.symm

/-- Run a body on every item in order. -/
def forEach (body : Item → StateAction State Failure Unit) :
    List Item → StateAction State Failure Unit
  | [] => pure ()
  | item :: items => do
      body item
      forEach body items

theorem forEach_append
    (body : Item → StateAction State Failure Unit)
    (first second : List Item) :
    forEach body (first ++ second) =
      (forEach body first >>= fun _ => forEach body second) := by
  induction first with
  | nil => rfl
  | cons item items inductionHypothesis =>
      funext state
      simp only [List.cons_append, forEach]
      match ran : body item state with
      | (.ok value, after) =>
          rw [bind_of_ok ran, inductionHypothesis]
          match rest : forEach body items after with
          | (.ok value, final) =>
              have both : (body item >>= fun _ => forEach body items) state =
                  (.ok value, final) := by rw [bind_of_ok ran, rest]
              rw [bind_of_ok rest, bind_of_ok both]
          | (.error failure, final) =>
              have both : (body item >>= fun _ => forEach body items) state =
                  (.error failure, final) := by rw [bind_of_ok ran, rest]
              rw [bind_of_error rest, bind_of_error both]
      | (.error failure, after) =>
          have both : (body item >>= fun _ => forEach body items) state =
              (.error failure, after) := bind_of_error ran
          rw [bind_of_error ran, bind_of_error both]

@[simp] theorem lift_ok_bind
    (value : Value)
    (next : Value → StateAction State Failure Next) :
    (lift (.ok value) >>= next) = next value := rfl

/-- From states with the precondition, the action ends with one of the two
postconditions. -/
def Triple
    (before : State → Prop)
    (action : StateAction State Failure Value)
    (success : Value → State → Prop)
    (failed : Failure → State → Prop) : Prop :=
  ∀ state, before state →
    match action state with
    | (.ok value, after) => success value after
    | (.error failure, after) => failed failure after

section Rules

variable
  {before before' : State → Prop}
  {action : StateAction State Failure Value}
  {success success' : Value → State → Prop}
  {failed failed' : Failure → State → Prop}

theorem Triple.ok
    (triple : Triple before action success failed)
    {state after : State}
    {value : Value}
    (start : before state)
    (ran : action state = (.ok value, after)) :
    success value after := by
  have result := triple state start
  rw [ran] at result
  exact result

theorem Triple.consequence
    (triple : Triple before action success failed)
    (strengthen : ∀ state, before' state → before state)
    (weaken : ∀ value state, success value state → success' value state)
    (weakenFailed : ∀ failure state,
      failed failure state → failed' failure state) :
    Triple before' action success' failed' := by
  intro state start
  have result := triple state (strengthen state start)
  match ran : action state with
  | (.ok value, after) =>
      rw [ran] at result
      exact weaken value after result
  | (.error failure, after) =>
      rw [ran] at result
      exact weakenFailed failure after result

/-- A stronger precondition. -/
theorem Triple.from
    (triple : Triple before action success failed)
    (strengthen : ∀ state, before' state → before state) :
    Triple before' action success failed :=
  triple.consequence strengthen (fun _ _ => id) (fun _ _ => id)

theorem Triple.pure
    {value : Value}
    (holds : ∀ state, before state → success value state) :
    Triple before (Pure.pure value : StateAction State Failure Value) success
      failed :=
  fun state start => holds state start

theorem Triple.bind
    {next : Value → StateAction State Failure Next}
    {middle : Value → State → Prop}
    {success : Next → State → Prop}
    (first : Triple before action middle failed)
    (rest : ∀ value, Triple (middle value) (next value) success failed) :
    Triple before (action >>= next) success failed := by
  intro state start
  have result := first state start
  match ran : action state with
  | (.ok value, after) =>
      rw [ran] at result
      rw [bind_of_ok ran]
      exact rest value after result
  | (.error failure, after) =>
      rw [ran] at result
      rw [bind_of_error ran]
      exact result

/-- A lifted result is known before the action runs. -/
theorem Triple.lift
    {result : Except Failure Value}
    (holds : ∀ value, result = .ok value → ∀ state, before state →
      success value state)
    (fails : ∀ failure, result = .error failure → ∀ state, before state →
      failed failure state) :
    Triple before (StateAction.lift result) success failed := by
  intro state start
  cases result with
  | ok value => exact holds value rfl state start
  | error failure => exact fails failure rfl state start

/-- A lifted result is known to the actions after it. -/
theorem Triple.lift_bind
    {result : Except Failure Value}
    {next : Value → StateAction State Failure Next}
    {success : Next → State → Prop}
    (rest : ∀ value, result = .ok value →
      Triple before (next value) success failed)
    (fails : ∀ failure, result = .error failure → ∀ state, before state →
      failed failure state) :
    Triple before (StateAction.lift result >>= next) success failed := by
  intro state start
  cases result with
  | ok value => exact rest value rfl state start
  | error failure => exact fails failure rfl state start

/-- What holds after an action whatever its outcome. -/
theorem Triple.after
    {middle : State → Prop}
    (triple : Triple before action (fun _ => middle) (fun _ => middle))
    {state : State}
    (start : before state) :
    middle (action state).2 := by
  have result := triple state start
  match ran : action state with
  | (.ok value, after) =>
      rw [ran] at result
      exact result
  | (.error failure, after) =>
      rw [ran] at result
      exact result

/-- A cleanup that keeps what holds after the action. -/
theorem Triple.cleanupAfter
    {cleanup : StateAction State Failure Unit}
    {middle : State → Prop}
    (main : Triple before action (fun _ => middle) (fun _ => middle))
    (keeps : Triple middle cleanup (fun _ => middle) (fun _ => middle)) :
    Triple before (StateAction.cleanupAfter action cleanup) (fun _ => middle)
      (fun _ => middle) := by
  intro state start
  have cleaned := keeps.after (main.after start)
  unfold StateAction.cleanupAfter
  cases (action state).1 with
  | ok value => exact cleaned
  | error failure => exact cleaned

theorem Triple.inspect
    {read : State → Except Failure Value}
    (holds : ∀ value state, before state → read state = .ok value →
      success value state)
    (fails : ∀ failure state, before state → read state = .error failure →
      failed failure state) :
    Triple before (StateAction.inspect read) success failed := by
  intro state start
  change match (read state, state) with
    | (.ok value, after) => success value after
    | (.error failure, after) => failed failure after
  cases result : read state with
  | ok value => exact holds value state start result
  | error failure => exact fails failure state start result

theorem Triple.attempt
    {change : State → Except Failure (Value × State)}
    (holds : ∀ value state after, before state →
      change state = .ok (value, after) → success value after)
    (fails : ∀ failure state, before state →
      change state = .error failure → failed failure state) :
    Triple before (StateAction.attempt change) success failed := by
  intro state start
  unfold StateAction.attempt
  cases result : change state with
  | ok changed => exact holds changed.1 state changed.2 start result
  | error failure => exact fails failure state start result

theorem Triple.mapError
    {Other : Type}
    {rename : Failure → Other}
    {failed : Other → State → Prop}
    (triple : Triple before action success fun failure =>
      failed (rename failure)) :
    Triple before (StateAction.mapError rename action) success failed := by
  intro state start
  have result := triple state start
  unfold StateAction.mapError
  match ran : action state with
  | (.ok value, after) =>
      rw [ran] at result
      exact result
  | (.error failure, after) =>
      rw [ran] at result
      exact result

/-- A loop keeps an invariant that sees the items already processed. -/
theorem Triple.forEach
    {body : Item → StateAction State Failure Unit}
    {items : List Item}
    (invariant : List Item → State → Prop)
    (step : ∀ done item rest, items = done ++ item :: rest →
      Triple (invariant done) (body item)
        (fun _ => invariant (done ++ [item])) failed) :
    Triple (invariant []) (StateAction.forEach body items)
      (fun _ => invariant items) failed := by
  have run (done rest : List Item) (split : items = done ++ rest) :
      Triple (invariant done) (StateAction.forEach body rest)
        (fun _ => invariant items) failed := by
    induction rest generalizing done with
    | nil =>
        refine Triple.pure fun state holds => ?_
        rwa [split, List.append_nil]
    | cons item rest inductionHypothesis =>
        refine Triple.bind (step done item rest split) fun _ => ?_
        exact inductionHypothesis (done ++ [item]) (by simp [split])
  exact run [] items rfl

end Rules

/-! ## Actions that respect a relation -/

section Relations

variable {related : State → State → Prop}

/-- An action ends in a state that is related to the one before it, also when it
fails. -/
def Respects
    (related : State → State → Prop)
    (action : StateAction State Failure Value) : Prop :=
  ∀ state, related state (action state).2

theorem respects_pure
    [Std.Refl related]
    (value : Value) :
    Respects related (pure value : StateAction State Failure Value) :=
  fun state => Std.Refl.refl state

theorem respects_fail
    [Std.Refl related]
    (failure : Failure) :
    Respects related (fail failure : StateAction State Failure Value) :=
  fun state => Std.Refl.refl state

theorem respects_lift
    [Std.Refl related]
    (result : Except Failure Value) :
    Respects related (lift result : StateAction State Failure Value) :=
  fun state => Std.Refl.refl state

theorem respects_inspect
    [Std.Refl related]
    (read : State → Except Failure Value) :
    Respects related (inspect read) :=
  fun state => Std.Refl.refl state

theorem respects_attempt
    [Std.Refl related]
    {change : State → Except Failure (Value × State)}
    (changes : ∀ state value after, change state = .ok (value, after) →
      related state after) :
    Respects related (attempt change) := by
  intro state
  unfold attempt
  cases changed : change state with
  | ok result => exact changes state result.1 result.2 changed
  | error failure => exact Std.Refl.refl state

theorem Respects.bind
    [IsTrans State related]
    {action : StateAction State Failure Value}
    {next : Value → StateAction State Failure Next}
    (first : Respects related action)
    (rest : ∀ value, Respects related (next value)) :
    Respects related (action >>= next) := by
  intro state
  have before := first state
  match ran : action state with
  | (.ok value, after) =>
      rw [ran] at before
      rw [bind_of_ok ran]
      exact IsTrans.trans _ _ _ before (rest value after)
  | (.error failure, after) =>
      rw [ran] at before
      rw [bind_of_error ran]
      exact before

theorem Respects.mapError
    {Other : Type}
    {rename : Failure → Other}
    {action : StateAction State Failure Value}
    (respects : Respects related action) :
    Respects related (StateAction.mapError rename action) := by
  intro state
  have before := respects state
  unfold StateAction.mapError
  match ran : action state with
  | (.ok value, after) =>
      rw [ran] at before
      exact before
  | (.error failure, after) =>
      rw [ran] at before
      exact before

/-- An action that respects a relation keeps what the relation keeps. -/
theorem Respects.triple
    {before : State → Prop}
    {action : StateAction State Failure Value}
    (respects : Respects related action)
    (keeps : ∀ state after, related state after → before state →
      before after) :
    Triple before action (fun _ => before) (fun _ => before) := by
  intro state start
  have after := keeps state _ (respects state) start
  match ran : action state with
  | (.ok value, final) =>
      rw [ran] at after
      exact after
  | (.error failure, final) =>
      rw [ran] at after
      exact after

end Relations

end StateAction
