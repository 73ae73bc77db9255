import Pithos.Library.Fallible

/-!
# Stateful computations that may fail

A computation of type `EStateM` has changed its state also where it fails.  Its
postcondition has two parts, one for the value and the state of a success and
one for the error and the state of a failure.  Two computations agree when they
both fail or both succeed, with values and states that are related.
-/

namespace Attempt

variable {ε σ α β : Type}

/-- What holds after a computation has run from a state. -/
def Ends
    (action : EStateM ε σ α)
    (start : σ)
    (succeeded : α → σ → Prop)
    (failed : ε → σ → Prop) : Prop :=
  match action start with
  | .ok value final => succeeded value final
  | .error failure final => failed failure final

/-- A computation that reads and changes nothing. -/
def lift (result : Except ε α) : EStateM ε σ α := fun state =>
  match result with
  | .ok value => .ok value state
  | .error failure => .error failure state

theorem lift_ok_bind (value : α) (next : α → EStateM ε σ β) :
    lift (.ok value) >>= next = next value := rfl

/-- Two checks after each other are one check. -/
theorem lift_bind_bind
    {γ : Type}
    (result : Except ε α)
    (check : α → Except ε β)
    (next : β → EStateM ε σ γ) :
    lift (result >>= check) >>= next =
      (lift result >>= fun value => lift (check value) >>= next) := by
  cases result <;> rfl

variable
  {start : σ}
  {succeeded : α → σ → Prop}
  {failed : ε → σ → Prop}

theorem Ends.mono
    {action : EStateM ε σ α}
    {weaker : α → σ → Prop}
    {weakerFailed : ε → σ → Prop}
    (ends : Ends action start succeeded failed)
    (onOk : ∀ value final, succeeded value final → weaker value final)
    (onError : ∀ failure final, failed failure final →
      weakerFailed failure final) :
    Ends action start weaker weakerFailed := by
  unfold Ends at *
  split at ends
  · exact onOk _ _ ends
  · exact onError _ _ ends

theorem Ends.bind
    {action : EStateM ε σ α}
    {next : α → EStateM ε σ β}
    {middle : α → σ → Prop}
    {finished : β → σ → Prop}
    (first : Ends action start middle failed)
    (second : ∀ value state, middle value state →
      Ends (next value) state finished failed) :
    Ends (action >>= next) start finished failed := by
  unfold Ends at first ⊢
  change match (match action start with
    | .ok value state => next value state
    | .error failure state => .error failure state :
        EStateM.Result ε σ β) with
    | .ok value final => finished value final
    | .error failure final => failed failure final
  cases ran : action start with
  | ok value state =>
      rw [ran] at first
      exact second value state first
  | error failure state =>
      rw [ran] at first
      exact first

@[simp] theorem ends_pure (value : α) :
    Ends (pure value : EStateM ε σ α) start succeeded failed ↔
      succeeded value start := Iff.rfl

@[simp] theorem ends_lift (result : Except ε α) :
    Ends (lift result) start succeeded failed ↔
      (∀ value, result = .ok value → succeeded value start) ∧
        ∀ failure, result = .error failure → failed failure start := by
  unfold Ends lift
  cases result <;> simp

/-- A check comes before the rest. -/
theorem ends_lift_bind
    {result : Except ε α}
    {next : α → EStateM ε σ β}
    {finished : β → σ → Prop} :
    Ends (lift result >>= next) start finished failed ↔
      (∀ value, result = .ok value →
        Ends (next value) start finished failed) ∧
          ∀ failure, result = .error failure → failed failure start := by
  cases result with
  | ok value =>
      change Ends (next value) start finished failed ↔ _
      simp
  | error failure =>
      change failed failure start ↔ _
      simp

@[simp] theorem ends_lift_ok_bind
    {finished : β → σ → Prop}
    (value : α)
    (next : α → EStateM ε σ β) :
    Ends (lift (.ok value) >>= next) start finished failed ↔
      Ends (next value) start finished failed := Iff.rfl

@[simp] theorem ends_get_bind (next : σ → EStateM ε σ α) :
    Ends (get >>= next) start succeeded failed ↔
      Ends (next start) start succeeded failed := Iff.rfl

@[simp] theorem ends_modify
    {changed : PUnit → σ → Prop}
    (change : σ → σ) :
    Ends (modify change) start changed failed ↔
      changed .unit (change start) := Iff.rfl

/-- What a successful run has established. -/
theorem Ends.of_ok
    {action : EStateM ε σ α}
    {value : α}
    {final : σ}
    (ends : Ends action start succeeded failed)
    (ran : action start = .ok value final) :
    succeeded value final := by
  unfold Ends at ends
  rwa [ran] at ends

/-- What a failed run has established. -/
theorem Ends.of_error
    {action : EStateM ε σ α}
    {failure : ε}
    {final : σ}
    (ends : Ends action start succeeded failed)
    (ran : action start = .error failure final) :
    failed failure final := by
  unfold Ends at ends
  rwa [ran] at ends

/-! ## Computations that agree -/

/-- Both have failed, or both have succeeded with related values and states. -/
def Agree
    (values : α → β → Prop)
    (states : σ → σ → Prop) :
    EStateM.Result ε σ α → EStateM.Result ε σ β → Prop
  | .ok value final, .ok other otherFinal =>
      values value other ∧ states final otherFinal
  | .error _ _, .error _ _ => True
  | .ok _ _, .error _ _ | .error _ _, .ok _ _ => False

section Agree

variable
  {γ δ : Type}
  {states : σ → σ → Prop}
  {values : α → β → Prop}
  {otherStart : σ}

/-- One part after the other. -/
theorem Agree.bind
    {action : EStateM ε σ α}
    {other : EStateM ε σ β}
    {next : α → EStateM ε σ γ}
    {otherNext : β → EStateM ε σ δ}
    {results : γ → δ → Prop}
    (first : Agree values states (action start) (other otherStart))
    (rest : ∀ value otherValue state otherState, values value otherValue →
      states state otherState →
      Agree results states (next value state) (otherNext otherValue otherState)) :
    Agree results states ((action >>= next) start)
      ((other >>= otherNext) otherStart) := by
  change Agree results states
    (match action start with
      | .ok value state => next value state
      | .error failure state => .error failure state)
    (match other otherStart with
      | .ok value state => otherNext value state
      | .error failure state => .error failure state)
  cases ran : action start with
  | ok value state =>
      cases ranOther : other otherStart with
      | ok otherValue otherState =>
          rw [ran, ranOther] at first
          exact rest value otherValue state otherState first.1 first.2
      | error failure otherState =>
          rw [ran, ranOther] at first
          exact first.elim
  | error failure state =>
      cases ranOther : other otherStart with
      | ok otherValue otherState =>
          rw [ran, ranOther] at first
          exact first.elim
      | error otherFailure otherState => trivial

/-- The same result in related states. -/
theorem agree_lift
    (result : Except ε α)
    (sameState : states start otherStart) :
    Agree Eq states (lift result start) (lift result otherStart) := by
  cases result with
  | ok value => exact ⟨rfl, sameState⟩
  | error failure => trivial

/-- The same check before the rest. -/
theorem agree_lift_bind
    {result : Except ε α}
    {next otherNext : α → EStateM ε σ β}
    {results : β → β → Prop}
    (rest : ∀ value, result = .ok value →
      Agree results states (next value start) (otherNext value otherStart)) :
    Agree results states ((lift result >>= next) start)
      ((lift result >>= otherNext) otherStart) := by
  cases result with
  | ok value => exact rest value rfl
  | error failure => trivial

theorem Agree.symm
    {first : EStateM.Result ε σ α}
    {second : EStateM.Result ε σ β}
    (agree : Agree values states first second)
    (symmetric : ∀ {before after}, states before after → states after before) :
    Agree (fun other value => values value other) states second first := by
  cases first <;> cases second <;>
    simp only [Agree] at agree ⊢
  exact ⟨agree.1, symmetric agree.2⟩

theorem Agree.trans
    {others : β → γ → Prop}
    {first : EStateM.Result ε σ α}
    {second : EStateM.Result ε σ β}
    {third : EStateM.Result ε σ γ}
    (agree : Agree values states first second)
    (later : Agree others states second third)
    (transitive : ∀ {before middle after}, states before middle →
      states middle after → states before after) :
    Agree (fun value last => ∃ middle, values value middle ∧ others middle last)
      states first third := by
  cases first <;> cases second <;> cases third <;>
    simp only [Agree] at agree later ⊢
  exact ⟨⟨_, agree.1, later.1⟩, transitive agree.2 later.2⟩

theorem Agree.mono
    {weaker : α → β → Prop}
    {first : EStateM.Result ε σ α}
    {second : EStateM.Result ε σ β}
    (agree : Agree values states first second)
    (weaken : ∀ value other, values value other → weaker value other) :
    Agree weaker states first second := by
  cases first <;> cases second <;>
    simp only [Agree] at agree ⊢
  exact ⟨weaken _ _ agree.1, agree.2⟩

theorem lift_eq_ok
    {result : Except ε α}
    {value : α}
    {final : σ} :
    lift result start = .ok value final ↔ result = .ok value ∧ final = start := by
  cases result with
  | ok found =>
      change EStateM.Result.ok found start = .ok value final ↔ _
      rw [EStateM.Result.ok.injEq, Except.ok.injEq, @eq_comm _ start]
  | error failure => exact ⟨by rintro ⟨⟩, by rintro ⟨⟨⟩, _⟩⟩

/-- A success of one part after the other. -/
theorem run_bind_eq_ok
    {action : EStateM ε σ α}
    {next : α → EStateM ε σ β}
    {value : β}
    {final : σ} :
    (action >>= next) start = .ok value final ↔
      ∃ middle state, action start = .ok middle state ∧
        next middle state = .ok value final := by
  change (match action start with
    | .ok middle state => next middle state
    | .error failure state => .error failure state) = _ ↔ _
  cases action start with
  | ok middle state =>
      constructor
      · intro ran
        exact ⟨middle, state, rfl, ran⟩
      · rintro ⟨_, _, ⟨⟩, ran⟩
        exact ran
  | error failure state =>
      constructor
      · rintro ⟨⟩
      · rintro ⟨_, _, ⟨⟩, _⟩

/-- Computations agree that succeed in the same cases. -/
theorem agree_of_ok
    {first : EStateM.Result ε σ α}
    {second : EStateM.Result ε σ β}
    (forward : ∀ value final, first = .ok value final →
      ∃ other otherFinal, second = .ok other otherFinal ∧
        values value other ∧ states final otherFinal)
    (backward : ∀ other otherFinal, second = .ok other otherFinal →
      ∃ value final, first = .ok value final) :
    Agree values states first second := by
  cases isFirst : first with
  | ok value final =>
      obtain ⟨other, otherFinal, rfl, related⟩ := forward value final isFirst
      exact related
  | error failure final =>
      cases isSecond : second with
      | ok other otherFinal =>
          obtain ⟨_, _, isOk⟩ := backward other otherFinal isSecond
          cases isFirst.symm.trans isOk
      | error otherFailure otherFinal => trivial

/-- What is known of a value of the first holds where both succeed. -/
theorem Agree.of_ok
    {good : α → Prop}
    {first : EStateM.Result ε σ α}
    {second : EStateM.Result ε σ β}
    (agree : Agree values states first second)
    (known : ∀ value final, first = .ok value final → good value) :
    Agree (fun value other => values value other ∧ good value) states first
      second := by
  cases first <;> cases second <;>
    simp only [Agree] at agree ⊢
  exact ⟨⟨agree.1, known _ _ rfl⟩, agree.2⟩

end Agree

end Attempt
