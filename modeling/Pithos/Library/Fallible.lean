import Mathlib.Data.List.Basic
import Mathlib.Data.List.Induction
import Mathlib.Data.List.Nodup
import Mathlib.Tactic.Common

/-!
# Fallible computations and counted loops

Rules for computations in `Except`: inversion of a successful bind, guards that
fail with a given error, and the counted loop `for (position, item) in items`
with one accumulator.  A loop has two rules.  The invariant rule reads off what
a successful loop has established; the progress rule shows that a loop whose
steps all succeed does succeed.
-/

namespace Fallible

/-- A guard on the value of an option looks at the value only, also where its
type could be enumerated. -/
instance (priority := high) decidableForallMem
    {Value : Type*}
    {guard : Value → Prop}
    [DecidablePred guard]
    (option : Option Value) :
    Decidable (∀ value ∈ option, guard value) :=
  Option.decidableForallMem option

instance (priority := high) decidableExistsMem
    {Value : Type*}
    {guard : Value → Prop}
    [DecidablePred guard]
    (option : Option Value) :
    Decidable (∃ value ∈ option, guard value) :=
  Option.decidableExistsMem option

variable {ε α β γ : Type}

/-- A successful bind has a successful first part. -/
theorem bind_eq_ok
    {first : Except ε α}
    {next : α → Except ε β}
    {result : β} :
    (first >>= next) = .ok result ↔
      ∃ value, first = .ok value ∧ next value = .ok result := by
  cases first with
  | error failure => simp [bind, Except.bind]
  | ok value => simp [bind, Except.bind]

theorem bind_eq_error
    {first : Except ε α}
    {next : α → Except ε β}
    {failure : ε} :
    (first >>= next) = .error failure ↔
      first = .error failure ∨
        ∃ value, first = .ok value ∧ next value = .error failure := by
  cases first with
  | error failure => simp [bind, Except.bind]
  | ok value => simp [bind, Except.bind]

@[simp] theorem ok_bind
    (value : α)
    (next : α → Except ε β) :
    (Except.ok value >>= next) = next value := rfl

@[simp] theorem error_bind
    (failure : ε)
    (next : α → Except ε β) :
    ((Except.error failure : Except ε α) >>= next) = .error failure := rfl

@[simp] theorem map_eq_ok
    {value : Except ε α}
    {change : α → β}
    {result : β} :
    value.map change = .ok result ↔
      ∃ before, value = .ok before ∧ change before = result := by
  cases value <;> simp [Except.map]

@[simp] theorem pure_eq_ok (value : α) :
    (pure value : Except ε α) = .ok value := rfl

/-- Continue when the condition holds and fail with the given error
otherwise. -/
def ensure
    (condition : Prop)
    [Decidable condition]
    (failure : ε) : Except ε Unit :=
  if condition then .ok () else .error failure

@[simp] theorem ensure_eq_ok
    {condition : Prop}
    [Decidable condition]
    {failure : ε}
    {value : Unit} :
    ensure condition failure = .ok value ↔ condition := by
  unfold ensure
  split <;> simp [*]

theorem ensure_of
    {condition : Prop}
    [Decidable condition]
    (holds : condition)
    (failure : ε) :
    ensure condition failure = .ok () := if_pos holds

theorem ensure_of_not
    {condition : Prop}
    [Decidable condition]
    (fails : ¬condition)
    (failure : ε) :
    ensure condition failure = .error failure := if_neg fails

/-- Turn a missing value into an error. -/
def okOr (value : Option α) (failure : ε) : Except ε α :=
  match value with
  | some present => .ok present
  | none => .error failure

@[simp] theorem okOr_some (value : α) (failure : ε) :
    okOr (some value) failure = .ok value := rfl

@[simp] theorem okOr_none (failure : ε) :
    okOr (none : Option α) failure = .error failure := rfl

@[simp] theorem okOr_eq_ok
    {value : Option α}
    {failure : ε}
    {present : α} :
    okOr value failure = .ok present ↔ value = some present := by
  cases value <;> simp

theorem ensure_eq_error
    {condition : Prop}
    [Decidable condition]
    {failure other : ε} :
    (ensure condition failure : Except ε Unit) = .error other ↔
      ¬condition ∧ failure = other := by
  unfold ensure
  split <;> simp [*]

theorem okOr_eq_error
    {value : Option α}
    {failure other : ε} :
    okOr value failure = .error other ↔ value = none ∧ failure = other := by
  cases value <;> simp

/-- Computations with the same results fail together. -/
theorem exists_eq_error_iff
    {first second : Except ε α}
    (same : ∀ value, first = .ok value ↔ second = .ok value) :
    (∃ failure, first = .error failure) ↔
      ∃ failure, second = .error failure := by
  cases first with
  | ok value => simp [(same value).mp rfl]
  | error failure =>
      cases second with
      | ok value => exact absurd ((same value).mpr rfl) nofun
      | error other => simp

/-! ## Counted loops -/

/-- Run `body` on every item in order, with the item's position and one
accumulator. -/
def forEnum
    (body : Nat → α → β → Except ε β) :
    Nat → List α → β → Except ε β
  | _, [], state => .ok state
  | position, item :: items, state => do
      let next ← body position item state
      forEnum body (position + 1) items next

@[simp] theorem forEnum_nil
    (body : Nat → α → β → Except ε β)
    (position : Nat)
    (state : β) :
    forEnum body position [] state = .ok state := rfl

theorem forEnum_cons
    (body : Nat → α → β → Except ε β)
    (position : Nat)
    (item : α)
    (items : List α)
    (state : β) :
    forEnum body position (item :: items) state =
      (body position item state >>= fun next =>
        forEnum body (position + 1) items next) := rfl

private theorem forEnum_invariant_from
    {body : Nat → α → β → Except ε β}
    {invariant : List α → β → Prop}
    (step : ∀ done item state next,
      invariant done state →
      body done.length item state = .ok next →
      invariant (done ++ [item]) next)
    {items done : List α}
    {state result : β}
    (start : invariant done state)
    (success : forEnum body done.length items state = .ok result) :
    invariant (done ++ items) result := by
  induction items generalizing done state with
  | nil =>
      simp only [forEnum_nil, Except.ok.injEq] at success
      subst success
      simpa using start
  | cons item items inductionHypothesis =>
      rw [forEnum_cons, bind_eq_ok] at success
      obtain ⟨next, bodySuccess, restSuccess⟩ := success
      have advanced := step done item state next start bodySuccess
      have restFrom : forEnum body (done ++ [item]).length items next =
          .ok result := by simpa using restSuccess
      simpa using inductionHypothesis advanced restFrom

/-- What every step of a loop preserves holds when the loop succeeds.  The
invariant sees the items already processed, whose number is the position. -/
theorem forEnum_invariant
    {body : Nat → α → β → Except ε β}
    (invariant : List α → β → Prop)
    {items : List α}
    {state result : β}
    (start : invariant [] state)
    (step : ∀ done item state next,
      invariant done state →
      body done.length item state = .ok next →
      invariant (done ++ [item]) next)
    (success : forEnum body 0 items state = .ok result) :
    invariant items result := by
  simpa using forEnum_invariant_from step start success

private theorem forEnum_progress_from
    {body : Nat → α → β → Except ε β}
    {invariant : List α → β → Prop}
    {items done : List α}
    {state : β}
    (start : invariant done state)
    (step : ∀ before item after state,
      done ++ items = before ++ item :: after →
      invariant before state →
      ∃ next, body before.length item state = .ok next ∧
        invariant (before ++ [item]) next) :
    ∃ result, forEnum body done.length items state = .ok result ∧
      invariant (done ++ items) result := by
  induction items generalizing done state with
  | nil => exact ⟨state, rfl, by simpa using start⟩
  | cons item items inductionHypothesis =>
      obtain ⟨next, bodySuccess, advanced⟩ :=
        step done item items state rfl start
      obtain ⟨result, restSuccess, final⟩ :=
        @inductionHypothesis (done ++ [item]) next advanced
          (by simpa using step)
      refine ⟨result, ?_, by simpa using final⟩
      rw [forEnum_cons, bodySuccess, ok_bind]
      simpa using restSuccess

/-- A loop succeeds when each of its steps does, given what the earlier steps
established. -/
theorem forEnum_progress
    {body : Nat → α → β → Except ε β}
    (invariant : List α → β → Prop)
    {items : List α}
    {state : β}
    (start : invariant [] state)
    (step : ∀ before item after state,
      items = before ++ item :: after →
      invariant before state →
      ∃ next, body before.length item state = .ok next ∧
        invariant (before ++ [item]) next) :
    ∃ result, forEnum body 0 items state = .ok result ∧
      invariant items result := by
  have progress : ∃ result, forEnum body ([] : List α).length items state =
      .ok result ∧ invariant ([] ++ items) result :=
    forEnum_progress_from start (by simpa using step)
  simpa using progress

/-- A loop over indices runs through known states. -/
theorem forEnum_range_eq_ok
    {body : Nat → Nat → β → Except ε β}
    {count : Nat}
    (state : Nat → β)
    (step : ∀ index < count,
      body index index (state index) = .ok (state (index + 1))) :
    forEnum body 0 (List.range count) (state 0) = .ok (state count) := by
  have progress : ∃ result,
      forEnum body 0 (List.range count) (state 0) = .ok result ∧
        result = state (List.range count).length := by
    refine forEnum_progress (fun done reached => reached = state done.length)
      rfl ?_
    rintro before item after _ split rfl
    have isItem := congrArg (·[before.length]?) split
    simp only [List.getElem?_append_right (Nat.le_refl _), Nat.sub_self,
      List.getElem?_cons_zero, List.getElem?_eq_some_iff,
      List.length_range, List.getElem_range] at isItem
    obtain ⟨inside, rfl⟩ := isItem
    exact ⟨_, step _ inside, by rw [List.length_append]; rfl⟩
  obtain ⟨result, ran, rfl⟩ := progress
  rw [ran, List.length_range]

/-- A loop fails where one of its steps does. -/
theorem forEnum_eq_error
    {body : Nat → α → β → Except ε β}
    {position : Nat}
    {items : List α}
    {state : β}
    {failure : ε} :
    forEnum body position items state = .error failure ↔
      ∃ before item after reached, items = before ++ item :: after ∧
        forEnum body position before state = .ok reached ∧
        body (position + before.length) item reached = .error failure := by
  induction items generalizing position state with
  | nil => simp
  | cons first rest inductionHypothesis =>
      rw [forEnum_cons]
      cases step : body position first state with
      | error early =>
          simp only [error_bind, Except.error.injEq]
          constructor
          · rintro rfl
            exact ⟨[], first, rest, state, rfl, rfl, step⟩
          · rintro ⟨before, item, after, reached, split, ran, fails⟩
            cases before with
            | nil =>
                cases split
                cases ran
                exact Except.error.inj (step.symm.trans fails)
            | cons head before =>
                cases split
                rw [forEnum_cons, step] at ran
                cases ran
      | ok next =>
          rw [ok_bind, inductionHypothesis]
          constructor
          · rintro ⟨before, item, after, reached, rfl, ran, fails⟩
            refine ⟨first :: before, item, after, reached, rfl, ?_, ?_⟩
            · rw [forEnum_cons, step, ok_bind, ran]
            · rw [List.length_cons, ← fails]
              congr 1
              omega
          · rintro ⟨before, item, after, reached, split, ran, fails⟩
            cases before with
            | nil =>
                cases split
                cases ran
                exact absurd (step.symm.trans fails) nofun
            | cons head before =>
                cases split
                rw [forEnum_cons, step, ok_bind] at ran
                refine ⟨before, item, after, reached, rfl, ran, ?_⟩
                rw [← fails, List.length_cons]
                congr 1
                omega

private theorem forEnum_eq_ok_from
    {body : Nat → α → β → Except ε β}
    {good : Nat → α → β → Prop}
    {update : β → α → β}
    (exact : ∀ position item state next,
      body position item state = .ok next ↔
        good position item state ∧ next = update state item)
    {position : Nat}
    {items : List α}
    {state result : β} :
    forEnum body position items state = .ok result ↔
      (∀ before item after, items = before ++ item :: after →
        good (position + before.length) item (before.foldl update state)) ∧
      result = items.foldl update state := by
  induction items generalizing position state with
  | nil => simp [eq_comm]
  | cons first rest inductionHypothesis =>
      simp only [forEnum_cons, bind_eq_ok, exact, inductionHypothesis]
      constructor
      · rintro ⟨_, ⟨firstGood, rfl⟩, restGood, rfl⟩
        refine ⟨?_, rfl⟩
        intro before item after split
        cases before with
        | nil =>
            cases split
            exact firstGood
        | cons head before =>
            cases split
            have := restGood before item after rfl
            rwa [Nat.add_assoc, Nat.add_comm 1] at this
      · rintro ⟨allGood, rfl⟩
        refine ⟨_, ⟨allGood [] first rest rfl, rfl⟩, ?_, rfl⟩
        intro before item after split
        have := allGood (first :: before) item after (by simp [split])
        rwa [List.length_cons, Nat.add_comm before.length 1,
          ← Nat.add_assoc] at this

/-- A loop whose steps succeed exactly when a condition holds, with a known
next state, succeeds exactly when the condition holds along the loop. -/
theorem forEnum_eq_ok
    {body : Nat → α → β → Except ε β}
    {good : Nat → α → β → Prop}
    {update : β → α → β}
    (exact : ∀ position item state next,
      body position item state = .ok next ↔
        good position item state ∧ next = update state item)
    {items : List α}
    {state result : β} :
    forEnum body 0 items state = .ok result ↔
      (∀ before item after, items = before ++ item :: after →
        good before.length item (before.foldl update state)) ∧
      result = items.foldl update state := by
  rw [forEnum_eq_ok_from exact]
  simp only [Nat.zero_add]

/-- The same when the condition is on the item alone. -/
theorem forEnum_mem_eq_ok
    {body : Nat → α → β → Except ε β}
    {good : α → Prop}
    {update : β → α → β}
    (exact : ∀ position item state next,
      body position item state = .ok next ↔
        good item ∧ next = update state item)
    {items : List α}
    {state result : β} :
    forEnum body 0 items state = .ok result ↔
      (∀ item ∈ items, good item) ∧ result = items.foldl update state := by
  rw [forEnum_eq_ok exact]
  refine and_congr_left fun _ => ?_
  constructor
  · intro allGood item member
    obtain ⟨before, after, split⟩ := List.append_of_mem member
    exact allGood before item after split
  · intro allGood before item after split
    exact allGood item (by simp [split])

/-- A loop without state succeeds exactly when every step does. -/
theorem forEnum_unit_eq_ok
    {body : Nat → α → Unit → Except ε Unit}
    {good : α → Prop}
    (exact : ∀ position item state next,
      body position item state = .ok next ↔ good item)
    {items : List α}
    {result : Unit} :
    forEnum body 0 items () = .ok result ↔ ∀ item ∈ items, good item := by
  have exactState (position : Nat) (item : α) (state next : Unit) :
      body position item state = .ok next ↔ good item ∧ next = state := by
    rw [exact, eq_self_iff_true, and_true]
  rw [forEnum_mem_eq_ok exactState]
  exact and_iff_left rfl

/-! ## Changing every item -/

/-- Every item is changed when each can be. -/
theorem mapM_eq_ok_map
    {change : α → Except ε β}
    {changed : α → β}
    {items : List α}
    (each : ∀ item ∈ items, change item = .ok (changed item)) :
    items.mapM change = .ok (items.map changed) := by
  induction items with
  | nil => rfl
  | cons item items inductionHypothesis =>
      rw [List.mapM_cons, each item List.mem_cons_self,
        inductionHypothesis fun other member =>
          each other (List.mem_cons_of_mem _ member)]
      rfl

/-- A result comes from an item. -/
theorem mem_of_mapM_eq_ok
    {change : α → Except ε β}
    {items : List α}
    {results : List β}
    (mapped : items.mapM change = .ok results)
    {result : β}
    (member : result ∈ results) :
    ∃ item ∈ items, change item = .ok result := by
  induction items generalizing results with
  | nil =>
      cases mapped
      cases member
  | cons first rest inductionHypothesis =>
      rw [List.mapM_cons] at mapped
      simp only [bind_eq_ok, pure_eq_ok, Except.ok.injEq] at mapped
      obtain ⟨changed, isChanged, others, mappedRest, rfl⟩ := mapped
      rcases List.mem_cons.mp member with rfl | member
      · exact ⟨first, List.mem_cons_self, isChanged⟩
      · obtain ⟨item, isItem, isResult⟩ :=
          inductionHypothesis mappedRest member
        exact ⟨item, List.mem_cons_of_mem _ isItem, isResult⟩

/-- Every item has a result. -/
theorem exists_of_mapM_eq_ok
    {change : α → Except ε β}
    {items : List α}
    {results : List β}
    (mapped : items.mapM change = .ok results)
    {item : α}
    (member : item ∈ items) :
    ∃ result ∈ results, change item = .ok result := by
  induction items generalizing results with
  | nil => cases member
  | cons first rest inductionHypothesis =>
      rw [List.mapM_cons] at mapped
      simp only [bind_eq_ok, pure_eq_ok, Except.ok.injEq] at mapped
      obtain ⟨changed, isChanged, others, mappedRest, rfl⟩ := mapped
      rcases List.mem_cons.mp member with rfl | member
      · exact ⟨changed, List.mem_cons_self, isChanged⟩
      · obtain ⟨result, isResult, isOk⟩ :=
          inductionHypothesis mappedRest member
        exact ⟨result, List.mem_cons_of_mem _ isResult, isOk⟩

/-- The results correspond to the items one by one. -/
theorem mapM_eq_ok_iff_forall₂
    {change : α → Except ε β}
    {items : List α}
    {results : List β} :
    items.mapM change = .ok results ↔
      List.Forall₂ (fun item result => change item = .ok result) items
        results := by
  induction items generalizing results with
  | nil =>
      cases results with
      | nil => exact ⟨fun _ => .nil, fun _ => rfl⟩
      | cons result results =>
          constructor
          · rintro ⟨⟩
          · rintro ⟨⟩
  | cons item items inductionHypothesis =>
      rw [List.mapM_cons]
      simp only [bind_eq_ok, pure_eq_ok, Except.ok.injEq, inductionHypothesis]
      constructor
      · rintro ⟨changed, isChanged, others, rest, rfl⟩
        exact .cons isChanged rest
      · rintro ⟨⟩
        rename_i result results isChanged rest
        exact ⟨result, isChanged, results, rest, rfl⟩

/-! ## Loops that collect -/

private theorem forEnum_concat_eq_ok_from
    {body : Nat → α → List β → Except ε (List β)}
    {good : Nat → α → Prop}
    {change : Nat → α → β}
    (exact : ∀ position item state next, state.length = position →
      (body position item state = .ok next ↔
        good position item ∧ next = state ++ [change position item]))
    {items : List α}
    {start result : List β} :
    forEnum body start.length items start = .ok result ↔
      (∀ position item, items[position]? = some item →
        good (start.length + position) item) ∧
      result = start ++ items.mapIdx fun position =>
        change (start.length + position) := by
  induction items generalizing start with
  | nil => simp [eq_comm]
  | cons first rest inductionHypothesis =>
      have longer (item : β) :
          start.length + 1 = (start ++ [item]).length := by simp
      have shifted (position : Nat) :
          start.length + 1 + position = start.length + (position + 1) := by
        omega
      simp only [forEnum_cons, bind_eq_ok, exact start.length first start _ rfl]
      constructor
      · rintro ⟨next, ⟨firstGood, rfl⟩, ran⟩
        rw [longer, inductionHypothesis] at ran
        simp only [← longer, shifted] at ran
        obtain ⟨restGood, rfl⟩ := ran
        refine ⟨?_, by simp⟩
        intro position item found
        cases position with
        | zero =>
            cases found
            exact firstGood
        | succ position => exact restGood position item found
      · rintro ⟨allGood, rfl⟩
        refine ⟨_, ⟨allGood 0 first rfl, rfl⟩, ?_⟩
        rw [longer, inductionHypothesis]
        simp only [← longer, shifted]
        exact ⟨fun position item found => allGood (position + 1) item found,
          by simp⟩

/-- A loop that appends one value for each item succeeds exactly when each step
may be taken, and gives these values in order. -/
theorem forEnum_concat_eq_ok
    {body : Nat → α → List β → Except ε (List β)}
    {good : Nat → α → Prop}
    {change : Nat → α → β}
    (exact : ∀ position item state next, state.length = position →
      (body position item state = .ok next ↔
        good position item ∧ next = state ++ [change position item]))
    {items : List α}
    {result : List β} :
    forEnum body 0 items [] = .ok result ↔
      (∀ position item, items[position]? = some item →
        good position item) ∧
      result = items.mapIdx change := by
  have from_nil := @forEnum_concat_eq_ok_from _ _ _ _ _ _ exact items [] result
  simpa using from_nil

/-! ## Prefixes of a list -/

/-- A condition on every item with what stands before it, when only the
position counts. -/
theorem forall_split_iff
    {items : List α}
    {good : Nat → α → Prop} :
    (∀ before item after, items = before ++ item :: after →
        good before.length item) ↔
      ∀ position item, items[position]? = some item →
        good position item := by
  constructor
  · intro allGood position item found
    obtain ⟨bound, rfl⟩ := List.getElem?_eq_some_iff.mp found
    have split : items = items.take position ++
        items[position] :: items.drop (position + 1) := by
      rw [List.getElem_cons_drop, List.take_append_drop]
    have good := allGood _ _ _ split
    rwa [List.length_take, Nat.min_eq_left (Nat.le_of_lt bound)] at good
  · intro allGood before item after split
    exact allGood before.length item (by simp [split])

/-- No key repeats exactly when no item has the key of an earlier one. -/
theorem nodup_map_iff_split
    {items : List α}
    {key : α → γ} :
    (items.map key).Nodup ↔
      ∀ before item after, items = before ++ item :: after →
        key item ∉ before.map key := by
  induction items using List.reverseRecOn with
  | nil => simp
  | append_singleton front last inductionHypothesis =>
      rw [List.map_append, List.nodup_append, inductionHypothesis]
      constructor
      · rintro ⟨frontFresh, _, apart⟩ before item after split
        rcases List.eq_nil_or_concat after with rfl | ⟨rest, final, rfl⟩
        · obtain ⟨rfl, same⟩ := List.append_inj' split rfl
          cases same
          intro member
          exact apart _ member _ (by simp) rfl
        · have shorter : front = before ++ item :: rest := by
            have whole : front ++ [last] =
                (before ++ item :: rest) ++ [final] := by simpa using split
            exact (List.append_inj' whole rfl).1
          exact frontFresh before item rest shorter
      · intro fresh
        refine ⟨?_, by simp, ?_⟩
        · intro before item after split
          exact fresh before item (after ++ [last]) (by simp [split])
        · intro left leftMember right rightMember same
          have := fresh front last [] rfl
          simp at rightMember
          subst rightMember
          subst same
          exact this leftMember

end Fallible
