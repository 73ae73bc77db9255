import Mathlib.Tactic.Common

/-!
# Computations with checkpoints

A computation that asks a checkpoint between its steps, and ends with the error
of the checkpoint when it is told to stop.  It may also end by an index that is
out of bounds.  A checkpoint is the sequence of its answers; a computation counts
how often it has asked.

A computation takes a number of calls to a value when it yields that value as
long as these calls pass, and ends with the error of the first of them that does
not.
-/

namespace Checkpoint

/-- How a computation ends that does not yield a value. -/
inductive Stop (ε : Type)
  | failed (error : ε)
  | outOfBounds
  deriving DecidableEq, Repr

/-- A computation that asks a checkpoint. -/
def Checked (ε α : Type) : Type :=
  (Nat → Except ε Unit) → Nat → Except (Stop ε) (α × Nat)

variable {ε α β Item : Type}

namespace Checked

/-- Yield a value. -/
def ret (value : α) : Checked ε α := fun _ calls => .ok (value, calls)

/-- Go on with the value of a computation. -/
def andThen (first : Checked ε α) (next : α → Checked ε β) : Checked ε β :=
  fun answers calls =>
    match first answers calls with
    | .ok (value, calls) => next value answers calls
    | .error stop => .error stop

instance : Monad (Checked ε) where
  pure := ret
  bind := andThen

end Checked

/-- Ask the checkpoint. -/
def checkpoint : Checked ε Unit := fun answers calls =>
  match answers calls with
  | .ok () => .ok ((), calls + 1)
  | .error error => .error (.failed error)

/-- The item at an index. -/
def read (items : List Item) (index : Nat) : Checked ε Item := fun _ calls =>
  match items[index]? with
  | some item => .ok (item, calls)
  | none => .error .outOfBounds

/-- The items with the one at an index replaced. -/
def write (items : List Item) (index : Nat) (item : Item) :
    Checked ε (List Item) := fun _ calls =>
  if index < items.length then .ok (items.set index item, calls)
  else .error .outOfBounds

/-! ## What a computation takes -/

/-- The computation asks for a number of calls and yields a value. -/
structure Takes (action : Checked ε α) (value : α) (calls : Nat) : Prop where
  finishes : ∀ answers start,
    (∀ call < calls, answers (start + call) = .ok ()) →
    action answers start = .ok (value, start + calls)
  stops : ∀ answers start, ∀ call < calls, ∀ error,
    (∀ earlier < call, answers (start + earlier) = .ok ()) →
    answers (start + call) = .error error →
    action answers start = .error (.failed error)

/-- The computation yields a value, if the checkpoint lets it. -/
def Yields (action : Checked ε α) (value : α) : Prop :=
  ∃ calls, Takes action value calls

section Rules

variable {action : Checked ε α} {value : α} {result : β} {calls more : Nat}

theorem Takes.ret (value : α) :
    Takes (pure value : Checked ε α) value 0 where
  finishes := fun _ _ _ => rfl
  stops := fun _ _ call early => absurd early (Nat.not_lt_zero call)

theorem Takes.checkpoint : Takes (checkpoint : Checked ε Unit) () 1 where
  finishes := by
    intro answers start passes
    have passed : answers start = .ok () := passes 0 Nat.one_pos
    simp only [Checkpoint.checkpoint, passed]
  stops := by
    intro answers start call early error _ failed
    obtain rfl : call = 0 := by omega
    rw [Nat.add_zero] at failed
    simp only [Checkpoint.checkpoint, failed]

theorem Takes.bind
    {next : α → Checked ε β}
    (first : Takes action value calls)
    (second : Takes (next value) result more) :
    Takes (action >>= next) result (calls + more) where
  finishes := by
    intro answers start passes
    have firstRun := first.finishes answers start
      fun call early => passes call (Nat.lt_add_right more early)
    have secondRun := second.finishes answers (start + calls) (by
      intro call early
      rw [Nat.add_assoc]
      exact passes (calls + call) (Nat.add_lt_add_left early calls))
    change Checked.andThen action next answers start = _
    rw [Checked.andThen, firstRun]
    exact secondRun.trans (by rw [Nat.add_assoc])
  stops := by
    intro answers start call early error passed failed
    change Checked.andThen action next answers start = _
    by_cases inFirst : call < calls
    · rw [Checked.andThen,
        first.stops answers start call inFirst error passed failed]
    · have firstRun := first.finishes answers start
        fun earlier before => passed earlier (by omega)
      obtain ⟨later, rfl⟩ := Nat.exists_eq_add_of_le (Nat.not_lt.mp inFirst)
      rw [Checked.andThen, firstRun]
      refine second.stops answers (start + calls) later (by omega) error ?_ ?_
      · intro earlier before
        rw [Nat.add_assoc]
        exact passed (calls + earlier) (by omega)
      · rwa [Nat.add_assoc]

theorem Yields.ret (value : α) : Yields (pure value : Checked ε α) value :=
  ⟨0, Takes.ret value⟩

theorem Yields.bind
    {next : α → Checked ε β}
    (first : Yields action value)
    (second : Yields (next value) result) :
    Yields (action >>= next) result := by
  obtain ⟨calls, firstTakes⟩ := first
  obtain ⟨more, secondTakes⟩ := second
  exact ⟨calls + more, firstTakes.bind secondTakes⟩

/-- Ask the checkpoint, then go on. -/
theorem Yields.check
    {next : Unit → Checked ε β}
    (rest : Yields (next ()) result) :
    Yields (checkpoint >>= next) result :=
  Yields.bind ⟨1, Takes.checkpoint⟩ rest

/-- Read an item that is there, then go on. -/
theorem Yields.read
    {items : List Item}
    {index : Nat}
    {item : Item}
    {next : Item → Checked ε β}
    (found : items[index]? = some item)
    (rest : Yields (next item) result) :
    Yields (read items index >>= next) result := by
  have same : (Checkpoint.read items index : Checked ε Item) = pure item := by
    funext answers calls
    simp only [Checkpoint.read, found]
    rfl
  rw [same]
  exact Yields.bind (Yields.ret item) rest

/-- Replace an item that is there, then go on. -/
theorem Yields.write
    {items : List Item}
    {index : Nat}
    {item : Item}
    {next : List Item → Checked ε β}
    (inside : index < items.length)
    (rest : Yields (next (items.set index item)) result) :
    Yields (write items index item >>= next) result := by
  have same : (Checkpoint.write items index item : Checked ε (List Item)) =
      pure (items.set index item) := by
    funext answers calls
    simp only [Checkpoint.write, if_pos inside]
    rfl
  rw [same]
  exact Yields.bind (Yields.ret _) rest

end Rules

end Checkpoint
