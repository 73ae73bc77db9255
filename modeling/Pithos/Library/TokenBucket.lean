import Mathlib.Data.List.Basic
import Mathlib.Tactic.Common

/-!
# Token buckets

A bucket holds at most its capacity and is filled at a rate.  A call is accepted
when the bucket holds the cost of a call, which it then loses.  What the bucket
holds after a call is fixed by the windows of calls that end there: none of them
has used more than the capacity and what flowed in meanwhile, and one has used
exactly what is missing.
-/

namespace TokenBucket

/-- The rate at which a bucket is filled, what it can hold, and what a call
costs. -/
structure Bucket where
  rate : Nat
  capacity : Nat
  cost : Nat

/-- A call at a time, with the answer to it. -/
structure Call where
  time : Nat
  accepted : Bool
  deriving DecidableEq

namespace Bucket

variable (bucket : Bucket)

/-- What the bucket holds at the time of a call. -/
def filled (level last time : Nat) : Nat :=
  min bucket.capacity (level + bucket.rate * (time - last))

/-- Answer the calls at some times, from a level at a time on. -/
def answers : Nat → Nat → List Nat → List Call
  | _, _, [] => []
  | level, last, time :: times =>
      if bucket.filled level last time < bucket.cost then
        ⟨time, false⟩ :: answers (bucket.filled level last time) time times
      else
        ⟨time, true⟩ ::
          answers (bucket.filled level last time - bucket.cost) time times

end Bucket

/-- The number of calls that were accepted. -/
def accepted (calls : List Call) : Nat :=
  calls.countP (·.accepted)

@[simp] theorem accepted_append (first second : List Call) :
    accepted (first ++ second) = accepted first + accepted second :=
  List.countP_append

@[simp] theorem accepted_nil : accepted [] = 0 := rfl

@[simp] theorem accepted_refused (time : Nat) :
    accepted [⟨time, false⟩] = 0 := rfl

@[simp] theorem accepted_taken (time : Nat) : accepted [⟨time, true⟩] = 1 := rfl

theorem accepted_le_length (calls : List Call) :
    accepted calls ≤ calls.length :=
  List.countP_le_length

/-- The time from the first to the last of a list of times. -/
def elapsed (times : List Nat) : Nat :=
  times.getLast?.getD 0 - times.head?.getD 0

/-- The time of the first call of a window that ends with a call. -/
def startOf (window : List Call) (call : Call) : Nat :=
  (window.head?.getD call).time

theorem elapsed_concat (window : List Call) (call : Call) :
    elapsed ((window ++ [call]).map (·.time)) =
      call.time - startOf window call := by
  cases window with
  | nil => simp [elapsed, startOf]
  | cons first rest =>
      rw [elapsed, List.map_append, List.map_singleton, List.getLast?_concat]
      rfl

theorem startOf_mem (window : List Call) (call : Call) :
    ∃ first ∈ window ++ [call], first.time = startOf window call := by
  cases window with
  | nil => exact ⟨call, List.mem_cons_self, rfl⟩
  | cons first rest => exact ⟨first, List.mem_cons_self, rfl⟩

theorem startOf_append (window : List Call) (call next : Call) :
    startOf (window ++ [call]) next = startOf window call := by
  cases window <;> rfl

/-- What the level at the time of the last call says of the windows that end
there, and they of it. -/
structure Level (bucket : Bucket) (calls : List Call) (last level : Nat) :
    Prop where
  bounded : ∀ before window call, calls = before ++ (window ++ [call]) →
    level + bucket.cost * accepted (window ++ [call]) ≤
      bucket.capacity + bucket.rate * (last - startOf window call)
  tight : calls = [] ∧ level = bucket.capacity ∨
    ∃ before window call, calls = before ++ (window ++ [call]) ∧
      level + bucket.cost * accepted (window ++ [call]) =
        bucket.capacity + bucket.rate * (last - startOf window call)
  times : ∀ call ∈ calls, call.time ≤ last

section Step

variable
  {bucket : Bucket}
  {calls before window : List Call}
  {call next : Call}
  {last level time rest : Nat}

/-- A bucket that is full before the first call. -/
theorem Level.full (bucket : Bucket) (last : Nat) :
    Level bucket [] last bucket.capacity where
  bounded := by
    intro before window call split
    simp at split
  tight := Or.inl ⟨rfl, rfl⟩
  times := by
    intro call member
    cases member

/-- What flows in from the start of a window on, up to the next call. -/
theorem Level.flow
    (isLevel : Level bucket calls last level)
    (later : last ≤ time)
    (split : calls = before ++ (window ++ [call])) :
    bucket.rate * (time - startOf window call) =
      bucket.rate * (last - startOf window call) +
        bucket.rate * (time - last) := by
  obtain ⟨first, member, isFirst⟩ := startOf_mem window call
  have early : first.time ≤ last :=
    isLevel.times first (split ▸ List.mem_append_right before member)
  rw [← Nat.mul_add]
  congr 1
  omega

/-- One call. -/
theorem Level.step
    (isLevel : Level bucket calls last level)
    (later : last ≤ time)
    (isTime : next.time = time)
    (paid : rest + bucket.cost * accepted [next] =
      bucket.filled level last time) :
    Level bucket (calls ++ [next]) time rest where
  bounded := by
    intro before window call split
    rw [← List.append_assoc] at split
    obtain ⟨rfl, same⟩ := List.append_inj' split rfl
    cases same
    rw [accepted_append, Nat.mul_add]
    rcases List.eq_nil_or_concat' window with rfl | ⟨front, final, rfl⟩
    · have capped : bucket.filled level last time ≤ bucket.capacity :=
        Nat.min_le_left _ _
      rw [accepted_nil]
      omega
    · have flowed : bucket.filled level last time ≤
          level + bucket.rate * (time - last) := Nat.min_le_right _ _
      have bound := isLevel.bounded before front final rfl
      rw [startOf_append, isLevel.flow later rfl]
      omega
  tight := by
    refine Or.inr ?_
    by_cases full : bucket.capacity ≤ level + bucket.rate * (time - last)
    · -- the bucket is full: the window of this call alone
      refine ⟨calls, [], next, rfl, ?_⟩
      have isFilled : bucket.filled level last time = bucket.capacity :=
        Nat.min_eq_left full
      have now : startOf [] next = time := isTime
      rw [now, Nat.sub_self, Nat.mul_zero, List.nil_append]
      omega
    · -- the bucket is not full: the window of the last call goes on
      have isFilled : bucket.filled level last time =
          level + bucket.rate * (time - last) := Nat.min_eq_right (by omega)
      rcases isLevel.tight with ⟨_, atStart⟩ |
        ⟨before, window, call, split, used⟩
      · omega
      · refine ⟨before, window ++ [call], next, by simp [split], ?_⟩
        rw [startOf_append, isLevel.flow later split, accepted_append,
          Nat.mul_add]
        omega
  times := by
    intro call member
    rcases List.mem_append.mp member with old | new
    · exact Nat.le_trans (isLevel.times call old) later
    · rw [List.mem_singleton.mp new]
      exact Nat.le_of_eq isTime

end Step

namespace Bucket

variable
  {bucket : Bucket}
  {calls : List Call}
  {last level : Nat}
  {times : List Nat}

@[simp] theorem answers_times :
    (bucket.answers level last times).map (·.time) = times := by
  fun_induction bucket.answers level last times <;> simp [*]

/-- A call is answered as the windows that end with it say. -/
structure Answered (bucket : Bucket) (before : List Call) (call : Call) :
    Prop where
  bounded : ∀ window, window <:+ before →
    bucket.cost * accepted (window ++ [call]) ≤
      bucket.capacity +
        bucket.rate * elapsed ((window ++ [call]).map (·.time))
  refused : call.accepted = false → ∃ window, window <:+ before ∧
    bucket.capacity +
        bucket.rate * elapsed ((window ++ [call]).map (·.time)) <
      bucket.cost * (accepted window + 1)

/-- The level after a call tells how the call was answered. -/
theorem answered_of_level
    {before : List Call}
    {call : Call}
    {rest : Nat}
    (isLevel : Level bucket (before ++ [call]) call.time rest)
    (low : call.accepted = false → rest < bucket.cost) :
    Answered bucket before call where
  bounded := by
    rintro window ⟨earlier, rfl⟩
    have bound := isLevel.bounded earlier window call (by simp)
    rw [elapsed_concat]
    omega
  refused := by
    intro isRefused
    have below := low isRefused
    rcases isLevel.tight with ⟨empty, _⟩ | ⟨earlier, window, last, split, used⟩
    · simp at empty
    · rw [← List.append_assoc] at split
      obtain ⟨rfl, same⟩ := List.append_inj' split rfl
      cases same
      refine ⟨window, ⟨earlier, rfl⟩, ?_⟩
      have nothing : accepted [call] = 0 := by simp [accepted, isRefused]
      rw [accepted_append, nothing, Nat.add_zero] at used
      rw [elapsed_concat, Nat.mul_add]
      omega

/-- A run: every call is answered as the windows that end with it say. -/
theorem answers_answered
    (isLevel : Level bucket calls last level)
    (sorted : (last :: times).Pairwise (· ≤ ·))
    {before : List Call}
    {call : Call}
    {after : List Call}
    (split : bucket.answers level last times = before ++ call :: after) :
    Answered bucket (calls ++ before) call := by
  induction times generalizing calls last level before with
  | nil => simp [answers] at split
  | cons time times induction =>
      rw [List.pairwise_cons] at sorted
      have later : last ≤ time := sorted.1 time List.mem_cons_self
      obtain ⟨next, rest, isTime, paid, low, isAnswer⟩ :
          ∃ next rest, next.time = time ∧
            rest + bucket.cost * accepted [next] =
              bucket.filled level last time ∧
            (next.accepted = false → rest < bucket.cost) ∧
            bucket.answers level last (time :: times) =
              next :: bucket.answers rest time times := by
        by_cases empty : bucket.filled level last time < bucket.cost
        · exact ⟨⟨time, false⟩, _, rfl, by simp, fun _ => empty,
            by rw [answers, if_pos empty]⟩
        · exact ⟨⟨time, true⟩, bucket.filled level last time - bucket.cost,
            rfl, by simp; omega, by simp, by rw [answers, if_neg empty]⟩
      have stepped := isLevel.step later isTime paid
      rw [isAnswer] at split
      cases before with
      | nil =>
          cases split
          rw [List.append_nil]
          exact answered_of_level (isTime ▸ stepped) low
      | cons first before =>
          obtain ⟨rfl, tail⟩ := List.cons.inj split
          have answered := induction stepped sorted.2 tail
          rwa [List.append_assoc] at answered

section Full

variable
  (sorted : (last :: times).Pairwise (· ≤ ·))

include sorted

/-- No window of calls gets more than the capacity and what flows in
meanwhile. -/
theorem accepted_le
    {window : List Call}
    (isWindow : window <:+: bucket.answers bucket.capacity last times) :
    bucket.cost * accepted window ≤
      bucket.capacity + bucket.rate * elapsed (window.map (·.time)) := by
  rcases List.eq_nil_or_concat' window with rfl | ⟨front, call, rfl⟩
  · simp
  · obtain ⟨before, after, split⟩ := isWindow
    have found : bucket.answers bucket.capacity last times =
        (before ++ front) ++ call :: after := by
      simp [← split]
    have answered := answers_answered (Level.full bucket last) sorted found
    exact answered.bounded front ⟨before, rfl⟩

/-- A call is refused exactly when some window that ends with it has no room for
it. -/
theorem refused_iff
    {before : List Call}
    {call : Call}
    {after : List Call}
    (split : bucket.answers bucket.capacity last times =
      before ++ call :: after) :
    call.accepted = false ↔ ∃ window, window <:+ before ∧
      bucket.capacity +
          bucket.rate * elapsed ((window ++ [call]).map (·.time)) <
        bucket.cost * (accepted window + 1) := by
  have answered := answers_answered (Level.full bucket last) sorted split
  refine ⟨answered.refused, ?_⟩
  rintro ⟨window, isSuffix, noRoom⟩
  by_contra isAccepted
  have bound := answered.bounded window isSuffix
  have one : accepted [call] = 1 := by simp_all [accepted]
  rw [accepted_append, one] at bound
  omega

/-- Calls that stay within the bound in every window are all accepted. -/
theorem all_accepted
    (within : ∀ window, window <:+: times →
      bucket.cost * window.length ≤
        bucket.capacity + bucket.rate * elapsed window) :
    ∀ call ∈ bucket.answers bucket.capacity last times,
      call.accepted = true := by
  intro call member
  obtain ⟨before, after, split⟩ := List.append_of_mem member
  by_contra isRefused
  obtain ⟨window, ⟨earlier, rfl⟩, noRoom⟩ :=
    (refused_iff sorted split).mp (by simpa using isRefused)
  have isWindow : (window ++ [call]).map (·.time) <:+: times := by
    rw [← @answers_times bucket last bucket.capacity times, split]
    exact ⟨earlier.map (·.time), after.map (·.time), by simp⟩
  have bound := within _ isWindow
  have few := Nat.mul_le_mul_left bucket.cost
    (Nat.add_le_add_right (accepted_le_length window) 1)
  simp only [List.length_map, List.length_append, List.length_singleton]
    at bound
  omega

end Full

end Bucket

end TokenBucket
