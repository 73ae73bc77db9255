import Mathlib.Data.List.Chain
import Mathlib.Tactic.Common

/-!
# Numbered logs

A log numbers its items and retains some of them.  It grows at its end and
forgets from its start.  A reader that always asks for the items after the last
number it has seen gets every item at most once and in order, and it has every
item that the log still retains when it reads last.
-/

namespace EventLog

variable {Item : Type*} {number : Item → Nat}

/-- The items that are retained, and the number of the next one. -/
structure Log (Item : Type*) where
  items : List Item
  next : Nat

/-- The items are in the order of their numbers, which are taken already. -/
structure Numbered (number : Item → Nat) (log : Log Item) : Prop where
  increasing : log.items.Pairwise fun first second =>
    number first < number second
  below : ∀ item ∈ log.items, number item < log.next

/-- A log at a later time.  What it retains of the numbers that were taken
before was retained before. -/
structure Continues (number : Item → Nat) (log later : Log Item) : Prop where
  grows : log.next ≤ later.next
  retained : ∀ item ∈ later.items, number item < log.next → item ∈ log.items

theorem Continues.refl (log : Log Item) : Continues number log log :=
  ⟨Nat.le_refl _, fun _ member _ => member⟩

theorem Continues.trans
    {first second third : Log Item}
    (left : Continues number first second)
    (right : Continues number second third) :
    Continues number first third where
  grows := left.grows.trans right.grows
  retained := fun item member before => left.retained item
    (right.retained item member (before.trans_le left.grows)) before

/-- The items after a cursor. -/
def readAfter (number : Item → Nat) (cursor : Nat) (log : Log Item) :
    List Item :=
  log.items.filter fun item => cursor < number item

/-- The cursor after some items. -/
def advance (number : Item → Nat) (cursor : Nat) (items : List Item) : Nat :=
  (items.getLast?.map number).getD cursor

/-- The items that a reader gets from a log it reads time and again, each time
from where it was. -/
def readAll (number : Item → Nat) : Nat → List (Log Item) → List Item
  | _, [] => []
  | cursor, log :: logs =>
      readAfter number cursor log ++
        readAll number (advance number cursor (readAfter number cursor log))
          logs

section Reading

variable {cursor : Nat} {log : Log Item}

theorem mem_readAfter {item : Item} :
    item ∈ readAfter number cursor log ↔
      item ∈ log.items ∧ cursor < number item := by
  simp [readAfter]

/-- The cursor stands at the last item read, or where it was. -/
theorem advance_readAfter
    (numbered : Numbered number log) :
    cursor ≤ advance number cursor (readAfter number cursor log) ∧
      (∀ item ∈ readAfter number cursor log, number item ≤
        advance number cursor (readAfter number cursor log)) ∧
      (advance number cursor (readAfter number cursor log) = cursor ∨
        advance number cursor (readAfter number cursor log) < log.next) := by
  have sorted : (readAfter number cursor log).Pairwise
      fun first second => number first < number second :=
    numbered.increasing.sublist List.filter_sublist
  have inside (item : Item) (member : item ∈ readAfter number cursor log) :=
    mem_readAfter.mp member
  generalize readAfter number cursor log = items at sorted inside ⊢
  rcases List.eq_nil_or_concat' items with rfl | ⟨front, last, rfl⟩
  · simp [advance]
  · have isLast : advance number cursor (front ++ [last]) = number last := by
      simp [advance]
    have member : last ∈ front ++ [last] :=
      List.mem_append_right _ List.mem_cons_self
    rw [isLast]
    refine ⟨Nat.le_of_lt (inside last member).2, fun item isItem => ?_,
      Or.inr (numbered.below last (inside last member).1)⟩
    rcases List.mem_append.mp isItem with before | here
    · exact Nat.le_of_lt ((List.pairwise_append.mp sorted).2.2 item before last
        List.mem_cons_self)
    · rw [List.mem_singleton.mp here]

/-- The cursor stays below the numbers that are not taken. -/
theorem advance_lt
    (numbered : Numbered number log)
    (below : cursor < log.next) :
    advance number cursor (readAfter number cursor log) < log.next := by
  rcases (@advance_readAfter _ number cursor log numbered).2.2 with same | less
  · rwa [same]
  · exact less

end Reading

section Reader

variable {cursor : Nat} {logs : List (Log Item)}

/-- No item comes twice, and all come in order. -/
theorem readAll_increasing
    (numbered : ∀ log ∈ logs, Numbered number log) :
    (readAll number cursor logs).Pairwise (fun first second =>
        number first < number second) ∧
      ∀ item ∈ readAll number cursor logs, cursor < number item := by
  induction logs generalizing cursor with
  | nil => exact ⟨.nil, nofun⟩
  | cons log logs inductionHypothesis =>
      have here := numbered log List.mem_cons_self
      obtain ⟨sorted, after⟩ := @inductionHypothesis
        (advance number cursor (readAfter number cursor log))
        fun other member => numbered other (List.mem_cons_of_mem _ member)
      obtain ⟨grows, upTo, _⟩ := @advance_readAfter _ number cursor log here
      rw [readAll]
      refine ⟨List.pairwise_append.mpr ⟨here.increasing.sublist
        List.filter_sublist, sorted, ?_⟩, ?_⟩
      · intro first isFirst second isSecond
        exact (upTo first isFirst).trans_lt (after second isSecond)
      · intro item member
        rcases List.mem_append.mp member with now | later
        · exact (mem_readAfter.mp now).2
        · exact grows.trans_lt (after item later)

/-- Whatever the log retains when it is read last has been read. -/
theorem mem_readAll
    (numbered : ∀ log ∈ logs, Numbered number log)
    (continues : logs.Pairwise (Continues number))
    {last : Log Item}
    (isLast : logs.getLast? = some last)
    {item : Item}
    (retained : item ∈ last.items)
    (after : cursor < number item) :
    item ∈ readAll number cursor logs := by
  induction logs generalizing cursor with
  | nil => cases isLast
  | cons log logs inductionHypothesis =>
      rw [readAll]
      cases logs with
      | nil =>
          cases isLast
          exact List.mem_append_left _ (mem_readAfter.mpr ⟨retained, after⟩)
      | cons next logs =>
          rw [List.getLast?_cons_cons] at isLast
          obtain ⟨goesOn, rest⟩ := List.pairwise_cons.mp continues
          have here := numbered log List.mem_cons_self
          by_cases later :
              advance number cursor (readAfter number cursor log) < number item
          · exact List.mem_append_right _ (inductionHypothesis
              (fun other member =>
                numbered other (List.mem_cons_of_mem _ member))
              rest isLast later)
          · -- The number was taken already, so the item was there to be read.
            obtain same | less :=
              (@advance_readAfter _ number cursor log here).2.2
            · omega
            · have present := (goesOn last (List.mem_of_getLast? isLast)).retained
                item retained (by omega)
              exact List.mem_append_left _
                (mem_readAfter.mpr ⟨present, after⟩)

end Reader

end EventLog
