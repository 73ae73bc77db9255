import Mathlib.Data.List.Infix
import Mathlib.Tactic.Common

/-!
# Streams that are read in pieces

A stream has some items and then ends or fails.  A read gives at least one item
and at most as many as it asks for, unless the stream is at its end; how many it
gives is not in the hand of the reader.
-/

/-- The items of a stream and the fault that ends it, if one does. -/
structure ByteStream (Item Fault : Type*) where
  bytes : List Item
  fault : Option Fault
  deriving DecidableEq

namespace ByteStream

variable {Item Fault : Type*} {most want : Nat}
  {stream rest : ByteStream Item Fault} {piece : List Item}

/-- Read what is available, but at most what is wanted.  Nothing is given only at
the end. -/
def read (most want : Nat) (stream : ByteStream Item Fault) :
    Except Fault (List Item × ByteStream Item Fault) :=
  match stream.bytes, stream.fault with
  | [], none => .ok ([], stream)
  | [], some fault => .error fault
  | item :: items, _ =>
      .ok ((item :: items).take (max 1 (min most want)),
        { stream with bytes := (item :: items).drop (max 1 (min most want)) })

/-- A read that gives something takes it from the front. -/
theorem read_of_ne_nil
    (most : Nat)
    {want : Nat}
    (wanted : 0 < want)
    (nonempty : stream.bytes ≠ []) :
    ∃ piece rest, stream.read most want = .ok (piece, rest) ∧ piece ≠ [] ∧
      piece.length ≤ want ∧ stream.bytes = piece ++ rest.bytes ∧
      rest.fault = stream.fault := by
  obtain ⟨bytes, fault⟩ := stream
  cases bytes with
  | nil => exact absurd rfl nonempty
  | cons item items =>
      refine ⟨_, _, rfl, ?_, ?_, (List.take_append_drop _ _).symm, rfl⟩
      · intro empty
        have taken := congrArg List.length empty
        rw [List.length_take, List.length_cons, List.length_nil] at taken
        omega
      · rw [List.length_take]
        omega

theorem read_of_nil
    (most want : Nat)
    (empty : stream.bytes = []) :
    stream.read most want =
      match stream.fault with
      | none => .ok ([], stream)
      | some fault => .error fault := by
  obtain ⟨bytes, fault⟩ := stream
  cases empty
  cases fault <;> rfl

/-- A read that gives something leaves less. -/
theorem length_lt_of_read
    (gave : stream.read most want = .ok (piece, rest))
    (nonempty : piece ≠ []) :
    rest.bytes.length < stream.bytes.length := by
  obtain ⟨bytes, fault⟩ := stream
  cases bytes with
  | nil =>
      cases fault with
      | none =>
          cases gave
          exact absurd rfl nonempty
      | some fault => cases gave
  | cons item items =>
      cases gave
      rw [List.length_drop, List.length_cons]
      omega

end ByteStream
