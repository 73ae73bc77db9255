import Mathlib.Data.List.Basic
import Mathlib.Tactic.Common

/-!
# Readers

A reader is asked for at most so many items and gives some of them or a fault;
it never gives more than it is asked for.  What it will give is described by a
relation between its states and lists of items that every read keeps: the piece
that a read gives is the front of the list, and only the end of the list gives
nothing.

A script says how each read of a stream goes: how much it gives, or with which
fault it fails.  When the script is over, a read gives what it is asked for.
-/

/-- Something that can be read from. -/
structure Reader (State Item Fault : Type) where
  read : Nat → State → Except Fault (List Item) × State
  length_le : ∀ want state piece next,
    read want state = (.ok piece, next) → piece.length ≤ want

namespace Reader

variable {State Item Fault : Type}

/-- In a state that holds some items, a read gives a front of them, and nothing
only when there are none. -/
def Delivers
    (reader : Reader State Item Fault)
    (holds : List Item → State → Prop) : Prop :=
  ∀ items state want, holds items state → 0 < want →
    ∃ piece rest next, reader.read want state = (.ok piece, next) ∧
      items = piece ++ rest ∧ (piece = [] → items = []) ∧ holds rest next

/-- Read to the end, in at most so many reads. -/
def readAll (reader : Reader State Item Fault) :
    Nat → State → Option (List Item × State)
  | 0, _ => none
  | reads + 1, state =>
      match reader.read 65536 state with
      | (.ok [], next) => some ([], next)
      | (.ok (item :: piece), next) =>
          (readAll reader reads next).map fun rest =>
            (item :: piece ++ rest.1, rest.2)
      | (.error _, _) => none

section ReadAll

variable
  {reader : Reader State Item Fault}
  {holds : List Item → State → Prop}
  {items : List Item}
  {state : State}
  {reads : Nat}

/-- What is read to the end is what the state holds. -/
theorem Delivers.readAll_eq
    (delivers : reader.Delivers holds)
    {result : List Item × State}
    (held : holds items state)
    (isRead : reader.readAll reads state = some result) :
    result.1 = items ∧ holds [] result.2 := by
  induction reads generalizing items state result with
  | zero => cases isRead
  | succ reads inductionHypothesis =>
      obtain ⟨piece, rest, next, gave, rfl, onlyEnd, heldNext⟩ :=
        delivers items state 65536 held (by decide)
      rw [readAll, gave] at isRead
      match piece with
      | [] =>
          cases isRead
          have none := onlyEnd rfl
          rw [List.nil_append] at none
          subst none
          exact ⟨rfl, heldNext⟩
      | item :: piece =>
          obtain ⟨later, isLater, rfl⟩ := Option.map_eq_some_iff.mp isRead
          obtain ⟨isRest, heldFinal⟩ := inductionHypothesis heldNext isLater
          exact ⟨by rw [isRest], heldFinal⟩

/-- More reads than items are enough. -/
theorem Delivers.readAll_isSome
    (delivers : reader.Delivers holds)
    (held : holds items state)
    (enough : items.length < reads) :
    (reader.readAll reads state).isSome := by
  induction reads generalizing items state with
  | zero => exact absurd enough (Nat.not_lt_zero _)
  | succ reads inductionHypothesis =>
      obtain ⟨piece, rest, next, gave, rfl, onlyEnd, heldNext⟩ :=
        delivers items state 65536 held (by decide)
      rw [readAll, gave]
      match piece with
      | [] => rfl
      | item :: piece =>
          rw [List.length_append, List.length_cons] at enough
          rw [Option.isSome_map]
          exact inductionHypothesis heldNext (by omega)

end ReadAll

/-! ## Limits -/

/-- A reader with a limit on what is still read. -/
structure Limited (State : Type) where
  inner : State
  limit : Nat

/-- Read no more than the limit in all. -/
def take (reader : Reader State Item Fault) :
    Reader (Limited State) Item Fault where
  read want state :=
    if state.limit = 0 then (.ok [], state)
    else
      match reader.read (min want state.limit) state.inner with
      | (.ok piece, inner) => (.ok piece, ⟨inner, state.limit - piece.length⟩)
      | (.error fault, inner) => (.error fault, ⟨inner, state.limit⟩)
  length_le want state piece next gave := by
    split at gave
    · cases gave
      exact Nat.zero_le _
    · split at gave
      · rename_i isRead
        have bounded := reader.length_le _ _ _ _ isRead
        cases gave
        exact Nat.le_trans bounded (Nat.min_le_left _ _)
      · cases gave

/-- What a reader with a limit holds: the items within the limit, before the
rest of those of the reader.  When the reader has fewer, as many are missing in
the limit. -/
def Limited.Holds
    (holds : List Item → State → Prop)
    (rest : List Item)
    (missing : Nat)
    (items : List Item)
    (state : Limited State) : Prop :=
  holds (items ++ rest) state.inner ∧ state.limit = items.length + missing ∧
    (missing = 0 ∨ rest = [])

theorem Delivers.take
    {reader : Reader State Item Fault}
    {holds : List Item → State → Prop}
    (delivers : reader.Delivers holds)
    (rest : List Item)
    (missing : Nat) :
    reader.take.Delivers (Limited.Holds holds rest missing) := by
  rintro items ⟨inner, limit⟩ want ⟨held, isLimit, exact⟩ wanted
  simp only at held isLimit
  by_cases atEnd : limit = 0
  · have none : items = [] := List.eq_nil_of_length_eq_zero (by omega)
    refine ⟨[], items, ⟨inner, limit⟩, if_pos atEnd, rfl, fun _ => none, held,
      isLimit, exact⟩
  · obtain ⟨piece, after, next, isRead, split, onlyEnd, heldNext⟩ :=
      delivers _ _ (min want limit) held (by omega)
    have bounded := reader.length_le _ _ _ _ isRead
    have within : piece.length ≤ items.length := by
      rcases exact with exact | exact
      · omega
      · have total := congrArg List.length split
        simp only [exact, List.append_nil, List.length_append] at total
        omega
    have isPiece : piece = items.take piece.length := by
      have front : (items ++ rest).take piece.length =
          items.take piece.length := List.take_append_of_le_length within
      rw [← front, split, List.take_left]
    have isAfter : after = items.drop piece.length ++ rest := by
      rw [← List.drop_append_of_le_length within, split, List.drop_left]
    refine ⟨piece, items.drop piece.length, ⟨next, limit - piece.length⟩, ?_,
      ?_, ?_, isAfter ▸ heldNext, ?_, exact⟩
    · simp only [Reader.take, if_neg atEnd, isRead]
    · conv_lhs => rw [← List.take_append_drop piece.length items]
      rw [← isPiece]
    · intro empty
      exact (List.append_eq_nil_iff.mp (onlyEnd empty)).1
    · simp only [List.length_drop]
      omega

/-- What is held at the start, and what is left over at the end. -/
theorem Limited.holds_start
    {holds : List Item → State → Prop}
    {items : List Item}
    {state : State}
    (held : holds items state)
    (limit : Nat) :
    Limited.Holds holds (items.drop limit) (limit - items.length)
      (items.take limit) ⟨state, limit⟩ := by
  refine ⟨?_, ?_, ?_⟩
  · rwa [List.take_append_drop]
  · rw [List.length_take]
    simp only
    omega
  · by_cases short : items.length ≤ limit
    · exact .inr (List.drop_eq_nil_of_le short)
    · exact .inl (by omega)

/-! ## Scripts -/

/-- How one read goes. -/
inductive Event (Fault : Type)
  | gives (most : Nat)
  | fails (fault : Fault)
  deriving DecidableEq

/-- A stream and how the reads from it go. -/
structure Scripted (Item Fault : Type) where
  items : List Item
  script : List (Event Fault)
  deriving DecidableEq

/-- Read as the script says.  A read that gives at most so many gives at least
one, unless the stream is at its end. -/
def scripted : Reader (Scripted Item Fault) Item Fault where
  read want state :=
    match state.script with
    | [] => (.ok (state.items.take want), ⟨state.items.drop want, []⟩)
    | .gives most :: script =>
        (.ok (state.items.take (min want (max 1 most))),
          ⟨state.items.drop (min want (max 1 most)), script⟩)
    | .fails fault :: script => (.error fault, ⟨state.items, script⟩)
  length_le want state piece next gave := by
    split at gave
    · cases gave
      exact List.length_take_le _ _
    · cases gave
      rw [List.length_take]
      omega
    · cases gave

/-- A read that fails uses up a line of the script. -/
theorem script_lt_of_fails
    {want : Nat}
    {state next : Scripted Item Fault}
    {fault : Fault}
    (failed : scripted.read want state = (.error fault, next)) :
    next.script.length < state.script.length := by
  obtain ⟨items, script⟩ := state
  match script with
  | [] => cases failed
  | .gives most :: script => cases failed
  | .fails other :: script =>
      cases failed
      exact Nat.lt_succ_self _

theorem script_le_of_gives
    {want : Nat}
    {state next : Scripted Item Fault}
    {piece : List Item}
    (gave : scripted.read want state = (.ok piece, next)) :
    next.script.length ≤ state.script.length := by
  obtain ⟨items, script⟩ := state
  match script with
  | [] =>
      cases gave
      exact Nat.le_refl _
  | .gives most :: script =>
      cases gave
      exact Nat.le_succ _
  | .fails other :: script => cases gave

/-- The stream has these items and no read fails. -/
def Scripted.Holds (items : List Item) (state : Scripted Item Fault) : Prop :=
  state.items = items ∧ ∀ event ∈ state.script, ∃ most, event = .gives most

/-- A stream whose reads do not fail delivers its items. -/
theorem delivers_scripted :
    (scripted : Reader (Scripted Item Fault) Item Fault).Delivers
      Scripted.Holds := by
  rintro _ ⟨items, script⟩ want ⟨rfl, gives⟩ wanted
  simp only at gives ⊢
  cases script with
  | nil =>
      refine ⟨items.take want, items.drop want, ⟨items.drop want, []⟩, rfl,
        (List.take_append_drop _ _).symm, fun empty => ?_, rfl, nofun⟩
      exact (List.take_eq_nil_iff.mp empty).resolve_left (by omega)
  | cons event script =>
      obtain ⟨most, rfl⟩ := gives event List.mem_cons_self
      refine ⟨_, _, _, rfl, (List.take_append_drop _ _).symm, fun empty => ?_,
        rfl, fun later member => gives later (List.mem_cons_of_mem _ member)⟩
      exact (List.take_eq_nil_iff.mp empty).resolve_left (by omega)

/-! ## Schedules without a fault -/

section Without

variable [DecidableEq Fault] {fault : Fault}

/-- The stream with the same reads, except those that fail with this fault. -/
def Scripted.without (fault : Fault) (state : Scripted Item Fault) :
    Scripted Item Fault where
  items := state.items
  script := state.script.filter (· ≠ .fails fault)

/-- A read that fails with the fault is not there without it. -/
theorem without_of_fails
    {want : Nat}
    {state next : Scripted Item Fault}
    (failed : scripted.read want state = (.error fault, next)) :
    next.without fault = state.without fault := by
  obtain ⟨items, script⟩ := state
  match script with
  | [] => cases failed
  | .gives most :: script => cases failed
  | .fails other :: script =>
      cases failed
      simp [Scripted.without]

/-- A read that goes otherwise goes the same without the fault. -/
theorem read_without
    {want : Nat}
    {state next : Scripted Item Fault}
    {result : Except Fault (List Item)}
    (isRead : scripted.read want state = (result, next))
    (other : result ≠ .error fault) :
    scripted.read want (state.without fault) =
      (result, next.without fault) := by
  obtain ⟨items, script⟩ := state
  match script with
  | [] =>
      cases isRead
      rfl
  | .gives most :: script =>
      cases isRead
      rfl
  | .fails failure :: script =>
      cases isRead
      have kept : (Event.fails failure : Event Fault) ≠ .fails fault :=
        fun same => other (congrArg Except.error (Event.fails.inj same))
      simp [Scripted.without, scripted, kept]

/-- Without the fault no read fails with it. -/
theorem read_without_ne
    {want : Nat}
    {state next : Scripted Item Fault} :
    scripted.read want (state.without fault) ≠ (.error fault, next) := by
  intro failed
  simp only [Scripted.without, scripted] at failed
  split at failed
  · cases failed
  · cases failed
  · rename_i isScript
    cases failed
    have member := isScript ▸ List.mem_cons_self
    simp at member

end Without

end Reader
