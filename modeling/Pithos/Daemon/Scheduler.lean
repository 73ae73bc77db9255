import Mathlib.Data.List.FinRange
import Mathlib.Data.List.Nodup
import Mathlib.Data.List.Perm.Basic
import Mathlib.Logic.Function.Basic
import Pithos.Daemon.Api
import Pithos.Library.MapValues

/-!
# The fair scheduler

Jobs wait in six lanes, one for each priority.  A lane serves its sessions in
turn; the lanes are served by weighted round robin.  Whatever the order, the
queue neither loses a job nor makes one up: pushing adds the job, popping takes
one away as long as there is one.
-/

namespace Pithos.Daemon

open Std
open MapValues

/-- A job that waits to be started. -/
structure ScheduledJob where
  owner : SessionId
  jobId : JobId
  priority : JobPriority
  deadlineUnixMs : Option UInt64
  deriving DecidableEq

/-! ## Lanes -/

/-- The queues of the sessions, and the order in which they are served. -/
structure PriorityLane where
  sessions : ExtTreeMap String (List ScheduledJob)
  order : List String

namespace PriorityLane

/-- A lane without jobs. -/
def empty : PriorityLane where
  sessions := ∅
  order := []

/-- A session that had no job in the lane goes behind the others. -/
def push (lane : PriorityLane) (job : ScheduledJob) : PriorityLane where
  sessions := lane.sessions.insert job.owner.value
    ((lane.sessions[job.owner.value]?).getD [] ++ [job])
  order :=
    if lane.sessions[job.owner.value]?.isSome then lane.order
    else lane.order ++ [job.owner.value]

/-- Serve the first session in the order that has a job. -/
def popFrom (sessions : ExtTreeMap String (List ScheduledJob)) :
    List String → Option ScheduledJob × PriorityLane
  | [] => (none, ⟨sessions, []⟩)
  | owner :: rest =>
      match sessions[owner]? with
      | none => popFrom sessions rest
      | some [] => popFrom (sessions.erase owner) rest
      | some [job] => (some job, ⟨sessions.erase owner, rest⟩)
      | some (job :: next :: more) =>
          (some job, ⟨sessions.insert owner (next :: more), rest ++ [owner]⟩)

/-- The first job of the session whose turn it is. -/
def pop (lane : PriorityLane) : Option ScheduledJob × PriorityLane :=
  popFrom lane.sessions lane.order

/-- Whether no session waits. -/
def isEmpty (lane : PriorityLane) : Bool :=
  lane.order.isEmpty

/-- The queue of a session. -/
def queueOf (lane : PriorityLane) (owner : String) : List ScheduledJob :=
  (lane.sessions[owner]?).getD []

/-- All jobs of a lane. -/
def jobs (lane : PriorityLane) : List ScheduledJob :=
  lane.order.flatMap lane.queueOf

/-- The order lists exactly the sessions in the map, and these have jobs. -/
structure WellFormed (lane : PriorityLane) : Prop where
  nodup : lane.order.Nodup
  nonempty : ∀ owner ∈ lane.order, lane.queueOf owner ≠ []
  listed : ∀ owner, lane.sessions[owner]?.isSome → owner ∈ lane.order

end PriorityLane

/-- What happens to a lane that gives up a job. -/
structure PriorityLane.Serves
    (lane : PriorityLane)
    (owner : String)
    (rest : List String)
    (job : ScheduledJob)
    (tail : List ScheduledJob)
    (next : PriorityLane) : Prop where
  order : lane.order = owner :: rest
  queue : lane.queueOf owner = job :: tail
  queues : ∀ other, next.queueOf other =
    if owner = other then tail else lane.queueOf other
  listed : ∀ other, next.sessions[other]?.isSome →
    if owner = other then tail ≠ [] else lane.sessions[other]?.isSome
  nextOrder : next.order = if tail = [] then rest else rest ++ [owner]

/-- Replacing one list among several by one that has one more element. -/
theorem perm_flatMap_of_cons
    {Index Item : Type}
    {before after : Index → List Item}
    {index : Index}
    {item : Item}
    {indices : List Index}
    (nodup : indices.Nodup)
    (member : index ∈ indices)
    (here : (after index).Perm (item :: before index))
    (elsewhere : ∀ other, other ≠ index → after other = before other) :
    (indices.flatMap after).Perm (item :: indices.flatMap before) := by
  induction indices with
  | nil => cases member
  | cons head rest inductionHypothesis =>
      obtain ⟨notIn, restNodup⟩ := List.nodup_cons.mp nodup
      simp only [List.flatMap_cons]
      by_cases isHead : head = index
      · subst isHead
        have same : rest.flatMap after = rest.flatMap before := by
          refine List.flatMap_congr fun other inside => elsewhere other ?_
          rintro rfl
          exact notIn inside
        rw [same]
        exact here.append_right _
      · have inRest : index ∈ rest :=
          (List.mem_cons.mp member).resolve_left (Ne.symm isHead)
        rw [elsewhere head isHead]
        exact ((inductionHypothesis restNodup inRest).append_left _).trans
          List.perm_middle

namespace PriorityLane

theorem wellFormed_empty : empty.WellFormed where
  nodup := List.nodup_nil
  nonempty := by
    intro owner member
    cases member
  listed := by
    intro owner isListed
    simp [empty] at isListed

theorem queueOf_push
    (lane : PriorityLane)
    (job : ScheduledJob)
    (owner : String) :
    (lane.push job).queueOf owner =
      if job.owner.value = owner then lane.queueOf owner ++ [job]
      else lane.queueOf owner := by
  simp only [queueOf, push, getElem?_insert_eq]
  split
  case isTrue same => rw [← same]; rfl
  case isFalse different => rfl

namespace WellFormed

variable {lane : PriorityLane} (ok : lane.WellFormed)

include ok

theorem isSome_iff {owner : String} :
    lane.sessions[owner]?.isSome ↔ owner ∈ lane.order := by
  refine ⟨ok.listed owner, fun member => ?_⟩
  have nonempty := ok.nonempty owner member
  unfold queueOf at nonempty
  cases found : lane.sessions[owner]? with
  | none => rw [found] at nonempty; exact absurd rfl nonempty
  | some queue => rfl

theorem push (job : ScheduledJob) : (lane.push job).WellFormed := by
  have order : ∀ owner, owner ∈ (lane.push job).order ↔
      owner ∈ lane.order ∨ owner = job.owner.value := by
    intro owner
    unfold PriorityLane.push
    dsimp only
    split
    case isTrue present =>
        refine ⟨Or.inl, fun either => either.elim id ?_⟩
        rintro rfl
        exact ok.isSome_iff.mp present
    case isFalse absent => simp
  refine ⟨?_, ?_, ?_⟩
  · unfold PriorityLane.push
    dsimp only
    split
    case isTrue present => exact ok.nodup
    case isFalse absent =>
        have notListed := mt ok.isSome_iff.mpr absent
        refine ok.nodup.append (List.nodup_singleton _) ?_
        simpa using notListed
  · intro owner member
    rw [queueOf_push]
    split
    case isTrue same => simp
    case isFalse different =>
        refine ok.nonempty owner (((order owner).mp member).resolve_right ?_)
        exact fun same => different same.symm
  · intro owner isListed
    rw [order]
    simp only [PriorityLane.push, getElem?_insert_eq] at isListed
    split at isListed
    case isTrue same => exact Or.inr same.symm
    case isFalse different => exact Or.inl (ok.listed owner isListed)

theorem push_perm (job : ScheduledJob) :
    (lane.push job).jobs.Perm (job :: lane.jobs) := by
  unfold jobs
  by_cases present : lane.sessions[job.owner.value]?.isSome
  · have order : (lane.push job).order = lane.order := by
      simp [PriorityLane.push, present]
    rw [order]
    refine perm_flatMap_of_cons ok.nodup (ok.isSome_iff.mp present) ?_ ?_
    · rw [queueOf_push, if_pos rfl]
      exact List.perm_append_singleton _ _
    · intro other different
      rw [queueOf_push, if_neg different.symm]
  · have order : (lane.push job).order =
        lane.order ++ [job.owner.value] := by
      simp [PriorityLane.push, present]
    have absent : lane.queueOf job.owner.value = [] := by
      unfold queueOf
      rw [Option.not_isSome_iff_eq_none.mp present]
      rfl
    have others : lane.order.flatMap (lane.push job).queueOf =
        lane.order.flatMap lane.queueOf := by
      refine List.flatMap_congr fun owner member => ?_
      rw [queueOf_push, if_neg]
      rintro rfl
      exact present (ok.isSome_iff.mpr member)
    have last : (lane.push job).queueOf job.owner.value = [job] := by
      rw [queueOf_push, if_pos rfl, absent, List.nil_append]
    rw [order, List.flatMap_append, others, List.flatMap_singleton, last]
    exact List.perm_append_singleton _ _

/-- A lane in use serves the first session of the order: its first job leaves,
and the session goes to the end of the order if it has more. -/
theorem pop_eq (used : lane.isEmpty = false) :
    ∃ owner rest job tail next, Serves lane owner rest job tail next ∧
      lane.pop = (some job, next) := by
  cases isOrder : lane.order with
  | nil => simp [isEmpty, isOrder] at used
  | cons owner rest =>
      have isSome := ok.isSome_iff.mpr (show owner ∈ lane.order by
        rw [isOrder]
        exact List.mem_cons_self)
      have nonempty := ok.nonempty owner (by rw [isOrder]; simp)
      obtain ⟨queue, found⟩ := Option.isSome_iff_exists.mp isSome
      have isQueue : lane.queueOf owner = queue := by
        rw [queueOf, found]
        rfl
      rw [isQueue] at nonempty
      unfold pop
      rw [isOrder]
      unfold popFrom
      rw [found]
      match queue, isQueue, nonempty with
      | [job], isQueue, _ =>
          refine ⟨owner, rest, job, [], _,
            ⟨isOrder, isQueue, ?_, ?_, rfl⟩, rfl⟩
          · intro other
            simp only [queueOf, getElem?_erase_eq]
            split <;> rfl
          · intro other isListed
            rw [getElem?_erase_eq] at isListed
            split at isListed
            · cases isListed
            · rwa [if_neg (by assumption)]
      | job :: next :: more, isQueue, _ =>
          refine ⟨owner, rest, job, next :: more, _,
            ⟨isOrder, isQueue, ?_, ?_, rfl⟩, rfl⟩
          · intro other
            simp only [queueOf, getElem?_insert_eq]
            split <;> rfl
          · intro other isListed
            rw [getElem?_insert_eq] at isListed
            split at isListed
            · rw [if_pos (by assumption)]
              exact List.cons_ne_nil _ _
            · rwa [if_neg (by assumption)]

/-- The rest of a lane that gave up a job is in order. -/
theorem serves
    {owner : String}
    {rest : List String}
    {job : ScheduledJob}
    {tail : List ScheduledJob}
    {next : PriorityLane}
    (served : Serves lane owner rest job tail next) :
    next.WellFormed := by
  have nodup := ok.nodup
  rw [served.order] at nodup
  obtain ⟨notIn, restNodup⟩ := List.nodup_cons.mp nodup
  have order : ∀ other, other ∈ next.order ↔
      other ∈ rest ∨ other = owner ∧ tail ≠ [] := by
    intro other
    rw [served.nextOrder]
    split
    case isTrue isNil => simp [isNil]
    case isFalse more => simp [more]
  refine ⟨?_, ?_, ?_⟩
  · rw [served.nextOrder]
    split
    case isTrue isNil => exact restNodup
    case isFalse more =>
        exact restNodup.append (List.nodup_singleton _) (by simpa using notIn)
  · intro other member
    rw [served.queues]
    rcases (order other).mp member with inRest | ⟨rfl, more⟩
    · have different : owner ≠ other := by
        rintro rfl
        exact notIn inRest
      rw [if_neg different]
      refine ok.nonempty other ?_
      rw [served.order]
      exact List.mem_cons_of_mem _ inRest
    · rwa [if_pos rfl]
  · intro other isListed
    have listed := served.listed other isListed
    rw [order]
    split at listed
    case isTrue same => exact Or.inr ⟨same.symm, listed⟩
    case isFalse different =>
        have member := ok.listed other listed
        rw [served.order] at member
        exact Or.inl ((List.mem_cons.mp member).resolve_left
          (Ne.symm different))

/-- A lane that gave up a job keeps the others. -/
theorem serves_perm
    {owner : String}
    {rest : List String}
    {job : ScheduledJob}
    {tail : List ScheduledJob}
    {next : PriorityLane}
    (served : Serves lane owner rest job tail next) :
    lane.jobs.Perm (job :: next.jobs) := by
  have nodup := ok.nodup
  rw [served.order] at nodup
  have others : rest.flatMap next.queueOf = rest.flatMap lane.queueOf := by
    refine List.flatMap_congr fun other member => ?_
    rw [served.queues, if_neg]
    rintro rfl
    exact (List.nodup_cons.mp nodup).1 member
  unfold jobs
  rw [served.order, List.flatMap_cons, served.queue, served.nextOrder,
    List.cons_append]
  refine List.Perm.cons job ?_
  split
  case isTrue isNil =>
      rw [isNil, others]
      exact List.Perm.refl _
  case isFalse more =>
      rw [List.flatMap_append, others, List.flatMap_singleton, served.queues,
        if_pos rfl]
      exact List.perm_append_comm

theorem jobs_eq_nil_iff : lane.jobs = [] ↔ lane.isEmpty = true := by
  cases isOrder : lane.order with
  | nil => simp [jobs, isEmpty, isOrder]
  | cons owner rest =>
      have nonempty := ok.nonempty owner (by rw [isOrder]; simp)
      simp [jobs, isEmpty, isOrder, nonempty]

end WellFormed

end PriorityLane

/-! ## The six lanes -/

/-- The lane of a priority. -/
def priorityIndex : JobPriority → Fin 6
  | .interactiveRead => 0
  | .interactiveExtract => 1
  | .verifyRequested => 2
  | .packForeground => 3
  | .packBackground => 4
  | .benchmark => 5

/-- How many jobs a lane may give up in one round. -/
def priorityWeights : Fin 6 → Nat
  | 0 => 8
  | 1 => 6
  | 2 => 4
  | 3 => 3
  | 4 => 2
  | 5 => 1

/-- One lane for each priority, the credits of this round, the lane that is
looked at and the number of jobs. -/
structure FairScheduler where
  lanes : Fin 6 → PriorityLane
  credits : Fin 6 → Nat
  cursor : Fin 6
  len : Nat

namespace FairScheduler

/-- No job, full credits, and the first lane. -/
def empty : FairScheduler where
  lanes := fun _ => .empty
  credits := priorityWeights
  cursor := 0
  len := 0

/-- A job goes to the lane of its priority. -/
def push (queue : FairScheduler) (job : ScheduledJob) : FairScheduler :=
  { queue with
    lanes := Function.update queue.lanes (priorityIndex job.priority)
      ((queue.lanes (priorityIndex job.priority)).push job)
    len := queue.len + 1 }

/-- A new round, when every credit is spent. -/
def renew (queue : FairScheduler) : FairScheduler :=
  if ∀ lane, queue.credits lane = 0 then
    { queue with credits := priorityWeights, cursor := 0 }
  else queue

/-- Go on to the next lane. -/
def skip (queue : FairScheduler) : FairScheduler :=
  { queue with
    credits := Function.update queue.credits queue.cursor 0
    cursor := queue.cursor + 1 }

/-- Take a job from the lane at the cursor. -/
def serve (queue : FairScheduler) : Option ScheduledJob × FairScheduler :=
  let credit := queue.credits queue.cursor - 1
  ((queue.lanes queue.cursor).pop.1, { queue with
    lanes := Function.update queue.lanes queue.cursor
      (queue.lanes queue.cursor).pop.2
    credits := Function.update queue.credits queue.cursor credit
    cursor := if credit = 0 then queue.cursor + 1 else queue.cursor })

/-- The search for a job, for a number of rounds of its loop. -/
def popLoop : Nat → FairScheduler → Option (ScheduledJob × FairScheduler)
  | 0, _ => none
  | rounds + 1, queue =>
      let queue := queue.renew
      if queue.credits queue.cursor = 0 ∨
          (queue.lanes queue.cursor).isEmpty = true then
        popLoop rounds queue.skip
      else
        match queue.serve with
        | (some job, next) => some (job, { next with len := next.len - 1 })
        | (none, next) => popLoop rounds next

/-- How many rounds find a job if there is one: one through the spent credits
and one through the lanes. -/
def popRounds : Nat := 12

/-- The next job, when there is one. -/
def pop (queue : FairScheduler) : Option ScheduledJob × FairScheduler :=
  if queue.len = 0 then (none, queue)
  else
    match popLoop popRounds queue with
    | some (job, next) => (some job, next)
    | none => (none, queue)

/-- Whether no job is left. -/
def isEmpty (queue : FairScheduler) : Bool :=
  decide (queue.len = 0)

/-- Take jobs until there are none. -/
def drainLoop : Nat → FairScheduler → List ScheduledJob × FairScheduler
  | 0, queue => ([], queue)
  | rounds + 1, queue =>
      match queue.pop with
      | (none, next) => ([], next)
      | (some job, next) =>
          (job :: (drainLoop rounds next).1, (drainLoop rounds next).2)

/-- Pop until no job is left. -/
def drain (queue : FairScheduler) : List ScheduledJob × FairScheduler :=
  drainLoop queue.len queue

/-- All jobs that wait. -/
def jobs (queue : FairScheduler) : List ScheduledJob :=
  (List.finRange 6).flatMap fun lane => (queue.lanes lane).jobs

/-- The lanes are in order and the counter counts their jobs. -/
structure WellFormed (queue : FairScheduler) : Prop where
  lanes : ∀ lane, (queue.lanes lane).WellFormed
  len : queue.len = queue.jobs.length

theorem wellFormed_empty : empty.WellFormed where
  lanes := fun _ => PriorityLane.wellFormed_empty
  len := by
    have none : empty.jobs = [] := by
      simp [jobs, empty, PriorityLane.jobs, PriorityLane.empty]
    rw [none]
    rfl

/-- Replacing a lane by one with one more job. -/
theorem jobs_update_perm
    {lanes : Fin 6 → PriorityLane}
    {lane : Fin 6}
    {next : PriorityLane}
    {job : ScheduledJob}
    (more : next.jobs.Perm (job :: (lanes lane).jobs)) :
    ((List.finRange 6).flatMap fun other =>
        (Function.update lanes lane next other).jobs).Perm
      (job :: (List.finRange 6).flatMap fun other => (lanes other).jobs) := by
  refine perm_flatMap_of_cons (List.nodup_finRange 6) (List.mem_finRange lane)
    ?_ ?_
  · rwa [Function.update_self]
  · intro other different
    rw [Function.update_of_ne different]

namespace WellFormed

variable {queue : FairScheduler} (ok : queue.WellFormed)

include ok

theorem push_perm (job : ScheduledJob) :
    (queue.push job).jobs.Perm (job :: queue.jobs) :=
  jobs_update_perm ((ok.lanes _).push_perm job)

theorem push (job : ScheduledJob) : (queue.push job).WellFormed where
  lanes := by
    intro lane
    by_cases isLane : lane = priorityIndex job.priority
    · subst isLane
      simpa [FairScheduler.push] using (ok.lanes _).push job
    · simpa [FairScheduler.push, isLane] using ok.lanes lane
  len := by
    rw [(ok.push_perm job).length_eq, List.length_cons, ← ok.len]
    rfl

theorem renew : queue.renew.WellFormed := by
  unfold FairScheduler.renew
  split
  · exact ⟨ok.lanes, ok.len⟩
  · exact ok

theorem skip : queue.skip.WellFormed :=
  ⟨ok.lanes, ok.len⟩

/-- The lane at the cursor gives up a job. -/
theorem serve (used : (queue.lanes queue.cursor).isEmpty = false) :
    ∃ owner rest job tail lane,
      PriorityLane.Serves (queue.lanes queue.cursor) owner rest job tail lane ∧
      queue.serve.1 = some job ∧
      queue.serve.2.lanes =
        Function.update queue.lanes queue.cursor lane := by
  obtain ⟨owner, rest, job, tail, lane, served, popped⟩ :=
    (ok.lanes queue.cursor).pop_eq used
  refine ⟨owner, rest, job, tail, lane, served, ?_, ?_⟩
  · simp only [FairScheduler.serve, popped]
  · simp only [FairScheduler.serve, popped]

end WellFormed

/-! ## The search ends -/

theorem priorityWeights_ne_zero (lane : Fin 6) : priorityWeights lane ≠ 0 := by
  revert lane
  decide

/-- A lane that can be served now. -/
def Ready (queue : FairScheduler) (lane : Fin 6) : Prop :=
  queue.credits lane ≠ 0 ∧ (queue.lanes lane).isEmpty = false

/-- The search passes lanes that are not ready. -/
inductive Passes : FairScheduler → FairScheduler → Prop
  | here (queue : FairScheduler) : Passes queue queue.renew
  | skip {queue mid : FairScheduler}
      (notReady : ¬queue.renew.Ready queue.renew.cursor)
      (later : Passes queue.renew.skip mid) :
      Passes queue mid

/-- The search passes some lanes and takes a job from the one it comes to. -/
structure Takes
    (queue mid : FairScheduler)
    (owner : String)
    (rest : List String)
    (job : ScheduledJob)
    (tail : List ScheduledJob)
    (next : FairScheduler) : Prop where
  passes : Passes queue mid
  ready : mid.Ready mid.cursor
  served : PriorityLane.Serves (mid.lanes mid.cursor) owner rest job tail
    (next.lanes mid.cursor)
  isNext : next = { mid.serve.2 with len := mid.len - 1 }

/-- The search takes a job within some rounds. -/
def Finds (rounds : Nat) (queue : FairScheduler) : Prop :=
  ∃ mid owner rest job tail next,
    Takes queue mid owner rest job tail next ∧
      popLoop rounds queue = some (job, next)

@[simp] theorem renew_lanes (queue : FairScheduler) :
    queue.renew.lanes = queue.lanes := by
  unfold renew
  split <;> rfl

@[simp] theorem renew_len (queue : FairScheduler) :
    queue.renew.len = queue.len := by
  unfold renew
  split <;> rfl

theorem renew_of_credit
    {queue : FairScheduler}
    {lane : Fin 6}
    (credit : queue.credits lane ≠ 0) :
    queue.renew = queue :=
  if_neg fun spent => credit (spent lane)

theorem renew_renew (queue : FairScheduler) :
    queue.renew.renew = queue.renew := by
  by_cases spent : ∀ lane, queue.credits lane = 0
  · have renewed : queue.renew =
        { queue with credits := priorityWeights, cursor := 0 } :=
      if_pos spent
    rw [renewed]
    exact @renew_of_credit _ 0 (priorityWeights_ne_zero 0)
  · have kept : queue.renew = queue := if_neg spent
    rw [kept, kept]

theorem popLoop_renew (rounds : Nat) (queue : FairScheduler) :
    popLoop rounds queue.renew = popLoop rounds queue := by
  cases rounds with
  | zero => rfl
  | succ rounds => simp only [popLoop, renew_renew]

theorem Passes.of_renew
    {queue mid : FairScheduler}
    (passes : Passes queue.renew mid) :
    Passes queue mid := by
  cases passes with
  | here =>
      rw [renew_renew]
      exact .here queue
  | skip notReady later =>
      rw [renew_renew] at notReady later
      exact .skip notReady later

theorem Passes.lanes
    {queue mid : FairScheduler}
    (passes : Passes queue mid) :
    mid.lanes = queue.lanes ∧ mid.len = queue.len := by
  induction passes with
  | here queue => exact ⟨queue.renew_lanes, queue.renew_len⟩
  | skip notReady later inductionHypothesis =>
      obtain ⟨lanes, len⟩ := inductionHypothesis
      exact ⟨lanes.trans (renew_lanes _), len.trans (renew_len _)⟩

theorem Finds.of_renew
    {rounds : Nat}
    {queue : FairScheduler}
    (finds : queue.renew.Finds rounds) :
    queue.Finds rounds := by
  obtain ⟨mid, owner, rest, job, tail, next, takes, found⟩ := finds
  rw [popLoop_renew] at found
  exact ⟨mid, owner, rest, job, tail, next,
    ⟨takes.passes.of_renew, takes.ready, takes.served, takes.isNext⟩, found⟩

/-- One round on a queue whose credits are not all spent: it takes a job, or
skips a lane that is not ready. -/
theorem WellFormed.round
    {queue : FairScheduler}
    (ok : queue.WellFormed)
    (current : queue.renew = queue)
    {rounds : Nat}
    (skipping : ¬queue.Ready queue.cursor → queue.skip.Finds rounds) :
    queue.Finds (rounds + 1) := by
  by_cases ready : queue.Ready queue.cursor
  · obtain ⟨owner, rest, job, tail, lane, served, isJob, lanes⟩ :=
      ok.serve ready.2
    refine ⟨queue, owner, rest, job, tail, _, ⟨?_, ready, ?_, rfl⟩, ?_⟩
    · have here := Passes.here queue
      rwa [current] at here
    · simp only [lanes, Function.update_self]
      exact served
    · have pair : queue.serve = (some job, queue.serve.2) :=
        Prod.ext isJob rfl
      simp only [popLoop, current, ready.1, ready.2, Bool.false_eq_true,
        or_self, if_false]
      rw [pair]
      rfl
  · obtain ⟨mid, owner, rest, job, tail, next, takes, found⟩ :=
      skipping ready
    refine ⟨mid, owner, rest, job, tail, next,
      ⟨.skip ?_ ?_, takes.ready, takes.served, takes.isNext⟩, ?_⟩
    · rwa [current]
    · rw [current]
      exact takes.passes
    · have blocked : queue.credits queue.cursor = 0 ∨
          (queue.lanes queue.cursor).isEmpty = true := by
        by_contra neither
        rw [not_or, Bool.not_eq_true] at neither
        exact ready neither
      simp only [popLoop, current]
      rw [if_pos blocked]
      exact found

/-- A lane ahead of the cursor that is ready is reached. -/
theorem WellFormed.finds_ahead
    {lane : Fin 6}
    {rounds : Nat}
    {queue : FairScheduler}
    (ok : queue.WellFormed)
    (ready : queue.Ready lane)
    (near : (lane - queue.cursor).val < rounds) :
    queue.Finds rounds := by
  induction rounds generalizing queue with
  | zero => omega
  | succ rounds inductionHypothesis =>
      refine ok.round (renew_of_credit ready.1) fun notReady => ?_
      have different : lane ≠ queue.cursor := by
        rintro rfl
        exact notReady ready
      refine inductionHypothesis ok.skip ⟨?_, ready.2⟩ ?_
      · change Function.update queue.credits queue.cursor 0 lane ≠ 0
        rw [Function.update_of_ne different]
        exact ready.1
      · have closer : ∀ lane cursor : Fin 6, lane ≠ cursor →
            (lane - (cursor + 1)).val + 1 = (lane - cursor).val := by
          decide
        have distance := closer lane queue.cursor different
        change (lane - (queue.cursor + 1)).val < rounds
        omega

/-- The lanes that were passed last have no credit. -/
def Passed (queue : FairScheduler) (count : Nat) : Prop :=
  ∀ lane, (queue.cursor - 1 - lane).val < count → queue.credits lane = 0

theorem Passed.skip
    {queue : FairScheduler}
    {count : Nat}
    (passed : queue.Passed count) :
    queue.skip.Passed (count + 1) := by
  intro lane near
  change (queue.cursor + 1 - 1 - lane).val < count + 1 at near
  by_cases isCursor : lane = queue.cursor
  · subst isCursor
    simp [FairScheduler.skip]
  · have farther : ∀ lane cursor : Fin 6, lane ≠ cursor →
        (cursor + 1 - 1 - lane).val = (cursor - 1 - lane).val + 1 := by
      decide
    have distance := farther lane queue.cursor isCursor
    change Function.update queue.credits queue.cursor 0 lane = 0
    rw [Function.update_of_ne isCursor]
    exact passed lane (by omega)

/-- When all credits are spent, a new round finds a job. -/
theorem WellFormed.finds_spent
    {lane : Fin 6}
    {rounds : Nat}
    {queue : FairScheduler}
    (ok : queue.WellFormed)
    (used : (queue.lanes lane).isEmpty = false)
    (spent : ∀ lane, queue.credits lane = 0)
    (enough : 6 ≤ rounds) :
    queue.Finds rounds := by
  have renewed : queue.renew =
      { queue with credits := priorityWeights, cursor := 0 } :=
    if_pos spent
  have ready : queue.renew.Ready lane := by
    rw [renewed]
    exact ⟨priorityWeights_ne_zero lane, used⟩
  exact Finds.of_renew (ok.renew.finds_ahead ready
    (Nat.lt_of_lt_of_le (Fin.isLt _) enough))

/-- While a lane has jobs, the rest of a round through the credits and one
round through the lanes find one. -/
theorem WellFormed.finds_used
    {lane : Fin 6}
    {left : Nat}
    {queue : FairScheduler}
    (ok : queue.WellFormed)
    (used : (queue.lanes lane).isEmpty = false)
    (passed : queue.Passed (6 - left)) :
    queue.Finds (left + 6) := by
  induction left generalizing queue with
  | zero =>
      exact ok.finds_spent used (fun lane => passed lane (Fin.isLt _))
        (by omega)
  | succ left inductionHypothesis =>
      by_cases spent : ∀ lane, queue.credits lane = 0
      · exact ok.finds_spent used spent (by omega)
      · have next : (left + 1) + 6 = (left + 6) + 1 := by omega
        rw [next]
        refine ok.round (if_neg spent) fun _ => ?_
        refine inductionHypothesis ok.skip used ?_
        intro lane near
        refine passed.skip lane ?_
        omega

namespace Takes

variable
  {queue mid next : FairScheduler}
  {owner : String}
  {rest : List String}
  {job : ScheduledJob}
  {tail : List ScheduledJob}
  (takes : Takes queue mid owner rest job tail next)

include takes

/-- Only the lane that is served changes. -/
theorem lanes :
    next.lanes = Function.update queue.lanes mid.cursor
      (next.lanes mid.cursor) := by
  obtain ⟨lanes, _⟩ := takes.passes.lanes
  funext lane
  by_cases isCursor : lane = mid.cursor
  · subst isCursor
    rw [Function.update_self]
  · rw [Function.update_of_ne isCursor, takes.isNext, ← lanes]
    simp [serve, isCursor]

theorem lane_served :
    PriorityLane.Serves (queue.lanes mid.cursor) owner rest job tail
      (next.lanes mid.cursor) := by
  have served := takes.served
  rwa [takes.passes.lanes.1] at served

theorem perm (ok : queue.WellFormed) :
    queue.jobs.Perm (job :: next.jobs) := by
  have fewer := (ok.lanes mid.cursor).serves_perm takes.lane_served
  have restored : Function.update next.lanes mid.cursor
      (queue.lanes mid.cursor) = queue.lanes := by
    rw [takes.lanes, Function.update_idem, Function.update_eq_self]
  have whole := jobs_update_perm fewer
  rw [restored] at whole
  exact whole

theorem wellFormed (ok : queue.WellFormed) : next.WellFormed where
  lanes := by
    intro lane
    rw [takes.lanes]
    by_cases isCursor : lane = mid.cursor
    · subst isCursor
      rw [Function.update_self]
      exact (ok.lanes _).serves takes.lane_served
    · rw [Function.update_of_ne isCursor]
      exact ok.lanes lane
  len := by
    have count := (takes.perm ok).length_eq
    rw [List.length_cons, ← ok.len, ← takes.passes.lanes.2] at count
    have len : next.len = mid.len - 1 := by rw [takes.isNext]
    omega

end Takes

/-- A queue gives up a job as long as it has one. -/
theorem WellFormed.pop_takes
    {queue : FairScheduler}
    (ok : queue.WellFormed) :
    queue.jobs = [] ∧ queue.pop = (none, queue) ∨
      ∃ mid owner rest job tail next,
        Takes queue mid owner rest job tail next ∧
          queue.pop = (some job, next) := by
  by_cases isEmpty : queue.len = 0
  · refine Or.inl ⟨?_, if_pos isEmpty⟩
    rw [← List.length_eq_zero_iff, ← ok.len]
    exact isEmpty
  · have nonempty : queue.jobs ≠ [] := by
      intro none
      rw [ok.len, none] at isEmpty
      exact isEmpty rfl
    obtain ⟨job, member⟩ := List.exists_mem_of_ne_nil _ nonempty
    obtain ⟨lane, _, inLane⟩ := List.mem_flatMap.mp member
    have used : (queue.lanes lane).isEmpty = false := by
      cases isUsed : (queue.lanes lane).isEmpty with
      | false => rfl
      | true =>
          rw [(ok.lanes lane).jobs_eq_nil_iff.mpr isUsed] at inLane
          cases inLane
    obtain ⟨mid, owner, rest, job, tail, next, takes, found⟩ :=
      @WellFormed.finds_used lane 6 queue ok used fun _ near => by omega
    refine Or.inr ⟨mid, owner, rest, job, tail, next, takes, ?_⟩
    simp only [pop, if_neg isEmpty, popRounds]
    change popLoop 12 queue = _ at found
    rw [found]

theorem WellFormed.pop_cases
    {queue : FairScheduler}
    (ok : queue.WellFormed) :
    queue.jobs = [] ∧ queue.pop = (none, queue) ∨
      ∃ job next, queue.pop = (some job, next) ∧ next.WellFormed ∧
        queue.jobs.Perm (job :: next.jobs) := by
  rcases ok.pop_takes with empty | ⟨_, _, _, job, _, next, takes, popped⟩
  · exact Or.inl empty
  · exact Or.inr ⟨job, next, popped, takes.wellFormed ok, takes.perm ok⟩

theorem WellFormed.isEmpty_iff
    {queue : FairScheduler}
    (ok : queue.WellFormed) :
    queue.isEmpty = true ↔ queue.jobs = [] := by
  rw [isEmpty, decide_eq_true_iff, ok.len, List.length_eq_zero_iff]

/-- Draining takes all jobs. -/
theorem WellFormed.drain
    {queue : FairScheduler}
    (ok : queue.WellFormed) :
    queue.drain.2.WellFormed ∧ queue.drain.2.jobs = [] ∧
      queue.drain.1.Perm queue.jobs := by
  unfold FairScheduler.drain
  have all (rounds : Nat) (queue : FairScheduler) (ok : queue.WellFormed)
      (enough : queue.jobs.length ≤ rounds) :
      (drainLoop rounds queue).2.WellFormed ∧
        (drainLoop rounds queue).2.jobs = [] ∧
        (drainLoop rounds queue).1.Perm queue.jobs := by
    induction rounds generalizing queue with
    | zero =>
        have none : queue.jobs = [] :=
          List.length_eq_zero_iff.mp (Nat.le_zero.mp enough)
        rw [none]
        exact ⟨ok, none, List.Perm.refl _⟩
    | succ rounds inductionHypothesis =>
        rcases ok.pop_cases with ⟨none, popped⟩ |
            ⟨job, next, popped, nextOk, fewer⟩
        · simp only [drainLoop, popped, none]
          exact ⟨ok, trivial, List.Perm.refl _⟩
        · simp only [drainLoop, popped]
          rw [fewer.length_eq, List.length_cons] at enough
          obtain ⟨drainedOk, none, taken⟩ :=
            inductionHypothesis next nextOk (by omega)
          exact ⟨drainedOk, none, (taken.cons job).trans fewer.symm⟩
  exact all queue.len queue ok ok.len.ge

end FairScheduler

end Pithos.Daemon
