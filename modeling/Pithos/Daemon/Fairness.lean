import Pithos.Daemon.Scheduler

/-!
# What the fair scheduler guarantees

A history of the queue is any list of calls.  Over every history no job is lost
or made up, and the jobs of one session and priority leave in the order in which
they came.  The credits of the lanes and the cursor walk around a cycle of
twenty-four places, one for each credit; this bounds how many jobs of other
lanes go before a job of a lane that waits.
-/

namespace Pithos.Daemon

open Std
open MapValues

/-! ## Histories -/

/-- A call of the queue. -/
inductive QueueCall
  | push (job : ScheduledJob)
  | pop
  | drain
  deriving DecidableEq

namespace QueueCall

/-- The jobs that a call brings. -/
def brings : QueueCall → List ScheduledJob
  | push job => [job]
  | pop | drain => []

/-- The jobs that a call takes out, and the queue after it. -/
def perform (queue : FairScheduler) :
    QueueCall → List ScheduledJob × FairScheduler
  | push job => ([], queue.push job)
  | pop => (queue.pop.1.toList, queue.pop.2)
  | drain => queue.drain

end QueueCall

namespace FairScheduler

/-- The queue after some calls. -/
def after : FairScheduler → List QueueCall → FairScheduler
  | queue, [] => queue
  | queue, call :: calls => after (call.perform queue).2 calls

/-- The jobs that some calls take out, in their order. -/
def popped : FairScheduler → List QueueCall → List ScheduledJob
  | _, [] => []
  | queue, call :: calls =>
      (call.perform queue).1 ++ popped (call.perform queue).2 calls

/-- The jobs of a session and a lane that wait. -/
def waiting (queue : FairScheduler) (session : String) (lane : Fin 6) :
    List ScheduledJob :=
  (queue.lanes lane).queueOf session

end FairScheduler

/-- The jobs that some calls bring, in their order. -/
def pushed (calls : List QueueCall) : List ScheduledJob :=
  calls.flatMap QueueCall.brings

/-- Whether a job belongs to a session and a lane. -/
def ScheduledJob.belongs
    (session : String)
    (lane : Fin 6)
    (job : ScheduledJob) : Bool :=
  decide (job.owner.value = session ∧ priorityIndex job.priority = lane)

namespace FairScheduler

/-! ## What one call does -/

/-- Every job waits where it belongs. -/
def Homed (queue : FairScheduler) : Prop :=
  ∀ session lane, ∀ job ∈ queue.waiting session lane,
    job.belongs session lane = true

/-- The invariant of the queue. -/
structure Sound (queue : FairScheduler) : Prop where
  wellFormed : queue.WellFormed
  homed : queue.Homed

theorem sound_empty : empty.Sound where
  wellFormed := wellFormed_empty
  homed := by
    intro session lane job member
    simp [waiting, empty, PriorityLane.queueOf, PriorityLane.empty] at member

theorem waiting_push
    (queue : FairScheduler)
    (job : ScheduledJob)
    (session : String)
    (lane : Fin 6) :
    (queue.push job).waiting session lane =
      queue.waiting session lane ++ [job].filter (·.belongs session lane) := by
  unfold waiting push
  dsimp only
  by_cases isLane : lane = priorityIndex job.priority
  · subst isLane
    rw [Function.update_self, PriorityLane.queueOf_push]
    by_cases isOwner : job.owner.value = session
    · simp [isOwner, ScheduledJob.belongs]
    · simp [isOwner, ScheduledJob.belongs]
  · simp [isLane, ScheduledJob.belongs, Ne.symm isLane]

theorem waiting_takes
    {queue mid next : FairScheduler}
    {owner : String}
    {rest : List String}
    {job : ScheduledJob}
    {tail : List ScheduledJob}
    (takes : Takes queue mid owner rest job tail next)
    (homed : queue.Homed)
    (session : String)
    (lane : Fin 6) :
    queue.waiting session lane =
      [job].filter (·.belongs session lane) ++ next.waiting session lane := by
  have served := takes.lane_served
  have home := homed owner mid.cursor job (by
    unfold waiting
    rw [served.queue]
    exact List.mem_cons_self)
  rw [ScheduledJob.belongs, decide_eq_true_iff] at home
  unfold waiting
  rw [takes.lanes]
  by_cases isLane : lane = mid.cursor
  · subst isLane
    rw [Function.update_self, served.queues]
    by_cases isOwner : owner = session
    · subst isOwner
      rw [if_pos rfl, served.queue]
      simp [ScheduledJob.belongs, home]
    · simp [ScheduledJob.belongs, isOwner, home]
  · rw [Function.update_of_ne isLane]
    simp [ScheduledJob.belongs, home, Ne.symm isLane]

theorem Sound.push
    {queue : FairScheduler}
    (sound : queue.Sound)
    (job : ScheduledJob) :
    (queue.push job).Sound where
  wellFormed := sound.wellFormed.push job
  homed := by
    intro session lane other member
    rw [waiting_push, List.mem_append] at member
    rcases member with old | isNew
    · exact sound.homed session lane other old
    · exact (List.mem_filter.mp isNew).2

theorem Sound.takes
    {queue mid next : FairScheduler}
    {owner : String}
    {rest : List String}
    {job : ScheduledJob}
    {tail : List ScheduledJob}
    (sound : queue.Sound)
    (takes : Takes queue mid owner rest job tail next) :
    next.Sound where
  wellFormed := takes.wellFormed sound.wellFormed
  homed := by
    intro session lane other member
    refine sound.homed session lane other ?_
    rw [waiting_takes takes sound.homed]
    exact List.mem_append_right _ member

/-- What a call keeps: the queue stays in order, no job is lost or made up, and
the jobs of each session and lane leave in their order. -/
structure Keeps
    (queue : FairScheduler)
    (brought taken : List ScheduledJob)
    (next : FairScheduler) : Prop where
  sound : next.Sound
  jobs : (queue.jobs ++ brought).Perm (taken ++ next.jobs)
  fifo : ∀ session lane,
    queue.waiting session lane ++ brought.filter (·.belongs session lane) =
      taken.filter (·.belongs session lane) ++ next.waiting session lane

theorem Keeps.refl
    {queue : FairScheduler}
    (sound : queue.Sound) :
    Keeps queue [] [] queue where
  sound := sound
  jobs := by simp
  fifo := by simp

theorem Keeps.trans
    {queue mid next : FairScheduler}
    {brought taken broughtLater takenLater : List ScheduledJob}
    (first : Keeps queue brought taken mid)
    (second : Keeps mid broughtLater takenLater next) :
    Keeps queue (brought ++ broughtLater) (taken ++ takenLater) next where
  sound := second.sound
  jobs := by
    rw [← List.append_assoc, List.append_assoc taken]
    refine (first.jobs.append_right _).trans ?_
    rw [List.append_assoc]
    exact second.jobs.append_left _
  fifo := by
    intro session lane
    rw [List.filter_append, List.filter_append, ← List.append_assoc,
      first.fifo, List.append_assoc, second.fifo, List.append_assoc]

theorem Sound.keeps_pop
    {queue : FairScheduler}
    (sound : queue.Sound) :
    Keeps queue [] queue.pop.1.toList queue.pop.2 := by
  rcases sound.wellFormed.pop_takes with ⟨_, popped⟩ |
      ⟨mid, owner, rest, job, tail, next, takes, popped⟩
  · rw [popped]
    exact .refl sound
  · rw [popped]
    refine ⟨sound.takes takes, ?_, ?_⟩
    · rw [List.append_nil]
      exact takes.perm sound.wellFormed
    · intro session lane
      rw [List.filter_nil, List.append_nil,
        waiting_takes takes sound.homed session lane]
      rfl

theorem Sound.keeps_drainLoop
    {queue : FairScheduler}
    (sound : queue.Sound)
    (rounds : Nat) :
    Keeps queue [] (drainLoop rounds queue).1 (drainLoop rounds queue).2 := by
  induction rounds generalizing queue with
  | zero => exact .refl sound
  | succ rounds inductionHypothesis =>
      have first := sound.keeps_pop
      unfold drainLoop
      cases popped : queue.pop with
      | mk taken next =>
          rw [popped] at first
          cases taken with
          | none => exact first
          | some job => exact first.trans (inductionHypothesis first.sound)

theorem Sound.keeps_perform
    {queue : FairScheduler}
    (sound : queue.Sound)
    (call : QueueCall) :
    Keeps queue call.brings (call.perform queue).1 (call.perform queue).2 := by
  cases call with
  | push job =>
      refine ⟨sound.push job, ?_, ?_⟩
      · exact List.perm_append_comm.trans
          (sound.wellFormed.push_perm job).symm
      · intro session lane
        exact (waiting_push queue job session lane).symm
  | pop => exact sound.keeps_pop
  | drain => exact sound.keeps_drainLoop _

/-- Every history keeps the jobs. -/
theorem Sound.keeps
    {queue : FairScheduler}
    (sound : queue.Sound)
    (calls : List QueueCall) :
    Keeps queue (pushed calls) (queue.popped calls) (queue.after calls) := by
  induction calls generalizing queue with
  | nil => exact .refl sound
  | cons call calls inductionHypothesis =>
      have first := sound.keeps_perform call
      exact first.trans (inductionHypothesis first.sound)

/-! ## The search ends, whatever the bound on its rounds -/

theorem popLoop_succ
    {rounds : Nat}
    {queue : FairScheduler}
    {found : ScheduledJob × FairScheduler}
    (isFound : popLoop rounds queue = some found) :
    popLoop (rounds + 1) queue = some found := by
  induction rounds generalizing queue with
  | zero => cases isFound
  | succ rounds inductionHypothesis =>
      rw [popLoop] at isFound ⊢
      split at isFound
      case isTrue blocked =>
          rw [if_pos blocked]
          exact inductionHypothesis isFound
      case isFalse ready =>
          rw [if_neg ready]
          split at isFound
          case h_1 job next served => exact isFound
          case h_2 next served => exact inductionHypothesis isFound

theorem popLoop_add
    {rounds : Nat}
    {queue : FairScheduler}
    {found : ScheduledJob × FairScheduler}
    (isFound : popLoop rounds queue = some found)
    (more : Nat) :
    popLoop (rounds + more) queue = some found := by
  induction more with
  | zero => exact isFound
  | succ more inductionHypothesis => exact popLoop_succ inductionHypothesis

/-! ## Integrity -/

/-- What holds after a history. -/
structure Integrity (calls : List QueueCall) (queue : FairScheduler) : Prop where
  /-- No job is lost, duplicated or made up. -/
  jobs : (pushed calls).Perm (empty.popped calls ++ queue.jobs)
  /-- The counter is exact. -/
  len : queue.len = queue.jobs.length
  /-- The jobs of one session and one priority leave in their order. -/
  fifo : ∀ session lane,
    (empty.popped calls).filter (·.belongs session lane) ++
        queue.waiting session lane =
      (pushed calls).filter (·.belongs session lane)
  /-- The order of a lane lists each session with waiting jobs once. -/
  order : ∀ lane, (queue.lanes lane).order.Nodup ∧
    ∀ session, session ∈ (queue.lanes lane).order ↔
      queue.waiting session lane ≠ []
  /-- The search for a job ends. -/
  ends : queue.len ≠ 0 →
    ∃ found, ∀ more, popLoop (popRounds + more) queue = some found
  /-- A job comes out exactly when there is one. -/
  pop : queue.pop.1.isSome ↔ queue.jobs ≠ []
  /-- Draining ends with an empty queue. -/
  drain : queue.drain.2.jobs = []

theorem WellFormed.mem_order_iff
    {queue : FairScheduler}
    (ok : queue.WellFormed)
    {lane : Fin 6}
    {session : String} :
    session ∈ (queue.lanes lane).order ↔ queue.waiting session lane ≠ [] := by
  refine ⟨(ok.lanes lane).nonempty session, fun nonempty => ?_⟩
  refine (ok.lanes lane).listed session ?_
  unfold waiting PriorityLane.queueOf at nonempty
  cases found : (queue.lanes lane).sessions[session]? with
  | none => rw [found] at nonempty; exact absurd rfl nonempty
  | some jobs => rfl

end FairScheduler

/-- The fair queue neither loses a job nor makes one up, keeps the order within
a session and a priority, and always finds a job when it has one. -/
theorem fairScheduler_integrity (calls : List QueueCall) :
    FairScheduler.Integrity calls (FairScheduler.empty.after calls) := by
  have keeps := FairScheduler.sound_empty.keeps calls
  have ok := keeps.sound.wellFormed
  have nothing : FairScheduler.empty.jobs = [] :=
    FairScheduler.wellFormed_empty.isEmpty_iff.mp rfl
  refine ⟨?_, ok.len, ?_, ?_, ?_, ?_, ok.drain.2.1⟩
  · have jobs := keeps.jobs
    rwa [nothing, List.nil_append] at jobs
  · intro session lane
    rw [← keeps.fifo session lane]
    rfl
  · intro lane
    exact ⟨(ok.lanes lane).nodup, fun session => ok.mem_order_iff⟩
  · intro nonempty
    rcases ok.pop_takes with ⟨none, _⟩ |
        ⟨_, _, _, job, _, next, _, popped⟩
    · rw [ok.len, none] at nonempty
      exact absurd rfl nonempty
    · refine ⟨(job, next), FairScheduler.popLoop_add ?_⟩
      rw [FairScheduler.pop, if_neg nonempty] at popped
      cases search : FairScheduler.popLoop FairScheduler.popRounds
          (FairScheduler.empty.after calls) with
      | none => simp [search] at popped
      | some found =>
          obtain ⟨foundJob, foundNext⟩ := found
          simp only [search, Prod.mk.injEq, Option.some.injEq] at popped
          rw [popped.1, popped.2]
  · rcases ok.pop_cases with ⟨none, popped⟩ | ⟨job, next, popped, _, fewer⟩
    · simp [popped, none]
    · rw [popped]
      refine iff_of_true rfl ?_
      intro none
      rw [none] at fewer
      exact absurd fewer.length_eq (by simp)

namespace FairScheduler

/-! ## The cycle of credits -/

/-- The credits of the lanes strictly between two lanes on the way around. -/
def between (start goal : Fin 6) : Nat :=
  (((List.finRange 6).filter fun lane =>
    0 < (lane - start).val ∧ (lane - start).val < (goal - start).val).map
    priorityWeights).sum

theorem between_next
    {cursor lane : Fin 6}
    (different : cursor ≠ lane) :
    between cursor lane =
      if cursor + 1 = lane then 0
      else priorityWeights (cursor + 1) + between (cursor + 1) lane := by
  revert cursor lane
  decide

theorem between_le
    {cursor lane : Fin 6}
    (different : cursor ≠ lane) :
    priorityWeights cursor + between cursor lane + priorityWeights lane ≤
      24 := by
  revert cursor lane
  decide

/-- How many jobs of other lanes may go before one of a lane, when the cursor
has some credits left. -/
def bypass (lane cursor : Fin 6) (left : Nat) : Nat :=
  if cursor = lane then 0 else left + between cursor lane

theorem bypass_next
    {lane cursor : Fin 6}
    (different : cursor ≠ lane)
    (left : Nat) :
    bypass lane (cursor + 1) (priorityWeights (cursor + 1)) + left =
      bypass lane cursor left := by
  unfold bypass
  rw [if_neg different, between_next different]
  split <;> omega

theorem bypass_le
    {lane cursor : Fin 6}
    {left : Nat}
    (bounded : left ≤ priorityWeights cursor) :
    bypass lane cursor left + priorityWeights lane ≤ 24 := by
  unfold bypass
  split
  case isTrue same =>
      have small : ∀ lane, priorityWeights lane ≤ 24 := by decide
      rw [Nat.zero_add]
      exact small lane
  case isFalse different =>
      have total := between_le different
      omega

/-- The lanes behind the cursor have spent their credits and the lanes ahead
have all of theirs. -/
structure Paced (queue : FairScheduler) (cursor : Fin 6) (left : Nat) :
    Prop where
  atCursor : queue.renew.cursor = cursor
  credits : ∀ lane, queue.renew.credits lane =
    if lane < cursor then 0
    else if lane = cursor then left else priorityWeights lane
  positive : 0 < left
  bounded : left ≤ priorityWeights cursor

theorem paced_empty : Paced empty 0 (priorityWeights 0) := by
  have renewed : empty.renew = empty :=
    @renew_of_credit empty 0 (priorityWeights_ne_zero 0)
  refine ⟨?_, ?_, by decide, Nat.le_refl _⟩
  · rw [renewed]
    rfl
  · rw [renewed]
    intro lane
    change priorityWeights lane = _
    revert lane
    decide

/-- A lane with credits left at the cursor. -/
theorem Paced.of_left
    {queue : FairScheduler}
    {left : Nat}
    (credits : ∀ lane, queue.credits lane =
      if lane < queue.cursor then 0
      else if lane = queue.cursor then left else priorityWeights lane)
    (positive : 0 < left)
    (bounded : left ≤ priorityWeights queue.cursor) :
    Paced queue queue.cursor left := by
  have renewed : queue.renew = queue := by
    refine @renew_of_credit queue queue.cursor ?_
    rw [credits, if_neg (Fin.lt_irrefl _), if_pos rfl]
    exact Nat.ne_of_gt positive
  refine ⟨?_, ?_, positive, bounded⟩
  · rw [renewed]
  · rw [renewed]
    exact credits

/-- A cursor that goes on to the next lane, maybe around. -/
theorem Paced.of_spent
    {queue : FairScheduler}
    {cursor : Fin 6}
    (isCursor : queue.cursor = cursor + 1)
    (credits : ∀ lane, queue.credits lane =
      if lane ≤ cursor then 0 else priorityWeights lane) :
    Paced queue (cursor + 1) (priorityWeights (cursor + 1)) := by
  by_cases last : cursor = 5
  · subst last
    have renewed : queue.renew =
        { queue with credits := priorityWeights, cursor := 0 } := by
      refine if_pos fun lane => ?_
      rw [credits]
      exact if_pos (Fin.le_last lane)
    refine ⟨?_, ?_, by decide, Nat.le_refl _⟩
    · rw [renewed]
      rfl
    · rw [renewed]
      change ∀ lane, priorityWeights lane = _
      decide
  · have ahead : ∀ cursor : Fin 6, cursor ≠ 5 → ∀ lane : Fin 6,
        (if lane ≤ cursor then 0 else priorityWeights lane) =
          if lane < cursor + 1 then 0
          else if lane = cursor + 1 then priorityWeights (cursor + 1)
          else priorityWeights lane := by
      decide
    have paced := @Paced.of_left queue (priorityWeights (cursor + 1)) (by
      intro lane
      rw [credits, isCursor, ahead cursor last])
      (Nat.pos_of_ne_zero (priorityWeights_ne_zero _)) (by rw [isCursor])
    rwa [isCursor] at paced

theorem Paced.renew
    {queue : FairScheduler}
    {cursor : Fin 6}
    {left : Nat}
    (paced : Paced queue cursor left) :
    Paced queue.renew cursor left := by
  refine ⟨?_, ?_, paced.positive, paced.bounded⟩
  · rw [renew_renew]
    exact paced.atCursor
  · rw [renew_renew]
    exact paced.credits

/-- Only the cursor and the credits matter. -/
theorem Paced.congr
    {queue other : FairScheduler}
    {cursor : Fin 6}
    {left : Nat}
    (paced : Paced queue cursor left)
    (sameCursor : other.cursor = queue.cursor)
    (sameCredits : other.credits = queue.credits) :
    Paced other cursor left := by
  have same : other.renew.cursor = queue.renew.cursor ∧
      other.renew.credits = queue.renew.credits := by
    unfold FairScheduler.renew
    rw [sameCredits]
    split
    · exact ⟨rfl, rfl⟩
    · exact ⟨sameCursor, sameCredits⟩
  refine ⟨?_, ?_, paced.positive, paced.bounded⟩
  · rw [same.1]
    exact paced.atCursor
  · rw [same.2]
    exact paced.credits

theorem Paced.skip
    {queue : FairScheduler}
    {cursor : Fin 6}
    {left : Nat}
    (paced : Paced queue cursor left) :
    Paced queue.renew.skip (cursor + 1) (priorityWeights (cursor + 1)) := by
  refine Paced.of_spent ?_ ?_
  · change queue.renew.cursor + 1 = cursor + 1
    rw [paced.atCursor]
  · intro lane
    change Function.update queue.renew.credits queue.renew.cursor 0 lane = _
    rw [paced.atCursor]
    by_cases isCursor : lane = cursor
    · subst isCursor
      simp
    · rw [Function.update_of_ne isCursor, paced.credits, if_neg isCursor]
      simp only [Fin.lt_iff_le_and_ne, ne_eq, isCursor, not_false_eq_true,
        and_true]

/-- Serving a lane uses one of its credits. -/
theorem Paced.serve
    {queue : FairScheduler}
    {cursor : Fin 6}
    {left : Nat}
    (paced : Paced queue cursor left)
    (current : queue.renew = queue)
    {lane : Fin 6} :
    ∃ nextCursor nextLeft, Paced queue.serve.2 nextCursor nextLeft ∧
      (cursor ≠ lane →
        bypass lane nextCursor nextLeft + 1 = bypass lane cursor left) := by
  have isCursor : queue.cursor = cursor := by
    rw [← paced.atCursor, current]
  have credits := paced.credits
  rw [current] at credits
  have here : queue.credits cursor = left := by
    rw [credits, if_neg (Fin.lt_irrefl _), if_pos rfl]
  by_cases isLast : left = 1
  · subst isLast
    refine ⟨cursor + 1, priorityWeights (cursor + 1), Paced.of_spent ?_ ?_,
      fun different => bypass_next different 1⟩
    · simp [FairScheduler.serve, isCursor, here]
    · intro other
      simp only [FairScheduler.serve, isCursor, here]
      by_cases same : other = cursor
      · subst same
        simp
      · rw [Function.update_of_ne same, credits, if_neg same]
        simp only [Fin.lt_iff_le_and_ne, ne_eq, same, not_false_eq_true,
          and_true]
  · have positive := paced.positive
    have bounded := paced.bounded
    have served : queue.serve.2.cursor = cursor := by
      have more : left - 1 ≠ 0 := by omega
      simp [FairScheduler.serve, isCursor, here, more]
    refine ⟨cursor, left - 1, ?_, ?_⟩
    · have left := @Paced.of_left queue.serve.2 (left - 1) (by
        intro other
        rw [served]
        simp only [FairScheduler.serve, isCursor, here]
        by_cases same : other = cursor
        · subst same
          simp
        · rw [Function.update_of_ne same, credits, if_neg same, if_neg same])
        (by omega) (by rw [served]; omega)
      rwa [served] at left
    · intro different
      unfold bypass
      rw [if_neg different, if_neg different]
      omega

/-- Passing lanes does not use up more than their credits. -/
theorem Paced.passes
    {queue mid : FairScheduler}
    {cursor lane : Fin 6}
    {left : Nat}
    (paced : Paced queue cursor left)
    (passes : Passes queue mid)
    (used : (queue.lanes lane).isEmpty = false) :
    mid.renew = mid ∧ ∃ left', Paced mid mid.cursor left' ∧
      bypass lane mid.cursor left' ≤ bypass lane cursor left := by
  induction passes generalizing cursor left with
  | here queue =>
      refine ⟨queue.renew_renew, left, ?_, ?_⟩
      · rw [paced.atCursor]
        exact paced.renew
      · rw [paced.atCursor]
  | @skip queue mid notReady later inductionHypothesis =>
      have different : cursor ≠ lane := by
        rintro rfl
        refine notReady ⟨?_, ?_⟩
        · rw [paced.atCursor, paced.credits, if_neg (Fin.lt_irrefl _),
            if_pos rfl]
          exact Nat.ne_of_gt paced.positive
        · rw [renew_lanes, paced.atCursor]
          exact used
      have usedLater : (queue.renew.skip.lanes lane).isEmpty = false := by
        change (queue.renew.lanes lane).isEmpty = false
        rwa [renew_lanes]
      obtain ⟨current, left', pacedMid, fewer⟩ :=
        inductionHypothesis paced.skip usedLater
      refine ⟨current, left', pacedMid, fewer.trans ?_⟩
      have spent := bypass_next different left
      omega

/-- Taking a job of another lane brings a waiting lane nearer. -/
theorem Paced.takes
    {queue mid next : FairScheduler}
    {owner : String}
    {rest : List String}
    {job : ScheduledJob}
    {tail : List ScheduledJob}
    {cursor lane : Fin 6}
    {left : Nat}
    (paced : Paced queue cursor left)
    (takes : Takes queue mid owner rest job tail next)
    (used : (queue.lanes lane).isEmpty = false) :
    ∃ nextCursor nextLeft, Paced next nextCursor nextLeft ∧
      (mid.cursor ≠ lane →
        bypass lane nextCursor nextLeft + 1 ≤ bypass lane cursor left) := by
  obtain ⟨current, left', pacedMid, fewer⟩ := paced.passes takes.passes used
  obtain ⟨nextCursor, nextLeft, pacedNext, one⟩ :=
    @Paced.serve mid mid.cursor left' pacedMid current lane
  refine ⟨nextCursor, nextLeft, pacedNext.congr ?_ ?_, fun different => ?_⟩
  · rw [takes.isNext]
  · rw [takes.isNext]
  · have exactly := one different
    omega

theorem Takes.lane_eq
    {queue mid next : FairScheduler}
    {owner : String}
    {rest : List String}
    {job : ScheduledJob}
    {tail : List ScheduledJob}
    (takes : Takes queue mid owner rest job tail next)
    (homed : queue.Homed) :
    job.owner.value = owner ∧ priorityIndex job.priority = mid.cursor := by
  have home := homed owner mid.cursor job (by
    unfold waiting
    rw [takes.lane_served.queue]
    exact List.mem_cons_self)
  rwa [ScheduledJob.belongs, decide_eq_true_iff] at home

/-- A lane in use stays in use when a job comes in. -/
theorem isEmpty_push
    {queue : FairScheduler}
    {lane : Fin 6}
    (used : (queue.lanes lane).isEmpty = false)
    (job : ScheduledJob) :
    ((queue.push job).lanes lane).isEmpty = false := by
  unfold push
  dsimp only
  by_cases isLane : lane = priorityIndex job.priority
  · subst isLane
    rw [Function.update_self]
    unfold PriorityLane.push PriorityLane.isEmpty
    dsimp only
    split
    case isTrue present => exact used
    case isFalse absent => simp
  · rwa [Function.update_of_ne isLane]

/-- Every history leaves the credits in step with the cursor. -/
theorem exists_paced
    {queue : FairScheduler}
    (sound : queue.Sound)
    {cursor : Fin 6}
    {left : Nat}
    (paced : Paced queue cursor left)
    (calls : List QueueCall) :
    ∃ cursor left, Paced (queue.after calls) cursor left := by
  have pop {queue : FairScheduler} (sound : queue.Sound)
      (paced : ∃ cursor left, Paced queue cursor left) :
      ∃ cursor left, Paced queue.pop.2 cursor left := by
    obtain ⟨cursor, left, paced⟩ := paced
    rcases sound.wellFormed.pop_takes with ⟨_, popped⟩ |
        ⟨mid, owner, rest, job, tail, next, takes, popped⟩
    · rw [popped]
      exact ⟨cursor, left, paced⟩
    · rw [popped]
      have used := takes.ready.2
      rw [takes.passes.lanes.1] at used
      obtain ⟨nextCursor, nextLeft, pacedNext, _⟩ := paced.takes takes used
      exact ⟨nextCursor, nextLeft, pacedNext⟩
  have drain (rounds : Nat) {queue : FairScheduler} (sound : queue.Sound)
      (paced : ∃ cursor left, Paced queue cursor left) :
      ∃ cursor left, Paced (drainLoop rounds queue).2 cursor left := by
    induction rounds generalizing queue with
    | zero => exact paced
    | succ rounds inductionHypothesis =>
        have popSound := sound.keeps_pop.sound
        have popPaced := pop sound paced
        unfold drainLoop
        cases popped : queue.pop with
        | mk taken next =>
            rw [popped] at popSound popPaced
            cases taken with
            | none => exact popPaced
            | some job => exact inductionHypothesis popSound popPaced
  induction calls generalizing queue cursor left with
  | nil => exact ⟨cursor, left, paced⟩
  | cons call calls inductionHypothesis =>
      have nextSound := (sound.keeps_perform call).sound
      cases call with
      | push job =>
          exact inductionHypothesis nextSound (paced.congr rfl rfl)
      | pop =>
          obtain ⟨_, _, pacedNext⟩ := pop sound ⟨cursor, left, paced⟩
          exact inductionHypothesis nextSound pacedNext
      | drain =>
          obtain ⟨_, _, pacedNext⟩ :=
            drain queue.len sound ⟨cursor, left, paced⟩
          exact inductionHypothesis nextSound pacedNext

/-- While a lane waits, the jobs of other lanes that go first are bounded. -/
theorem Paced.stretch
    {queue : FairScheduler}
    {cursor lane : Fin 6}
    {left : Nat}
    (paced : Paced queue cursor left)
    (sound : queue.Sound)
    (used : (queue.lanes lane).isEmpty = false)
    {calls : List QueueCall}
    (noDrain : .drain ∉ calls)
    (elsewhere : ∀ job ∈ queue.popped calls,
      priorityIndex job.priority ≠ lane) :
    (queue.popped calls).length ≤ bypass lane cursor left := by
  induction calls generalizing queue cursor left with
  | nil => exact Nat.zero_le _
  | cons call calls inductionHypothesis =>
      have nextSound := (sound.keeps_perform call).sound
      rw [List.mem_cons, not_or] at noDrain
      simp only [popped, List.mem_append] at elsewhere
      have later : ∀ job ∈ (call.perform queue).2.popped calls,
          priorityIndex job.priority ≠ lane :=
        fun job member => elsewhere job (Or.inr member)
      cases call with
      | push job =>
          exact inductionHypothesis (paced.congr rfl rfl) nextSound
            (isEmpty_push used job) noDrain.2 later
      | pop =>
          rcases sound.wellFormed.pop_takes with ⟨_, isPopped⟩ |
              ⟨mid, owner, rest, job, tail, next, takes, isPopped⟩
          · simp only [QueueCall.perform, isPopped] at nextSound later
            simp only [popped, QueueCall.perform, isPopped, Option.toList_none,
              List.nil_append]
            exact inductionHypothesis paced nextSound used noDrain.2 later
          · have isJob : priorityIndex job.priority ≠ lane := by
              refine elsewhere job (Or.inl ?_)
              simp [QueueCall.perform, isPopped]
            rw [(takes.lane_eq sound.homed).2] at isJob
            obtain ⟨nextCursor, nextLeft, pacedNext, nearer⟩ :=
              paced.takes takes used
            have usedNext : (next.lanes lane).isEmpty = false := by
              rw [takes.lanes, Function.update_of_ne isJob.symm]
              exact used
            simp only [QueueCall.perform, isPopped] at nextSound later
            simp only [popped, QueueCall.perform, isPopped,
              Option.toList_some, List.length_append, List.length_singleton]
            have rest := inductionHypothesis pacedNext nextSound usedNext
              noDrain.2 later
            have one := nearer isJob
            omega
      | drain => exact absurd rfl noDrain.1

/-! ## The order of the sessions of a lane -/

/-- What a call does to the order of a lane. -/
inductive OrderMoves (order : List String) :
    List String → List String → Prop
  | same : OrderMoves order [] order
  | joins (session : String) (isNew : session ∉ order) :
      OrderMoves order [] (order ++ [session])
  | leaves (session : String) (rest : List String)
      (isFirst : order = session :: rest) :
      OrderMoves order [session] rest
  | turns (session : String) (rest : List String)
      (isFirst : order = session :: rest) :
      OrderMoves order [session] (rest ++ [session])

/-- The sessions whose jobs of a lane were taken, in their order. -/
def servedSessions (lane : Fin 6) (jobs : List ScheduledJob) : List String :=
  (jobs.filter fun job =>
    decide (priorityIndex job.priority = lane)).map (·.owner.value)

theorem servedSessions_append
    (lane : Fin 6)
    (first second : List ScheduledJob) :
    servedSessions lane (first ++ second) =
      servedSessions lane first ++ servedSessions lane second := by
  simp [servedSessions]

theorem Takes.orderMoves
    {queue mid next : FairScheduler}
    {owner : String}
    {rest : List String}
    {job : ScheduledJob}
    {tail : List ScheduledJob}
    (takes : Takes queue mid owner rest job tail next)
    (homed : queue.Homed)
    (lane : Fin 6) :
    OrderMoves (queue.lanes lane).order (servedSessions lane [job])
      (next.lanes lane).order := by
  obtain ⟨isOwner, isLane⟩ := takes.lane_eq homed
  rw [takes.lanes]
  by_cases isCursor : lane = mid.cursor
  · subst isCursor
    have isServed : servedSessions mid.cursor [job] = [owner] := by
      simp [servedSessions, isLane, isOwner]
    rw [Function.update_self, isServed, takes.lane_served.nextOrder]
    split
    · exact .leaves owner rest takes.lane_served.order
    · exact .turns owner rest takes.lane_served.order
  · have notServed : servedSessions lane [job] = [] := by
      simp [servedSessions, isLane, Ne.symm isCursor]
    rw [Function.update_of_ne isCursor, notServed]
    exact .same

theorem Sound.orderMoves
    {queue : FairScheduler}
    (sound : queue.Sound)
    {call : QueueCall}
    (noDrain : call ≠ .drain)
    (lane : Fin 6) :
    OrderMoves (queue.lanes lane).order
      (servedSessions lane (call.perform queue).1)
      ((call.perform queue).2.lanes lane).order := by
  cases call with
  | push job =>
      change OrderMoves _ [] ((queue.push job).lanes lane).order
      unfold FairScheduler.push
      dsimp only
      by_cases isLane : lane = priorityIndex job.priority
      · subst isLane
        rw [Function.update_self]
        unfold PriorityLane.push
        dsimp only
        split
        case isTrue present => exact .same
        case isFalse absent =>
            exact .joins _ (mt (sound.wellFormed.lanes _).isSome_iff.mpr
              absent)
      · rw [Function.update_of_ne isLane]
        exact .same
  | pop =>
      rcases sound.wellFormed.pop_takes with ⟨_, isPopped⟩ |
          ⟨mid, owner, rest, job, tail, next, takes, isPopped⟩
      · simp only [QueueCall.perform, isPopped]
        exact .same
      · simp only [QueueCall.perform, isPopped]
        exact takes.orderMoves sound.homed lane
  | drain => exact absurd rfl noDrain

section Sessions

variable
  {first other : String}
  (different : other ≠ first)
  {order taken next : List String}
  (moves : OrderMoves order taken next)
  (notFirst : first ∉ taken)

include different moves notFirst

/-- A session that waits ahead of another one is served, or stays ahead. -/
theorem OrderMoves.ahead
    (member : other ∈ order)
    (ahead : first ∉ order ∨ [other, first].Sublist order) :
    1 ≤ taken.count other ∨ first ∉ next ∨ [other, first].Sublist next := by
  cases moves with
  | same => exact Or.inr ahead
  | joins session isNew =>
      refine Or.inr ?_
      rcases ahead with absent | isAhead
      · by_cases isFirst : session = first
        · subst isFirst
          exact Or.inr ((List.singleton_sublist.mpr member).append
            (List.Sublist.refl [session]))
        · exact Or.inl (by simp [absent, Ne.symm isFirst])
      · exact Or.inr (isAhead.trans (List.sublist_append_left _ _))
  | leaves session rest isOrder =>
      subst isOrder
      by_cases isOther : session = other
      · exact Or.inl (by simp [isOther])
      · refine Or.inr (ahead.imp ?_ ?_)
        · intro absent inRest
          exact absent (List.mem_cons_of_mem _ inRest)
        · intro isAhead
          exact (List.sublist_cons_iff.mp isAhead).resolve_right
            (by simp [Ne.symm isOther])
  | turns session rest isOrder =>
      subst isOrder
      by_cases isOther : session = other
      · exact Or.inl (by simp [isOther])
      · refine Or.inr (ahead.imp ?_ ?_)
        · intro absent inNext
          refine absent ?_
          simpa [or_comm] using inNext
        · intro isAhead
          have inRest := (List.sublist_cons_iff.mp isAhead).resolve_right
            (by simp [Ne.symm isOther])
          exact inRest.trans (List.sublist_append_left _ _)

/-- A session ahead of another one that stays is served once and is behind it
from then on. -/
theorem OrderMoves.once
    (nodup : order.Nodup)
    (stays : first ∈ order)
    (otherStays : other ∈ next) :
    ([other, first].Sublist order →
      taken.count other = 0 ∧ [other, first].Sublist next ∨
        taken.count other = 1 ∧ [first, other].Sublist next) ∧
    ([first, other].Sublist order →
      taken.count other = 0 ∧ [first, other].Sublist next) := by
  cases moves with
  | same => exact ⟨fun ahead => Or.inl ⟨rfl, ahead⟩, fun behind => ⟨rfl, behind⟩⟩
  | joins session isNew =>
      have longer := List.sublist_append_left order [session]
      exact ⟨fun ahead => Or.inl ⟨rfl, ahead.trans longer⟩,
        fun behind => ⟨rfl, behind.trans longer⟩⟩
  | leaves session rest isOrder =>
      subst isOrder
      have notSession : session ≠ first := by
        rintro rfl
        exact notFirst (List.mem_singleton_self _)
      have notOther : session ≠ other := by
        rintro rfl
        exact (List.nodup_cons.mp nodup).1 otherStays
      refine ⟨fun ahead => Or.inl ⟨by simp [notOther], ?_⟩,
        fun behind => ⟨by simp [notOther], ?_⟩⟩
      · exact (List.sublist_cons_iff.mp ahead).resolve_right
          (by simp [Ne.symm notOther])
      · exact (List.sublist_cons_iff.mp behind).resolve_right
          (by simp [Ne.symm notSession])
  | turns session rest isOrder =>
      subst isOrder
      have notSession : session ≠ first := by
        rintro rfl
        exact notFirst (List.mem_singleton_self _)
      have longer := List.sublist_append_left rest [session]
      refine ⟨fun ahead => ?_, fun behind => ?_⟩
      · by_cases isOther : session = other
        · subst isOther
          refine Or.inr ⟨by simp, ?_⟩
          have inRest : first ∈ rest :=
            (List.mem_cons.mp stays).resolve_left (Ne.symm notSession)
          exact (List.singleton_sublist.mpr inRest).append
            (List.Sublist.refl [session])
        · refine Or.inl ⟨by simp [isOther], ?_⟩
          exact ((List.sublist_cons_iff.mp ahead).resolve_right
            (by simp [Ne.symm isOther])).trans longer
      · have inRest := (List.sublist_cons_iff.mp behind).resolve_right
          (by simp [Ne.symm notSession])
        have notOther : session ≠ other := by
          rintro rfl
          refine (List.nodup_cons.mp nodup).1 (inRest.subset ?_)
          simp
        exact ⟨by simp [notOther], inRest.trans longer⟩

end Sessions

/-! ## Bounded bypass -/

/-- A property of the queue holds all along some calls. -/
def Throughout (holds : FairScheduler → Prop) :
    FairScheduler → List QueueCall → Prop
  | queue, [] => holds queue
  | queue, call :: calls =>
      holds queue ∧ Throughout holds (call.perform queue).2 calls

theorem Throughout.here
    {holds : FairScheduler → Prop}
    {queue : FairScheduler}
    {calls : List QueueCall}
    (throughout : Throughout holds queue calls) :
    holds queue := by
  cases calls with
  | nil => exact throughout
  | cons call calls => exact throughout.1

/-- How long the others go first. -/
structure BoundedBypass (queue : FairScheduler) : Prop where
  /-- While a lane waits, the jobs that other lanes give up before it are at
  most as many as the other lanes have credits. -/
  lanes : ∀ lane stretch, QueueCall.drain ∉ stretch →
    (queue.lanes lane).isEmpty = false →
    (∀ job ∈ queue.popped stretch, priorityIndex job.priority ≠ lane) →
    (queue.popped stretch).length ≤ 24 - priorityWeights lane
  /-- Between two jobs of one session in a lane, every other session that waits
  there throughout gives up a job, and exactly one when the first session waits
  throughout as well. -/
  sessions : ∀ lane stretch first again other, QueueCall.drain ∉ stretch →
    queue.pop.1 = some first →
    priorityIndex first.priority = lane →
    (queue.pop.2.after stretch).pop.1 = some again →
    priorityIndex again.priority = lane →
    again.owner = first.owner →
    first.owner.value ∉ servedSessions lane (queue.pop.2.popped stretch) →
    other ≠ first.owner.value →
    Throughout (fun queue => queue.waiting other lane ≠ []) queue.pop.2
      stretch →
    1 ≤ (servedSessions lane (queue.pop.2.popped stretch)).count other ∧
      (Throughout (fun queue => queue.waiting first.owner.value lane ≠ [])
          queue.pop.2 stretch →
        (servedSessions lane (queue.pop.2.popped stretch)).count other = 1)

section Stretch

variable
  {lane : Fin 6}
  {first other : String}
  (different : other ≠ first)

include different

theorem Sound.ahead_stretch
    {queue : FairScheduler}
    (sound : queue.Sound)
    {stretch : List QueueCall}
    (noDrain : .drain ∉ stretch)
    (notFirst : first ∉ servedSessions lane (queue.popped stretch))
    (waits : Throughout (fun queue => queue.waiting other lane ≠ []) queue
      stretch)
    (ahead : first ∉ (queue.lanes lane).order ∨
      [other, first].Sublist (queue.lanes lane).order) :
    1 ≤ (servedSessions lane (queue.popped stretch)).count other ∨
      first ∉ ((queue.after stretch).lanes lane).order ∨
      [other, first].Sublist ((queue.after stretch).lanes lane).order := by
  induction stretch generalizing queue with
  | nil => exact Or.inr ahead
  | cons call calls inductionHypothesis =>
      rw [List.mem_cons, not_or] at noDrain
      rw [popped, servedSessions_append, List.mem_append, not_or] at notFirst
      rw [popped, servedSessions_append, List.count_append]
      have member := sound.wellFormed.mem_order_iff.mpr waits.1
      rcases (sound.orderMoves (Ne.symm noDrain.1) lane).ahead different
          notFirst.1 member ahead with one | later
      · exact Or.inl (Nat.le_add_right_of_le one)
      · rcases inductionHypothesis (sound.keeps_perform call).sound noDrain.2
            notFirst.2 waits.2 later with one | last
        · exact Or.inl (Nat.le_add_left_of_le one)
        · exact Or.inr last

theorem Sound.once_stretch
    {queue : FairScheduler}
    (sound : queue.Sound)
    {stretch : List QueueCall}
    (noDrain : .drain ∉ stretch)
    (notFirst : first ∉ servedSessions lane (queue.popped stretch))
    (waits : Throughout (fun queue => queue.waiting other lane ≠ []) queue
      stretch)
    (stays : Throughout (fun queue => queue.waiting first lane ≠ []) queue
      stretch) :
    ([other, first].Sublist (queue.lanes lane).order →
      (servedSessions lane (queue.popped stretch)).count other = 0 ∧
          [other, first].Sublist ((queue.after stretch).lanes lane).order ∨
        (servedSessions lane (queue.popped stretch)).count other = 1) ∧
    ([first, other].Sublist (queue.lanes lane).order →
      (servedSessions lane (queue.popped stretch)).count other = 0) := by
  induction stretch generalizing queue with
  | nil => exact ⟨fun ahead => Or.inl ⟨rfl, ahead⟩, fun _ => rfl⟩
  | cons call calls inductionHypothesis =>
      rw [List.mem_cons, not_or] at noDrain
      rw [popped, servedSessions_append, List.mem_append, not_or] at notFirst
      rw [popped, servedSessions_append, List.count_append]
      have nextSound := (sound.keeps_perform call).sound
      obtain ⟨moveAhead, moveBehind⟩ :=
        (sound.orderMoves (Ne.symm noDrain.1) lane).once different notFirst.1
          (sound.wellFormed.lanes lane).nodup
          (sound.wellFormed.mem_order_iff.mpr stays.1)
          (nextSound.wellFormed.mem_order_iff.mpr waits.2.here)
      obtain ⟨restAhead, restBehind⟩ := inductionHypothesis nextSound noDrain.2
        notFirst.2 waits.2 stays.2
      refine ⟨fun ahead => ?_, fun behind => ?_⟩
      · rcases moveAhead ahead with ⟨none, isAhead⟩ | ⟨one, isBehind⟩
        · rcases restAhead isAhead with ⟨noneLater, last⟩ | oneLater
          · exact Or.inl ⟨by omega, last⟩
          · exact Or.inr (by omega)
        · exact Or.inr (by rw [one, restBehind isBehind])
      · obtain ⟨none, isBehind⟩ := moveBehind behind
        rw [none, restBehind isBehind]

end Stretch

/-- A job that is popped from a lane comes from the first session of its
order. -/
theorem Sound.pop_order
    {queue : FairScheduler}
    (sound : queue.Sound)
    {job : ScheduledJob}
    (isPopped : queue.pop.1 = some job) :
    ∃ rest, (queue.lanes (priorityIndex job.priority)).order =
        job.owner.value :: rest ∧
      ((queue.pop.2.lanes (priorityIndex job.priority)).order = rest ∨
        (queue.pop.2.lanes (priorityIndex job.priority)).order =
          rest ++ [job.owner.value]) := by
  rcases sound.wellFormed.pop_takes with ⟨_, popped⟩ |
      ⟨mid, owner, rest, taken, tail, next, takes, popped⟩
  · rw [popped] at isPopped
    cases isPopped
  · rw [popped] at isPopped ⊢
    cases isPopped
    obtain ⟨rfl, isLane⟩ := takes.lane_eq sound.homed
    rw [isLane]
    refine ⟨rest, takes.lane_served.order, ?_⟩
    rw [takes.lane_served.nextOrder]
    split
    · exact Or.inl rfl
    · exact Or.inr rfl

end FairScheduler

/-- The others go first only for so long, over every history. -/
theorem fairScheduler_boundedBypass (calls : List QueueCall) :
    (FairScheduler.empty.after calls).BoundedBypass := by
  have sound := (FairScheduler.sound_empty.keeps calls).sound
  generalize isQueue : FairScheduler.empty.after calls = queue at sound
  refine ⟨?_, ?_⟩
  · intro lane stretch noDrain used elsewhere
    obtain ⟨cursor, left, paced⟩ := FairScheduler.exists_paced
      FairScheduler.sound_empty FairScheduler.paced_empty calls
    rw [isQueue] at paced
    have short := paced.stretch sound used noDrain elsewhere
    have bound := @FairScheduler.bypass_le lane cursor left paced.bounded
    omega
  · intro lane stretch first again other noDrain isFirst isLane isAgain
      againLane sameOwner notFirst different waits
    subst isLane
    have popSound := sound.keeps_pop.sound
    obtain ⟨rest, order, nextOrder⟩ := sound.pop_order isFirst
    have nodup := (sound.wellFormed.lanes (priorityIndex first.priority)).nodup
    rw [order] at nodup
    have firstNotIn := (List.nodup_cons.mp nodup).1
    -- the order from which the first session is served again
    have lastSound := (popSound.keeps stretch).sound
    obtain ⟨last, lastOrder, _⟩ := lastSound.pop_order isAgain
    rw [againLane, sameOwner] at lastOrder
    have lastNodup := (lastSound.wellFormed.lanes
      (priorityIndex first.priority)).nodup
    rw [lastOrder] at lastNodup
    have notAhead : ¬[other, first.owner.value].Sublist
        (first.owner.value :: last) := by
      intro isAhead
      have inLast := (List.sublist_cons_iff.mp isAhead).resolve_right
        (by simp [different])
      exact (List.nodup_cons.mp lastNodup).1 (inLast.subset (by simp))
    have otherMember := popSound.wellFormed.mem_order_iff.mpr waits.here
    constructor
    · have ahead : first.owner.value ∉
          (queue.pop.2.lanes (priorityIndex first.priority)).order ∨
          [other, first.owner.value].Sublist
            (queue.pop.2.lanes (priorityIndex first.priority)).order := by
        rcases nextOrder with left | turned
        · exact Or.inl (by rwa [left])
        · refine Or.inr ?_
          rw [turned] at otherMember ⊢
          have inRest : other ∈ rest := by
            simpa [different] using otherMember
          exact (List.singleton_sublist.mpr inRest).append
            (List.Sublist.refl _)
      rcases popSound.ahead_stretch different noDrain notFirst waits ahead with
        one | absent | isAhead
      · exact one
      · rw [lastOrder] at absent
        exact absurd List.mem_cons_self absent
      · rw [lastOrder] at isAhead
        exact absurd isAhead notAhead
    · intro stays
      have ahead : [other, first.owner.value].Sublist
          (queue.pop.2.lanes (priorityIndex first.priority)).order := by
        have firstMember := popSound.wellFormed.mem_order_iff.mpr stays.here
        rcases nextOrder with left | turned
        · rw [left] at firstMember
          exact absurd firstMember firstNotIn
        · rw [turned] at otherMember ⊢
          have inRest : other ∈ rest := by
            simpa [different] using otherMember
          exact (List.singleton_sublist.mpr inRest).append
            (List.Sublist.refl _)
      rcases (popSound.once_stretch different noDrain notFirst waits stays).1
          ahead with ⟨_, isAhead⟩ | one
      · rw [lastOrder] at isAhead
        exact absurd isAhead notAhead
      · exact one

end Pithos.Daemon
