import Pithos.Library.EventLog
import Pithos.Daemon.Store.Guarantees

/-!
# Subscribing to the events of a job

A subscription polls the registry: it reads the events of a job after a cursor
and then, in a second critical section, its state.  It answers as soon as there
are events or the job is done.  A job that ends between the two reads is reported
as done without its last event.
-/

namespace Pithos.Daemon

open Fallible
open Simulation
open EventLog

/-! ## The call -/

/-- The job, the last event that the client has seen, and how long it waits. -/
structure SubscribeEventsParams where
  jobId : JobId
  afterSequence : UInt64
  waitMs : UInt32

/-- The events of a poll, and whether the job has ended. -/
structure EventsResult where
  events : List ProgressEvent
  latestSequence : UInt64
  terminal : Bool

/-- One round of the loop: the registry at each of its two reads, and whether
the deadline has come when the loop looks at the clock. -/
structure Round where
  atEvents : JobRegistry
  atSnapshot : JobRegistry
  expired : Bool

/-- What the loop breaks with after a round, or nothing when it sleeps. -/
def pollOnce
    (sessionId : SessionId)
    (params : SubscribeEventsParams)
    (waitMs : UInt64)
    (round : Round) : RpcResult (Option (List ProgressEvent × Bool)) := do
  let events ← round.atEvents.events sessionId params.jobId
    params.afterSequence
  let snapshot ← round.atSnapshot.snapshot sessionId params.jobId
  if events ≠ [] ∨ snapshot.state.isTerminal = true ∨ waitMs = 0 then
    .ok (some (events, snapshot.state.isTerminal))
  else if round.expired then .ok (some ([], false))
  else .ok none

/-- The loop; nothing when it goes on after these rounds. -/
def pollEvents
    (sessionId : SessionId)
    (params : SubscribeEventsParams)
    (waitMs : UInt64) :
    List Round → RpcResult (Option (List ProgressEvent × Bool))
  | [] => .ok none
  | round :: rounds => do
      match ← pollOnce sessionId params waitMs round with
      | some broken => .ok (some broken)
      | none => pollEvents sessionId params waitMs rounds

/-- The call of an authenticated session. -/
def subscribeEvents
    (maxEventWaitMs : UInt64)
    (sessionId : SessionId)
    (params : SubscribeEventsParams)
    (rounds : List Round) : RpcResult (Option EventsResult) := do
  let waitMs := min params.waitMs.toUInt64 maxEventWaitMs
  let broken ← pollEvents sessionId params waitMs rounds
  .ok (broken.map fun events => {
    events := events.1
    latestSequence := (events.1.getLast?.map (·.sequence)).getD
      params.afterSequence
    terminal := events.2 })

/-! ## Calls beside the store -/

/-- The reads of some rounds, one after the other.  Each finds the store as it
is at its time. -/
inductive Beside (run : Nat → Store) : Nat → List Round → Nat → Prop
  | done (time : Nat) : Beside run time [] time
  | round {start first second finish : Nat} {round : Round}
      {rounds : List Round}
      (later : start ≤ first)
      (ordered : first ≤ second)
      (atEvents : run first = .up round.atEvents)
      (atSnapshot : run second = .up round.atSnapshot)
      (rest : Beside run second rounds finish) :
      Beside run start (round :: rounds) finish

/-- A call with its rounds and its answer. -/
structure Poll where
  afterSequence : UInt64
  waitMs : UInt32
  rounds : List Round
  result : EventsResult

/-- The calls of a client that starts with a cursor and then goes on from the
latest number of each answer.  A call answers after its last round and not
before. -/
inductive Polling
    (run : Nat → Store)
    (maxEventWaitMs : UInt64)
    (sessionId : SessionId)
    (jobId : JobId) : Nat → UInt64 → List Poll → Prop
  | done (time : Nat) (cursor : UInt64) :
      Polling run maxEventWaitMs sessionId jobId time cursor []
  | poll {start finish : Nat} {poll : Poll} {polls : List Poll}
      (beside : Beside run start poll.rounds finish)
      (waited : subscribeEvents maxEventWaitMs sessionId
        ⟨jobId, poll.afterSequence, poll.waitMs⟩ poll.rounds.dropLast =
          .ok none)
      (answered : subscribeEvents maxEventWaitMs sessionId
        ⟨jobId, poll.afterSequence, poll.waitMs⟩ poll.rounds =
          .ok (some poll.result))
      (rest : Polling run maxEventWaitMs sessionId jobId finish
        poll.result.latestSequence polls) :
      Polling run maxEventWaitMs sessionId jobId start poll.afterSequence
        (poll :: polls)

/-- The job does not end between the two reads of the round. -/
def Round.Undisturbed (jobId : JobId) (round : Round) : Prop :=
  ∀ job ∈ round.atEvents.state.jobs[jobId.value]?,
    ∀ later ∈ round.atSnapshot.state.jobs[jobId.value]?,
      later.state.isTerminal = true → job.state.isTerminal = true

/-- An answer that says that the job is done shows its last event, unless the
cursor is past it or the store has forgotten it. -/
def Poll.Complete (jobId : JobId) (poll : Poll) : Prop :=
  poll.result.terminal = true → ∀ round ∈ poll.rounds.getLast?,
    ∀ job ∈ round.atSnapshot.state.jobs[jobId.value]?,
      ∀ event ∈ job.events, event.state.isTerminal = true →
        event ∈ poll.result.events ∨ event.sequence ≤ poll.afterSequence

/-- The events of all answers. -/
def delivered (polls : List Poll) : List ProgressEvent :=
  polls.flatMap (·.result.events)

/-- A client whose last answer says that the job is done has got every event
that the store retains, once and in order. -/
structure SeenAll (jobId : JobId) (polls : List Poll) : Prop where
  ordered : (delivered polls).Pairwise fun first second =>
    first.sequence < second.sequence
  all : ∀ poll ∈ polls.getLast?, poll.result.terminal = true →
    ∀ round ∈ poll.rounds.getLast?,
      ∀ job ∈ round.atSnapshot.state.jobs[jobId.value]?,
        ∀ event ∈ job.events, event ∈ delivered polls

/-! ## What a call reads -/

section Call

variable
  {sessionId : SessionId}
  {params : SubscribeEventsParams}
  {waitMs : UInt64}
  {round : Round}

/-- A round that breaks has read the events and the state of the job. -/
theorem pollOnce_eq_some
    {events : List ProgressEvent}
    {terminal : Bool}
    (broke : pollOnce sessionId params waitMs round =
      .ok (some (events, terminal))) :
    ∃ job later, round.atEvents.state.jobs[params.jobId.value]? = some job ∧
      round.atSnapshot.state.jobs[params.jobId.value]? = some later ∧
      events = (job.events.filter fun event =>
        params.afterSequence < event.sequence) ∧
      terminal = later.state.isTerminal := by
  simp only [pollOnce, JobRegistry.events, JobRegistry.snapshot, bind_eq_ok,
    ownedJob_eq_ok, Except.ok.injEq] at broke
  obtain ⟨read, ⟨job, ⟨isJob, _⟩, rfl⟩, shown, ⟨later, ⟨isLater, _⟩, rfl⟩,
    broke⟩ := broke
  refine ⟨job, later, isJob, isLater, ?_⟩
  split at broke
  · cases broke
    exact ⟨rfl, rfl⟩
  · rename_i quiet
    simp only [not_or, not_not, Bool.not_eq_true] at quiet
    split at broke
    · cases broke
      exact ⟨quiet.1.symm, quiet.2.1.symm⟩
    · cases broke

/-- In a round that does not break the job is not done. -/
theorem pollOnce_eq_none
    (quiet : pollOnce sessionId params waitMs round = .ok none) :
    ∀ later ∈ round.atSnapshot.state.jobs[params.jobId.value]?,
      later.state.isTerminal = false := by
  simp only [pollOnce, JobRegistry.events, JobRegistry.snapshot, bind_eq_ok,
    ownedJob_eq_ok, Except.ok.injEq] at quiet
  obtain ⟨read, _, shown, ⟨later, ⟨isLater, _⟩, rfl⟩, quiet⟩ := quiet
  intro other isOther
  rw [Option.mem_def, isLater] at isOther
  cases isOther
  split at quiet
  · cases quiet
  · rename_i calm
    simp only [not_or, Bool.not_eq_true] at calm
    exact calm.2.1

theorem pollEvents_eq_none
    {rounds : List Round} :
    pollEvents sessionId params waitMs rounds = .ok none ↔
      ∀ round ∈ rounds,
        pollOnce sessionId params waitMs round = .ok none := by
  induction rounds with
  | nil => simp [pollEvents]
  | cons round rounds inductionHypothesis =>
      rw [pollEvents, List.forall_mem_cons, ← inductionHypothesis, bind_eq_ok]
      constructor
      · rintro ⟨_ | broken, here, rest⟩
        · exact ⟨here, rest⟩
        · cases rest
      · rintro ⟨here, rest⟩
        exact ⟨none, here, rest⟩

/-- A call that answers after its last round breaks there. -/
theorem pollEvents_concat_eq_some
    {front : List Round}
    {last : Round}
    {broken : List ProgressEvent × Bool}
    (waited : pollEvents sessionId params waitMs front = .ok none)
    (answered : pollEvents sessionId params waitMs (front ++ [last]) =
      .ok (some broken)) :
    pollOnce sessionId params waitMs last = .ok (some broken) := by
  induction front with
  | nil =>
      rw [List.nil_append, pollEvents, bind_eq_ok] at answered
      obtain ⟨_ | other, here, rest⟩ := answered
      · cases rest
      · cases rest
        exact here
  | cons round rounds inductionHypothesis =>
      have quiet := pollEvents_eq_none.mp waited
      rw [List.cons_append, pollEvents, quiet round List.mem_cons_self,
        ok_bind] at answered
      exact inductionHypothesis (pollEvents_eq_none.mpr fun other member =>
        quiet other (List.mem_cons_of_mem _ member)) answered

end Call

/-! ## The log of a job -/

/-- The number of an event. -/
def ProgressEvent.number (event : ProgressEvent) : Nat :=
  event.sequence.toNat

/-- The retained events of a job, and the number of the next one. -/
def StoredJob.log (job : StoredJob) : Log ProgressEvent :=
  ⟨job.events, job.nextSequence.toNat⟩

theorem EventsOk.numbered
    {job : StoredJob}
    (ok : EventsOk job) :
    Numbered ProgressEvent.number job.log where
  increasing := by
    have increasing : (job.events.map ProgressEvent.number).Pairwise
        (· < ·) := by
      change (job.events.map fun event => event.sequence.toNat).Pairwise _
      rw [ok.sequences]
      exact List.pairwise_lt_range'
    exact List.pairwise_map.mp increasing
  below := fun _ member => ok.sequence_lt member

theorem EventsOk.number_pos
    {job : StoredJob}
    (ok : EventsOk job)
    {event : ProgressEvent}
    (member : event ∈ job.events) :
    0 < event.number := by
  have listed : event.number ∈
      job.events.map fun event => event.sequence.toNat :=
    List.mem_map_of_mem member
  rw [ok.sequences, List.mem_range'_1] at listed
  have := ok.fewer
  omega

/-- The last event has the number before the next one. -/
theorem EventsOk.exists_last
    {job : StoredJob}
    (ok : EventsOk job) :
    ∃ event ∈ job.events, event.state = job.state ∧
      event.number + 1 = job.nextSequence.toNat := by
  obtain ⟨front, last, isEvents⟩ :=
    (List.eq_nil_or_concat' job.events).resolve_left ok.nonempty
  have member : last ∈ job.events := by
    rw [isEvents]
    exact List.mem_append_right _ List.mem_cons_self
  refine ⟨last, member, ok.last last (by simp [isEvents]), ?_⟩
  have numbers := ok.sequences
  have fewer := ok.fewer
  rw [isEvents, List.map_append, List.length_append, List.length_singleton,
    List.range'_concat] at numbers
  rw [isEvents, List.length_append, List.length_singleton] at fewer
  have isLast := (List.append_inj' numbers rfl).2
  simp only [List.map_cons, List.map_nil, List.cons.injEq, and_true] at isLast
  change last.sequence.toNat + 1 = _
  omega

/-- A job at a later time: its log goes on, its state only changes with a new
event, and a job that is done gets no new event. -/
structure Later (job later : StoredJob) : Prop where
  continues : Continues ProgressEvent.number job.log later.log
  still : later.nextSequence.toNat = job.nextSequence.toNat →
    later.state = job.state
  done : job.state.isTerminal = true →
    later.nextSequence.toNat = job.nextSequence.toNat

/-- Coming back from JSON leaves the log as it is. -/
theorem BackJob.later
    {json : StoreJson}
    {job old : StoredJob}
    (isBack : BackJob json job old) :
    Later job old := by
  rcases isBack with rfl | rfl <;>
    exact ⟨.refl _, fun _ => rfl, fun _ => rfl⟩

theorem Later.trans
    {first second third : StoredJob}
    (left : Later first second)
    (right : Later second third) :
    Later first third where
  continues := left.continues.trans right.continues
  still := by
    intro same
    have upTo : first.nextSequence.toNat ≤ second.nextSequence.toNat :=
      left.continues.grows
    have beyond : second.nextSequence.toNat ≤ third.nextSequence.toNat :=
      right.continues.grows
    rw [right.still (by omega), left.still (by omega)]
  done := by
    intro terminal
    have same := left.done terminal
    rw [right.done (by rwa [left.still same]), same]

/-- One step of a job, in its log. -/
theorem JobStep.later
    {job next : StoredJob}
    (step : JobStep job next) :
    Later job next := by
  cases step with
  | kept bound positive =>
      exact ⟨⟨Nat.le_refl _, fun _ member _ => List.mem_of_mem_drop member⟩,
        fun _ => rfl, fun _ => rfl⟩
  | advanced change phase now bound positive live moves fits =>
      have isNext : (job.advance change phase now bound).nextSequence.toNat =
          job.nextSequence.toNat + 1 := by
        change (job.nextSequence + 1).toNat = _
        rw [UInt64.toNat_add]
        exact Nat.mod_eq_of_lt fits
      refine ⟨⟨?_, ?_⟩, fun same => ?_, fun terminal => ?_⟩
      · change job.nextSequence.toNat ≤
          (job.advance change phase now bound).nextSequence.toNat
        omega
      · intro event member before
        change event ∈ (job.events ++
          [(job.apply change).nextEvent phase now]).drop _ at member
        rcases List.mem_append.mp (List.mem_of_mem_drop member) with old | new
        · exact old
        · rw [List.mem_singleton.mp new] at before
          exact absurd before (lt_irrefl _)
      · omega
      · rw [live] at terminal
        cases terminal

/-! ## Calls along a run -/

/-- What a call has read: the job with its events, and then, no earlier, the job
with its state. -/
structure Poll.Reads
    (committed : Nat → PersistentState)
    (jobId : JobId)
    (start finish : Nat)
    (poll : Poll)
    (front : List Round)
    (last : Round)
    (job later : StoredJob) : Prop where
  rounds : poll.rounds = front ++ [last]
  waited : ∀ round ∈ front,
    ∀ job ∈ round.atSnapshot.state.jobs[jobId.value]?,
      job.state.isTerminal = false
  isJob : last.atEvents.state.jobs[jobId.value]? = some job
  isLater : last.atSnapshot.state.jobs[jobId.value]? = some later
  times : ∃ first second, start ≤ first ∧ first ≤ second ∧ second ≤ finish ∧
    (committed first).jobs[jobId.value]? = some job ∧
    (committed second).jobs[jobId.value]? = some later
  events : poll.result.events =
    readAfter ProgressEvent.number poll.afterSequence.toNat job.log
  latest : poll.result.latestSequence.toNat =
    advance ProgressEvent.number poll.afterSequence.toNat poll.result.events
  terminal : poll.result.terminal = later.state.isTerminal

theorem Beside.le
    {run : Nat → Store}
    {start finish : Nat}
    {rounds : List Round}
    (beside : Beside run start rounds finish) :
    start ≤ finish := by
  induction beside with
  | done time => exact Nat.le_refl _
  | round later ordered _ _ _ inductionHypothesis =>
      exact later.trans (ordered.trans inductionHypothesis)

/-- The reads of the last round. -/
theorem Beside.last
    {run : Nat → Store}
    {start finish : Nat}
    {front : List Round}
    {last : Round}
    (beside : Beside run start (front ++ [last]) finish) :
    ∃ first second, start ≤ first ∧ first ≤ second ∧ second ≤ finish ∧
      run first = .up last.atEvents ∧ run second = .up last.atSnapshot := by
  induction front generalizing start with
  | nil =>
      obtain _ | ⟨later, ordered, atEvents, atSnapshot, rest⟩ := beside
      exact ⟨_, _, later, ordered, rest.le, atEvents, atSnapshot⟩
  | cons round front inductionHypothesis =>
      obtain _ | ⟨later, ordered, _, _, rest⟩ := beside
      obtain ⟨first, second, after, reads⟩ := inductionHypothesis rest
      exact ⟨first, second, later.trans (ordered.trans after), reads⟩

section Along

variable
  {json : StoreJson}
  {run : Nat → Store}
  {committed : Nat → PersistentState}
  {maxEventWaitMs : UInt64}
  {sessionId : SessionId}
  {jobId : JobId}
  {start finish : Nat}
  {cursor : UInt64}
  {poll : Poll}
  {polls : List Poll}

/-- A call that answers beside a run has read the committed states. -/
theorem Poll.exists_reads
    (holds : ∀ time, (run time).Holds json (committed time))
    (beside : Beside run start poll.rounds finish)
    (waited : subscribeEvents maxEventWaitMs sessionId
      ⟨jobId, poll.afterSequence, poll.waitMs⟩ poll.rounds.dropLast = .ok none)
    (answered : subscribeEvents maxEventWaitMs sessionId
      ⟨jobId, poll.afterSequence, poll.waitMs⟩ poll.rounds =
        .ok (some poll.result)) :
    ∃ front last job later,
      poll.Reads committed jobId start finish front last job later := by
  simp only [subscribeEvents, bind_eq_ok, Except.ok.injEq,
    Option.map_eq_none_iff, Option.map_eq_some_iff] at waited answered
  obtain ⟨_, quiet, rfl⟩ := waited
  obtain ⟨_, answered, ⟨events, terminal⟩, rfl, isResult⟩ := answered
  rcases List.eq_nil_or_concat' poll.rounds with none | ⟨front, last, isRounds⟩
  · rw [none] at answered
    cases answered
  · rw [isRounds, List.dropLast_concat] at quiet
    rw [isRounds] at answered beside
    obtain ⟨job, later, isJob, isLater, isEvents, isTerminal⟩ :=
      pollOnce_eq_some (pollEvents_concat_eq_some quiet answered)
    obtain ⟨first, second, after, ordered, upTo, atEvents, atSnapshot⟩ :=
      beside.last
    have firstHolds := holds first
    have secondHolds := holds second
    rw [atEvents] at firstHolds
    rw [atSnapshot] at secondHolds
    refine ⟨front, last, job, later, isRounds, fun round member =>
      pollOnce_eq_none (pollEvents_eq_none.mp quiet round member), isJob,
      isLater, ⟨first, second, after, ordered, upTo, ?_, ?_⟩, ?_, ?_, ?_⟩
    · rw [← firstHolds.1]
      exact isJob
    · rw [← secondHolds.1]
      exact isLater
    · rw [← isResult, isEvents]
      exact List.filter_congr fun event _ =>
        decide_eq_decide.mpr UInt64.lt_iff_toNat_lt
    · rw [← isResult, advance]
      cases events.getLast? <;> rfl
    · rw [← isResult]
      exact isTerminal

variable
  {json : StoreJson}
  {allowed : Call → Prop}
  (isRun : IsRun (JournalStep json allowed) .initial committed)

include isRun

theorem journal_later
    {time after : Nat}
    (ordered : time ≤ after)
    {key : String}
    {job later : StoredJob}
    (found : (committed time).jobs[key]? = some job)
    (foundLater : (committed after).jobs[key]? = some later) :
    Later job later := by
  obtain ⟨same, isSame, isLater⟩ := @journal_persists json allowed committed
    isRun Later Later.trans BackJob.later JobStep.later time after ordered key job
    found
  rw [foundLater] at isSame
  cases isSame
  exact isLater

theorem journal_eventsOk
    {time : Nat}
    {key : String}
    {job : StoredJob}
    (found : (committed time).jobs[key]? = some job) :
    EventsOk job :=
  (isRun.step time).soundBefore.events key job found

/-- A call that is not disturbed is complete. -/
theorem Poll.Reads.complete
    {front : List Round}
    {last : Round}
    {job later : StoredJob}
    (reads : poll.Reads committed jobId start finish front last job later)
    (undisturbed : ∀ round ∈ poll.rounds, round.Undisturbed jobId) :
    poll.Complete jobId := by
  intro terminal round isLast shown isShown event member _
  obtain ⟨first, second, _, ordered, _, isJob, isLater⟩ := reads.times
  rw [reads.rounds, List.getLast?_concat, Option.mem_some_iff] at isLast
  subst isLast
  rw [Option.mem_def, reads.isLater] at isShown
  cases isShown
  have ended : job.state.isTerminal = true :=
    undisturbed last (by simp [reads.rounds]) job reads.isJob later
      reads.isLater (by rw [← reads.terminal]; exact terminal)
  have goesOn := journal_later isRun ordered isJob isLater
  have taken := (journal_eventsOk isRun isLater).sequence_lt member
  rw [goesOn.done ended] at taken
  have present := goesOn.continues.retained event member taken
  by_cases new : poll.afterSequence.toNat < event.number
  · exact Or.inl (reads.events ▸ mem_readAfter.mpr ⟨present, new⟩)
  · exact Or.inr (UInt64.le_iff_toNat_le.mpr (Nat.not_lt.mp new))

/-- A complete call whose cursor is not ahead of the job is not disturbed. -/
theorem Poll.Reads.undisturbed
    {front : List Round}
    {last : Round}
    {job later : StoredJob}
    (reads : poll.Reads committed jobId start finish front last job later)
    (behind : poll.afterSequence.toNat < job.nextSequence.toNat)
    (complete : poll.Complete jobId) :
    ∀ round ∈ poll.rounds, round.Undisturbed jobId := by
  intro round member other isOther shown isShown terminal
  rw [reads.rounds] at member
  rcases List.mem_append.mp member with before | here
  · rw [reads.waited round before shown isShown] at terminal
    cases terminal
  · rw [List.mem_singleton.mp here] at isOther isShown
    rw [Option.mem_def, reads.isJob] at isOther
    rw [Option.mem_def, reads.isLater] at isShown
    cases isOther
    cases isShown
    obtain ⟨first, second, _, ordered, _, isJob, isLater⟩ := reads.times
    have goesOn := journal_later isRun ordered isJob isLater
    obtain ⟨event, isEvent, isState, isNumber⟩ :=
      (journal_eventsOk isRun isLater).exists_last
    -- The last event was there when the events were read, so nothing followed.
    have early : event.number < job.nextSequence.toNat := by
      rcases complete (by rw [reads.terminal]; exact terminal) last
          (by simp [reads.rounds]) later reads.isLater event isEvent
          (by rw [isState]; exact terminal) with shown | old
      · rw [reads.events] at shown
        exact (journal_eventsOk isRun isJob).sequence_lt
          (mem_readAfter.mp shown).1
      · exact (UInt64.le_iff_toNat_le.mp old).trans_lt behind
    have grows : job.nextSequence.toNat ≤ later.nextSequence.toNat :=
      goesOn.continues.grows
    rwa [← goesOn.still (by omega)]

/-- Calls that follow each other read one log time and again. -/
structure LogsRead
    (committed : Nat → PersistentState)
    (jobId : JobId)
    (start : Nat)
    (cursor : UInt64)
    (polls : List Poll)
    (jobs : List StoredJob) : Prop where
  times : ∀ job ∈ jobs, ∃ time, start ≤ time ∧
    (committed time).jobs[jobId.value]? = some job
  later : jobs.Pairwise Later
  length : jobs.length = polls.length
  delivered : delivered polls =
    readAll ProgressEvent.number cursor.toNat (jobs.map StoredJob.log)
  last : ∀ poll ∈ polls.getLast?, ∃ start finish front last job later,
    poll.Reads committed jobId start finish front last job later ∧
      jobs.getLast? = some job

/-- What a client reads, call by call. -/
theorem Polling.exists_logs
    (holds : ∀ time, (run time).Holds json (committed time))
    (polling : Polling run maxEventWaitMs sessionId jobId start cursor polls) :
    ∃ jobs, LogsRead committed jobId start cursor polls jobs := by
  induction polling with
  | done time cursor =>
      refine ⟨[], fun _ member => ?_, .nil, rfl, rfl, fun _ isLast => ?_⟩
      · cases member
      · cases isLast
  | poll beside waited answered rest inductionHypothesis =>
      rename_i start finish poll polls
      obtain ⟨front, last, job, later, reads⟩ :=
        Poll.exists_reads holds beside waited answered
      obtain ⟨jobs, logs⟩ := inductionHypothesis
      obtain ⟨first, second, after, ordered, upTo, isJob, _⟩ := reads.times
      refine ⟨job :: jobs, ?_, ?_, ?_, ?_, ?_⟩
      · intro other member
        rcases List.mem_cons.mp member with rfl | member
        · exact ⟨first, after, isJob⟩
        · obtain ⟨time, behind, isOther⟩ := logs.times other member
          exact ⟨time, beside.le.trans behind, isOther⟩
      · refine List.pairwise_cons.mpr ⟨fun other member => ?_, logs.later⟩
        obtain ⟨time, behind, isOther⟩ := logs.times other member
        exact journal_later isRun (ordered.trans (upTo.trans behind)) isJob
          isOther
      · rw [List.length_cons, List.length_cons, logs.length]
      · rw [Daemon.delivered, List.flatMap_cons, ← Daemon.delivered,
          logs.delivered, List.map_cons, readAll, reads.latest, reads.events]
      · intro other isLast
        cases polls with
        | nil =>
            cases isLast
            have none := List.eq_nil_of_length_eq_zero logs.length
            refine ⟨start, finish, front, last, job, later, reads, ?_⟩
            rw [none]
            rfl
        | cons next polls =>
            rw [List.getLast?_cons_cons] at isLast
            obtain ⟨start, finish, front, last, job, later, isReads, isEnd⟩ :=
              logs.last other isLast
            refine ⟨start, finish, front, last, job, later, isReads, ?_⟩
            rw [List.getLast?_cons, isEnd]
            rfl

/-- Calls that are not disturbed are complete. -/
theorem Polling.complete
    (holds : ∀ time, (run time).Holds json (committed time))
    (polling : Polling run maxEventWaitMs sessionId jobId start cursor polls)
    (undisturbed : ∀ poll ∈ polls, ∀ round ∈ poll.rounds,
      round.Undisturbed jobId) :
    ∀ poll ∈ polls, poll.Complete jobId := by
  induction polling with
  | done time cursor => exact fun _ member => absurd member List.not_mem_nil
  | poll beside waited answered rest inductionHypothesis =>
      rw [List.forall_mem_cons] at undisturbed ⊢
      obtain ⟨front, last, job, later, reads⟩ :=
        Poll.exists_reads holds beside waited answered
      exact ⟨reads.complete isRun undisturbed.1,
        inductionHypothesis undisturbed.2⟩

/-- Complete calls whose cursor is not ahead of the job are not disturbed. -/
theorem Polling.undisturbed
    (holds : ∀ time, (run time).Holds json (committed time))
    (polling : Polling run maxEventWaitMs sessionId jobId start cursor polls)
    (behind : ∀ time, start ≤ time → ∀ job,
      (committed time).jobs[jobId.value]? = some job →
        cursor.toNat < job.nextSequence.toNat)
    (complete : ∀ poll ∈ polls, poll.Complete jobId) :
    ∀ poll ∈ polls, ∀ round ∈ poll.rounds, round.Undisturbed jobId := by
  induction polling with
  | done time cursor => exact fun _ member => absurd member List.not_mem_nil
  | poll beside waited answered rest inductionHypothesis =>
      rw [List.forall_mem_cons] at complete ⊢
      obtain ⟨front, last, job, later, reads⟩ :=
        Poll.exists_reads holds beside waited answered
      obtain ⟨first, second, after, ordered, upTo, isJob, _⟩ := reads.times
      have below := behind first after job isJob
      refine ⟨reads.undisturbed isRun below complete.1,
        inductionHypothesis (fun time since other isOther => ?_) complete.2⟩
      have goesOn := journal_later isRun
        (ordered.trans (upTo.trans since)) isJob isOther
      rw [reads.latest, reads.events]
      exact (advance_lt (journal_eventsOk isRun isJob).numbered
        below).trans_le goesOn.continues.grows

/-- A client that is not disturbed sees every retained event once and in
order. -/
theorem Polling.seenAll
    (holds : ∀ time, (run time).Holds json (committed time))
    (polling : Polling run maxEventWaitMs sessionId jobId start 0 polls)
    (undisturbed : ∀ poll ∈ polls, ∀ round ∈ poll.rounds,
      round.Undisturbed jobId) :
    SeenAll jobId polls := by
  obtain ⟨jobs, logs⟩ := polling.exists_logs isRun holds
  have numbered : ∀ log ∈ jobs.map StoredJob.log,
      Numbered ProgressEvent.number log := by
    intro log member
    obtain ⟨job, isJob, rfl⟩ := List.mem_map.mp member
    obtain ⟨time, _, found⟩ := logs.times job isJob
    exact (journal_eventsOk isRun found).numbered
  refine ⟨?_, ?_⟩
  · rw [logs.delivered]
    exact (readAll_increasing numbered).1.imp UInt64.lt_iff_toNat_lt.mpr
  · intro poll isLast terminal round isRound shown isShown event member
    obtain ⟨start, finish, front, last, job, later, reads, isEnd⟩ :=
      logs.last poll isLast
    obtain ⟨first, second, _, ordered, _, isJob, isLater⟩ := reads.times
    rw [reads.rounds, List.getLast?_concat, Option.mem_some_iff] at isRound
    subst isRound
    rw [Option.mem_def, reads.isLater] at isShown
    cases isShown
    have ended : job.state.isTerminal = true :=
      undisturbed poll (List.mem_of_getLast? isLast) last
        (by simp [reads.rounds]) job reads.isJob _ reads.isLater
        (by rw [← reads.terminal]; exact terminal)
    have goesOn := journal_later isRun ordered isJob isLater
    have okLater := journal_eventsOk isRun isLater
    have taken := okLater.sequence_lt member
    rw [goesOn.done ended] at taken
    rw [logs.delivered]
    refine mem_readAll numbered (List.pairwise_map.mpr
      (logs.later.imp Later.continues)) (by rw [List.getLast?_map, isEnd]; rfl)
      (goesOn.continues.retained event member taken) ?_
    exact okLater.number_pos member

end Along

/-! ## The guarantee -/

/-- In every run of the store, a call that answers that the job is done shows
its last event when the job does not end between the two reads of a round.  For
a client that begins at the start this is exact, and such a client gets every
retained event once and in order. -/
theorem subscription_complete_iff
    {json : StoreJson}
    (lawful : json.Lawful)
    {run : Nat → Store}
    (isRun : IsRun (Step json fun _ => True) (.down none) run)
    (maxEventWaitMs : UInt64)
    (sessionId : SessionId)
    (jobId : JobId)
    (start : Nat) :
    (∀ cursor polls,
      Polling run maxEventWaitMs sessionId jobId start cursor polls →
      (∀ poll ∈ polls, ∀ round ∈ poll.rounds, round.Undisturbed jobId) →
      ∀ poll ∈ polls, poll.Complete jobId) ∧
    ∀ polls, Polling run maxEventWaitMs sessionId jobId start 0 polls →
      ((∀ poll ∈ polls, poll.Complete jobId) ∧ SeenAll jobId polls ↔
        ∀ poll ∈ polls, ∀ round ∈ poll.rounds, round.Undisturbed jobId) := by
  obtain ⟨committed, isJournal, related⟩ :=
    (store_simulates_journal lawful fun _ => True).exists_run isRun
  have holds (time : Nat) := (related time).holds
  refine ⟨fun cursor polls polling => polling.complete isJournal holds,
    fun polls polling => ⟨fun seen => ?_, fun undisturbed =>
      ⟨polling.complete isJournal holds undisturbed,
        polling.seenAll isJournal holds undisturbed⟩⟩⟩
  refine polling.undisturbed isJournal holds (fun time _ job found => ?_) seen.1
  exact (Nat.zero_le _).trans_lt (journal_eventsOk isJournal found).fewer

/-! ## A job that ends between the reads -/

/-- A call that finds the job of the sample store in one state and then in
another. -/
def samplePoll
    (job later : StoredJob)
    (bytes laterBytes : List UInt8) : Poll where
  afterSequence := 0
  waitMs := 0
  rounds := [⟨sampleRegistry job bytes, sampleRegistry later laterBytes, false⟩]
  result := {
    events := job.events
    latestSequence := (job.events.getLast?.map (·.sequence)).getD 0
    terminal := later.state.isTerminal }

theorem samplePoll_polling
    {job later : StoredJob}
    {bytes laterBytes : List UInt8}
    {first second : Nat}
    (ordered : first ≤ second)
    (atEvents : sampleRun first = .up (sampleRegistry job bytes))
    (atSnapshot : sampleRun second = .up (sampleRegistry later laterBytes))
    (owned : job.owner = sampleOwner ∧ later.owner = sampleOwner)
    (positive : ∀ event ∈ job.events, 0 < event.sequence) :
    Polling sampleRun 30000 sampleOwner sampleId first 0
      [samplePoll job later bytes laterBytes] := by
  have all : (job.events.filter fun event => (0 : UInt64) < event.sequence) =
      job.events :=
    List.filter_eq_self.mpr fun event member => decide_eq_true
      (positive event member)
  have read := @ownedJob_eq_ok (sampleState job) sampleOwner sampleId job
  have shown := @ownedJob_eq_ok (sampleState later) sampleOwner sampleId later
  have noWait : min (0 : UInt32).toUInt64 30000 = 0 := rfl
  have answered : subscribeEvents 30000 sampleOwner ⟨sampleId, 0, 0⟩
      (samplePoll job later bytes laterBytes).rounds =
        .ok (some (samplePoll job later bytes laterBytes).result) := by
    simp only [subscribeEvents, samplePoll, pollEvents, pollOnce,
      JobRegistry.events, JobRegistry.snapshot, sampleRegistry,
      read.mpr ⟨sampleState_found job, owned.1⟩,
      shown.mpr ⟨sampleState_found later, owned.2⟩, ok_bind, all, noWait,
      or_true, if_true]
    rfl
  have beside : Beside sampleRun first
      (samplePoll job later bytes laterBytes).rounds second :=
    .round (Nat.le_refl _) ordered atEvents atSnapshot (.done _)
  exact @Polling.poll _ _ _ _ first second
    (samplePoll job later bytes laterBytes) [] beside rfl answered (.done _ _)

theorem sampleCompleted_event (result : Value) :
    ∃ event ∈ (sampleCompleted result).events,
      event.state.isTerminal = true ∧ ¬event.sequence ≤ 0 ∧
        event ∉ sampleQueued.events := by
  let event := (sampleQueued.apply
    ⟨.completed, some result, none, none⟩).nextEvent "completed" 0
  have single : sampleQueued.events.length ≤ 1 := by
    simp [sampleQueued, trimEventHistory, StoredJob.withEvent, newJob]
  have isEvents : (sampleCompleted result).events =
      sampleQueued.events ++ [event] := by
    refine congrArg StoredJob.events (trimEventHistory_eq_self ?_)
    change (sampleQueued.events ++ [event]).length ≤ 4096
    rw [List.length_append, List.length_singleton]
    omega
  have number : event.sequence = 2 := rfl
  refine ⟨event, ?_, rfl, by rw [number]; decide, fun member => ?_⟩
  · rw [isEvents]
    exact List.mem_append_right _ List.mem_cons_self
  · have below := (sampleQueued_sound.events _ _
      (sampleState_found _)).sequence_lt member
    exact absurd below (lt_irrefl _)

/-- The events are read while the job is queued, and its state when it is
completed: the answer says that the job is done without its last event. -/
theorem completed_between_reads :
    verifiedJson.Lawful ∧
      IsRun (Step verifiedJson fun _ => True) (.down none) sampleRun ∧
      ∃ polls, Polling sampleRun 30000 sampleOwner sampleId 2 0 polls ∧
        ¬(∀ poll ∈ polls, poll.Complete sampleId) ∧
        ¬SeenAll sampleId polls := by
  obtain ⟨event, member, terminal, new, missing⟩ :=
    sampleCompleted_event verified
  refine ⟨verifiedJson_lawful, sampleRun_isRun trivial trivial trivial,
    [samplePoll sampleQueued (sampleCompleted verified) sampleQueuedText
      verifiedText],
    @samplePoll_polling _ _ _ _ 2 3 (by decide) rfl rfl ⟨rfl, rfl⟩ (by decide),
    fun complete => ?_, fun seen => ?_⟩
  · rcases complete _ List.mem_cons_self rfl _ rfl _ (sampleState_found _)
      event member terminal with shown | old
    · exact missing shown
    · exact new old
  · have shown := seen.all _ rfl rfl _ rfl _ (sampleState_found _) event member
    exact missing (by simpa [delivered, samplePoll] using shown)

/-- A client that reads when the job is completed sees both of its events. -/
theorem completed_before_reads :
    verifiedJson.Lawful ∧
      IsRun (Step verifiedJson fun _ => True) (.down none) sampleRun ∧
      ∃ polls, Polling sampleRun 30000 sampleOwner sampleId 3 0 polls ∧
        (delivered polls).length = 2 ∧
        (∀ poll ∈ polls, poll.Complete sampleId) ∧
        SeenAll sampleId polls := by
  have polling := @samplePoll_polling (sampleCompleted verified) _ verifiedText
    _ 3 3 (by decide) rfl rfl ⟨rfl, rfl⟩ (by decide)
  refine ⟨verifiedJson_lawful, sampleRun_isRun trivial trivial trivial, _,
    polling, by decide, ?_⟩
  refine ((subscription_complete_iff verifiedJson_lawful
    (sampleRun_isRun trivial trivial trivial) 30000 sampleOwner sampleId 3).2 _
      polling).mpr fun poll isPoll round isRound job isJob later isLater _ => ?_
  rw [List.mem_singleton.mp isPoll] at isRound
  rw [List.mem_singleton.mp isRound, Option.mem_def] at isJob
  have same := (sampleState_found _).symm.trans isJob
  cases same
  rfl

end Pithos.Daemon
