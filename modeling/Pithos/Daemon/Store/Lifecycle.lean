import Pithos.Daemon.Store.Journal

/-!
# The life of a job

What a client can rely on over whole runs of the store, whatever fails and
however often the daemon is restarted: states move forward only, events are
numbered without a gap, and identifiers are not used again.  The outcome of a job
that is done stays as it is when it comes back from JSON as it went in.
-/

namespace Pithos.Daemon

open HostPath
open Fallible
open Machine
open Std
open MapValues
open Simulation

/-! ## What a step keeps -/

/-- Two jobs come from one submission. -/
structure SameAdmission (job later : StoredJob) : Prop where
  jobId : later.jobId = job.jobId
  owner : later.owner = job.owner
  method : later.method = job.method
  priority : later.priority = job.priority
  idempotencyKey : later.idempotencyKey = job.idempotencyKey
  paramsHash : later.paramsHash = job.paramsHash
  limits : later.limits = job.limits
  operation : later.operation = job.operation
  createdAtUnixMs : later.createdAtUnixMs = job.createdAtUnixMs

theorem SameAdmission.refl (job : StoredJob) : SameAdmission job job :=
  ⟨rfl, rfl, rfl, rfl, rfl, rfl, rfl, rfl, rfl⟩

theorem SameAdmission.trans
    {first second third : StoredJob}
    (before : SameAdmission first second)
    (after : SameAdmission second third) :
    SameAdmission first third where
  jobId := after.jobId.trans before.jobId
  owner := after.owner.trans before.owner
  method := after.method.trans before.method
  priority := after.priority.trans before.priority
  idempotencyKey := after.idempotencyKey.trans before.idempotencyKey
  paramsHash := after.paramsHash.trans before.paramsHash
  limits := after.limits.trans before.limits
  operation := after.operation.trans before.operation
  createdAtUnixMs := after.createdAtUnixMs.trans before.createdAtUnixMs

theorem JobStep.sameAdmission
    {job next : StoredJob}
    (step : JobStep job next) :
    SameAdmission job next := by
  cases step <;> exact ⟨rfl, rfl, rfl, rfl, rfl, rfl, rfl, rfl, rfl⟩

theorem BackJob.sameAdmission
    {json : StoreJson}
    {job old : StoredJob}
    (isBack : BackJob json job old) :
    SameAdmission job old := by
  rcases isBack with rfl | rfl <;>
    exact ⟨rfl, rfl, rfl, rfl, rfl, rfl, rfl, rfl, rfl⟩

theorem BackJob.state_eq
    {json : StoreJson}
    {job old : StoredJob}
    (isBack : BackJob json job old) :
    old.state = job.state := by
  rcases isBack with rfl | rfl <;> rfl

theorem JobStep.moves
    {job next : StoredJob}
    (step : JobStep job next) :
    next.state = job.state ∨ job.state.movesTo next.state = true := by
  cases step with
  | kept bound positive => exact Or.inl rfl
  | advanced change phase now bound positive live moves fits => exact moves

/-- A done job keeps its outcome. -/
theorem JobStep.terminal
    {job next : StoredJob}
    (step : JobStep job next)
    (terminal : job.state.isTerminal = true) :
    next.state = job.state ∧ next.result = job.result ∧
      next.error = job.error := by
  cases step with
  | kept bound positive => exact ⟨rfl, rfl, rfl⟩
  | advanced change phase now bound positive live moves fits =>
      rw [terminal] at live
      cases live

/-! ## The events of a job -/

/-- The events that a state retains for a job. -/
def PersistentState.eventsOf (state : PersistentState) (key : String) :
    List ProgressEvent :=
  match state.jobs[key]? with
  | some job => job.events
  | none => []

theorem PersistentState.eventsOf_eq
    {state : PersistentState}
    {key : String}
    {job : StoredJob}
    (found : state.jobs[key]? = some job) :
    state.eventsOf key = job.events := by
  simp [eventsOf, found]

theorem PersistentState.eventsOf_absent
    {state : PersistentState}
    {key : String}
    (absent : state.jobs[key]? = none) :
    state.eventsOf key = [] := by
  simp [eventsOf, absent]

/-- A job that has come back has the events that the state retains. -/
theorem PersistentState.eventsOf_back
    {json : StoreJson}
    {state : PersistentState}
    {key : String}
    {job old : StoredJob}
    (found : state.jobs[key]? = some job)
    (isBack : BackJob json job old) :
    state.eventsOf key = old.events := by
  rw [eventsOf_eq found]
  rcases isBack with rfl | rfl <;> rfl

/-- The events that show up for a job in a commit. -/
def newEvents (before after : PersistentState) (key : String) :
    List ProgressEvent :=
  (after.eventsOf key).filter fun event => event ∉ before.eventsOf key

/-- The events that were issued for a job up to a time. -/
def issued (committed : Nat → PersistentState) (key : String) :
    Nat → List ProgressEvent
  | 0 => (committed 0).eventsOf key
  | time + 1 => issued committed key time ++
      newEvents (committed time) (committed (time + 1)) key

/-- The numbers of events. -/
def sequences (events : List ProgressEvent) : List Nat :=
  events.map fun event => event.sequence.toNat

/-- What was issued for a job: numbers from 1 on without gap, of which the job
retains the last ones. -/
structure Issued (job : StoredJob) (events : List ProgressEvent) : Prop where
  numbers : sequences events = List.range' 1 (job.nextSequence.toNat - 1)
  retained : job.events <:+ events
  nonempty : job.events ≠ []
  last : ∀ event ∈ job.events.getLast?, event.state = job.state

/-- The next number is not taken. -/
theorem EventsOk.sequence_lt
    {job : StoredJob}
    (ok : EventsOk job)
    {event : ProgressEvent}
    (member : event ∈ job.events) :
    event.sequence.toNat < job.nextSequence.toNat := by
  have listed : event.sequence.toNat ∈
      job.events.map fun event => event.sequence.toNat :=
    List.mem_map_of_mem member
  rw [ok.sequences, List.mem_range'_1] at listed
  have := ok.fewer
  omega

/-- One step issues the next event or none. -/
theorem Issued.step
    {before after : PersistentState}
    {key : String}
    {job next : StoredJob}
    {events : List ProgressEvent}
    (retained : before.eventsOf key = job.events)
    (foundNext : after.jobs[key]? = some next)
    (ok : EventsOk job)
    (step : JobStep job next)
    (log : Issued job events) :
    Issued next (events ++ newEvents before after key) := by
  have okNext := ok.step step
  rw [newEvents, retained, PersistentState.eventsOf_eq foundNext]
  cases step with
  | kept bound positive =>
      have none : (trimEventHistory job bound).events.filter
          (fun event => event ∉ job.events) = [] := by
        rw [List.filter_eq_nil_iff]
        intro event member
        simpa using List.mem_of_mem_drop member
      rw [none, List.append_nil]
      exact ⟨log.numbers, (List.drop_suffix _ _).trans log.retained,
        okNext.nonempty, okNext.last⟩
  | advanced change phase now bound positive live moves fits =>
      have numberNext : (job.nextSequence + 1).toNat =
          job.nextSequence.toNat + 1 := by
        rw [UInt64.toNat_add]
        exact Nat.mod_eq_of_lt fits
      let event := (job.apply change).nextEvent phase now
      have isNew : event ∉ job.events := by
        intro member
        exact absurd (ok.sequence_lt member) (lt_irrefl _)
      have isEvents : (job.advance change phase now bound).events =
          job.events.drop (job.events.length + 1 - bound) ++ [event] := by
        change (job.events ++ [event]).drop
          ((job.events ++ [event]).length - bound) = _
        rw [List.length_append, List.length_singleton,
          List.drop_append_of_le_length (by omega)]
      have issuedNow : (job.advance change phase now bound).events.filter
          (fun event => event ∉ job.events) = [event] := by
        have oldNone : (job.events.drop (job.events.length + 1 - bound)).filter
            (fun event => event ∉ job.events) = [] := by
          rw [List.filter_eq_nil_iff]
          intro old member
          simpa using List.mem_of_mem_drop member
        rw [isEvents, List.filter_append, oldNone]
        simp [isNew]
      rw [issuedNow]
      refine ⟨?_, ?_, okNext.nonempty, okNext.last⟩
      · change sequences (events ++ [event]) =
          List.range' 1 ((job.nextSequence + 1).toNat - 1)
        have positiveNumber := ok.fewer
        rw [sequences, List.map_append, ← sequences, log.numbers, numberNext,
          Nat.add_sub_cancel]
        have split : job.nextSequence.toNat =
            job.nextSequence.toNat - 1 + 1 := by omega
        conv_rhs => rw [split, List.range'_concat]
        simp only [List.map_cons, List.map_nil, List.append_cancel_left_eq,
          List.cons.injEq, and_true]
        change job.nextSequence.toNat = _
        omega
      · obtain ⟨earlier, rfl⟩ := log.retained
        rw [isEvents]
        refine ⟨earlier ++ job.events.take (job.events.length + 1 - bound), ?_⟩
        rw [List.append_assoc, ← List.append_assoc (job.events.take _),
          List.take_append_drop, List.append_assoc]

/-- What was issued is known after a job has come back. -/
theorem Issued.back
    {json : StoreJson}
    {job old : StoredJob}
    {events : List ProgressEvent}
    (log : Issued job events)
    (isBack : BackJob json job old) :
    Issued old events := by
  rcases isBack with rfl | rfl
  · exact log
  · exact ⟨log.numbers, log.retained, log.nonempty, log.last⟩

/-- A job that was just admitted has issued its first event. -/
theorem Admitted.issued
    {before after : PersistentState}
    {submission : JobSubmission}
    {job : StoredJob}
    (admitted : Admitted before after submission job)
    {key : String}
    (absent : before.jobs[key]? = none)
    (found : after.jobs[key]? = some job) :
    Issued job (newEvents before after key) := by
  have ok := admitted.eventsOk
  have noneBefore : before.eventsOf key = [] := by
    simp [PersistentState.eventsOf, absent]
  have isNew : newEvents before after key = job.events := by
    rw [newEvents, noneBefore, PersistentState.eventsOf_eq found]
    simp
  rw [isNew]
  refine ⟨?_, List.suffix_refl _, ok.nonempty, ok.last⟩
  rw [sequences, ok.sequences]
  obtain ⟨created, now, bound, positive, rfl⟩ := admitted.isNew
  have one : (trimEventHistory ((newJob submission
      ⟨jobIdText before.nextJob⟩ created).withEvent "queued" now)
      bound).events.length = 1 := by
    simp [trimEventHistory, StoredJob.withEvent, newJob]
    omega
  have two : (trimEventHistory ((newJob submission
      ⟨jobIdText before.nextJob⟩ created).withEvent "queued" now)
      bound).nextSequence.toNat = 2 := rfl
  rw [one, two]

/-! ## Runs of the journal -/

/-- The law of the committed states of a run. -/
structure Lifecycle (committed : Nat → PersistentState) : Prop where
  /-- A job that is done stays in its state. -/
  terminal : ∀ {time later : Nat} {key : String} {job : StoredJob},
    time ≤ later → (committed time).jobs[key]? = some job →
    job.state.isTerminal = true →
    ∃ same, (committed later).jobs[key]? = some same ∧ same.state = job.state
  /-- A job comes in queued. -/
  queued : ∀ {time : Nat} {key : String} {job : StoredJob},
    (committed time).jobs[key]? = none →
    (committed (time + 1)).jobs[key]? = some job → job.state = .queued
  /-- The states of a job only move forward. -/
  moves : ∀ {time : Nat} {key : String} {job : StoredJob},
    (committed time).jobs[key]? = some job →
    ∃ next, (committed (time + 1)).jobs[key]? = some next ∧
      (next.state = job.state ∨ job.state.movesTo next.state = true)
  /-- Events are numbered from 1 on, and the last ones are retained. -/
  events : ∀ {time : Nat} {key : String} {job : StoredJob},
    (committed time).jobs[key]? = some job →
    Issued job (issued committed key time)
  /-- An identifier stands for one submission for ever. -/
  identity : ∀ {time later : Nat} {key : String} {job : StoredJob},
    time ≤ later → (committed time).jobs[key]? = some job →
    ∃ same, (committed later).jobs[key]? = some same ∧ SameAdmission job same
  /-- A job that comes in gets an identifier that no job ever had. -/
  fresh : ∀ {earlier time : Nat} {key : String} {job : StoredJob},
    earlier ≤ time → (committed time).jobs[key]? = none →
    (committed (time + 1)).jobs[key]? = some job →
    (committed earlier).jobs[key]? = none

/-- The outcome of a job that is done never changes. -/
def OutcomesFinal (committed : Nat → PersistentState) : Prop :=
  ∀ (time later : Nat) (key : String) (job : StoredJob),
    time ≤ later → (committed time).jobs[key]? = some job →
    job.state.isTerminal = true →
    ∃ same, (committed later).jobs[key]? = some same ∧
      same.state = job.state ∧ same.result = job.result ∧
      same.error = job.error

section Journal

variable
  {json : StoreJson}
  {allowed : Call → Prop}
  {committed : Nat → PersistentState}
  (isRun : IsRun (JournalStep json allowed) .initial committed)

include isRun

/-- What every step of a job keeps, and coming back too, is kept for ever. -/
theorem journal_persists
    {Kept : StoredJob → StoredJob → Prop}
    (trans : ∀ {first second third}, Kept first second → Kept second third →
      Kept first third)
    (back : ∀ {job old}, BackJob json job old → Kept job old)
    (step : ∀ {job next}, JobStep job next → Kept job next)
    {time later : Nat}
    (ordered : time ≤ later)
    {key : String}
    {job : StoredJob}
    (found : (committed time).jobs[key]? = some job) :
    ∃ same, (committed later).jobs[key]? = some same ∧ Kept job same := by
  induction later, ordered using Nat.le_induction with
  | base => exact ⟨job, found, back (Or.inl rfl)⟩
  | succ later ordered inductionHypothesis =>
      obtain ⟨same, isSame, kept⟩ := inductionHypothesis
      obtain ⟨old, next, isBack, isNext, stepped⟩ :=
        (isRun.step later).job isSame
      exact ⟨next, isNext, trans (trans kept (back isBack)) (step stepped)⟩

/-- A job stays, and stays the one that was submitted. -/
theorem journal_identity
    {time later : Nat}
    (ordered : time ≤ later)
    {key : String}
    {job : StoredJob}
    (found : (committed time).jobs[key]? = some job) :
    ∃ same, (committed later).jobs[key]? = some same ∧
      SameAdmission job same :=
  @journal_persists json allowed committed isRun SameAdmission
    SameAdmission.trans BackJob.sameAdmission JobStep.sameAdmission time later
    ordered key job found

/-- A job that is absent has no events. -/
theorem issued_absent
    {time : Nat}
    {key : String}
    (absent : (committed time).jobs[key]? = none) :
    issued committed key time = [] := by
  induction time with
  | zero => simp [issued, PersistentState.eventsOf, absent]
  | succ time inductionHypothesis =>
      have absentBefore : (committed time).jobs[key]? = none := by
        cases found : (committed time).jobs[key]? with
        | none => rfl
        | some job =>
            obtain ⟨_, next, _, isNext, _⟩ := (isRun.step time).job found
            rw [absent] at isNext
            cases isNext
      rw [issued, inductionHypothesis absentBefore, newEvents]
      simp [PersistentState.eventsOf, absent]

/-- The events of a job over a whole run. -/
theorem journal_issued
    {time : Nat}
    {key : String}
    {job : StoredJob}
    (found : (committed time).jobs[key]? = some job) :
    Issued job (issued committed key time) := by
  induction time generalizing job with
  | zero =>
      rw [isRun.start] at found
      simp [PersistentState.initial] at found
  | succ time inductionHypothesis =>
      have step := isRun.step time
      cases before : (committed time).jobs[key]? with
      | none =>
          obtain ⟨base, _, absent, admitted⟩ := step.arrival before found
          have first := admitted.issued absent found
          rw [newEvents, PersistentState.eventsOf_absent absent,
            ← PersistentState.eventsOf_absent before, ← newEvents] at first
          rwa [issued, issued_absent isRun before, List.nil_append]
      | some job =>
          obtain ⟨old, next, isBack, isNext, stepped⟩ := step.job before
          rw [found] at isNext
          cases isNext
          have log := (inductionHypothesis before).back isBack
          have ok := (step.soundBefore.events key job before).back isBack
          exact log.step (PersistentState.eventsOf_back before isBack) found ok
            stepped

/-- The outcome of a job is final when it comes back as it was. -/
theorem journal_outcomes
    (kept : ∀ time, (committed time).Kept json.rereadFloat) :
    OutcomesFinal committed := by
  intro time later key job ordered found terminal
  induction later, ordered using Nat.le_induction with
  | base => exact ⟨job, found, rfl, rfl, rfl⟩
  | succ later ordered inductionHypothesis =>
      obtain ⟨same, isSame, state, result, error⟩ := inductionHypothesis
      obtain ⟨sound, _, base, isBack, soundBase, follows, _⟩ :=
        isRun.step later
      obtain rfl := isBack.eq (kept later) sound soundBase
      obtain ⟨next, isNext, stepped⟩ := soundBase.step follows isSame
      obtain ⟨nextState, nextResult, nextError⟩ :=
        stepped.terminal (by rw [state]; exact terminal)
      exact ⟨next, isNext, nextState.trans state, nextResult.trans result,
        nextError.trans error⟩

/-- Every journal obeys the law. -/
theorem journal_lifecycle : Lifecycle committed where
  terminal := by
    intro time later key job ordered found terminal
    obtain ⟨same, isSame, kept⟩ := @journal_persists json allowed committed
      isRun
      (fun job next => job.state.isTerminal = true → next.state = job.state)
      (by
        intro first second third firstKept secondKept terminal
        have state := firstKept terminal
        rw [secondKept (by rw [state]; exact terminal), state])
      (fun isBack _ => isBack.state_eq)
      (fun step terminal => (step.terminal terminal).1) time later ordered key
      job found
    exact ⟨same, isSame, kept terminal⟩
  queued := by
    intro time key job absent found
    obtain ⟨_, _, _, admitted⟩ := (isRun.step time).arrival absent found
    obtain ⟨_, _, _, _, rfl⟩ := admitted.isNew
    rfl
  moves := by
    intro time key job found
    obtain ⟨old, next, isBack, isNext, step⟩ := (isRun.step time).job found
    have moves := step.moves
    rw [isBack.state_eq] at moves
    exact ⟨next, isNext, moves⟩
  events := journal_issued isRun
  identity := fun ordered found => journal_identity isRun ordered found
  fresh := by
    intro earlier time key job ordered absent found
    cases before : (committed earlier).jobs[key]? with
    | none => rfl
    | some old =>
        obtain ⟨same, isSame, _⟩ := journal_identity isRun ordered before
        rw [absent] at isSame
        cases isSame

end Journal

end Pithos.Daemon
