import Pithos.Daemon.Store.Spec

/-!
# What one operation does to a job

Every operation leaves a job as it is, or advances it: it sets the mutable
fields and adds one event.  One lemma for each operation says which; everything
that holds along a run is derived from these.
-/

namespace Pithos.Daemon

open HostPath
open Fallible
open Machine
open Std
open MapValues

/-! ## Steps of a job -/

/-- The moves between the states of a job. -/
def ApiJobState.movesTo : ApiJobState → ApiJobState → Bool
  | queued, running | queued, completed | queued, failed | queued, cancelled
  | running, cancelling | running, completed | running, failed
  | running, cancelled | cancelling, completed | cancelling, failed
  | cancelling, cancelled => true
  | _, _ => false

theorem movesTo_of_validTransition
    {state next : ApiJobState}
    (valid : validTransition state next = true) :
    state.isTerminal = false ∧ state.movesTo next = true := by
  revert valid
  cases state <;> cases next <;> decide

/-- A job that is not done may be done next. -/
theorem ApiJobState.movesTo_of_isTerminal
    {state next : ApiJobState}
    (live : state.isTerminal = false)
    (terminal : next.isTerminal = true) :
    state.movesTo next = true := by
  revert live terminal
  cases state <;> cases next <;> decide

/-- The fields that an operation may set. -/
structure JobChange where
  state : ApiJobState
  result : Option Value
  error : Option JsonRpcError
  packPublication : Option PackPublicationMarker

/-- The job with the fields set. -/
def StoredJob.apply (job : StoredJob) (change : JobChange) : StoredJob :=
  { job with
    state := change.state
    result := change.result
    error := change.error
    packPublication := change.packPublication }

/-- The job with the fields set and one more event. -/
def StoredJob.advance
    (job : StoredJob)
    (change : JobChange)
    (phase : String)
    (now : UInt64)
    (maximumEvents : Nat) : StoredJob :=
  trimEventHistory ((job.apply change).withEvent phase now) maximumEvents

/-- What may happen to a job between two commits. -/
inductive JobStep (job : StoredJob) : StoredJob → Prop
  | kept (maximumEvents : Nat)
      (positive : maximumEvents ≠ 0) :
      JobStep job (trimEventHistory job maximumEvents)
  | advanced (change : JobChange) (phase : String) (now : UInt64)
      (maximumEvents : Nat)
      (positive : maximumEvents ≠ 0)
      (live : job.state.isTerminal = false)
      (moves : change.state = job.state ∨
        job.state.movesTo change.state = true)
      (fits : job.nextSequence.toNat + 1 < 2 ^ 64) :
      JobStep job (job.advance change phase now maximumEvents)

/-- Forgetting no event changes nothing. -/
theorem trimEventHistory_eq_self
    {job : StoredJob}
    {maximumEvents : Nat}
    (few : job.events.length ≤ maximumEvents) :
    trimEventHistory job maximumEvents = job := by
  rw [trimEventHistory, Nat.sub_eq_zero_of_le few]
  rfl

theorem trimEventHistory_trimEventHistory
    (job : StoredJob)
    (first second : Nat) :
    trimEventHistory (trimEventHistory job first) second =
      trimEventHistory job (min first second) := by
  simp only [trimEventHistory, List.drop_drop, List.length_drop]
  congr 2
  omega

theorem JobStep.refl (job : StoredJob) : JobStep job job := by
  have kept := @JobStep.kept job (job.events.length + 1) (by omega)
  rwa [trimEventHistory_eq_self (by omega)] at kept

/-- Forgetting events after a step is part of the step. -/
theorem JobStep.trim
    {job next : StoredJob}
    (step : JobStep job next)
    {maximumEvents : Nat}
    (positive : maximumEvents ≠ 0) :
    JobStep job (trimEventHistory next maximumEvents) := by
  cases step with
  | kept bound boundPositive =>
      rw [trimEventHistory_trimEventHistory]
      exact .kept _ (by omega)
  | advanced change phase now bound boundPositive live moves fits =>
      rw [StoredJob.advance, trimEventHistory_trimEventHistory]
      exact .advanced change phase now _ (by omega) live moves fits

/-- A step keeps the events in order. -/
theorem EventsOk.step
    {job next : StoredJob}
    (ok : EventsOk job)
    (step : JobStep job next) :
    EventsOk next := by
  cases step with
  | kept bound positive => exact ok.trim positive
  | advanced change phase now bound positive live moves fits =>
      refine EventsOk.trim ?_ positive
      exact @EventsOk.withEvent (job.apply change) ok.sequences ok.fewer ok.own
        fits phase now

/-! ## One lemma for each operation -/

section Operations

variable
  {policy : StorePolicy}
  {now : UInt64}
  {job next : StoredJob}

theorem appendEvent_apply
    {change : JobChange}
    {phase : String} :
    appendEvent (job.apply change) phase policy.maxEventsPerJob now =
        .ok next ↔
      job.nextSequence.toNat + 1 < 2 ^ 64 ∧
        next = job.advance change phase now policy.maxEventsPerJob :=
  appendEvent_eq_ok

theorem transitionJob_ok
    {probe : Path → Probe}
    {state : ApiJobState}
    {phase : String}
    {reply : Unit}
    (done : transitionJob policy probe now state phase job =
      .ok (next, reply)) :
    validTransition job.state state = true ∧
      job.nextSequence.toNat + 1 < 2 ^ 64 ∧
      ∃ marker, markerAfter probe state job = .ok marker ∧
        next = job.advance ⟨state, job.result, job.error, marker⟩ phase now
          policy.maxEventsPerJob := by
  simp only [transitionJob, bind_eq_ok, ensure_eq_ok, exists_const,
    Except.ok.injEq, Prod.mk.injEq, and_true] at done
  obtain ⟨valid, marker, isMarker, _, appended, rfl⟩ := done
  obtain ⟨fits, rfl⟩ := (@appendEvent_apply policy now job _
    ⟨state, job.result, job.error, marker⟩ phase).mp appended
  exact ⟨valid, fits, marker, isMarker, rfl⟩

theorem requestCancelJob_ok
    {reply : ApiJobState}
    (done : requestCancelJob policy now job = .ok (next, reply)) :
    (reply = next.state) ∧
    (job.state = .queued ∧ job.nextSequence.toNat + 1 < 2 ^ 64 ∧
        next = job.advance ⟨.cancelled, job.result, some jobCancelled,
          job.packPublication⟩ "cancelled" now policy.maxEventsPerJob ∨
      job.state = .running ∧ job.nextSequence.toNat + 1 < 2 ^ 64 ∧
        next = job.advance ⟨.cancelling, job.result, job.error,
          job.packPublication⟩ "cancelling" now policy.maxEventsPerJob ∨
      (job.state = .cancelling ∨ job.state = .cancelled) ∧ next = job) := by
  unfold requestCancelJob at done
  cases isState : job.state with
  | queued =>
      simp only [isState, bind_eq_ok, Except.ok.injEq, Prod.mk.injEq] at done
      obtain ⟨_, appended, rfl, rfl⟩ := done
      obtain ⟨fits, rfl⟩ := (@appendEvent_apply policy now job _
        ⟨.cancelled, job.result, some jobCancelled, job.packPublication⟩
        "cancelled").mp appended
      exact ⟨rfl, Or.inl ⟨rfl, fits, rfl⟩⟩
  | running =>
      simp only [isState, bind_eq_ok, Except.ok.injEq, Prod.mk.injEq] at done
      obtain ⟨_, appended, rfl, rfl⟩ := done
      obtain ⟨fits, rfl⟩ := (@appendEvent_apply policy now job _
        ⟨.cancelling, job.result, job.error, job.packPublication⟩
        "cancelling").mp appended
      exact ⟨rfl, Or.inr (Or.inl ⟨rfl, fits, rfl⟩)⟩
  | cancelling =>
      simp only [isState, Except.ok.injEq, Prod.mk.injEq] at done
      obtain ⟨rfl, rfl⟩ := done
      exact ⟨isState.symm, Or.inr (Or.inr ⟨Or.inl rfl, rfl⟩)⟩
  | cancelled =>
      simp only [isState, Except.ok.injEq, Prod.mk.injEq] at done
      obtain ⟨rfl, rfl⟩ := done
      exact ⟨isState.symm, Or.inr (Or.inr ⟨Or.inr rfl, rfl⟩)⟩
  | completed | failed => simp [isState] at done

theorem finishCancelledJob_ok
    {reply : Unit}
    (done : finishCancelledJob policy now job = .ok (next, reply)) :
    job.state = .cancelling ∧ job.nextSequence.toNat + 1 < 2 ^ 64 ∧
      next = job.advance ⟨.cancelled, job.result, some jobCancelled,
        job.packPublication⟩ "cancelled" now policy.maxEventsPerJob := by
  simp only [finishCancelledJob, bind_eq_ok, ensure_eq_ok, exists_const,
    Except.ok.injEq, Prod.mk.injEq, and_true] at done
  obtain ⟨cancelling, _, appended, rfl⟩ := done
  obtain ⟨fits, rfl⟩ := (@appendEvent_apply policy now job _
    ⟨.cancelled, job.result, some jobCancelled, job.packPublication⟩
    "cancelled").mp appended
  exact ⟨cancelling, fits, rfl⟩

theorem completeJob_ok
    {result : Value}
    {reply : Unit}
    (done : completeJob policy now result job = .ok (next, reply)) :
    job.state.isTerminal = false ∧
      requireRecordedPackPublication job = .ok () ∧
      job.nextSequence.toNat + 1 < 2 ^ 64 ∧
      next = job.advance ⟨.completed, some result, none, job.packPublication⟩
        "completed" now policy.maxEventsPerJob := by
  simp only [completeJob, bind_eq_ok, ensure_eq_ok, exists_const,
    Except.ok.injEq, Prod.mk.injEq, and_true] at done
  obtain ⟨live, _, recorded, _, appended, rfl⟩ := done
  obtain ⟨fits, rfl⟩ := (@appendEvent_apply policy now job _
    ⟨.completed, some result, none, job.packPublication⟩
    "completed").mp appended
  refine ⟨?_, recorded, fits, rfl⟩
  rcases live with isState | isState | isState <;> rw [isState] <;> rfl

theorem recordPackPublicationJob_ok
    {output : Path}
    {identity : ArchiveIdentity}
    {reply : Unit}
    (done : recordPackPublicationJob policy now output identity job =
      .ok (next, reply)) :
    (job.state = .running ∨ job.state = .cancelling) ∧
      job.operation.packOutput? = some output ∧
      ∃ marker, job.packPublication = some marker ∧
        marker.outputWasAbsent = true ∧
        (marker.publishedArchive = some identity ∧ next = job ∨
          marker.publishedArchive = none ∧
            job.nextSequence.toNat + 1 < 2 ^ 64 ∧
            next = job.advance ⟨job.state, job.result, job.error,
              some (marker.published identity)⟩ "pack_published" now
              policy.maxEventsPerJob) := by
  simp only [recordPackPublicationJob, bind_eq_ok, ensure_eq_ok, okOr_eq_ok,
    exists_const, Option.filter_eq_some_iff] at done
  obtain ⟨running, isOutput, marker, ⟨isMarker, absent⟩, recorded⟩ := done
  refine ⟨running, isOutput, marker, isMarker, absent, ?_⟩
  cases published : marker.publishedArchive with
  | some expected =>
      simp only [published, bind_eq_ok, ensure_eq_ok, exists_const,
        Except.ok.injEq, Prod.mk.injEq, and_true] at recorded
      obtain ⟨rfl, rfl⟩ := recorded
      exact Or.inl ⟨rfl, rfl⟩
  | none =>
      simp only [published, bind_eq_ok, Except.ok.injEq, Prod.mk.injEq,
        and_true] at recorded
      obtain ⟨_, appended, rfl⟩ := recorded
      obtain ⟨fits, rfl⟩ := (@appendEvent_apply policy now job _
        ⟨job.state, job.result, job.error, some (marker.published identity)⟩
        "pack_published").mp appended
      exact Or.inr ⟨rfl, fits, rfl⟩

theorem expireDeadlineJob_ok
    {cancelWorker changed : Bool}
    (done : expireDeadlineJob policy now job =
      .ok (next, cancelWorker, changed)) :
    job.state = .queued ∧ job.nextSequence.toNat + 1 < 2 ^ 64 ∧
        next = job.advance ⟨.failed, none, some deadlineExceeded,
          job.packPublication⟩ "deadline_exceeded" now
          policy.maxEventsPerJob ∧ cancelWorker = false ∧ changed = true ∨
      job.state = .running ∧ job.nextSequence.toNat + 1 < 2 ^ 64 ∧
        next = job.advance ⟨.cancelling, job.result, job.error,
          job.packPublication⟩ "deadline_exceeded" now
          policy.maxEventsPerJob ∧ cancelWorker = true ∧ changed = true ∨
      job.state ≠ .queued ∧ job.state ≠ .running ∧ next = job ∧
        (cancelWorker = true ↔ job.state = .cancelling) ∧
        changed = false := by
  unfold expireDeadlineJob at done
  cases isState : job.state with
  | queued =>
      simp only [isState, bind_eq_ok, Except.ok.injEq, Prod.mk.injEq] at done
      obtain ⟨_, appended, rfl, rfl, rfl⟩ := done
      obtain ⟨fits, rfl⟩ := (@appendEvent_apply policy now job _
        ⟨.failed, none, some deadlineExceeded, job.packPublication⟩
        "deadline_exceeded").mp appended
      exact Or.inl ⟨rfl, fits, rfl, rfl, rfl⟩
  | running =>
      simp only [isState, bind_eq_ok, Except.ok.injEq, Prod.mk.injEq] at done
      obtain ⟨_, appended, rfl, rfl, rfl⟩ := done
      obtain ⟨fits, rfl⟩ := (@appendEvent_apply policy now job _
        ⟨.cancelling, job.result, job.error, job.packPublication⟩
        "deadline_exceeded").mp appended
      exact Or.inr (Or.inl ⟨rfl, fits, rfl, rfl, rfl⟩)
  | cancelling | completed | failed | cancelled =>
      simp only [isState, Except.ok.injEq, Prod.mk.injEq] at done
      obtain ⟨rfl, rfl, rfl⟩ := done
      simp

theorem failJob_ok
    {error : JsonRpcError}
    {reply : Unit}
    (done : failJob policy now error job = .ok (next, reply)) :
    job.state.isTerminal = false ∧ job.nextSequence.toNat + 1 < 2 ^ 64 ∧
      next = job.advance
        ⟨if error.kind = .cancelled then .cancelled else .failed, none,
          some error, job.packPublication⟩ "failed" now
        policy.maxEventsPerJob := by
  simp only [failJob, bind_eq_ok, ensure_eq_ok, exists_const,
    Except.ok.injEq, Prod.mk.injEq, and_true] at done
  obtain ⟨live, _, appended, rfl⟩ := done
  obtain ⟨fits, rfl⟩ := (@appendEvent_apply policy now job _
    ⟨if error.kind = .cancelled then .cancelled else .failed, none,
      some error, job.packPublication⟩ "failed").mp appended
  exact ⟨live, fits, rfl⟩

/-- The error of a job that was queued at shutdown. -/
def cancelledAtShutdown : JsonRpcError :=
  .domain .cancelled "job cancelled during daemon shutdown"

theorem shutdownJob_ok
    (done : shutdownJob policy now job = .ok next) :
    job.state = .queued ∧ job.nextSequence.toNat + 1 < 2 ^ 64 ∧
        next = job.advance ⟨.cancelled, none, some cancelledAtShutdown,
          job.packPublication⟩ "daemon_shutdown" now
          policy.maxEventsPerJob ∨
      job.state = .running ∧ job.nextSequence.toNat + 1 < 2 ^ 64 ∧
        next = job.advance ⟨.cancelling, job.result, job.error,
          job.packPublication⟩ "daemon_shutdown" now
          policy.maxEventsPerJob ∨
      shutdownChanges job = false ∧ next = job := by
  unfold shutdownJob at done
  cases isState : job.state with
  | queued =>
      simp only [isState] at done
      obtain ⟨fits, rfl⟩ := (@appendEvent_apply policy now job _
        ⟨.cancelled, none, some cancelledAtShutdown, job.packPublication⟩
        "daemon_shutdown").mp done
      exact Or.inl ⟨rfl, fits, rfl⟩
  | running =>
      simp only [isState] at done
      obtain ⟨fits, rfl⟩ := (@appendEvent_apply policy now job _
        ⟨.cancelling, job.result, job.error, job.packPublication⟩
        "daemon_shutdown").mp done
      exact Or.inr (Or.inl ⟨rfl, fits, rfl⟩)
  | cancelling | completed | failed | cancelled =>
      simp only [isState, Except.ok.injEq] at done
      refine Or.inr (Or.inr ⟨?_, done.symm⟩)
      simp [shutdownChanges, isState]

/-- The error of a job that a restart interrupted. -/
def interruptedByRestart : JsonRpcError :=
  internal "job interrupted by daemon restart"

theorem recoverJob_ok
    {archives : Archives}
    (done : recoverJob policy archives now job = .ok next) :
    job.state.isTerminal = true ∧ next = job ∨
      job.state.isTerminal = false ∧ job.nextSequence.toNat + 1 < 2 ^ 64 ∧
        ((∃ archive identity,
            recoverPackArchive archives job = some (archive, identity) ∧
            next = job.advance ⟨.completed,
              some (.object [("archive", .string archive)]), none,
              job.packPublication.map
                (PackPublicationMarker.published · identity)⟩
              "recovered_completed" now policy.maxEventsPerJob) ∨
          recoverPackArchive archives job = none ∧
            next = job.advance ⟨.failed, none, some interruptedByRestart,
              job.packPublication⟩ "daemon_restarted" now
              policy.maxEventsPerJob) := by
  unfold recoverJob at done
  split at done
  case isTrue terminal => exact Or.inl ⟨terminal, (Except.ok.inj done).symm⟩
  case isFalse live =>
      refine Or.inr ⟨by simpa using live, ?_⟩
      cases recovered : recoverPackArchive archives job with
      | some found =>
          obtain ⟨archive, identity⟩ := found
          simp only [recovered] at done
          obtain ⟨fits, rfl⟩ := (@appendEvent_apply policy now job _
            ⟨.completed, some (.object [("archive", .string archive)]), none,
              job.packPublication.map
                (PackPublicationMarker.published · identity)⟩
            "recovered_completed").mp done
          exact ⟨fits, Or.inl ⟨archive, identity, rfl, rfl⟩⟩
      | none =>
          simp only [recovered] at done
          obtain ⟨fits, rfl⟩ := (@appendEvent_apply policy now job _
            ⟨.failed, none, some interruptedByRestart, job.packPublication⟩
            "daemon_restarted").mp done
          exact ⟨fits, Or.inr ⟨rfl, rfl⟩⟩

/-! ## Every operation is a step -/

variable (positive : policy.maxEventsPerJob ≠ 0)

include positive

theorem transitionJob_step
    {probe : Path → Probe}
    {state : ApiJobState}
    {phase : String}
    {reply : Unit}
    (done : transitionJob policy probe now state phase job =
      .ok (next, reply)) :
    JobStep job next := by
  obtain ⟨valid, fits, marker, _, rfl⟩ := transitionJob_ok done
  obtain ⟨live, moves⟩ := movesTo_of_validTransition valid
  exact .advanced _ phase now _ positive live (Or.inr moves) fits

theorem requestCancelJob_step
    {reply : ApiJobState}
    (done : requestCancelJob policy now job = .ok (next, reply)) :
    JobStep job next := by
  obtain ⟨_, ⟨isState, fits, rfl⟩ | ⟨isState, fits, rfl⟩ | ⟨_, rfl⟩⟩ :=
    requestCancelJob_ok done
  · exact .advanced _ _ _ _ positive (by rw [isState]; rfl)
      (Or.inr (by rw [isState]; rfl)) fits
  · exact .advanced _ _ _ _ positive (by rw [isState]; rfl)
      (Or.inr (by rw [isState]; rfl)) fits
  · exact .refl _

theorem finishCancelledJob_step
    {reply : Unit}
    (done : finishCancelledJob policy now job = .ok (next, reply)) :
    JobStep job next := by
  obtain ⟨isState, fits, rfl⟩ := finishCancelledJob_ok done
  exact .advanced _ _ _ _ positive (by rw [isState]; rfl)
    (Or.inr (by rw [isState]; rfl)) fits

theorem completeJob_step
    {result : Value}
    {reply : Unit}
    (done : completeJob policy now result job = .ok (next, reply)) :
    JobStep job next := by
  obtain ⟨live, _, fits, rfl⟩ := completeJob_ok done
  exact .advanced _ _ _ _ positive live
    (Or.inr (ApiJobState.movesTo_of_isTerminal live rfl)) fits

theorem recordPackPublicationJob_step
    {output : Path}
    {identity : ArchiveIdentity}
    {reply : Unit}
    (done : recordPackPublicationJob policy now output identity job =
      .ok (next, reply)) :
    JobStep job next := by
  obtain ⟨running, _, marker, _, _, ⟨_, rfl⟩ | ⟨_, fits, rfl⟩⟩ :=
    recordPackPublicationJob_ok done
  · exact .refl _
  · refine .advanced _ _ _ _ positive ?_ (Or.inl rfl) fits
    rcases running with isState | isState <;> rw [isState] <;> rfl

theorem expireDeadlineJob_step
    {cancelWorker changed : Bool}
    (done : expireDeadlineJob policy now job =
      .ok (next, cancelWorker, changed)) :
    JobStep job next := by
  obtain ⟨isState, fits, rfl, _⟩ | ⟨isState, fits, rfl, _⟩ | ⟨_, _, rfl, _⟩ :=
    expireDeadlineJob_ok done
  · exact .advanced _ _ _ _ positive (by rw [isState]; rfl)
      (Or.inr (by rw [isState]; rfl)) fits
  · exact .advanced _ _ _ _ positive (by rw [isState]; rfl)
      (Or.inr (by rw [isState]; rfl)) fits
  · exact .refl _

theorem failJob_step
    {error : JsonRpcError}
    {reply : Unit}
    (done : failJob policy now error job = .ok (next, reply)) :
    JobStep job next := by
  obtain ⟨live, fits, rfl⟩ := failJob_ok done
  refine .advanced _ _ _ _ positive live
    (Or.inr (ApiJobState.movesTo_of_isTerminal live ?_)) fits
  split <;> rfl

theorem shutdownJob_step
    (done : shutdownJob policy now job = .ok next) :
    JobStep job next := by
  obtain ⟨isState, fits, rfl⟩ | ⟨isState, fits, rfl⟩ | ⟨_, rfl⟩ :=
    shutdownJob_ok done
  · exact .advanced _ _ _ _ positive (by rw [isState]; rfl)
      (Or.inr (by rw [isState]; rfl)) fits
  · exact .advanced _ _ _ _ positive (by rw [isState]; rfl)
      (Or.inr (by rw [isState]; rfl)) fits
  · exact .refl _

theorem recoverJob_step
    {archives : Archives}
    (done : recoverJob policy archives now job = .ok next) :
    JobStep job next := by
  obtain ⟨_, rfl⟩ | ⟨live, fits, recovered⟩ := recoverJob_ok done
  · exact .refl _
  · obtain ⟨_, _, _, rfl⟩ | ⟨_, rfl⟩ := recovered
    all_goals
      exact .advanced _ _ _ _ positive live
        (Or.inr (ApiJobState.movesTo_of_isTerminal live rfl)) fits

end Operations

end Pithos.Daemon
