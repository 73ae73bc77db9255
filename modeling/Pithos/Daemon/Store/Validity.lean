import Pithos.Daemon.Store.Lifecycle

/-!
# Which commits pass the check

A commit is checked against demands that the operations do not share.  Every
operation but one meets them: a transition may ask for an outcome that it does
not bring along.
-/

namespace Pithos.Daemon

open HostPath
open Fallible
open Machine
open Std
open MapValues
open Simulation

/-! ## One job -/

/-- The demands on a job that do not depend on the others. -/
structure JobFits (policy : StorePolicy) (job : StoredJob) : Prop where
  events : EventsOk job
  few : job.events.length ≤ policy.maxEventsPerJob
  result : resultFits job
  marker : validatePackPublicationMarker job = .ok ()

/-- The demands on the marker of a job. -/
theorem validatePackPublicationMarker_eq_ok
    {job : StoredJob} :
    validatePackPublicationMarker job = .ok () ↔
      ∀ marker ∈ job.packPublication,
        marker.markerVersion = packPublicationMarkerVersion ∧
          marker.jobId = job.jobId ∧ marker.paramsHash = job.paramsHash ∧
          job.operation.packOutput? = some marker.output ∧
          job.state ≠ .queued ∧
          (marker.publishedArchive.isSome → marker.outputWasAbsent = true) := by
  unfold validatePackPublicationMarker
  cases job.packPublication with
  | none => simp
  | some marker =>
      cases job.operation with
      | pack inputs output profile =>
          simp only [StoredOperation.packOutput?, ensure_eq_ok, not_or,
            Decidable.not_not, not_and, Option.mem_some, forall_eq',
            Option.some.injEq, Bool.not_eq_false, ne_eq,
            @eq_comm _ output marker.output]
      | unpack | list | inspect | extract | readRange | verify =>
          simp [StoredOperation.packOutput?]

/-- A job that is not done has neither result nor error. -/
theorem resultFits.empty
    {job : StoredJob}
    (fits : resultFits job)
    (live : job.state.isTerminal = false) :
    job.result = none ∧ job.error = none := by
  cases isState : job.state <;>
    simp_all [resultFits, ApiJobState.isTerminal]

/-- An operation keeps no more events than the bound. -/
theorem StoredJob.advance_few
    (job : StoredJob)
    (change : JobChange)
    (phase : String)
    (now : UInt64)
    (maximumEvents : Nat) :
    (job.advance change phase now maximumEvents).events.length ≤
      maximumEvents := by
  simp only [StoredJob.advance, trimEventHistory, List.length_drop]
  omega

/-- The job that an operation makes passes when its new fields do. -/
theorem JobFits.advance
    {policy : StorePolicy}
    {job : StoredJob}
    (fits : JobFits policy job)
    {change : JobChange}
    {phase : String}
    {now : UInt64}
    (positive : policy.maxEventsPerJob ≠ 0)
    (room : job.nextSequence.toNat + 1 < 2 ^ 64)
    (result : resultFits (job.apply change))
    (marker : validatePackPublicationMarker (job.apply change) = .ok ()) :
    JobFits policy (job.advance change phase now policy.maxEventsPerJob) where
  events := by
    refine EventsOk.trim ?_ positive
    exact @EventsOk.withEvent (job.apply change) fits.events.sequences
      fits.events.fewer fits.events.own room phase now
  few := job.advance_few change phase now _
  result := result
  marker := marker

/-- A marker stays valid when the job moves on. -/
theorem JobFits.marker_apply
    {policy : StorePolicy}
    {job : StoredJob}
    (fits : JobFits policy job)
    {state : ApiJobState}
    (notQueued : state ≠ .queued)
    (result : Option Value)
    (error : Option JsonRpcError) :
    validatePackPublicationMarker
      (job.apply ⟨state, result, error, job.packPublication⟩) = .ok () := by
  have valid := validatePackPublicationMarker_eq_ok.mp fits.marker
  rw [validatePackPublicationMarker_eq_ok]
  intro marker isMarker
  obtain ⟨version, jobId, hash, output, _, published⟩ := valid marker isMarker
  exact ⟨version, jobId, hash, output, notQueued, published⟩

section Operations

variable
  {policy : StorePolicy}
  {now : UInt64}
  {job next : StoredJob}
  (positive : policy.maxEventsPerJob ≠ 0)
  (fits : JobFits policy job)

include positive fits

/-- The targets that a transition can reach without an outcome. -/
def ApiJobState.NeedsOutcome (state : ApiJobState) : Prop :=
  state = .completed ∨ state = .failed

theorem transitionJob_fits
    {probe : Path → Probe}
    {state : ApiJobState}
    {phase : String}
    {reply : Unit}
    (done : transitionJob policy probe now state phase job =
      .ok (next, reply)) :
    JobFits policy next ↔ ¬state.NeedsOutcome := by
  obtain ⟨valid, room, marker, isMarker, rfl⟩ := transitionJob_ok done
  obtain ⟨live, _⟩ := movesTo_of_validTransition valid
  obtain ⟨noResult, noError⟩ := fits.result.empty live
  constructor
  · intro nextFits needs
    have result := nextFits.result
    rcases needs with rfl | rfl <;>
      simp [resultFits, StoredJob.advance, trimEventHistory,
        StoredJob.withEvent, StoredJob.apply, noResult, noError] at result
  · intro needsNot
    have notQueued : state ≠ .queued := by
      rintro rfl
      cases job.state <;> simp [validTransition] at valid
    refine fits.advance positive room ?_ ?_
    · cases state <;> simp_all [resultFits, StoredJob.apply,
        ApiJobState.NeedsOutcome]
    · unfold markerAfter preparePackPublicationMarker at isMarker
      split at isMarker
      case isTrue starts =>
          subst starts
          cases isOperation : job.operation <;>
            simp only [isOperation, bind_eq_ok, ensure_eq_ok, exists_const,
              Except.ok.injEq] at isMarker
          case pack inputs output profile =>
              rw [validatePackPublicationMarker_eq_ok]
              obtain ⟨_, rfl⟩ := isMarker
              simp [StoredJob.apply, isOperation,
                StoredOperation.packOutput?]
          all_goals
            subst isMarker
            rfl
      case isFalse other =>
          cases isMarker
          exact fits.marker_apply notQueued job.result job.error

theorem requestCancelJob_fits
    {reply : ApiJobState}
    (done : requestCancelJob policy now job = .ok (next, reply)) :
    JobFits policy next := by
  obtain ⟨_, ⟨isState, room, rfl⟩ | ⟨isState, room, rfl⟩ | ⟨_, rfl⟩⟩ :=
    requestCancelJob_ok done
  · obtain ⟨noResult, noError⟩ := fits.result.empty (by rw [isState]; rfl)
    refine fits.advance positive room ?_ (fits.marker_apply (by decide) _ _)
    simp [resultFits, StoredJob.apply, noResult]
  · obtain ⟨noResult, noError⟩ := fits.result.empty (by rw [isState]; rfl)
    refine fits.advance positive room ?_ (fits.marker_apply (by decide) _ _)
    simp [resultFits, StoredJob.apply, noResult, noError]
  · exact fits

theorem finishCancelledJob_fits
    {reply : Unit}
    (done : finishCancelledJob policy now job = .ok (next, reply)) :
    JobFits policy next := by
  obtain ⟨isState, room, rfl⟩ := finishCancelledJob_ok done
  obtain ⟨noResult, noError⟩ := fits.result.empty (by rw [isState]; rfl)
  refine fits.advance positive room ?_ (fits.marker_apply (by decide) _ _)
  simp [resultFits, StoredJob.apply, noResult]

theorem completeJob_fits
    {result : Value}
    {reply : Unit}
    (done : completeJob policy now result job = .ok (next, reply)) :
    JobFits policy next := by
  obtain ⟨live, _, room, rfl⟩ := completeJob_ok done
  refine fits.advance positive room ?_ (fits.marker_apply (by decide) _ _)
  simp [resultFits, StoredJob.apply]

theorem recordPackPublicationJob_fits
    {output : Path}
    {identity : ArchiveIdentity}
    {reply : Unit}
    (done : recordPackPublicationJob policy now output identity job =
      .ok (next, reply)) :
    JobFits policy next := by
  obtain ⟨running, _, marker, isMarker, absent, ⟨_, rfl⟩ | ⟨_, room, rfl⟩⟩ :=
    recordPackPublicationJob_ok done
  · exact fits
  · refine fits.advance positive room fits.result ?_
    have valid := validatePackPublicationMarker_eq_ok.mp fits.marker marker
      isMarker
    rw [validatePackPublicationMarker_eq_ok]
    rintro _ ⟨⟩
    obtain ⟨version, jobId, hash, isOutput, notQueued, _⟩ := valid
    exact ⟨version, jobId, hash, isOutput, notQueued, fun _ => absent⟩

theorem expireDeadlineJob_fits
    {cancelWorker changed : Bool}
    (done : expireDeadlineJob policy now job =
      .ok (next, cancelWorker, changed)) :
    JobFits policy next := by
  obtain ⟨isState, room, rfl, _⟩ | ⟨isState, room, rfl, _⟩ |
      ⟨_, _, rfl, _⟩ := expireDeadlineJob_ok done
  · refine fits.advance positive room ?_ (fits.marker_apply (by decide) _ _)
    simp [resultFits, StoredJob.apply]
  · obtain ⟨noResult, noError⟩ := fits.result.empty (by rw [isState]; rfl)
    refine fits.advance positive room ?_ (fits.marker_apply (by decide) _ _)
    simp [resultFits, StoredJob.apply, noResult, noError]
  · exact fits

theorem failJob_fits
    {error : JsonRpcError}
    {reply : Unit}
    (done : failJob policy now error job = .ok (next, reply)) :
    JobFits policy next := by
  obtain ⟨live, room, rfl⟩ := failJob_ok done
  refine fits.advance positive room ?_ (fits.marker_apply ?_ _ _)
  · by_cases cancelled : error.kind = .cancelled <;>
      simp [resultFits, StoredJob.apply, cancelled]
  · split <;> decide

end Operations

/-! ## Whole states -/

/-- Every job of a valid sound state fits. -/
theorem ValidState.jobFits
    {state : PersistentState}
    {policy : StorePolicy}
    (valid : ValidState state policy true)
    (sound : Sound state)
    {key : String}
    {job : StoredJob}
    (found : state.jobs[key]? = some job) :
    JobFits policy job := by
  have ok := valid.jobs key job found
  have events := sound.events key job found
  exact ⟨events, events.validateJobEvents_eq_ok.mp ok.events rfl, ok.result,
    ok.marker⟩

theorem JobFits.validJob
    {policy : StorePolicy}
    {job next : StoredJob}
    (fits : JobFits policy next)
    (admission : SameAdmission job next)
    {state after : PersistentState}
    {enforce : Bool}
    {key : String}
    (ok : ValidJob state policy enforce key job)
    (nextJob : state.nextJob ≤ after.nextJob)
    (index : ∀ (row jobId : String), state.idempotency[row]? = some jobId →
      after.idempotency[row]? = some jobId) :
    ValidJob after policy enforce key next where
  key := by rw [admission.jobId]; exact ok.key
  method := by rw [admission.method, admission.operation]; exact ok.method
  threads := by rw [admission.limits]; exact ok.threads
  memory := by rw [admission.limits]; exact ok.memory
  output := by rw [admission.limits]; exact ok.output
  idempotencyKey := by rw [admission.idempotencyKey]; exact ok.idempotencyKey
  number := by
    obtain ⟨number, isNumber, below⟩ := ok.number
    rw [admission.jobId]
    refine ⟨number, isNumber, ?_⟩
    rw [UInt64.lt_iff_toNat_lt] at below ⊢
    rw [UInt64.le_iff_toNat_le] at nextJob
    omega
  index := by
    rw [admission.owner, admission.idempotencyKey, admission.jobId]
    exact index _ _ ok.index
  events := fits.events.validateJobEvents_eq_ok.mpr fun _ => fits.few
  result := fits.result
  marker := fits.marker

/-- Changing one job keeps the state valid exactly when the job fits. -/
theorem validState_setJob_iff
    {state : PersistentState}
    {policy : StorePolicy}
    (valid : ValidState state policy true)
    (sound : Sound state)
    {key : String}
    {job next : StoredJob}
    (found : state.jobs[key]? = some job)
    (step : JobStep job next)
    (few : next.events.length ≤ policy.maxEventsPerJob) :
    ValidState (trimRetainedEvents (state.setJob key next) policy) policy true ↔
      JobFits policy next := by
  have lookup (other : String) : (state.setJob key next).jobs[other]? =
      if key = other then some next else state.jobs[other]? :=
    getElem?_insert_eq state.jobs key other next
  have unchanged : trimRetainedEvents (state.setJob key next) policy =
      state.setJob key next := by
    refine trimRetainedEvents_eq_self fun other otherJob otherFound => ?_
    rw [lookup] at otherFound
    split at otherFound
    · cases otherFound
      exact few
    · exact (valid.jobFits sound otherFound).few
  rw [unchanged]
  have admission := step.sameAdmission
  constructor
  · intro validAfter
    have ok := validAfter.jobs key next (by rw [lookup, if_pos rfl])
    exact ⟨(sound.events key job found).step step, few, ok.result, ok.marker⟩
  · intro fits
    refine ⟨valid.schema, ?_, valid.nextJob, ?_, ?_, ?_⟩
    · intro enforced
      have size := size_insert_of_getElem?_eq_some found next
      have := valid.retention enforced
      change (state.jobs.insert key next).size ≤ _
      omega
    · rw [show (state.setJob key next).jobs.size = state.jobs.size from
        size_insert_of_getElem?_eq_some found next]
      exact valid.sizes
    · intro other otherJob otherFound
      rw [lookup] at otherFound
      split at otherFound
      · rename_i same
        subst same
        cases otherFound
        exact fits.validJob admission (valid.jobs key job found)
          UInt64.le_rfl fun _ _ row => row
      · exact (valid.jobFits sound otherFound).validJob (.refl _)
          (valid.jobs other otherJob otherFound) UInt64.le_rfl
          fun _ _ row => row
    · intro row jobId isRow
      obtain ⟨rowJob, rowFound, isKey⟩ := valid.index row jobId isRow
      rw [lookup]
      split
      · rename_i same
        subst same
        rw [found] at rowFound
        cases rowFound
        refine ⟨next, rfl, ?_⟩
        rw [admission.owner, admission.idempotencyKey]
        exact isKey
      · exact ⟨rowJob, rowFound, isKey⟩

/-- A submission whose job would pass the check. -/
def JobSubmission.Lawful (submission : JobSubmission) : Prop :=
  submission.method = operationMethod submission.operation ∧
    submission.limits.maxThreads ≠ 0 ∧ submission.limits.maxMemory ≠ 0 ∧
    submission.limits.maxOutput ≠ 0

/-- What the admission of a job does to a state: one new job and one new row of
the index, and the next number. -/
structure JobAdded
    (state after : PersistentState)
    (row : String)
    (job : StoredJob) : Prop where
  schema : after.schemaVersion = state.schemaVersion
  nextJob : after.nextJob.toNat = state.nextJob.toNat + 1
  jobs : ∀ other : String, after.jobs[other]? =
    if jobIdText state.nextJob = other then some job else state.jobs[other]?
  rows : ∀ other : String, after.idempotency[other]? =
    if row = other then some (jobIdText state.nextJob)
    else state.idempotency[other]?
  jobsSize : after.jobs.size = state.jobs.size + 1
  rowsSize : after.idempotency.size = state.idempotency.size + 1

section Admission

variable
  {state after : PersistentState}
  {policy : StorePolicy}
  {submission : JobSubmission}
  {created now : UInt64}

/-- The job that a submission gives rise to. -/
def admittedJob
    (policy : StorePolicy)
    (created now : UInt64)
    (submission : JobSubmission)
    (state : PersistentState) : StoredJob :=
  trimEventHistory ((newJob submission ⟨jobIdText state.nextJob⟩
    created).withEvent "queued" now) policy.maxEventsPerJob

theorem admittedJob_events (positive : policy.maxEventsPerJob ≠ 0) :
    EventsOk (admittedJob policy created now submission state) := by
  refine EventsOk.trim ?_ positive
  refine EventsOk.withEvent rfl ?_ ?_ ?_ "queued" now
  · change 0 < (1 : UInt64).toNat
    decide
  · simp [newJob]
  · change (1 : UInt64).toNat + 1 < 2 ^ 64
    decide

theorem admittedJob_few :
    (admittedJob policy created now submission state).events.length ≤
      policy.maxEventsPerJob := by
  simp only [admittedJob, trimEventHistory, List.length_drop]
  omega

theorem jobAdded_of_decideNewJob
    (valid : ValidState state policy true)
    (keyFree : state.idempotency[idempotencyMapKey submission.owner
      submission.idempotencyKey]? = none)
    {maxNonterminalForOwner : Nat}
    {accepted : JobAccepted}
    (decided : decideNewJob policy created now submission
      maxNonterminalForOwner state = .ok (some after, accepted)) :
    JobAdded state after
      (idempotencyMapKey submission.owner submission.idempotencyKey)
      (admittedJob policy created now submission state) := by
  obtain ⟨_, _, fits, isAfter, _⟩ := decideNewJob_eq_ok.mp decided
  cases isAfter
  exact {
    schema := rfl
    nextJob := by
      change (state.nextJob + 1).toNat = _
      rw [UInt64.toNat_add]
      exact Nat.mod_eq_of_lt fits
    jobs := fun other => getElem?_insert_eq state.jobs _ other _
    rows := fun row => getElem?_insert_eq state.idempotency _ row _
    jobsSize := size_insert_of_getElem?_eq_none valid.next_absent _
    rowsSize := size_insert_of_getElem?_eq_none keyFree _ }

/-- The new job of a lawful submission passes the check. -/
theorem JobAdded.validJob
    (added : JobAdded state after
      (idempotencyMapKey submission.owner submission.idempotencyKey)
      (admittedJob policy created now submission state))
    (positive : policy.maxEventsPerJob ≠ 0)
    (lawful : submission.Lawful)
    (key : validateIdempotencyKey submission.idempotencyKey = .ok ()) :
    ValidJob after policy true (jobIdText state.nextJob)
      (admittedJob policy created now submission state) where
  key := rfl
  method := lawful.1
  threads := lawful.2.1
  memory := lawful.2.2.1
  output := lawful.2.2.2
  idempotencyKey := key
  number := by
    refine ⟨state.nextJob, parseJobNumber_jobIdText _, ?_⟩
    rw [UInt64.lt_iff_toNat_lt, added.nextJob]
    omega
  index := (added.rows _).trans (if_pos rfl)
  events := (admittedJob_events positive).validateJobEvents_eq_ok.mpr
    fun _ => admittedJob_few
  result := ⟨rfl, rfl⟩
  marker := rfl

/-- Admitting a lawful submission keeps the state valid. -/
theorem validState_admitted
    (positive : policy.maxEventsPerJob ≠ 0)
    (valid : ValidState state policy true)
    (sound : Sound state)
    (lawful : submission.Lawful)
    (key : validateIdempotencyKey submission.idempotencyKey = .ok ())
    {maxNonterminalForOwner : Nat}
    {accepted : JobAccepted}
    (keyFree : state.idempotency[idempotencyMapKey submission.owner
      submission.idempotencyKey]? = none)
    (decided : decideNewJob policy created now submission
      maxNonterminalForOwner state = .ok (some after, accepted)) :
    ValidState (trimRetainedEvents after policy) policy true := by
  have room := (decideNewJob_eq_ok.mp decided).1
  have absent := valid.next_absent
  have added := jobAdded_of_decideNewJob valid keyFree decided
  have unchanged : trimRetainedEvents after policy = after := by
    refine trimRetainedEvents_eq_self fun other otherJob otherFound => ?_
    rw [added.jobs] at otherFound
    split at otherFound
    · cases otherFound
      exact admittedJob_few
    · exact (valid.jobFits sound otherFound).few
  rw [unchanged]
  refine ⟨added.schema.trans valid.schema, ?_, ?_, ?_, ?_, ?_⟩
  · intro _
    have size := added.jobsSize
    omega
  · intro zero
    have next := added.nextJob
    rw [zero] at next
    cases next
  · rw [added.jobsSize, added.rowsSize, valid.sizes]
  · intro other otherJob otherFound
    rw [added.jobs] at otherFound
    split at otherFound
    · rename_i same
      subst same
      cases otherFound
      exact added.validJob positive lawful key
    · refine (valid.jobFits sound otherFound).validJob (.refl _)
        (valid.jobs other otherJob otherFound) ?_ ?_
      · rw [UInt64.le_iff_toNat_le, added.nextJob]
        omega
      · intro row jobId isRow
        rw [added.rows, if_neg, isRow]
        rintro rfl
        rw [keyFree] at isRow
        cases isRow
  · intro row jobId isRow
    rw [added.rows] at isRow
    split at isRow
    · rename_i same
      cases isRow
      exact ⟨_, (added.jobs _).trans (if_pos rfl), same.symm⟩
    · obtain ⟨rowJob, rowFound, isKey⟩ := valid.index row jobId isRow
      refine ⟨rowJob, ?_, isKey⟩
      rw [added.jobs, if_neg, rowFound]
      rintro rfl
      rw [absent] at rowFound
      cases rowFound

end Admission

end Pithos.Daemon
