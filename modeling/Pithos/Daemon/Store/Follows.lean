import Pithos.Daemon.Store.Steps

/-!
# What one operation does to the state

Every operation decides on a state that follows the current one: each job takes
at most one step, no job goes away, and at most one job comes in, under the next
number and with a key that was free.
-/

namespace Pithos.Daemon

open HostPath
open Fallible
open Machine
open Std
open MapValues

/-! ## Following states -/

/-- A job that was just admitted. -/
structure Admitted
    (before after : PersistentState)
    (submission : JobSubmission)
    (job : StoredJob) : Prop where
  fits : before.nextJob.toNat + 1 < 2 ^ 64
  nextJob : after.nextJob = before.nextJob + 1
  keyFree : before.idempotency[idempotencyMapKey submission.owner
    submission.idempotencyKey]? = none
  index : after.idempotency = before.idempotency.insert
    (idempotencyMapKey submission.owner submission.idempotencyKey)
    (jobIdText before.nextJob)
  found : after.jobs[jobIdText before.nextJob]? = some job
  isNew : ∃ created now maximumEvents, maximumEvents ≠ 0 ∧
    job = trimEventHistory ((newJob submission ⟨jobIdText before.nextJob⟩
      created).withEvent "queued" now) maximumEvents
  others : ∀ key : String, key ≠ jobIdText before.nextJob →
    before.jobs[key]? = none → after.jobs[key]? = none
  size : before.jobs[jobIdText before.nextJob]? = none →
    after.jobs.size = before.jobs.size + 1

/-- No job came in. -/
structure SameJobs (before after : PersistentState) : Prop where
  nextJob : after.nextJob = before.nextJob
  index : after.idempotency = before.idempotency
  size : after.jobs.size = before.jobs.size
  absent : ∀ key : String, before.jobs[key]? = none → after.jobs[key]? = none

/-- What may happen to a state in one commit. -/
structure Follows (before after : PersistentState) : Prop where
  schema : after.schemaVersion = before.schemaVersion
  steps : ∀ (key : String) job, before.jobs[key]? = some job →
    key ≠ jobIdText before.nextJob ∨ SameJobs before after →
    ∃ next, after.jobs[key]? = some next ∧ JobStep job next
  arrivals : SameJobs before after ∨
    ∃ submission job, Admitted before after submission job

theorem getElem?_trimRetainedEvents
    (state : PersistentState)
    (policy : StorePolicy)
    (key : String) :
    (trimRetainedEvents state policy).jobs[key]? =
      state.jobs[key]?.map fun job =>
        trimEventHistory job policy.maxEventsPerJob :=
  ExtTreeMap.getElem?_map

/-- Forgetting surplus events changes nothing when there are none. -/
theorem trimRetainedEvents_eq_self
    {state : PersistentState}
    {policy : StorePolicy}
    (few : ∀ (key : String) job, state.jobs[key]? = some job →
      job.events.length ≤ policy.maxEventsPerJob) :
    trimRetainedEvents state policy = state := by
  have jobs : (trimRetainedEvents state policy).jobs = state.jobs := by
    refine ExtTreeMap.ext_getElem? fun key => ?_
    rw [getElem?_trimRetainedEvents]
    cases found : state.jobs[key]? with
    | none => rfl
    | some job =>
        rw [Option.map_some, trimEventHistory_eq_self (few key job found)]
  exact congrArg (fun jobs => { state with jobs := jobs }) jobs

theorem Follows.refl (state : PersistentState) : Follows state state where
  schema := rfl
  steps := fun _ job found _ => ⟨job, found, .refl job⟩
  arrivals := Or.inl ⟨rfl, rfl, rfl, fun _ absent => absent⟩

/-- Forgetting events before a commit is part of the commit. -/
theorem Follows.trim
    {before after : PersistentState}
    (follows : Follows before after)
    {policy : StorePolicy}
    (positive : policy.maxEventsPerJob ≠ 0) :
    Follows before (trimRetainedEvents after policy) := by
  have lookup := getElem?_trimRetainedEvents after policy
  have same : SameJobs before after ↔
      SameJobs before (trimRetainedEvents after policy) := by
    constructor
    · intro same
      refine ⟨same.nextJob, same.index, ?_, ?_⟩
      · rw [← same.size]
        exact ExtTreeMap.size_map
      · intro key absent
        rw [lookup, same.absent key absent, Option.map_none]
    · intro same
      refine ⟨same.nextJob, same.index, ?_, ?_⟩
      · rw [← same.size]
        exact ExtTreeMap.size_map.symm
      · intro key absent
        have trimmed := same.absent key absent
        rw [lookup, Option.map_eq_none_iff] at trimmed
        exact trimmed
  refine ⟨follows.schema, ?_, ?_⟩
  · intro key job found other
    rw [← same] at other
    obtain ⟨next, isNext, step⟩ := follows.steps key job found other
    refine ⟨_, ?_, step.trim positive⟩
    rw [lookup, isNext, Option.map_some]
  · rcases follows.arrivals with unchanged | ⟨submission, job, admitted⟩
    · exact Or.inl (same.mp unchanged)
    · refine Or.inr ⟨submission,
        trimEventHistory job policy.maxEventsPerJob, ?_⟩
      refine {
        fits := admitted.fits
        nextJob := admitted.nextJob
        keyFree := admitted.keyFree
        index := admitted.index
        found := ?_
        isNew := ?_
        others := ?_
        size := ?_ }
      · rw [lookup, admitted.found, Option.map_some]
      · obtain ⟨created, now, bound, boundPositive, isJob⟩ := admitted.isNew
        refine ⟨created, now, min bound policy.maxEventsPerJob, by omega, ?_⟩
        rw [isJob, trimEventHistory_trimEventHistory]
      · intro key different absent
        rw [lookup, admitted.others key different absent, Option.map_none]
      · intro free
        rw [← admitted.size free]
        exact ExtTreeMap.size_map

/-! ## Decisions -/

/-- Changing one job is a step of that job. -/
theorem follows_setJob
    {state : PersistentState}
    {key : String}
    {job next : StoredJob}
    (found : state.jobs[key]? = some job)
    (step : JobStep job next) :
    Follows state (state.setJob key next) := by
  have lookup (other : String) := getElem?_insert_eq state.jobs key other next
  refine ⟨rfl, ?_, Or.inl ⟨rfl, rfl, ?_, ?_⟩⟩
  · intro other old isOld _
    by_cases same : key = other
    · subst same
      rw [found] at isOld
      cases isOld
      refine ⟨next, ?_, step⟩
      simp [PersistentState.setJob]
    · refine ⟨old, ?_, .refl old⟩
      change (state.jobs.insert key next)[other]? = _
      rw [lookup, if_neg same, isOld]
  · exact size_insert_of_getElem?_eq_some found next
  · intro other absent
    change (state.jobs.insert key next)[other]? = _
    rw [lookup, if_neg, absent]
    rintro rfl
    rw [found] at absent
    cases absent

/-- Changing all jobs is a step of each. -/
theorem follows_tryMap
    {state : PersistentState}
    {change : String → StoredJob → RpcResult StoredJob}
    {jobs : ExtTreeMap String StoredJob}
    (steps : ∀ key job next, change key job = .ok next → JobStep job next)
    (changed : tryMap change state.jobs = .ok jobs) :
    Follows state { state with jobs := jobs } := by
  obtain ⟨size, absent, all⟩ := tryMap_eq_ok.mp changed
  refine ⟨rfl, ?_, Or.inl ⟨rfl, rfl, size, absent⟩⟩
  intro key job found _
  obtain ⟨next, isNext, isChanged⟩ := all key job found
  exact ⟨next, isChanged, steps key job next isNext⟩

theorem ownedJob_eq_ok
    {state : PersistentState}
    {owner : SessionId}
    {jobId : JobId}
    {job : StoredJob} :
    ownedJob state owner jobId = .ok job ↔
      state.jobs[jobId.value]? = some job ∧ job.owner = owner := by
  simp [ownedJob, Option.filter_eq_some_iff]

theorem decideUpdate_eq_ok
    {Reply : Type}
    {owner : SessionId}
    {jobId : JobId}
    {update : StoredJob → RpcResult (StoredJob × Reply)}
    {state : PersistentState}
    {decided : Option PersistentState}
    {reply : Reply} :
    decideUpdate owner jobId update state = .ok (decided, reply) ↔
      ∃ job next, state.jobs[jobId.value]? = some job ∧ job.owner = owner ∧
        update job = .ok (next, reply) ∧
        decided = some (state.setJob jobId.value next) := by
  simp only [decideUpdate, bind_eq_ok, ownedJob_eq_ok, Except.ok.injEq,
    Prod.exists, Prod.mk.injEq]
  constructor
  · rintro ⟨job, ⟨found, owned⟩, next, answer, updated, rfl, rfl⟩
    exact ⟨job, next, found, owned, updated, rfl⟩
  · rintro ⟨job, next, found, owned, updated, rfl⟩
    exact ⟨job, ⟨found, owned⟩, next, reply, updated, rfl, rfl⟩

/-- A change of one job follows when the update is a step. -/
theorem decideUpdate_follows
    {Reply : Type}
    {owner : SessionId}
    {jobId : JobId}
    {update : StoredJob → RpcResult (StoredJob × Reply)}
    {state next : PersistentState}
    {reply : Reply}
    (steps : ∀ job after answer,
      update job = .ok (after, answer) → JobStep job after)
    (decided : decideUpdate owner jobId update state =
      .ok (some next, reply)) :
    Follows state next := by
  obtain ⟨job, after, found, _, updated, isNext⟩ :=
    decideUpdate_eq_ok.mp decided
  cases isNext
  exact follows_setJob found (steps job after reply updated)

/-- What an admitted submission decides. -/
theorem decideNewJob_eq_ok
    {policy : StorePolicy}
    {created now : UInt64}
    {submission : JobSubmission}
    {maxNonterminalForOwner : Nat}
    {state : PersistentState}
    {decided : Option PersistentState}
    {accepted : JobAccepted} :
    decideNewJob policy created now submission maxNonterminalForOwner state =
        .ok (decided, accepted) ↔
      state.jobs.size < policy.maxRetainedJobs ∧
      nonterminalCount state submission.owner < maxNonterminalForOwner ∧
      state.nextJob.toNat + 1 < 2 ^ 64 ∧
      decided = some { state with
        nextJob := state.nextJob + 1
        jobs := state.jobs.insert (jobIdText state.nextJob)
          (trimEventHistory ((newJob submission ⟨jobIdText state.nextJob⟩
            created).withEvent "queued" now) policy.maxEventsPerJob)
        idempotency := state.idempotency.insert
          (idempotencyMapKey submission.owner submission.idempotencyKey)
          (jobIdText state.nextJob) } ∧
      accepted = {
        jobId := ⟨jobIdText state.nextJob⟩
        state := .queued
        idempotentReplay := false } := by
  simp only [decideNewJob, bind_eq_ok, ensure_eq_ok, okOr_eq_ok,
    JobId.new_jobIdText, Except.ok.injEq, Prod.mk.injEq, exists_const,
    exists_eq_left', appendEvent_eq_ok]
  constructor
  · rintro ⟨room, quota, nextJob, sum, job, ⟨_, rfl⟩, rfl, rfl⟩
    have value := checkedAdd_eq_some_add sum
    subst value
    refine ⟨room, quota, ?_, rfl, rfl⟩
    exact checkedAdd_isSome_iff.mp ⟨_, sum⟩
  · rintro ⟨room, quota, fits, rfl, rfl⟩
    obtain ⟨sum, added⟩ := @checkedAdd_isSome_iff state.nextJob 1 |>.mpr fits
    have value := checkedAdd_eq_some_add added
    subst value
    refine ⟨room, quota, _, added, _, ⟨?_, rfl⟩, rfl, rfl⟩
    change (1 : UInt64).toNat + 1 < 2 ^ 64
    decide

theorem decideSubmit_follows
    {policy : StorePolicy}
    (positive : policy.maxEventsPerJob ≠ 0)
    {created now : UInt64}
    {submission : JobSubmission}
    {maxNonterminalForOwner : Nat}
    {state next : PersistentState}
    {accepted : JobAccepted}
    (decided : decideSubmit policy created now submission
      maxNonterminalForOwner state = .ok (some next, accepted)) :
    Follows state next := by
  obtain ⟨_, _, admission⟩ := bind_eq_ok.mp decided
  unfold decideAdmission at admission
  split at admission
  case h_1 existingId known =>
      simp only [bind_eq_ok, Except.ok.injEq, Prod.mk.injEq, reduceCtorEq,
        false_and, and_false, exists_false] at admission
  case h_2 free =>
      obtain ⟨_, _, fits, isNext, _⟩ := decideNewJob_eq_ok.mp admission
      cases isNext
      refine ⟨rfl, ?_, Or.inr ⟨submission, _, fits, rfl, free, rfl, ?_,
        ⟨created, now, _, positive, rfl⟩, ?_, ?_⟩⟩
      · intro key job found other
        have different : jobIdText state.nextJob ≠ key := by
          rcases other with different | same
          · exact different.symm
          · have nextJob := same.nextJob
            have value := congrArg UInt64.toNat nextJob
            simp only [UInt64.toNat_add] at value
            rw [Nat.mod_eq_of_lt (by simpa using fits)] at value
            simp at value
        refine ⟨job, ?_, .refl job⟩
        rw [getElem?_insert_eq, if_neg different, found]
      · simp
      · intro key different absent
        rw [getElem?_insert_eq, if_neg (Ne.symm different), absent]
      · intro absent
        exact size_insert_of_getElem?_eq_none absent _

theorem decideExpireDeadline_follows
    {policy : StorePolicy}
    (positive : policy.maxEventsPerJob ≠ 0)
    {now : UInt64}
    {owner : SessionId}
    {jobId : JobId}
    {state next : PersistentState}
    {cancelWorker : Bool}
    (decided : decideExpireDeadline policy now owner jobId state =
      .ok (some next, cancelWorker)) :
    Follows state next := by
  simp only [decideExpireDeadline, bind_eq_ok, ownedJob_eq_ok,
    Except.ok.injEq, Prod.exists, Prod.mk.injEq] at decided
  obtain ⟨job, ⟨found, _⟩, after, _, changed, expired, isNext, _⟩ := decided
  cases changed with
  | false => simp at isNext
  | true =>
      simp only [if_true, Option.some.injEq] at isNext
      subst isNext
      exact follows_setJob found (expireDeadlineJob_step positive expired)

theorem decideCloseAndCancelAll_follows
    {policy : StorePolicy}
    (positive : policy.maxEventsPerJob ≠ 0)
    {clock : String → UInt64}
    {state next : PersistentState}
    {affected : List (SessionId × JobId)}
    (decided : decideCloseAndCancelAll policy clock state =
      .ok (some next, affected)) :
    Follows state next := by
  simp only [decideCloseAndCancelAll, bind_eq_ok, Except.ok.injEq,
    Prod.mk.injEq] at decided
  obtain ⟨jobs, mapped, isNext, _⟩ := decided
  split at isNext
  · cases isNext
    exact follows_tryMap
      (fun _ _ _ done => shutdownJob_step positive done) mapped
  · cases isNext

end Pithos.Daemon
