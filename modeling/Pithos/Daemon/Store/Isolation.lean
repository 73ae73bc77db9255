import Pithos.Daemon.Store.Idempotency
import Pithos.Daemon.Store.Memory

/-!
# What a session can see and change

A call names its owner, and it reads and changes only jobs of that owner: all
other jobs, and their rows of the index, stay as they are whatever the call and
whatever storage does.  A job of another session is answered like a job that
does not exist.
-/

namespace Pithos.Daemon

open HostPath
open Fallible
open Machine
open Std
open MapValues

/-! ## Owners -/

/-- The session that makes a call.  Shutdown belongs to no session. -/
def Call.owner? : Call → Option SessionId
  | submit _ _ submission _ => some submission.owner
  | transition _ _ owner _ _ _ => some owner
  | requestCancel _ owner _ => some owner
  | finishCancelled _ owner _ => some owner
  | complete _ owner _ _ => some owner
  | recordPackPublication _ owner _ _ _ => some owner
  | expireDeadline _ owner _ => some owner
  | fail _ owner _ _ => some owner
  | closeAndCancelAll _ => none

/-- The job that a call is about. -/
def Call.jobId? : Call → Option JobId
  | submit _ _ _ _ => none
  | transition _ _ _ jobId _ _ => some jobId
  | requestCancel _ _ jobId => some jobId
  | finishCancelled _ _ jobId => some jobId
  | complete _ _ jobId _ => some jobId
  | recordPackPublication _ _ jobId _ _ => some jobId
  | expireDeadline _ _ jobId => some jobId
  | fail _ _ jobId _ => some jobId
  | closeAndCancelAll _ => none

/-- A look at a job. -/
inductive Query
  | snapshot (owner : SessionId) (jobId : JobId)
  | events (owner : SessionId) (jobId : JobId) (afterSequence : UInt64)
  | operation (owner : SessionId) (jobId : JobId)

/-- What a look shows. -/
inductive View
  | snapshot (view : JobSnapshot)
  | events (view : List ProgressEvent)
  | operation (view : StoredOperation × JobLimits × JobPriority)

namespace Query

/-- Who asks. -/
def owner : Query → SessionId
  | snapshot owner _ => owner
  | events owner _ _ => owner
  | operation owner _ => owner

/-- The job that is asked about. -/
def jobId : Query → JobId
  | snapshot _ jobId => jobId
  | events _ jobId _ => jobId
  | operation _ jobId => jobId

/-- Perform a look. -/
def perform (query : Query) (registry : JobRegistry) : RpcResult View :=
  match query with
  | snapshot owner jobId => (registry.snapshot owner jobId).map .snapshot
  | events owner jobId afterSequence =>
      (registry.events owner jobId afterSequence).map .events
  | operation owner jobId => (registry.operation owner jobId).map .operation

end Query

/-! ## Jobs of others -/

/-- No job of a session has an identifier. -/
def NotOwned (state : PersistentState) (owner : SessionId) (jobId : JobId) :
    Prop :=
  ∀ job, state.jobs[jobId.value]? = some job → job.owner ≠ owner

theorem NotOwned.ownedJob_eq
    {state : PersistentState}
    {owner : SessionId}
    {jobId : JobId}
    (notOwned : NotOwned state owner jobId) :
    ownedJob state owner jobId = .error jobNotFound := by
  cases found : ownedJob state owner jobId with
  | ok job =>
      obtain ⟨isJob, owned⟩ := ownedJob_eq_ok.mp found
      exact absurd owned (notOwned job isJob)
  | error failure =>
      unfold ownedJob okOr at found
      split at found
      · cases found
      · cases found
        rfl

/-- A call about a job that the session does not have decides nothing. -/
theorem Call.decide_notOwned
    {policy : StorePolicy}
    {call : Call}
    {state : PersistentState}
    {owner : SessionId}
    {jobId : JobId}
    (isOwner : call.owner? = some owner)
    (isJob : call.jobId? = some jobId)
    (notOwned : NotOwned state owner jobId) :
    call.decide policy state = .error jobNotFound := by
  have missing := notOwned.ownedJob_eq
  cases call <;> cases isOwner <;> cases isJob <;>
    simp only [decide, decideUpdate, decideExpireDeadline, missing,
      error_bind] <;> rfl

/-- A job that the session does not have is answered the same way whether or not
it exists, and nothing changes. -/
theorem Call.perform_notOwned
    (json : StoreJson)
    (fault : Option StorageFault)
    {call : Call}
    {registry : JobRegistry}
    {owner : SessionId}
    {jobId : JobId}
    (isOwner : call.owner? = some owner)
    (isJob : call.jobId? = some jobId)
    (notOwned : NotOwned registry.state owner jobId) :
    call.perform json fault registry =
      (.error (if registry.healthy then jobNotFound
        else internal "job registry storage is unhealthy"), registry) := by
  have entering : call.entering registry = registry := by
    cases call <;> first | rfl | cases isOwner
  have refusal : call.refusal registry = if registry.healthy then none
      else some (internal "job registry storage is unhealthy") := by
    cases call <;> first | rfl | cases isJob
  rw [perform_eq, refusal, entering,
    call.decide_notOwned isOwner isJob notOwned]
  cases registry.healthy <;> rfl

theorem Query.perform_notOwned
    {query : Query}
    {registry : JobRegistry}
    (notOwned : NotOwned registry.state query.owner query.jobId) :
    query.perform registry = .error jobNotFound := by
  have missing := notOwned.ownedJob_eq
  cases query <;>
    simp only [perform, JobRegistry.snapshot, JobRegistry.events,
      JobRegistry.operation, owner, jobId] at missing ⊢ <;>
    rw [missing] <;> rfl

/-! ## Changes to others -/

/-- Two states have the same jobs and rows of all sessions but one. -/
structure SameForOthers
    (owner : SessionId)
    (before after : PersistentState) : Prop where
  jobs : ∀ (key : String) job, job.owner ≠ owner →
    (after.jobs[key]? = some job ↔ before.jobs[key]? = some job)
  index : ∀ other (key : String), other ≠ owner →
    after.idempotency[idempotencyMapKey other key]? =
      before.idempotency[idempotencyMapKey other key]?

theorem SameForOthers.refl
    (owner : SessionId)
    (state : PersistentState) :
    SameForOthers owner state state :=
  ⟨fun _ _ _ => .rfl, fun _ _ _ => rfl⟩

/-- Changing a job of a session. -/
theorem sameForOthers_setJob
    {state : PersistentState}
    {key : String}
    {job next : StoredJob}
    {owner : SessionId}
    (found : state.jobs[key]? = some job)
    (owned : job.owner = owner)
    (nextOwned : next.owner = owner) :
    SameForOthers owner state (state.setJob key next) := by
  refine ⟨fun other otherJob different => ?_, fun _ _ _ => rfl⟩
  change (state.jobs.insert key next)[other]? = _ ↔ _
  rw [getElem?_insert_eq]
  split
  · rename_i same
    subst same
    rw [found]
    constructor
    · rintro ⟨⟩
      exact absurd nextOwned different
    · rintro ⟨⟩
      exact absurd owned different
  · exact .rfl

theorem decideUpdate_sameForOthers
    {Reply : Type}
    {owner : SessionId}
    {jobId : JobId}
    {update : StoredJob → RpcResult (StoredJob × Reply)}
    {state next : PersistentState}
    {reply : Reply}
    (steps : ∀ job after answer,
      update job = .ok (after, answer) → JobStep job after)
    (decided : decideUpdate owner jobId update state =
      .ok (some next, reply)) :
    SameForOthers owner state next := by
  obtain ⟨job, after, found, owned, updated, isNext⟩ :=
    decideUpdate_eq_ok.mp decided
  cases isNext
  have admission := (steps job after reply updated).sameAdmission
  exact sameForOthers_setJob found owned (admission.owner.trans owned)

theorem decideExpireDeadline_sameForOthers
    {policy : StorePolicy}
    (positive : policy.maxEventsPerJob ≠ 0)
    {now : UInt64}
    {owner : SessionId}
    {jobId : JobId}
    {state next : PersistentState}
    {cancelWorker : Bool}
    (decided : decideExpireDeadline policy now owner jobId state =
      .ok (some next, cancelWorker)) :
    SameForOthers owner state next := by
  simp only [decideExpireDeadline, bind_eq_ok, ownedJob_eq_ok,
    Except.ok.injEq, Prod.exists, Prod.mk.injEq] at decided
  obtain ⟨job, ⟨found, owned⟩, after, _, changed, expired, isNext, _⟩ := decided
  have admission := (expireDeadlineJob_step positive expired).sameAdmission
  cases changed with
  | false => simp at isNext
  | true =>
      simp only [if_true, Option.some.injEq] at isNext
      subst isNext
      exact sameForOthers_setJob found owned (admission.owner.trans owned)

/-- A new job of a session. -/
theorem decideNewJob_sameForOthers
    {policy : StorePolicy}
    {created now : UInt64}
    {submission : JobSubmission}
    {maxNonterminalForOwner : Nat}
    {state next : PersistentState}
    {accepted : JobAccepted}
    (free : state.jobs[jobIdText state.nextJob]? = none)
    (decided : decideNewJob policy created now submission
      maxNonterminalForOwner state = .ok (some next, accepted)) :
    SameForOthers submission.owner state next := by
  obtain ⟨_, _, _, isNext, _⟩ := decideNewJob_eq_ok.mp decided
  cases isNext
  refine ⟨fun key job different => ?_, fun other key different => ?_⟩
  · rw [getElem?_insert_eq]
    split
    · rename_i same
      subst same
      rw [free]
      constructor
      · rintro ⟨⟩
        exact absurd rfl different
      · rintro ⟨⟩
    · exact .rfl
  · rw [getElem?_insert_eq, if_neg]
    intro same
    exact different (idempotencyMapKey_inj same).1.symm

/-- What a call of a session decides on is the same for the others. -/
theorem Call.decide_sameForOthers
    {policy : StorePolicy}
    (positive : policy.maxEventsPerJob ≠ 0)
    {call : Call}
    {state next : PersistentState}
    {answer : Answer}
    {owner : SessionId}
    (free : state.jobs[jobIdText state.nextJob]? = none)
    (isOwner : call.owner? = some owner)
    (decided : call.decide policy state = .ok (some next, answer)) :
    SameForOthers owner state next := by
  cases call <;> obtain ⟨_, unwrapped⟩ := decided_unwrap decided <;>
    cases isOwner
  case submit =>
      obtain ⟨_, _, admission⟩ := bind_eq_ok.mp unwrapped
      unfold decideAdmission at admission
      split at admission
      · simp only [bind_eq_ok, Except.ok.injEq, Prod.mk.injEq, reduceCtorEq,
          false_and, and_false, exists_false] at admission
      · exact decideNewJob_sameForOthers free admission
  case transition =>
      exact decideUpdate_sameForOthers
        (fun _ _ _ done => transitionJob_step positive done) unwrapped
  case requestCancel =>
      exact decideUpdate_sameForOthers
        (fun _ _ _ done => requestCancelJob_step positive done) unwrapped
  case finishCancelled =>
      exact decideUpdate_sameForOthers
        (fun _ _ _ done => finishCancelledJob_step positive done) unwrapped
  case complete =>
      exact decideUpdate_sameForOthers
        (fun _ _ _ done => completeJob_step positive done) unwrapped
  case recordPackPublication =>
      exact decideUpdate_sameForOthers
        (fun _ _ _ done => recordPackPublicationJob_step positive done)
        unwrapped
  case expireDeadline =>
      exact decideExpireDeadline_sameForOthers positive unwrapped
  case fail =>
      exact decideUpdate_sameForOthers
        (fun _ _ _ done => failJob_step positive done) unwrapped

theorem SameForOthers.trim
    {owner : SessionId}
    {before after : PersistentState}
    (same : SameForOthers owner before after)
    {policy : StorePolicy}
    (few : ∀ (key : String) job, before.jobs[key]? = some job →
      job.events.length ≤ policy.maxEventsPerJob) :
    SameForOthers owner before (trimRetainedEvents after policy) := by
  refine ⟨fun key job different => ?_, same.index⟩
  rw [getElem?_trimRetainedEvents, Option.map_eq_some_iff]
  constructor
  · rintro ⟨untrimmed, found, rfl⟩
    have earlier := (same.jobs key untrimmed different).mp found
    rw [trimEventHistory_eq_self (few key untrimmed earlier), earlier]
  · intro found
    exact ⟨job, (same.jobs key job different).mpr found,
      trimEventHistory_eq_self (few key job found)⟩

/-- A call of a session changes no job and no row of another session, whatever
it asks for and whatever storage does. -/
theorem Call.perform_sameForOthers
    {json : StoreJson}
    {registry : JobRegistry}
    (ok : RegistryOk json registry)
    {call : Call}
    {owner : SessionId}
    (isOwner : call.owner? = some owner)
    (fault : Option StorageFault) :
    SameForOthers owner registry.state
      (call.perform json fault registry).2.state := by
  have change := call.perform_change json fault registry
  generalize (call.perform json fault registry).2 = after at change ⊢
  cases change with
  | unchanged closed healthy => exact .refl _ _
  | committed next answer bytes closed healthy isDecided valid encoded fits =>
      have same := decide_sameForOthers ok.positive ok.valid.next_absent isOwner
        isDecided
      exact same.trim fun key job found =>
        (ok.valid.jobFits ok.sound found).few

/-! ## Runs of others -/

/-- Two states have the same jobs and rows of one session. -/
structure SameFor
    (owner : SessionId)
    (before after : PersistentState) : Prop where
  jobs : ∀ (key : String) job, job.owner = owner →
    (after.jobs[key]? = some job ↔ before.jobs[key]? = some job)
  index : ∀ key : String,
    after.idempotency[idempotencyMapKey owner key]? =
      before.idempotency[idempotencyMapKey owner key]?

theorem SameFor.trans
    {owner : SessionId}
    {before between after : PersistentState}
    (first : SameFor owner before between)
    (second : SameFor owner between after) :
    SameFor owner before after where
  jobs key job owned :=
    (second.jobs key job owned).trans (first.jobs key job owned)
  index key := (second.index key).trans (first.index key)

theorem SameForOthers.sameFor
    {owner bystander : SessionId}
    {before after : PersistentState}
    (same : SameForOthers owner before after)
    (different : bystander ≠ owner) :
    SameFor bystander before after where
  jobs key job owned := same.jobs key job (owned.trans_ne different)
  index key := same.index bystander key different

/-- However long other sessions keep calling, the jobs and the rows of a session
stay as they are. -/
theorem performAll_sameFor
    {json : StoreJson}
    {registry : JobRegistry}
    (ok : RegistryOk json registry)
    {bystander : SessionId}
    {calls : List (Call × Option StorageFault)}
    (byOthers : ∀ call fault, (call, fault) ∈ calls →
      ∃ owner, call.owner? = some owner ∧ bystander ≠ owner) :
    RegistryOk json (performAll json registry calls) ∧
      SameFor bystander registry.state
        (performAll json registry calls).state := by
  induction calls generalizing registry with
  | nil => exact ⟨ok, fun _ _ _ => .rfl, fun _ => rfl⟩
  | cons made calls inductionHypothesis =>
      obtain ⟨call, fault⟩ := made
      obtain ⟨owner, isOwner, different⟩ :=
        byOthers call fault List.mem_cons_self
      have same := call.perform_sameForOthers ok isOwner fault
      have okNext := (@RegistryOk.perform json registry ok (fun _ => True) call
        trivial fault).1
      obtain ⟨okLast, rest⟩ := inductionHypothesis okNext
        fun other met member => byOthers other met (.tail _ member)
      exact ⟨okLast, (same.sameFor different).trans rest⟩

end Pithos.Daemon
