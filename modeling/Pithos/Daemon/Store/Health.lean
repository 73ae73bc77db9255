import Pithos.Daemon.Store.Validity

/-!
# Staying healthy

A commit that fails its check closes the registry for good.  On working storage
this happens in two ways only: a transition asks for an outcome that it does not
bring along, or a new job names a path that cannot be encoded.
-/

namespace Pithos.Daemon

open HostPath
open Fallible
open Machine
open Std
open MapValues
open Utf8
open Simulation

/-! ## Reachable registries -/

/-- The registries in use that a run from an empty store can come to. -/
def Reachable (json : StoreJson) (allowed : Call → Prop)
    (registry : JobRegistry) : Prop :=
  Relation.ReflTransGen (Step json allowed) (.down none) (.up registry)

/-- Every store that a run comes to has a committed state. -/
theorem committed_of_reachable
    {json : StoreJson}
    (lawful : json.Lawful)
    {allowed : Call → Prop}
    {store : Store}
    (reachable : Relation.ReflTransGen (Step json allowed) (.down none) store) :
    ∃ state, store.Committed json state := by
  induction reachable with
  | refl => exact ⟨_, (store_simulates_journal lawful allowed).start⟩
  | tail _ step inductionHypothesis =>
      obtain ⟨state, committed⟩ := inductionHypothesis
      obtain ⟨_, next, commits⟩ := committed.step lawful step
      exact ⟨next, commits.committed⟩

theorem Reachable.registryOk
    {json : StoreJson}
    (lawful : json.Lawful)
    {allowed : Call → Prop}
    {registry : JobRegistry}
    (reachable : Reachable json allowed registry) :
    RegistryOk json registry := by
  obtain ⟨state, _, ok⟩ := committed_of_reachable lawful reachable
  exact ok

theorem Back.utf8Paths
    {json : StoreJson}
    {state base : PersistentState}
    (paths : state.Utf8Paths)
    (isBack : Back json state base) :
    base.Utf8Paths := by
  rcases isBack with rfl | rfl
  · exact paths
  · intro key job found
    rw [getElem?_reread, Option.map_eq_some_iff] at found
    obtain ⟨old, isOld, rfl⟩ := found
    exact paths key old isOld

/-- Committed states name UTF-8 paths only. -/
theorem RegistryOk.utf8Paths
    {json : StoreJson}
    (lawful : json.Lawful)
    {registry : JobRegistry}
    (ok : RegistryOk json registry) :
    registry.state.Utf8Paths := by
  obtain ⟨written, isWritten, isBack⟩ := ok.stored
  refine Back.utf8Paths ?_ isBack
  rcases isWritten with ⟨_, rfl⟩ | ⟨bytes, _, encoded⟩
  · intro key job found
    simp [PersistentState.initial] at found
  · exact lawful.text encoded

/-! ## Calls -/

namespace Call

/-- The calls that the service makes in operation. -/
def Lawful : Call → Prop
  | submit _ _ submission _ => submission.Lawful
  | closeAndCancelAll _ => False
  | _ => True

/-- Storage works for a call: what it wants to commit, if it is valid and its
paths are text, can be encoded within the bound. -/
def StorageWorks (json : StoreJson) (call : Call) (registry : JobRegistry) :
    Prop :=
  ∀ next answer,
    call.decide registry.policy registry.state = .ok (some next, answer) →
    ValidState (trimRetainedEvents next registry.policy) registry.policy true →
    (trimRetainedEvents next registry.policy).Utf8Paths →
    ∃ bytes, json.toVec (trimRetainedEvents next registry.policy) =
        some bytes ∧
      bytes.length ≤ registry.policy.maxStoreBytes.toNat

/-- A call leaves a valid state and a healthy registry, or fails and leaves
everything as it was. -/
def Harmless (json : StoreJson) (call : Call) (registry : JobRegistry) : Prop :=
  ((∃ answer, (call.perform json none registry).1 = .ok answer) ∧
      (call.perform json none registry).2.healthy = true ∧
      validateState (call.perform json none registry).2.state registry.policy
        true = .ok ()) ∨
    (∃ failure, (call.perform json none registry).1 = .error failure) ∧
      (call.perform json none registry).2 = registry

/-- A submission gets as far as a commit. -/
structure Admissible
    (registry : JobRegistry)
    (submission : JobSubmission)
    (maxNonterminalForOwner : Nat) : Prop where
  isOpen : registry.closed = false
  key : validateIdempotencyKey submission.idempotencyKey = .ok ()
  keyFree : registry.state.idempotency[idempotencyMapKey submission.owner
    submission.idempotencyKey]? = none
  room : registry.state.jobs.size < registry.policy.maxRetainedJobs
  quota : nonterminalCount registry.state submission.owner <
    maxNonterminalForOwner
  numbers : registry.state.nextJob.toNat + 1 < 2 ^ 64

theorem Admissible.decideSubmit_eq
    {registry : JobRegistry}
    {submission : JobSubmission}
    {maxNonterminalForOwner : Nat}
    (admissible : Admissible registry submission maxNonterminalForOwner)
    (created now : UInt64) :
    decideSubmit registry.policy created now submission maxNonterminalForOwner
        registry.state =
      decideNewJob registry.policy created now submission
        maxNonterminalForOwner registry.state := by
  simp only [decideSubmit, admissible.key, ok_bind, decideAdmission,
    admissible.keyFree]

/-- The calls after which the registry accepts no more calls: a transition that
is let through to completed or failed, and a new job with a path that is not
UTF-8. -/
def Poisons (registry : JobRegistry) : Call → Prop
  | submit _ _ submission maxNonterminalForOwner =>
      Admissible registry submission maxNonterminalForOwner ∧
        ∃ path ∈ submission.operation.paths, isUtf8 path = false
  | transition _ _ owner jobId target _ =>
      target.NeedsOutcome ∧
        ∃ job, registry.state.jobs[jobId.value]? = some job ∧
          job.owner = owner ∧ validTransition job.state target = true ∧
          job.nextSequence.toNat + 1 < 2 ^ 64
  | _ => False

theorem entering_eq
    {call : Call}
    (isLawful : call.Lawful)
    (registry : JobRegistry) :
    call.entering registry = registry := by
  cases call <;> first | rfl | cases isLawful

/-- On working storage a valid state is committed. -/
theorem perform_eq_of_decided
    {json : StoreJson}
    {call : Call}
    {registry : JobRegistry}
    (entering : call.entering registry = registry)
    (admitted : call.refusal registry = none)
    {next : PersistentState}
    {answer : Answer}
    (decided : call.decide registry.policy registry.state =
      .ok (some next, answer))
    (valid : ValidState (trimRetainedEvents next registry.policy)
      registry.policy true)
    {bytes : List UInt8}
    (encoded : json.toVec (trimRetainedEvents next registry.policy) =
      some bytes)
    (fits : bytes.length ≤ registry.policy.maxStoreBytes.toNat) :
    call.perform json none registry = (.ok answer,
      { registry with
        state := trimRetainedEvents next registry.policy
        file := some bytes }) := by
  have published := publish_eq_ok.mpr
    ⟨valid, encoded, fits, Or.inl (rfl : (none : Option StorageFault) = none)⟩
  rw [perform_eq, admitted, entering, decided]
  simp only [JobRegistry.settle, JobRegistry.commit,
    JobRegistry.commitWithSync, published]
  rfl

/-- On working storage a call that has decided on a state is harmless exactly
when that state is valid and can be encoded. -/
theorem harmless_iff_of_decided
    {json : StoreJson}
    (lawful : json.Lawful)
    {call : Call}
    {registry : JobRegistry}
    (healthy : registry.healthy = true)
    (isLawful : call.Lawful)
    (works : call.StorageWorks json registry)
    (admitted : call.refusal registry = none)
    {next : PersistentState}
    {answer : Answer}
    (decided : call.decide registry.policy registry.state =
      .ok (some next, answer)) :
    call.Harmless json registry ↔
      ValidState (trimRetainedEvents next registry.policy) registry.policy
          true ∧
        (trimRetainedEvents next registry.policy).Utf8Paths := by
  have performed : call.perform json none registry =
      registry.settle json none (.ok (some next, answer)) := by
    rw [perform_eq, admitted, entering_eq isLawful, decided]
  constructor
  · intro harmless
    by_contra notFine
    have rejected : ∃ failure, publish json none registry.policy
        (trimRetainedEvents next registry.policy) = .error failure := by
      cases published : publish json none registry.policy
          (trimRetainedEvents next registry.policy) with
      | error failure => exact ⟨failure, rfl⟩
      | ok bytes =>
          obtain ⟨valid, encoded, _⟩ := publish_eq_ok.mp published
          exact absurd ⟨valid, lawful.text encoded⟩ notFine
    obtain ⟨failure, rejected⟩ := rejected
    have outcome : call.perform json none registry =
        (.error failure, { registry with healthy := false }) := by
      rw [performed]
      simp only [JobRegistry.settle, JobRegistry.commit,
        JobRegistry.commitWithSync, rejected]
    rcases harmless with ⟨⟨_, isOk⟩, _⟩ | ⟨_, unchanged⟩
    · rw [outcome] at isOk
      cases isOk
    · rw [outcome] at unchanged
      have flags := congrArg JobRegistry.healthy unchanged
      rw [healthy] at flags
      cases flags
  · rintro ⟨valid, paths⟩
    obtain ⟨bytes, encoded, fits⟩ := works next answer decided valid paths
    have outcome := perform_eq_of_decided (entering_eq isLawful registry)
      admitted decided valid encoded fits
    refine Or.inl ⟨⟨answer, by rw [outcome]⟩, ?_, ?_⟩
    · rw [outcome]
      exact healthy
    · rw [outcome]
      exact validateState_eq_ok.mpr valid

/-- A call that commits nothing is harmless. -/
theorem harmless_of_not_decided
    {json : StoreJson}
    {call : Call}
    {registry : JobRegistry}
    (ok : RegistryOk json registry)
    (healthy : registry.healthy = true)
    (isLawful : call.Lawful)
    (nothing : ∀ next answer, call.refusal registry = none →
      call.decide registry.policy registry.state ≠ .ok (some next, answer)) :
    call.Harmless json registry := by
  unfold Harmless
  rw [perform_eq]
  split
  case h_1 failure refused => exact Or.inr ⟨⟨failure, rfl⟩, rfl⟩
  case h_2 admitted =>
      rw [entering_eq isLawful]
      rcases decided : call.decide registry.policy registry.state with
        failure | ⟨_ | next, answer⟩
      · exact Or.inr ⟨⟨failure, rfl⟩, rfl⟩
      · exact Or.inl ⟨⟨answer, rfl⟩, healthy, validateState_eq_ok.mpr ok.valid⟩
      · exact absurd decided (nothing next answer admitted)

/-- Changing a job does not change paths. -/
theorem utf8Paths_setJob
    {state : PersistentState}
    {policy : StorePolicy}
    (paths : state.Utf8Paths)
    {key : String}
    {job next : StoredJob}
    (found : state.jobs[key]? = some job)
    (admission : SameAdmission job next) :
    (trimRetainedEvents (state.setJob key next) policy).Utf8Paths := by
  intro other otherJob otherFound
  rw [getElem?_trimRetainedEvents, Option.map_eq_some_iff] at otherFound
  obtain ⟨untrimmed, isUntrimmed, rfl⟩ := otherFound
  have lookup := getElem?_insert_eq state.jobs key other next
  change (state.jobs.insert key next)[other]? = _ at isUntrimmed
  rw [lookup] at isUntrimmed
  split at isUntrimmed
  · cases isUntrimmed
    change ∀ path ∈ next.operation.paths, _
    rw [admission.operation]
    exact paths key job found
  · exact paths other untrimmed isUntrimmed

/-- What a submission needs to get as far as a commit. -/
theorem decideSubmit_eq_some
    {registry : JobRegistry}
    {created now : UInt64}
    {submission : JobSubmission}
    {maxNonterminalForOwner : Nat}
    {next : PersistentState}
    {accepted : JobAccepted}
    (isOpen : registry.closed = false)
    (decided : decideSubmit registry.policy created now submission
      maxNonterminalForOwner registry.state = .ok (some next, accepted)) :
    Admissible registry submission maxNonterminalForOwner ∧
      decideNewJob registry.policy created now submission
        maxNonterminalForOwner registry.state = .ok (some next, accepted) := by
  obtain ⟨_, key, admission⟩ := bind_eq_ok.mp decided
  unfold decideAdmission at admission
  split at admission
  case h_1 existingId known =>
      simp only [bind_eq_ok, Except.ok.injEq, Prod.mk.injEq, reduceCtorEq,
        false_and, and_false, exists_false] at admission
  case h_2 free =>
      obtain ⟨room, quota, numbers, _⟩ := decideNewJob_eq_ok.mp admission
      exact ⟨⟨isOpen, key, free, room, quota, numbers⟩, admission⟩

/-- The paths of a state with a new job. -/
theorem utf8Paths_newJob
    {state next : PersistentState}
    {policy : StorePolicy}
    (paths : state.Utf8Paths)
    {created now : UInt64}
    {submission : JobSubmission}
    {maxNonterminalForOwner : Nat}
    {accepted : JobAccepted}
    (decided : decideNewJob policy created now submission
      maxNonterminalForOwner state = .ok (some next, accepted)) :
    (trimRetainedEvents next policy).Utf8Paths ↔
      ∀ path ∈ submission.operation.paths, isUtf8 path = true := by
  obtain ⟨_, _, _, isNext, _⟩ := decideNewJob_eq_ok.mp decided
  cases isNext
  have lookup (other : String) := getElem?_insert_eq state.jobs
    (jobIdText state.nextJob) other (trimEventHistory ((newJob submission
      ⟨jobIdText state.nextJob⟩ created).withEvent "queued" now)
      policy.maxEventsPerJob)
  constructor
  · intro all
    have newPaths := all (jobIdText state.nextJob) _ (by
      rw [getElem?_trimRetainedEvents, lookup, if_pos rfl, Option.map_some])
    exact newPaths
  · intro isText other otherJob otherFound
    rw [getElem?_trimRetainedEvents, Option.map_eq_some_iff] at otherFound
    obtain ⟨untrimmed, isUntrimmed, rfl⟩ := otherFound
    rw [lookup] at isUntrimmed
    split at isUntrimmed
    · cases isUntrimmed
      exact isText
    · exact paths other untrimmed isUntrimmed

section Decided

variable
  {json : StoreJson}
  {registry : JobRegistry}
  (lawful : json.Lawful)
  (ok : RegistryOk json registry)
  {next : PersistentState}

include lawful ok

/-- A changed job makes a valid state that can be encoded exactly when it
fits. -/
theorem fine_setJob_iff
    {key : String}
    {job after : StoredJob}
    (found : registry.state.jobs[key]? = some job)
    (step : JobStep job after)
    (few : after.events.length ≤ registry.policy.maxEventsPerJob) :
    ValidState (trimRetainedEvents (registry.state.setJob key after)
          registry.policy) registry.policy true ∧
        (trimRetainedEvents (registry.state.setJob key after)
          registry.policy).Utf8Paths ↔
      JobFits registry.policy after := by
  rw [validState_setJob_iff ok.valid ok.sound found step few]
  exact ⟨fun fine => fine.1, fun fits => ⟨fits,
    utf8Paths_setJob (ok.utf8Paths lawful) found step.sameAdmission⟩⟩

/-- A change of one job that always fits is harmless. -/
theorem fine_of_update
    {Reply : Type}
    {owner : SessionId}
    {jobId : JobId}
    {update : StoredJob → RpcResult (StoredJob × Reply)}
    {reply : Reply}
    (steps : ∀ {job after answer}, update job = .ok (after, answer) →
      JobStep job after)
    (allFit : ∀ {job after answer}, JobFits registry.policy job →
      update job = .ok (after, answer) → JobFits registry.policy after)
    (decided : decideUpdate owner jobId update registry.state =
      .ok (some next, reply)) :
    ValidState (trimRetainedEvents next registry.policy) registry.policy
        true ∧
      (trimRetainedEvents next registry.policy).Utf8Paths := by
  obtain ⟨job, after, found, _, updated, isNext⟩ :=
    decideUpdate_eq_ok.mp decided
  cases isNext
  have fits := allFit (ok.valid.jobFits ok.sound found) updated
  exact (fine_setJob_iff lawful ok found (steps updated) fits.few).mpr fits

/-- What a call has decided on is fine exactly when the call does not poison
the registry. -/
theorem fine_iff_not_poisons
    {call : Call}
    (isLawful : call.Lawful)
    (admitted : call.refusal registry = none)
    {answer : Answer}
    (decided : call.decide registry.policy registry.state =
      .ok (some next, answer)) :
    ValidState (trimRetainedEvents next registry.policy) registry.policy
          true ∧
        (trimRetainedEvents next registry.policy).Utf8Paths ↔
      ¬call.Poisons registry := by
  have positive := ok.positive
  cases call <;> obtain ⟨reply, unwrapped⟩ := decided_unwrap decided
  case submit created now submission maximum =>
      have isOpen : registry.closed = false := by
        cases isClosed : registry.closed with
        | false => rfl
        | true => simp [refusal, isClosed] at admitted
      obtain ⟨admissible, newJob⟩ := decideSubmit_eq_some isOpen unwrapped
      have valid := validState_admitted positive ok.valid ok.sound isLawful
        admissible.key admissible.keyFree newJob
      have paths := utf8Paths_newJob (ok.utf8Paths lawful) newJob
      simp only [Poisons, admissible, true_and, valid, paths, not_exists,
        not_and, Bool.not_eq_false]
  case transition probe now owner jobId target phase =>
      obtain ⟨job, after, found, owned, updated, isNext⟩ :=
        decideUpdate_eq_ok.mp unwrapped
      cases isNext
      obtain ⟨isValid, room, _, _, isAfter⟩ := transitionJob_ok updated
      have few : after.events.length ≤ registry.policy.maxEventsPerJob := by
        rw [isAfter]
        exact job.advance_few _ _ _ _
      rw [fine_setJob_iff lawful ok found (transitionJob_step positive updated)
        few, transitionJob_fits positive (ok.valid.jobFits ok.sound found)
        updated]
      constructor
      · rintro fine ⟨needs, _⟩
        exact fine needs
      · intro notPoison needs
        exact notPoison ⟨needs, job, found, owned, isValid, room⟩
  case expireDeadline now owner jobId =>
      refine iff_of_true ?_ fun poisons => poisons
      simp only [decideExpireDeadline, bind_eq_ok, ownedJob_eq_ok,
        Except.ok.injEq, Prod.exists, Prod.mk.injEq] at unwrapped
      obtain ⟨job, ⟨found, _⟩, after, _, changed, expired, isNext, _⟩ :=
        unwrapped
      cases changed with
      | false => simp at isNext
      | true =>
          simp only [if_true, Option.some.injEq] at isNext
          subst isNext
          have fits := expireDeadlineJob_fits positive
            (ok.valid.jobFits ok.sound found) expired
          exact (fine_setJob_iff lawful ok found
            (expireDeadlineJob_step positive expired) fits.few).mpr fits
  case closeAndCancelAll clock => cases isLawful
  all_goals refine iff_of_true ?_ fun poisons => poisons
  case requestCancel now owner jobId =>
      exact fine_of_update lawful ok (requestCancelJob_step positive)
        (fun fits done => requestCancelJob_fits positive fits done) unwrapped
  case finishCancelled now owner jobId =>
      exact fine_of_update lawful ok (finishCancelledJob_step positive)
        (fun fits done => finishCancelledJob_fits positive fits done) unwrapped
  case complete now owner jobId result =>
      exact fine_of_update lawful ok (completeJob_step positive)
        (fun fits done => completeJob_fits positive fits done) unwrapped
  case recordPackPublication now owner jobId output identity =>
      exact fine_of_update lawful ok (recordPackPublicationJob_step positive)
        (fun fits done => recordPackPublicationJob_fits positive fits done) unwrapped
  case fail now owner jobId error =>
      exact fine_of_update lawful ok (failJob_step positive)
        (fun fits done => failJob_fits positive fits done) unwrapped

omit lawful ok in
/-- A call that poisons the registry gets as far as a commit. -/
theorem Poisons.decided
    {call : Call}
    (healthy : registry.healthy = true)
    (poisons : call.Poisons registry) :
    call.refusal registry = none ∧
      ∃ next answer, call.decide registry.policy registry.state =
        .ok (some next, answer) := by
  cases call with
  | submit created now submission maximum =>
      obtain ⟨admissible, _⟩ := poisons
      have decided := (@decideNewJob_eq_ok registry.policy created now
        submission maximum registry.state _ _).mpr ⟨admissible.room,
          admissible.quota, admissible.numbers, rfl, rfl⟩
      rw [← admissible.decideSubmit_eq] at decided
      exact ⟨by simp [refusal, admissible.isOpen, healthy], _, _,
        decided_wrap .accepted decided⟩
  | transition probe now owner jobId target phase =>
      obtain ⟨needs, job, found, owned, valid, room⟩ := poisons
      have notRunning : target ≠ .running := by
        rintro rfl
        rcases needs with isTarget | isTarget <;> cases isTarget
      have appended := (@appendEvent_apply registry.policy now job _
        ⟨target, job.result, job.error, job.packPublication⟩ phase).mpr
        ⟨room, rfl⟩
      have updated : transitionJob registry.policy probe now target phase job =
          .ok (job.advance
            ⟨target, job.result, job.error, job.packPublication⟩ phase now
            registry.policy.maxEventsPerJob, ()) := by
        simp only [transitionJob, ensure_of valid, ok_bind, markerAfter,
          if_neg notRunning]
        exact bind_eq_ok.mpr ⟨_, appended, rfl⟩
      have decided := decideUpdate_eq_ok.mpr
        ⟨job, _, found, owned, updated, rfl⟩
      exact ⟨by simp [refusal, healthy], _, _,
        decided_wrap (fun _ => .done) decided⟩
  | requestCancel | finishCancelled | complete | recordPackPublication
  | expireDeadline | fail | closeAndCancelAll => cases poisons

end Decided

/-- A lawful call on working storage is harmless exactly when it does not poison
the registry. -/
theorem harmless_iff
    {json : StoreJson}
    (lawful : json.Lawful)
    {registry : JobRegistry}
    (ok : RegistryOk json registry)
    (healthy : registry.healthy = true)
    {call : Call}
    (isLawful : call.Lawful)
    (works : call.StorageWorks json registry) :
    call.Harmless json registry ↔ ¬call.Poisons registry := by
  by_cases commits : call.refusal registry = none ∧
      ∃ next answer, call.decide registry.policy registry.state =
        .ok (some next, answer)
  · obtain ⟨admitted, next, answer, decided⟩ := commits
    rw [harmless_iff_of_decided lawful healthy isLawful works admitted decided,
      fine_iff_not_poisons lawful ok isLawful admitted decided]
  · refine iff_of_true ?_ fun poisons => commits (poisons.decided healthy)
    refine harmless_of_not_decided ok healthy isLawful ?_
    intro next answer admitted decided
    exact commits ⟨admitted, next, answer, decided⟩

end Call

end Pithos.Daemon
