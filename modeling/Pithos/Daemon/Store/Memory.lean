import Pithos.Daemon.Store.Health

/-!
# Memory and disk

The state in memory is the one that the file decodes to, unless a job was
completed with a result that does not come back from JSON.  After a failed
commit every operation is refused.
-/

namespace Pithos.Daemon

open HostPath
open Fallible
open Machine
open Std
open MapValues
open Simulation

/-! ## The outcomes of a run -/

/-- A call brings a result or an error of a kind, if any. -/
def Call.OutcomeIs
    (Result : Value → Prop)
    (Error : JsonRpcError → Prop) : Call → Prop
  | complete _ _ _ result => Result result
  | fail _ _ _ error => Error error
  | _ => True

/-- A call brings an outcome that comes back from the store as it went in. -/
abbrev Call.OutcomeStorable (rereadFloat : List UInt8 → List UInt8) :
    Call → Prop :=
  OutcomeIs (Value.Storable rereadFloat maxResultDepth)
    (JsonRpcError.Storable rereadFloat)

/-- A call brings an outcome that comes back as it went in, or a null result. -/
abbrev Call.OutcomeKept (rereadFloat : List UInt8 → List UInt8) :
    Call → Prop :=
  OutcomeIs (fun value => value.reread rereadFloat = value)
    fun error => error.reread rereadFloat = error

/-- The results and errors that the store makes itself are of a kind. -/
structure OwnOutcomes
    (Result : Value → Prop)
    (Error : JsonRpcError → Prop) : Prop where
  archive : ∀ path, Result (.object [("archive", .string path)])
  error : ∀ error : JsonRpcError, error.data = none → Error error

theorem ownOutcomes_kept (rereadFloat : List UInt8 → List UInt8) :
    OwnOutcomes (fun value => value.reread rereadFloat = value)
      fun error => error.reread rereadFloat = error where
  archive := fun _ => rfl
  error := by
    intro error noData
    rw [JsonRpcError.reread, noData, rereadOptional, Option.map_none,
      Option.filter_none, ← noData]

theorem ownOutcomes_storable (rereadFloat : List UInt8 → List UInt8) :
    OwnOutcomes (Value.Storable rereadFloat maxResultDepth)
      (JsonRpcError.Storable rereadFloat) where
  archive := fun _ => ⟨rfl, rfl, show 1 ≤ maxResultDepth by decide⟩
  error := by
    intro error noData value isData
    rw [noData] at isData
    cases isData

section Outcomes

variable
  {Result : Value → Prop}
  {Error : JsonRpcError → Prop}
  {state next : PersistentState}

theorem PersistentState.OutcomesAre.setJob
    (outcomes : state.OutcomesAre Result Error)
    {key : String}
    {job : StoredJob}
    (outcome : job.OutcomeIs Result Error) :
    (state.setJob key job).OutcomesAre Result Error := by
  intro other otherJob found
  change (state.jobs.insert key job)[other]? = _ at found
  rw [getElem?_insert_eq] at found
  split at found
  · cases found
    exact outcome
  · exact outcomes other otherJob found

theorem PersistentState.OutcomesAre.trim
    (outcomes : state.OutcomesAre Result Error)
    (policy : StorePolicy) :
    (trimRetainedEvents state policy).OutcomesAre Result Error := by
  intro key job found
  rw [getElem?_trimRetainedEvents, Option.map_eq_some_iff] at found
  obtain ⟨untrimmed, isUntrimmed, rfl⟩ := found
  obtain ⟨result, error⟩ := outcomes key untrimmed isUntrimmed
  exact ⟨result, error⟩

theorem PersistentState.OutcomesAre.tryMap
    (outcomes : state.OutcomesAre Result Error)
    {change : String → StoredJob → RpcResult StoredJob}
    {jobs : ExtTreeMap String StoredJob}
    (keeps : ∀ key job next, job.OutcomeIs Result Error →
      change key job = .ok next → next.OutcomeIs Result Error)
    (changed : MapValues.tryMap change state.jobs = .ok jobs) :
    ({ state with jobs := jobs } : PersistentState).OutcomesAre Result
      Error := by
  obtain ⟨_, absent, all⟩ := tryMap_eq_ok.mp changed
  intro key next found
  cases isJob : state.jobs[key]? with
  | none =>
      have isAbsent := absent key isJob
      change jobs[key]? = _ at found
      rw [isAbsent] at found
      cases found
  | some job =>
      obtain ⟨after, isAfter, isFound⟩ := all key job isJob
      change jobs[key]? = _ at found
      rw [isFound] at found
      cases found
      exact keeps key job _ (outcomes key job isJob) isAfter

/-- A change that brings an outcome of the kind. -/
theorem StoredJob.OutcomeIs.advance
    {job : StoredJob}
    {change : JobChange}
    (result : ∀ value ∈ change.result, Result value)
    (error : ∀ error ∈ change.error, Error error)
    (phase : String)
    (now : UInt64)
    (bound : Nat) :
    (job.advance change phase now bound).OutcomeIs Result Error :=
  ⟨result, error⟩

theorem decideUpdate_outcomes
    {Reply : Type}
    {owner : SessionId}
    {jobId : JobId}
    {update : StoredJob → RpcResult (StoredJob × Reply)}
    {reply : Reply}
    (outcomes : state.OutcomesAre Result Error)
    (keeps : ∀ job after answer, job.OutcomeIs Result Error →
      update job = .ok (after, answer) → after.OutcomeIs Result Error)
    (decided : decideUpdate owner jobId update state =
      .ok (some next, reply)) :
    next.OutcomesAre Result Error := by
  obtain ⟨job, after, found, _, updated, isNext⟩ :=
    decideUpdate_eq_ok.mp decided
  cases isNext
  exact outcomes.setJob (keeps job after reply (outcomes _ job found) updated)

/-- A call with an outcome of the kind decides on a state with such outcomes. -/
theorem Call.decide_outcomes
    (own : OwnOutcomes Result Error)
    {policy : StorePolicy}
    {call : Call}
    (brings : call.OutcomeIs Result Error)
    (outcomes : state.OutcomesAre Result Error)
    {answer : Answer}
    (decided : call.decide policy state = .ok (some next, answer)) :
    next.OutcomesAre Result Error := by
  have noResult : ∀ value ∈ (none : Option Value), Result value := by simp
  have noError : ∀ error ∈ (none : Option JsonRpcError), Error error := by simp
  have ownError {error : JsonRpcError} (noData : error.data = none) :
      ∀ other ∈ some error, Error other := by
    rintro _ ⟨⟩
    exact own.error error noData
  cases call <;> obtain ⟨reply, unwrapped⟩ := decided_unwrap decided
  case submit created now submission maximum =>
      obtain ⟨_, _, admission⟩ := bind_eq_ok.mp unwrapped
      unfold decideAdmission at admission
      split at admission
      case h_1 =>
          simp only [bind_eq_ok, Except.ok.injEq, Prod.mk.injEq, reduceCtorEq,
            false_and, and_false, exists_false] at admission
      case h_2 =>
          obtain ⟨_, _, _, isNext, _⟩ := decideNewJob_eq_ok.mp admission
          cases isNext
          exact outcomes.setJob ⟨noResult, noError⟩
  case transition =>
      refine decideUpdate_outcomes outcomes ?_ unwrapped
      intro job after _ outcome done
      obtain ⟨_, _, _, _, rfl⟩ := transitionJob_ok done
      exact .advance outcome.result outcome.error _ _ _
  case requestCancel =>
      refine decideUpdate_outcomes outcomes ?_ unwrapped
      intro job after _ outcome done
      obtain ⟨_, ⟨_, _, rfl⟩ | ⟨_, _, rfl⟩ | ⟨_, rfl⟩⟩ :=
        requestCancelJob_ok done
      · exact .advance outcome.result (ownError rfl) _ _ _
      · exact .advance outcome.result outcome.error _ _ _
      · exact outcome
  case finishCancelled =>
      refine decideUpdate_outcomes outcomes ?_ unwrapped
      intro job after _ outcome done
      obtain ⟨_, _, rfl⟩ := finishCancelledJob_ok done
      exact .advance outcome.result (ownError rfl) _ _ _
  case complete now owner jobId result =>
      refine decideUpdate_outcomes outcomes ?_ unwrapped
      intro job after _ outcome done
      obtain ⟨_, _, _, rfl⟩ := completeJob_ok done
      refine .advance ?_ noError _ _ _
      rintro value ⟨⟩
      exact brings
  case recordPackPublication =>
      refine decideUpdate_outcomes outcomes ?_ unwrapped
      intro job after _ outcome done
      obtain ⟨_, _, _, _, _, ⟨_, rfl⟩ | ⟨_, _, rfl⟩⟩ :=
        recordPackPublicationJob_ok done
      · exact outcome
      · exact .advance outcome.result outcome.error _ _ _
  case expireDeadline =>
      simp only [decideExpireDeadline, bind_eq_ok, ownedJob_eq_ok,
        Except.ok.injEq, Prod.exists, Prod.mk.injEq] at unwrapped
      obtain ⟨job, ⟨found, _⟩, after, _, changed, expired, isNext, _⟩ :=
        unwrapped
      cases changed with
      | false => simp at isNext
      | true =>
          simp only [if_true, Option.some.injEq] at isNext
          subst isNext
          have outcome := outcomes _ job found
          refine outcomes.setJob ?_
          obtain ⟨_, _, rfl, _⟩ | ⟨_, _, rfl, _⟩ | ⟨_, _, rfl, _⟩ :=
            expireDeadlineJob_ok expired
          · exact .advance noResult (ownError rfl) _ _ _
          · exact .advance outcome.result outcome.error _ _ _
          · exact outcome
  case fail now owner jobId error =>
      refine decideUpdate_outcomes outcomes ?_ unwrapped
      intro job after _ outcome done
      obtain ⟨_, _, rfl⟩ := failJob_ok done
      refine .advance noResult ?_ _ _ _
      rintro other ⟨⟩
      exact brings
  case closeAndCancelAll clock =>
      simp only [decideCloseAndCancelAll, bind_eq_ok, Except.ok.injEq,
        Prod.mk.injEq] at unwrapped
      obtain ⟨jobs, mapped, isNext, _⟩ := unwrapped
      split at isNext
      · cases isNext
        refine outcomes.tryMap ?_ mapped
        intro key job after outcome done
        obtain ⟨_, _, rfl⟩ | ⟨_, _, rfl⟩ | ⟨_, rfl⟩ := shutdownJob_ok done
        · exact .advance noResult (ownError rfl) _ _ _
        · exact .advance outcome.result outcome.error _ _ _
        · exact outcome
      · cases isNext

/-- Recovery leaves outcomes of the kind. -/
theorem Recovered.outcomes
    (own : OwnOutcomes Result Error)
    {policy : StorePolicy}
    {archives : Archives}
    (recovery : Recovered policy archives state next)
    (outcomes : state.OutcomesAre Result Error) :
    next.OutcomesAre Result Error := by
  intro key job found
  obtain ⟨old, _, recovered, isOld, done, rfl⟩ := recovery.origin key job found
  obtain ⟨oldResult, oldError⟩ := outcomes key old isOld
  suffices recovered.OutcomeIs Result Error from ⟨this.result, this.error⟩
  obtain ⟨_, rfl⟩ | ⟨_, _, outcome⟩ := recoverJob_ok done
  · exact ⟨oldResult, oldError⟩
  · obtain ⟨archive, _, _, rfl⟩ | ⟨_, rfl⟩ := outcome
    · refine .advance ?_ (by simp) _ _ _
      rintro value ⟨⟩
      exact own.archive archive
    · refine .advance (by simp) ?_ _ _ _
      rintro error ⟨⟩
      exact own.error _ rfl

/-- Every step of the journal keeps outcomes of the kind. -/
theorem Cause.outcomes
    (own : OwnOutcomes Result Error)
    {allowed : Call → Prop}
    (brings : ∀ call, allowed call → call.OutcomeIs Result Error)
    (cause : Cause allowed state next)
    (outcomes : state.OutcomesAre Result Error) :
    next.OutcomesAre Result Error := by
  cases cause with
  | nothing => exact outcomes
  | call isAllowed decided =>
      exact (Call.decide_outcomes own (brings _ isAllowed) outcomes
        decided).trim _
  | recovery recovered => exact recovered.outcomes own outcomes

theorem outcomes_initial :
    PersistentState.initial.OutcomesAre Result Error := by
  intro key job found
  simp [PersistentState.initial] at found

end Outcomes

/-! ## Outcomes that come back -/

/-- In a run whose calls bring outcomes that come back, all committed outcomes
do. -/
theorem journal_kept
    {json : StoreJson}
    {allowed : Call → Prop}
    {committed : Nat → PersistentState}
    (isRun : IsRun (JournalStep json allowed) .initial committed)
    (brings : ∀ call, allowed call → call.OutcomeKept json.rereadFloat)
    (time : Nat) :
    (committed time).Kept json.rereadFloat := by
  induction time with
  | zero =>
      rw [isRun.start]
      exact outcomes_initial
  | succ time inductionHypothesis =>
      obtain ⟨sound, _, base, isBack, soundBase, _, cause⟩ := isRun.step time
      obtain rfl := isBack.eq inductionHypothesis sound soundBase
      exact cause.outcomes (ownOutcomes_kept _) brings inductionHypothesis

/-- A state that was written with outcomes that come back is what the file
decodes to. -/
theorem Written.decodes
    {json : StoreJson}
    (lawful : json.Lawful)
    {file : Option (List UInt8)}
    {state : PersistentState}
    (written : Written json file state)
    (plain : state.Plain json.rereadFloat) :
    Decodes json file state := by
  rcases written with ⟨rfl, isInitial⟩ | ⟨bytes, rfl, encoded⟩
  · exact isInitial
  · obtain ⟨next, decoded⟩ := lawful.decodes encoded plain
    have isReread := lawful.reread encoded decoded
    rw [plain_reread plain] at isReread
    rw [isReread] at decoded
    exact decoded

/-- In a run whose calls bring outcomes that come back, the file decodes to the
committed state. -/
theorem committed_decodes_of_reachable
    {json : StoreJson}
    (lawful : json.Lawful)
    {store : Store}
    (reachable : Relation.ReflTransGen
      (Step json (Call.OutcomeStorable json.rereadFloat)) (.down none) store) :
    ∃ state, store.Committed json state ∧ state.Plain json.rereadFloat ∧
      Decodes json store.file state := by
  induction reachable with
  | refl =>
      have start := (store_simulates_journal lawful fun _ => True).start
      exact ⟨_, start, outcomes_initial, rfl⟩
  | tail _ step inductionHypothesis =>
      obtain ⟨state, committed, plain, decodes⟩ := inductionHypothesis
      obtain ⟨base, next, commits⟩ := committed.step lawful step
      have isBase : base = state := by
        rcases commits.isBack with rfl | rfl
        · rfl
        · exact plain_reread plain
      subst isBase
      have plainAfter := commits.cause.outcomes (ownOutcomes_storable _)
        (fun _ brings => brings) plain
      refine ⟨next, commits.committed, plainAfter, ?_⟩
      rcases commits.file with written | ⟨same, rfl | decodes⟩
      · exact written.decodes lawful plainAfter
      · rw [same]
        exact decodes
      · exact decodes

/-! ## Failing closed -/

/-- A call gets as far as a commit, and the commit fails. -/
def Call.CommitFails
    (json : StoreJson)
    (fault : Option StorageFault)
    (call : Call)
    (registry : JobRegistry) : Prop :=
  call.refusal registry = none ∧
    ∃ next answer failure,
      call.decide registry.policy registry.state = .ok (some next, answer) ∧
      ((call.entering registry).commit json fault next).1 = .error failure

/-- Perform calls one after another. -/
def performAll
    (json : StoreJson)
    (registry : JobRegistry) :
    List (Call × Option StorageFault) → JobRegistry
  | [] => registry
  | (call, fault) :: calls =>
      performAll json (call.perform json fault registry).2 calls

theorem commit_unhealthy
    {json : StoreJson}
    {fault : Option StorageFault}
    {next : PersistentState}
    {registry : JobRegistry}
    {failure : JsonRpcError}
    (failed : (registry.commit json fault next).1 = .error failure) :
    (registry.commit json fault next).2.healthy = false := by
  unfold JobRegistry.commit JobRegistry.commitWithSync at failed ⊢
  split at failed
  case h_1 rejected => rfl
  case h_2 bytes published =>
      split at failed
      case h_1 unsynced => rfl
      case h_2 synced => cases failed

theorem Call.CommitFails.unhealthy
    {json : StoreJson}
    {fault : Option StorageFault}
    {call : Call}
    {registry : JobRegistry}
    (fails : call.CommitFails json fault registry) :
    (call.perform json fault registry).2.healthy = false := by
  obtain ⟨admitted, next, answer, failure, decided, failed⟩ := fails
  have unhealthy := commit_unhealthy failed
  rw [Call.perform_eq, admitted, decided]
  simp only [JobRegistry.settle]
  split
  case h_1 _ after committed => rwa [committed] at unhealthy
  case h_2 after committed =>
      rw [committed] at failed
      cases failed

/-- An unhealthy registry stays unhealthy. -/
theorem Call.perform_unhealthy
    {json : StoreJson}
    {fault : Option StorageFault}
    {call : Call}
    {registry : JobRegistry}
    (unhealthy : registry.healthy = false) :
    (call.perform json fault registry).2.healthy = false := by
  have entering : (call.entering registry).healthy = false := by
    cases call <;> exact unhealthy
  rw [Call.perform_eq]
  split
  · exact unhealthy
  · generalize call.entering registry = entered at entering
    rcases call.decide registry.policy registry.state with
      failure | ⟨_ | next, answer⟩
    · exact entering
    · exact entering
    · unfold JobRegistry.settle JobRegistry.commit JobRegistry.commitWithSync
      dsimp only
      cases publish json fault entered.policy
          (trimRetainedEvents next entered.policy) with
      | error failure => rfl
      | ok bytes =>
          cases syncParent fault with
          | error failure => rfl
          | ok done => exact entering

theorem performAll_unhealthy
    {json : StoreJson}
    {registry : JobRegistry}
    (unhealthy : registry.healthy = false)
    (calls : List (Call × Option StorageFault)) :
    (performAll json registry calls).healthy = false := by
  induction calls generalizing registry with
  | nil => exact unhealthy
  | cons first rest inductionHypothesis =>
      exact inductionHypothesis (Call.perform_unhealthy unhealthy)

/-- The calls that look at the health of the registry first. -/
def Call.Gated : Call → Prop
  | closeAndCancelAll _ => False
  | _ => True

/-- An unhealthy registry refuses and stays as it is. -/
theorem Call.perform_eq_of_unhealthy
    {json : StoreJson}
    {fault : Option StorageFault}
    {call : Call}
    (isGated : call.Gated)
    {registry : JobRegistry}
    (unhealthy : registry.healthy = false) :
    ∃ failure, call.perform json fault registry = (.error failure, registry) := by
  have refused : ∃ failure, call.refusal registry = some failure := by
    cases call <;> try exact ⟨_, by simp only [refusal, unhealthy]; rfl⟩
    case submit =>
        cases isClosed : registry.closed with
        | true => exact ⟨_, by simp only [refusal, isClosed]; rfl⟩
        | false => exact ⟨_, by simp only [refusal, isClosed, unhealthy]; rfl⟩
    case closeAndCancelAll => cases isGated
  obtain ⟨failure, refused⟩ := refused
  exact ⟨failure, by rw [Call.perform_eq, refused]⟩

/-- Memory equals disk, and a failed commit closes the registry. -/
structure MemoryEqualsDisk (json : StoreJson) (registry : JobRegistry) :
    Prop where
  decodes : Decodes json registry.file registry.state
  failsClosed : ∀ {call : Call} {fault : Option StorageFault},
    call.CommitFails json fault registry →
    ∀ later : List (Call × Option StorageFault),
    ∀ {next : Call} {nextFault : Option StorageFault}, next.Gated →
    ∃ failure, next.perform json nextFault
        (performAll json (call.perform json fault registry).2 later) =
      (.error failure,
        performAll json (call.perform json fault registry).2 later)

end Pithos.Daemon
