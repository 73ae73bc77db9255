import Pithos.Daemon.Store.Follows
import Pithos.Library.Simulation

/-!
# Runs of the job store

A run is any sequence of calls, with storage that may fail at any step, of
crashes and of attempts to open the store again.  Between two processes only the
file is left.

The store simulates an abstract journal: a sequence of committed states, each of
which follows the one before.
-/

namespace Pithos.Daemon

open HostPath
open Fallible
open Machine
open Std
open MapValues

/-! ## Calls -/

/-- A call of an operation, with the moment and the surroundings it meets. -/
inductive Call
  | submit (created now : UInt64) (submission : JobSubmission)
      (maxNonterminalForOwner : Nat)
  | transition (probe : Path → Probe) (now : UInt64) (owner : SessionId)
      (jobId : JobId) (state : ApiJobState) (phase : String)
  | requestCancel (now : UInt64) (owner : SessionId) (jobId : JobId)
  | finishCancelled (now : UInt64) (owner : SessionId) (jobId : JobId)
  | complete (now : UInt64) (owner : SessionId) (jobId : JobId)
      (result : Value)
  | recordPackPublication (now : UInt64) (owner : SessionId) (jobId : JobId)
      (output : Path) (identity : ArchiveIdentity)
  | expireDeadline (now : UInt64) (owner : SessionId) (jobId : JobId)
  | fail (now : UInt64) (owner : SessionId) (jobId : JobId)
      (error : JsonRpcError)
  | closeAndCancelAll (clock : String → UInt64)

/-- What a call answers. -/
inductive Answer
  | accepted (answer : JobAccepted)
  | done
  | jobState (state : ApiJobState)
  | cancelWorker (answer : Bool)
  | affected (jobs : List (SessionId × JobId))

/-- The outcome of an operation with its answer wrapped. -/
def answering
    {Reply : Type}
    (wrap : Reply → Answer)
    (outcome : RpcResult Reply × JobRegistry) : RpcResult Answer × JobRegistry :=
  (outcome.1.map wrap, outcome.2)

namespace Call

/-- Perform a call. -/
def perform
    (json : StoreJson)
    (fault : Option StorageFault)
    (call : Call)
    (registry : JobRegistry) : RpcResult Answer × JobRegistry :=
  match call with
  | submit created now submission maxNonterminalForOwner =>
      answering .accepted (registry.submitWithLimit json fault created now
        submission maxNonterminalForOwner)
  | transition probe now owner jobId state phase =>
      answering (fun _ => .done)
        (registry.transition json fault probe now owner jobId state phase)
  | requestCancel now owner jobId =>
      answering .jobState (registry.requestCancel json fault now owner jobId)
  | finishCancelled now owner jobId =>
      answering (fun _ => .done)
        (registry.finishCancelled json fault now owner jobId)
  | complete now owner jobId result =>
      answering (fun _ => .done)
        (registry.complete json fault now owner jobId result)
  | recordPackPublication now owner jobId output identity =>
      answering (fun _ => .done) (registry.recordPackPublication json fault now
        owner jobId output identity)
  | expireDeadline now owner jobId =>
      answering .cancelWorker
        (registry.expireDeadline json fault now owner jobId)
  | fail now owner jobId error =>
      answering (fun _ => .done)
        (registry.fail json fault now owner jobId error)
  | closeAndCancelAll clock =>
      answering .affected (registry.closeAndCancelAll json fault clock)

/-- The part of a call that looks at the state. -/
def decide
    (policy : StorePolicy)
    (call : Call)
    (state : PersistentState) : RpcResult (Option PersistentState × Answer) :=
  match call with
  | submit created now submission maxNonterminalForOwner =>
      (decideSubmit policy created now submission maxNonterminalForOwner
        state).map (Prod.map id .accepted)
  | transition probe now owner jobId target phase =>
      (decideUpdate owner jobId (transitionJob policy probe now target phase)
        state).map (Prod.map id fun _ => .done)
  | requestCancel now owner jobId =>
      (decideUpdate owner jobId (requestCancelJob policy now) state).map
        (Prod.map id .jobState)
  | finishCancelled now owner jobId =>
      (decideUpdate owner jobId (finishCancelledJob policy now) state).map
        (Prod.map id fun _ => .done)
  | complete now owner jobId result =>
      (decideUpdate owner jobId (completeJob policy now result) state).map
        (Prod.map id fun _ => .done)
  | recordPackPublication now owner jobId output identity =>
      (decideUpdate owner jobId (recordPackPublicationJob policy now output
        identity) state).map (Prod.map id fun _ => .done)
  | expireDeadline now owner jobId =>
      (decideExpireDeadline policy now owner jobId state).map
        (Prod.map id .cancelWorker)
  | fail now owner jobId error =>
      (decideUpdate owner jobId (failJob policy now error) state).map
        (Prod.map id fun _ => .done)
  | closeAndCancelAll clock =>
      (decideCloseAndCancelAll policy clock state).map
        (Prod.map id .affected)

/-- Why a call is refused before it looks at the state. -/
def refusal (call : Call) (registry : JobRegistry) : Option JsonRpcError :=
  match call with
  | closeAndCancelAll _ => none
  | submit _ _ _ _ =>
      if registry.closed then
        some (.domain .jobConflict "job registry is closed")
      else if registry.healthy then none
      else some (internal "job registry storage is unhealthy")
  | _ =>
      if registry.healthy then none
      else some (internal "job registry storage is unhealthy")

/-- The registry as a call that is not refused meets it. -/
def entering (call : Call) (registry : JobRegistry) : JobRegistry :=
  match call with
  | closeAndCancelAll _ => { registry with closed := true }
  | _ => registry

/-- Wrapping an answer commutes with finishing an operation. -/
theorem answering_settle
    {Reply : Type}
    (wrap : Reply → Answer)
    (json : StoreJson)
    (fault : Option StorageFault)
    (decided : RpcResult (Option PersistentState × Reply))
    (registry : JobRegistry) :
    answering wrap (registry.settle json fault decided) =
      registry.settle json fault (decided.map (Prod.map id wrap)) := by
  rcases decided with failure | ⟨_ | next, reply⟩
  · rfl
  · rfl
  · simp only [JobRegistry.settle, Except.map, Prod.map_apply, id_eq]
    rcases registry.commit json fault next with ⟨_ | _, after⟩ <;> rfl

/-- A call is refused, or decides on the state and finishes. -/
theorem perform_eq
    (json : StoreJson)
    (fault : Option StorageFault)
    (call : Call)
    (registry : JobRegistry) :
    call.perform json fault registry =
      match call.refusal registry with
      | some failure => (.error failure, registry)
      | none => (call.entering registry).settle json fault
          (call.decide registry.policy registry.state) := by
  have gated {Reply : Type} (wrap : Reply → Answer)
      (decision : PersistentState → RpcResult (Option PersistentState × Reply)) :
      answering wrap (registry.gated json fault decision) =
        match (if registry.healthy then none
          else some (internal "job registry storage is unhealthy")) with
        | some failure => (.error failure, registry)
        | none => registry.settle json fault
            ((decision registry.state).map (Prod.map id wrap)) := by
    unfold JobRegistry.gated
    cases registry.healthy with
    | true => exact answering_settle wrap json fault _ registry
    | false => rfl
  cases call with
  | closeAndCancelAll clock => exact answering_settle _ _ _ _ _
  | submit created now submission maxNonterminalForOwner =>
      simp only [perform, refusal, JobRegistry.submitWithLimit]
      cases isClosed : registry.closed with
      | true => rfl
      | false =>
          simp only [Bool.false_eq_true, if_false]
          rw [gated]
          rfl
  | transition | requestCancel | finishCancelled | complete
  | recordPackPublication | expireDeadline | fail => exact gated _ _

theorem decided_unwrap
    {Reply : Type}
    {wrap : Reply → Answer}
    {decision : RpcResult (Option PersistentState × Reply)}
    {next : PersistentState}
    {answer : Answer}
    (wrapped : decision.map (Prod.map id wrap) = .ok (some next, answer)) :
    ∃ reply, decision = .ok (some next, reply) := by
  rcases decision with failure | ⟨decided, reply⟩
  · cases wrapped
  · cases wrapped
    exact ⟨reply, rfl⟩

theorem decided_wrap
    {Reply : Type}
    (wrap : Reply → Answer)
    {decision : RpcResult (Option PersistentState × Reply)}
    {next : PersistentState}
    {reply : Reply}
    (decided : decision = .ok (some next, reply)) :
    decision.map (Prod.map id wrap) = .ok (some next, wrap reply) := by
  rw [decided]
  rfl

/-- Whatever a call decides to commit follows the state it saw. -/
theorem decide_follows
    {policy : StorePolicy}
    (positive : policy.maxEventsPerJob ≠ 0)
    {call : Call}
    {state next : PersistentState}
    {answer : Answer}
    (decided : call.decide policy state = .ok (some next, answer)) :
    Follows state next := by
  cases call <;> obtain ⟨_, unwrapped⟩ := decided_unwrap decided
  case submit => exact decideSubmit_follows positive unwrapped
  case transition =>
      exact decideUpdate_follows
        (fun _ _ _ done => transitionJob_step positive done) unwrapped
  case requestCancel =>
      exact decideUpdate_follows
        (fun _ _ _ done => requestCancelJob_step positive done) unwrapped
  case finishCancelled =>
      exact decideUpdate_follows
        (fun _ _ _ done => finishCancelledJob_step positive done) unwrapped
  case complete =>
      exact decideUpdate_follows
        (fun _ _ _ done => completeJob_step positive done) unwrapped
  case recordPackPublication =>
      exact decideUpdate_follows
        (fun _ _ _ done => recordPackPublicationJob_step positive done)
        unwrapped
  case expireDeadline => exact decideExpireDeadline_follows positive unwrapped
  case fail =>
      exact decideUpdate_follows
        (fun _ _ _ done => failJob_step positive done) unwrapped
  case closeAndCancelAll =>
      exact decideCloseAndCancelAll_follows positive unwrapped

end Call

/-! ## What a call leaves -/

/-- A state is published when it is valid, fits, and no step up to the rename
fails. -/
theorem publish_eq_ok
    {json : StoreJson}
    {fault : Option StorageFault}
    {policy : StorePolicy}
    {state : PersistentState}
    {bytes : List UInt8} :
    publish json fault policy state = .ok bytes ↔
      ValidState state policy true ∧ json.toVec state = some bytes ∧
        bytes.length ≤ policy.maxStoreBytes.toNat ∧
        (fault = none ∨ fault = some .syncParent) := by
  simp only [publish, encodeState, publishState, bind_eq_ok, ensure_eq_ok,
    okOr_eq_ok, Except.ok.injEq, validateState_eq_ok, exists_const]
  constructor
  · rintro ⟨valid, _, ⟨encodes, _, encoded, fits, rfl⟩, published, rfl⟩
    refine ⟨valid, encoded, fits, ?_⟩
    obtain _ | _ | _ | _ | _ | _ | _ | _ := fault <;> simp_all
  · rintro ⟨valid, encoded, fits, rfl | rfl⟩ <;>
      exact ⟨valid, bytes, ⟨by decide, bytes, encoded, fits, rfl⟩, by decide,
        rfl⟩

/-- What an operation can leave of a registry: the flags aside nothing changes,
or the state it decided on was published. -/
inductive Change
    (json : StoreJson)
    (decided : RpcResult (Option PersistentState × Answer))
    (registry : JobRegistry) : JobRegistry → Prop
  | unchanged (closed healthy : Bool) :
      Change json decided registry
        { registry with closed := closed, healthy := healthy }
  | committed (next : PersistentState) (answer : Answer) (bytes : List UInt8)
      (closed healthy : Bool)
      (isDecided : decided = .ok (some next, answer))
      (valid : ValidState (trimRetainedEvents next registry.policy)
        registry.policy true)
      (encoded : json.toVec (trimRetainedEvents next registry.policy) =
        some bytes)
      (fits : bytes.length ≤ registry.policy.maxStoreBytes.toNat) :
      Change json decided registry { registry with
        state := trimRetainedEvents next registry.policy
        file := some bytes
        closed := closed
        healthy := healthy }

/-- Closing first makes no difference. -/
theorem Change.of_closed
    {json : StoreJson}
    {decided : RpcResult (Option PersistentState × Answer)}
    {registry after : JobRegistry}
    (change : Change json decided { registry with closed := true } after) :
    Change json decided registry after := by
  cases change with
  | unchanged closed healthy => exact .unchanged closed healthy
  | committed next answer bytes closed healthy isDecided valid encoded fits =>
      exact .committed next answer bytes closed healthy isDecided valid encoded
        fits

theorem settle_change
    (json : StoreJson)
    (fault : Option StorageFault)
    (decided : RpcResult (Option PersistentState × Answer))
    (registry : JobRegistry) :
    Change json decided registry (registry.settle json fault decided).2 := by
  rcases decided with failure | ⟨_ | next, answer⟩
  · exact .unchanged registry.closed registry.healthy
  · exact .unchanged registry.closed registry.healthy
  · unfold JobRegistry.settle JobRegistry.commit JobRegistry.commitWithSync
    dsimp only
    cases published : publish json fault registry.policy
        (trimRetainedEvents next registry.policy) with
    | error failure => exact .unchanged registry.closed false
    | ok bytes =>
        obtain ⟨valid, encoded, fits, _⟩ := publish_eq_ok.mp published
        cases syncParent fault with
        | error failure =>
            exact .committed next answer bytes registry.closed false rfl valid
              encoded fits
        | ok done =>
            exact .committed next answer bytes registry.closed
              registry.healthy rfl valid encoded fits

/-- Every call leaves the registry, or commits what it decided on. -/
theorem Call.perform_change
    (json : StoreJson)
    (fault : Option StorageFault)
    (call : Call)
    (registry : JobRegistry) :
    Change json (call.decide registry.policy registry.state) registry
      (call.perform json fault registry).2 := by
  rw [Call.perform_eq]
  split
  case h_1 failure refused =>
      exact .unchanged registry.closed registry.healthy
  case h_2 admitted =>
      cases call
      case closeAndCancelAll clock =>
          exact Change.of_closed (settle_change json fault _ _)
      all_goals exact settle_change json fault _ registry

end Pithos.Daemon
