import Pithos.Daemon.Store.Defs

/-!
# Operations of the job store

Every operation first decides, on the state in memory, what state it wants and
what it answers, and then commits that state.  The decision on one job is a
function of its own, so that what an operation can do to a job is read off
there.
-/

namespace Pithos.Daemon

open HostPath
open Fallible
open Machine
open Std

/-! ## What happens to one job -/

/-- What looking at a path without following a link finds. -/
inductive Probe
  | found
  | notFound
  | failed
  deriving DecidableEq, Repr

/-- The marker of a pack job that starts. -/
def preparePackPublicationMarker (probe : Path → Probe) (job : StoredJob) :
    RpcResult (Option PackPublicationMarker) :=
  match job.operation with
  | .pack _ output _ => do
      ensure (probe output ≠ .failed)
        (internal "cannot inspect pack output before execution")
      .ok (some {
        markerVersion := packPublicationMarkerVersion
        jobId := job.jobId
        paramsHash := job.paramsHash
        output := output
        outputWasAbsent := decide (probe output = .notFound)
        publishedArchive := none })
  | _ => .ok none

/-- The marker after a transition: only a start sets it. -/
def markerAfter
    (probe : Path → Probe)
    (state : ApiJobState)
    (job : StoredJob) : RpcResult (Option PackPublicationMarker) :=
  if state = .running then preparePackPublicationMarker probe job
  else .ok job.packPublication

/-- A transition that the state machine allows, with the publication marker that
the new state asks for and one more event. -/
def transitionJob
    (policy : StorePolicy)
    (probe : Path → Probe)
    (now : UInt64)
    (state : ApiJobState)
    (phase : String)
    (job : StoredJob) : RpcResult (StoredJob × Unit) := do
  ensure (validTransition job.state state = true)
    (.domain .jobConflict "invalid job state transition")
  let marker ← markerAfter probe state job
  let next ← appendEvent
    { job with packPublication := marker, state := state } phase
    policy.maxEventsPerJob now
  .ok (next, ())

/-- The error of a cancelled job. -/
def jobCancelled : JsonRpcError :=
  .domain .cancelled "job cancelled"

/-- A queued job is cancelled at once, a running one is asked to stop, and a job
that has ended keeps its state. -/
def requestCancelJob
    (policy : StorePolicy)
    (now : UInt64)
    (job : StoredJob) : RpcResult (StoredJob × ApiJobState) :=
  match job.state with
  | .queued => do
      let next ← appendEvent
        { job with state := .cancelled, error := some jobCancelled }
        "cancelled" policy.maxEventsPerJob now
      .ok (next, .cancelled)
  | .running => do
      let next ← appendEvent { job with state := .cancelling } "cancelling"
        policy.maxEventsPerJob now
      .ok (next, .cancelling)
  | .cancelling => .ok (job, .cancelling)
  | .cancelled => .ok (job, .cancelled)
  | .completed | .failed =>
      .error (.domain .jobConflict "terminal job cannot be cancelled")

/-- A job that was asked to stop is cancelled. -/
def finishCancelledJob
    (policy : StorePolicy)
    (now : UInt64)
    (job : StoredJob) : RpcResult (StoredJob × Unit) := do
  ensure (job.state = .cancelling)
    (.domain .jobConflict "job is not cancelling")
  let next ← appendEvent
    { job with state := .cancelled, error := some jobCancelled } "cancelled"
    policy.maxEventsPerJob now
  .ok (next, ())

/-- The output of a pack. -/
def StoredOperation.packOutput? : StoredOperation → Option Path
  | .pack _ output _ => some output
  | _ => none

/-- A pack job has to have its publication recorded. -/
def requireRecordedPackPublication (job : StoredJob) : RpcResult Unit :=
  if job.operation.packOutput?.isSome then
    ensure (∃ marker ∈ job.packPublication,
        marker.outputWasAbsent = true ∧ marker.publishedArchive.isSome = true)
      (internal "pack publication identity is not recorded")
  else .ok ()

/-- A job that has not ended is completed with its result, once its publication
has been recorded. -/
def completeJob
    (policy : StorePolicy)
    (now : UInt64)
    (result : Value)
    (job : StoredJob) : RpcResult (StoredJob × Unit) := do
  ensure (job.state = .queued ∨ job.state = .running ∨ job.state = .cancelling)
    (.domain .jobConflict "job cannot complete from current state")
  requireRecordedPackPublication job
  let next ← appendEvent
    { job with state := .completed, result := some result, error := none }
    "completed" policy.maxEventsPerJob now
  .ok (next, ())

/-- The marker with the identity of the published archive. -/
def PackPublicationMarker.published
    (marker : PackPublicationMarker)
    (identity : ArchiveIdentity) : PackPublicationMarker :=
  { marker with publishedArchive := some identity }

/-- Record the identity that was found at `output`. -/
def recordPackPublicationJob
    (policy : StorePolicy)
    (now : UInt64)
    (output : Path)
    (identity : ArchiveIdentity)
    (job : StoredJob) : RpcResult (StoredJob × Unit) := do
  ensure (job.state = .running ∨ job.state = .cancelling)
    (.domain .jobConflict
      "pack publication cannot be recorded from current state")
  ensure (job.operation.packOutput? = some output)
    (.domain .jobConflict
      "pack operation changed while publication was verified")
  let marker ← okOr (job.packPublication.filter (·.outputWasAbsent))
    (internal "pack publication marker is missing")
  match marker.publishedArchive with
  | some expected => do
      ensure (expected = identity)
        (.domain .integrityMismatch "pack output identity changed")
      .ok (job, ())
  | none => do
      let next ← appendEvent
        { job with packPublication := some (marker.published identity) }
        "pack_published" policy.maxEventsPerJob now
      .ok (next, ())

/-- The error of a job that ran out of time. -/
def deadlineExceeded : JsonRpcError :=
  .resourceLimit "job deadline exceeded"

/-- The job after its deadline, whether a worker has to be told, and whether the
job changed. -/
def expireDeadlineJob
    (policy : StorePolicy)
    (now : UInt64)
    (job : StoredJob) : RpcResult (StoredJob × Bool × Bool) :=
  match job.state with
  | .queued => do
      let next ← appendEvent
        { job with
          state := .failed
          result := none
          error := some deadlineExceeded }
        "deadline_exceeded" policy.maxEventsPerJob now
      .ok (next, false, true)
  | .running => do
      let next ← appendEvent { job with state := .cancelling }
        "deadline_exceeded" policy.maxEventsPerJob now
      .ok (next, true, true)
  | .cancelling => .ok (job, true, false)
  | .completed | .failed | .cancelled => .ok (job, false, false)

/-- A job that has not ended fails, or is cancelled when the error says so. -/
def failJob
    (policy : StorePolicy)
    (now : UInt64)
    (error : JsonRpcError)
    (job : StoredJob) : RpcResult (StoredJob × Unit) := do
  ensure (job.state.isTerminal = false)
    (.domain .jobConflict "terminal job is immutable")
  let next ← appendEvent
    { job with
      state := if error.kind = .cancelled then .cancelled else .failed
      result := none
      error := some error }
    "failed" policy.maxEventsPerJob now
  .ok (next, ())

/-- A job at shutdown. -/
def shutdownJob
    (policy : StorePolicy)
    (now : UInt64)
    (job : StoredJob) : RpcResult StoredJob :=
  match job.state with
  | .queued =>
      appendEvent
        { job with
          state := .cancelled
          result := none
          error := some (.domain .cancelled
            "job cancelled during daemon shutdown") }
        "daemon_shutdown" policy.maxEventsPerJob now
  | .running =>
      appendEvent { job with state := .cancelling } "daemon_shutdown"
        policy.maxEventsPerJob now
  | .cancelling | .completed | .failed | .cancelled => .ok job

/-- Whether shutdown changes a job. -/
def shutdownChanges (job : StoredJob) : Bool :=
  job.state = .queued ∨ job.state = .running

/-! ## Decisions on the state -/

/-- The job, when it belongs to the owner. -/
def ownedJob (state : PersistentState) (owner : SessionId) (jobId : JobId) :
    RpcResult StoredJob :=
  okOr (state.jobs[jobId.value]?.filter fun job => job.owner = owner)
    jobNotFound

/-- The state with one job replaced. -/
def PersistentState.setJob
    (state : PersistentState)
    (key : String)
    (job : StoredJob) : PersistentState :=
  { state with jobs := state.jobs.insert key job }

/-- Change one job of an owner. -/
def decideUpdate
    {Reply : Type}
    (owner : SessionId)
    (jobId : JobId)
    (update : StoredJob → RpcResult (StoredJob × Reply))
    (state : PersistentState) :
    RpcResult (Option PersistentState × Reply) := do
  let job ← ownedJob state owner jobId
  let (next, reply) ← update job
  .ok (some (state.setJob jobId.value next), reply)

/-- The answer to a key that already has a job. -/
def replay (existing : StoredJob) (submission : JobSubmission) :
    RpcResult JobAccepted := do
  ensure (¬(existing.paramsHash ≠ submission.paramsHash ∨
      existing.method ≠ submission.method ∨
      existing.priority ≠ submission.priority))
    (.domain .jobConflict "idempotency key has different parameters")
  .ok {
    jobId := existing.jobId
    state := existing.state
    idempotentReplay := true }

/-- The job of a submission, before its first event. -/
def newJob (submission : JobSubmission) (jobId : JobId) (created : UInt64) :
    StoredJob where
  jobId := jobId
  owner := submission.owner
  method := submission.method
  priority := submission.priority
  idempotencyKey := submission.idempotencyKey
  paramsHash := submission.paramsHash
  limits := submission.limits
  operation := submission.operation
  state := .queued
  createdAtUnixMs := created
  updatedAtUnixMs := created
  result := none
  error := none
  events := []
  nextSequence := 1
  packPublication := none

/-- How many jobs of an owner are not done. -/
def nonterminalCount (state : PersistentState) (owner : SessionId) : Nat :=
  (state.jobs.toList.filter fun item =>
    item.2.owner = owner ∧ item.2.state.isTerminal = false).length

/-- Admit a submission whose key is new. -/
def decideNewJob
    (policy : StorePolicy)
    (created now : UInt64)
    (submission : JobSubmission)
    (maxNonterminalForOwner : Nat)
    (state : PersistentState) :
    RpcResult (Option PersistentState × JobAccepted) := do
  ensure (state.jobs.size < policy.maxRetainedJobs)
    (.resourceLimit "job retention capacity exceeded")
  ensure (nonterminalCount state submission.owner < maxNonterminalForOwner)
    (.resourceLimit "session job quota exceeded")
  let jobId ← JobId.new (jobIdText state.nextJob)
  let nextJob ← okOr (checkedAdd state.nextJob 1)
    (.resourceLimit "job id space exhausted")
  let job ← appendEvent (newJob submission jobId created) "queued"
    policy.maxEventsPerJob now
  .ok (some { state with
      nextJob := nextJob
      jobs := state.jobs.insert jobId.value job
      idempotency := state.idempotency.insert
        (idempotencyMapKey submission.owner submission.idempotencyKey)
        jobId.value },
    { jobId := jobId, state := .queued, idempotentReplay := false })

/-- Answer again for a key that has a job, and admit a submission whose key is
new. -/
def decideAdmission
    (policy : StorePolicy)
    (created now : UInt64)
    (submission : JobSubmission)
    (maxNonterminalForOwner : Nat)
    (state : PersistentState) :
    RpcResult (Option PersistentState × JobAccepted) :=
  match state.idempotency[idempotencyMapKey submission.owner
      submission.idempotencyKey]? with
  | some existingId => do
      let existing ← okOr state.jobs[existingId]?
        (internal "idempotency index is corrupt")
      let accepted ← replay existing submission
      .ok (none, accepted)
  | none =>
      decideNewJob policy created now submission maxNonterminalForOwner state

/-- The key must be in order before it is looked up. -/
def decideSubmit
    (policy : StorePolicy)
    (created now : UInt64)
    (submission : JobSubmission)
    (maxNonterminalForOwner : Nat)
    (state : PersistentState) :
    RpcResult (Option PersistentState × JobAccepted) := do
  validateIdempotencyKey submission.idempotencyKey
  decideAdmission policy created now submission maxNonterminalForOwner state

/-- Expire one job, and say whether its worker must be cancelled.  Nothing is
written when nothing changed. -/
def decideExpireDeadline
    (policy : StorePolicy)
    (now : UInt64)
    (owner : SessionId)
    (jobId : JobId)
    (state : PersistentState) : RpcResult (Option PersistentState × Bool) := do
  let job ← ownedJob state owner jobId
  let (next, cancelWorker, changed) ← expireDeadlineJob policy now job
  .ok (if changed then some (state.setJob jobId.value next) else none,
    cancelWorker)

/-- The jobs that are not done. -/
def nonterminalJobs (state : PersistentState) : List (SessionId × JobId) :=
  (state.jobs.toList.filter fun item => item.2.state.isTerminal = false).map
    fun item => (item.2.owner, item.2.jobId)

/-- Close every job that has not ended.  Nothing is written when there is none.
-/
def decideCloseAndCancelAll
    (policy : StorePolicy)
    (clock : String → UInt64)
    (state : PersistentState) :
    RpcResult (Option PersistentState × List (SessionId × JobId)) := do
  let jobs ← MapValues.tryMap
    (fun key job => shutdownJob policy (clock key) job) state.jobs
  .ok (if state.jobs.toList.any fun item => shutdownChanges item.2 then
      some { state with jobs := jobs } else none,
    nonterminalJobs state)

/-! ## Operations -/

namespace JobRegistry

/-- Refuse while the storage is unhealthy. -/
def gated
    {Reply : Type}
    (json : StoreJson)
    (fault : Option StorageFault)
    (decide : PersistentState → RpcResult (Option PersistentState × Reply))
    (registry : JobRegistry) : RpcResult Reply × JobRegistry :=
  if registry.healthy then
    registry.settle json fault (decide registry.state)
  else (.error (internal "job registry storage is unhealthy"), registry)

/-- A registry that is closed takes no more jobs. -/
def submitWithLimit
    (json : StoreJson)
    (fault : Option StorageFault)
    (created now : UInt64)
    (submission : JobSubmission)
    (maxNonterminalForOwner : Nat)
    (registry : JobRegistry) : RpcResult JobAccepted × JobRegistry :=
  if registry.closed then
    (.error (.domain .jobConflict "job registry is closed"), registry)
  else
    registry.gated json fault (decideSubmit registry.policy created now
      submission maxNonterminalForOwner)

/-- Change one job of an owner and commit. -/
def updateOwned
    {Reply : Type}
    (json : StoreJson)
    (fault : Option StorageFault)
    (owner : SessionId)
    (jobId : JobId)
    (update : StoredJob → RpcResult (StoredJob × Reply))
    (registry : JobRegistry) : RpcResult Reply × JobRegistry :=
  registry.gated json fault (decideUpdate owner jobId update)

/-- `transition` on a job of the owner. -/
def transition
    (json : StoreJson)
    (fault : Option StorageFault)
    (probe : Path → Probe)
    (now : UInt64)
    (owner : SessionId)
    (jobId : JobId)
    (state : ApiJobState)
    (phase : String)
    (registry : JobRegistry) : RpcResult Unit × JobRegistry :=
  registry.updateOwned json fault owner jobId
    (transitionJob registry.policy probe now state phase)

/-- `request_cancel` on a job of the owner. -/
def requestCancel
    (json : StoreJson)
    (fault : Option StorageFault)
    (now : UInt64)
    (owner : SessionId)
    (jobId : JobId)
    (registry : JobRegistry) : RpcResult ApiJobState × JobRegistry :=
  registry.updateOwned json fault owner jobId
    (requestCancelJob registry.policy now)

/-- `finish_cancelled` on a job of the owner. -/
def finishCancelled
    (json : StoreJson)
    (fault : Option StorageFault)
    (now : UInt64)
    (owner : SessionId)
    (jobId : JobId)
    (registry : JobRegistry) : RpcResult Unit × JobRegistry :=
  registry.updateOwned json fault owner jobId
    (finishCancelledJob registry.policy now)

/-- `complete` on a job of the owner. -/
def complete
    (json : StoreJson)
    (fault : Option StorageFault)
    (now : UInt64)
    (owner : SessionId)
    (jobId : JobId)
    (result : Value)
    (registry : JobRegistry) : RpcResult Unit × JobRegistry :=
  registry.updateOwned json fault owner jobId
    (completeJob registry.policy now result)

/-- The second half of recording a publication, after the archive at `output`
was identified outside the lock. -/
def recordPackPublication
    (json : StoreJson)
    (fault : Option StorageFault)
    (now : UInt64)
    (owner : SessionId)
    (jobId : JobId)
    (output : Path)
    (identity : ArchiveIdentity)
    (registry : JobRegistry) : RpcResult Unit × JobRegistry :=
  registry.updateOwned json fault owner jobId
    (recordPackPublicationJob registry.policy now output identity)

/-- `expire_deadline` on a job of the owner. -/
def expireDeadline
    (json : StoreJson)
    (fault : Option StorageFault)
    (now : UInt64)
    (owner : SessionId)
    (jobId : JobId)
    (registry : JobRegistry) : RpcResult Bool × JobRegistry :=
  registry.gated json fault
    (decideExpireDeadline registry.policy now owner jobId)

/-- `fail` on a job of the owner. -/
def fail
    (json : StoreJson)
    (fault : Option StorageFault)
    (now : UInt64)
    (owner : SessionId)
    (jobId : JobId)
    (error : JsonRpcError)
    (registry : JobRegistry) : RpcResult Unit × JobRegistry :=
  registry.updateOwned json fault owner jobId
    (failJob registry.policy now error)

/-- Close admission and cancel everything.  This runs on an unhealthy registry
too. -/
def closeAndCancelAll
    (json : StoreJson)
    (fault : Option StorageFault)
    (clock : String → UInt64)
    (registry : JobRegistry) :
    RpcResult (List (SessionId × JobId)) × JobRegistry :=
  { registry with closed := true }.settle json fault
    (decideCloseAndCancelAll registry.policy clock registry.state)

/-- The public view of a job. -/
def snapshot (owner : SessionId) (jobId : JobId) (registry : JobRegistry) :
    RpcResult JobSnapshot := do
  let job ← ownedJob registry.state owner jobId
  .ok {
    jobId := job.jobId
    state := job.state
    operation := job.method
    createdAtUnixMs := job.createdAtUnixMs
    updatedAtUnixMs := job.updatedAtUnixMs
    result := job.result
    error := job.error }

/-- The retained events of a job after a given number. -/
def events
    (owner : SessionId)
    (jobId : JobId)
    (afterSequence : UInt64)
    (registry : JobRegistry) : RpcResult (List ProgressEvent) := do
  let job ← ownedJob registry.state owner jobId
  .ok (job.events.filter fun event => afterSequence < event.sequence)

/-- What a job does, with its bounds and priority. -/
def operation (owner : SessionId) (jobId : JobId) (registry : JobRegistry) :
    RpcResult (StoredOperation × JobLimits × JobPriority) := do
  let job ← ownedJob registry.state owner jobId
  .ok (job.operation, job.limits, job.priority)

end JobRegistry

/-! ## Opening -/

/-- The archives around the store, as recovery sees them. -/
structure Archives where
  isFile : Path → Bool
  verifiedIdentity : Path → RpcResult ArchiveIdentity

/-- The archive of an interrupted pack job, when it is still the recorded
one. -/
def recoverPackArchive (archives : Archives) (job : StoredJob) :
    Option (Path × ArchiveIdentity) :=
  match job.operation, job.packPublication with
  | .pack _ output _, some marker =>
      match marker.publishedArchive, archives.verifiedIdentity output with
      | some expected, .ok identity =>
          if marker.outputWasAbsent ∧ archives.isFile output ∧
              identity = expected then
            some (output, identity)
          else none
      | _, _ => none
  | _, _ => none

/-- An interrupted job after a restart. -/
def recoverJob
    (policy : StorePolicy)
    (archives : Archives)
    (now : UInt64)
    (job : StoredJob) : RpcResult StoredJob :=
  if job.state.isTerminal then .ok job
  else
    match recoverPackArchive archives job with
    | some (archive, identity) =>
        appendEvent
          { job with
            packPublication := job.packPublication.map
              (PackPublicationMarker.published · identity)
            state := .completed
            result := some (.object [("archive", .string archive)])
            error := none }
          "recovered_completed" policy.maxEventsPerJob now
    | none =>
        appendEvent
          { job with
            state := .failed
            result := none
            error := some (internal "job interrupted by daemon restart") }
          "daemon_restarted" policy.maxEventsPerJob now

/-- The state after recovery, and whether it has to be written. -/
def recoverState
    (policy : StorePolicy)
    (archives : Archives)
    (clock : String → UInt64)
    (loaded : PersistentState) : RpcResult (PersistentState × Bool) := do
  validateState loaded policy false
  let jobs ← MapValues.tryMap
    (fun key job => recoverJob policy archives (clock key) job)
    (trimRetainedEvents loaded policy).jobs
  let recovered := trimRetainedEvents
    { loaded with jobs := jobs } policy
  validateState recovered policy true
  .ok (recovered, hasSurplusEvents loaded policy ||
    loaded.jobs.toList.any fun item => !item.2.state.isTerminal)

/-- Open a store.  Besides the registry this gives the file, which a failed
attempt may have written. -/
def openWithPolicy
    (json : StoreJson)
    (loadFault : Option LoadFault)
    (fault : Option StorageFault)
    (archives : Archives)
    (clock : String → UInt64)
    (policy : StorePolicy)
    (file : Option (List UInt8)) :
    RpcResult JobRegistry × Option (List UInt8) :=
  match (do
    let policy ← policy.validate
    let loaded ← loadState json loadFault policy file
    recoverState policy archives clock loaded) with
  | .error failure => (.error failure, file)
  | .ok (recovered, false) =>
      (.ok {
        policy := policy
        state := recovered
        file := file
        closed := false
        healthy := true }, file)
  | .ok (recovered, true) =>
      match publish json fault policy recovered with
      | .error failure => (.error failure, file)
      | .ok bytes =>
          match syncParent fault with
          | .error failure => (.error failure, some bytes)
          | .ok () =>
              (.ok {
                policy := policy
                state := recovered
                file := some bytes
                closed := false
                healthy := true }, some bytes)

end Pithos.Daemon
