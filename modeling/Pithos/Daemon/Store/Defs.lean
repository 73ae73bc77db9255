import Pithos.Daemon.Api
import Pithos.Engine.Identity
import Pithos.Library.MapValues

/-!
# The job store

The registry of jobs.  It keeps one state in memory and the same state, encoded
as JSON, in one file; every change is validated, encoded and published by a
rename before it is taken over in memory.  A change that fails on the way closes
the registry to further changes.

The clock, the file system around the store and the outcome of each storage step
are arguments of the operations, so that a run ranges over all of them.
-/

namespace Pithos.Daemon

open HostPath
open Fallible
open Machine
open Std

/-! ## Records -/

/-- `STORE_SCHEMA_VERSION`. -/
def storeSchemaVersion : UInt16 := 1

/-- `MAX_IDEMPOTENCY_KEY_BYTES`. -/
def maxIdempotencyKeyBytes : Nat := 256

/-- `PACK_PUBLICATION_MARKER_VERSION`. -/
def packPublicationMarkerVersion : UInt8 := 1

/-- The bounds of a store. -/
structure StorePolicy where
  maxStoreBytes : UInt64
  maxEventsPerJob : Nat
  maxRetainedJobs : Nat
  deriving DecidableEq, Repr

/-- The bounds of the daemon. -/
def StorePolicy.default : StorePolicy where
  maxStoreBytes := 64 * 1024 * 1024
  maxEventsPerJob := 4096
  maxRetainedJobs := 4096

/-- Refuse bounds under which nothing could be stored. -/
def StorePolicy.validate (policy : StorePolicy) : RpcResult StorePolicy := do
  ensure (¬(policy.maxStoreBytes = 0 ∨ policy.maxEventsPerJob = 0 ∨
    policy.maxRetainedJobs = 0)) (internal "invalid job store policy")
  .ok policy

/-- What a job does. -/
inductive StoredOperation
  | pack (inputs : List Path) (output : Path) (profile : ApiProfile)
  | unpack (archive output : Path)
  | list (archive : Path)
  | inspect (archive : Path)
  | extract (archive entry output : Path)
  | readRange (archive entry : Path) (offset length : UInt64)
  | verify (archive : Path)
  deriving DecidableEq

/-- A request for a job. -/
structure JobSubmission where
  owner : SessionId
  method : RpcMethod
  priority : JobPriority
  idempotencyKey : String
  paramsHash : Digest
  limits : JobLimits
  operation : StoredOperation

/-- What is remembered of the output of a pack job. -/
structure PackPublicationMarker where
  markerVersion : UInt8
  jobId : JobId
  paramsHash : Digest
  output : Path
  outputWasAbsent : Bool
  publishedArchive : Option ArchiveIdentity
  deriving DecidableEq

/-- A job of the store. -/
structure StoredJob where
  jobId : JobId
  owner : SessionId
  method : RpcMethod
  priority : JobPriority
  idempotencyKey : String
  paramsHash : Digest
  limits : JobLimits
  operation : StoredOperation
  state : ApiJobState
  createdAtUnixMs : UInt64
  updatedAtUnixMs : UInt64
  result : Option Value
  error : Option JsonRpcError
  events : List ProgressEvent
  nextSequence : UInt64
  packPublication : Option PackPublicationMarker

/-- The state that is stored. -/
structure PersistentState where
  schemaVersion : UInt16
  nextJob : UInt64
  jobs : ExtTreeMap String StoredJob
  idempotency : ExtTreeMap String String

/-- The state of a store that has no file yet. -/
def PersistentState.initial : PersistentState where
  schemaVersion := storeSchemaVersion
  nextJob := 1
  jobs := ∅
  idempotency := ∅

/-! ## Identifiers and keys -/

/-- The identifier of the job with a given number: `job-` and sixteen digits. -/
def jobIdText (number : UInt64) : String :=
  "job-" ++ String.ofList (Hex.write 16 number.toNat)

/-- The number in a job identifier. -/
def parseJobNumber (jobId : JobId) : RpcResult UInt64 := do
  ensure ("job-".toList.isPrefixOf jobId.value.toList = true ∧
    (jobId.value.toList.drop 4).length = 16)
    (internal "job store job id is corrupt")
  let number ← okOr (Hex.read (jobId.value.toList.drop 4))
    (internal "job store job id is corrupt")
  .ok (UInt64.ofNat number)

/-- The method of an operation. -/
def operationMethod : StoredOperation → RpcMethod
  | .pack _ _ _ => .pack
  | .unpack _ _ => .unpack
  | .list _ => .list
  | .inspect _ => .inspect
  | .extract _ _ _ => .extract
  | .readRange _ _ _ _ => .readRange
  | .verify _ => .verify

/-- The transitions that `transition` performs. -/
def validTransition : ApiJobState → ApiJobState → Bool
  | .queued, .running | .queued, .cancelled | .running, .cancelling
  | .running, .completed | .running, .failed | .cancelling, .cancelled
  | .cancelling, .failed => true
  | _, _ => false

/-- The key of a submission in the index. -/
def idempotencyMapKey (owner : SessionId) (key : String) : String :=
  owner.value ++ ":" ++ key

/-- Visible ASCII characters. -/
def isAsciiGraphic (character : Char) : Bool :=
  decide (33 ≤ character.toNat) && decide (character.toNat ≤ 126)

/-- Refuse a key that is empty, long or not plain. -/
def validateIdempotencyKey (key : String) : RpcResult Unit :=
  ensure (¬(key.length = 0 ∨ maxIdempotencyKeyBytes < key.length ∨
      key.toList.all isAsciiGraphic = false))
    (.invalidParams "invalid idempotency key")

/-- The one answer for a job that is absent or not the caller's. -/
def jobNotFound : JsonRpcError :=
  .domain .jobNotFound "job not found"

/-! ## Events -/

/-- Forget the oldest events beyond the bound. -/
def trimEventHistory (job : StoredJob) (maximumEvents : Nat) : StoredJob :=
  { job with events := job.events.drop (job.events.length - maximumEvents) }

/-- Add an event with the job's current state. -/
def appendEvent
    (job : StoredJob)
    (phase : String)
    (maximumEvents : Nat)
    (now : UInt64) : RpcResult StoredJob := do
  let nextSequence ← okOr (checkedAdd job.nextSequence 1)
    (.resourceLimit "job event sequence exhausted")
  .ok (trimEventHistory
    { job with
      nextSequence := nextSequence
      updatedAtUnixMs := now
      events := job.events ++ [{
        jobId := job.jobId
        sequence := job.nextSequence
        state := job.state
        phase := phase
        completedUnits := if job.state.isTerminal then 1 else 0
        totalUnits := some 1
        occurredAtUnixMs := now }] }
    maximumEvents)

/-- Forget the oldest events of all jobs. -/
def trimRetainedEvents (state : PersistentState) (policy : StorePolicy) :
    PersistentState :=
  { state with
    jobs := state.jobs.map fun _ job =>
      trimEventHistory job policy.maxEventsPerJob }

/-- Whether a job has more events than the bound. -/
def hasSurplusEvents (state : PersistentState) (policy : StorePolicy) : Bool :=
  state.jobs.toList.any fun item =>
    decide (policy.maxEventsPerJob < item.2.events.length)

/-! ## Validation -/

/-- A publication marker belongs to its job. -/
def validatePackPublicationMarker (job : StoredJob) : RpcResult Unit :=
  match job.packPublication with
  | none => .ok ()
  | some marker =>
      match job.operation with
      | .pack _ output _ =>
          ensure (¬(marker.markerVersion ≠ packPublicationMarkerVersion ∨
              marker.jobId ≠ job.jobId ∨ marker.paramsHash ≠ job.paramsHash ∨
              marker.output ≠ output ∨ job.state = .queued ∨
              (marker.publishedArchive.isSome ∧
                marker.outputWasAbsent = false)))
            (internal "pack publication marker is corrupt")
      | _ => .error (internal "non-pack job has a publication marker")

/-- An event belongs to its job and comes after the previous one. -/
def validateEvent
    (jobId : JobId)
    (_position : Nat)
    (event : ProgressEvent)
    (previous : Option UInt64) : RpcResult (Option UInt64) := do
  ensure (¬(event.jobId ≠ jobId ∨ event.sequence = 0 ∨
      ∃ sequence ∈ previous, event.sequence ≤ sequence))
    (internal "job store event sequence is corrupt")
  .ok (some event.sequence)

/-- The retained events of a job. -/
def validateJobEvents
    (job : StoredJob)
    (policy : StorePolicy)
    (enforceRetention : Bool) : RpcResult Unit := do
  ensure (¬(job.events = [] ∨ enforceRetention = true ∧
      policy.maxEventsPerJob < job.events.length))
    (internal "job store event history is corrupt")
  let _ ← forEnum (validateEvent job.jobId) 0 job.events none
  let last ← okOr job.events.getLast?
    (internal "job store event history is corrupt")
  let expectedNext ← okOr (checkedAdd last.sequence 1)
    (internal "job store event sequence is exhausted")
  ensure (¬(job.nextSequence ≠ expectedNext ∨ last.state ≠ job.state))
    (internal "job store event counter is corrupt")

/-- What a job has to show in each state. -/
def resultFits (job : StoredJob) : Prop :=
  match job.state with
  | .completed => job.result.isSome ∧ job.error.isNone
  | .failed => job.result.isNone ∧ job.error.isSome
  | .cancelled => job.result.isNone
  | .queued | .running | .cancelling => job.result.isNone ∧ job.error.isNone

instance (job : StoredJob) : Decidable (resultFits job) := by
  unfold resultFits
  cases job.state <;> infer_instance

/-- Refuse a job whose result and error do not fit its state. -/
def validateJobResult (job : StoredJob) : RpcResult Unit :=
  ensure (resultFits job) (internal "job store result invariant is corrupt")

/-- One job of the state.  The accumulator is the largest job number so far. -/
def validateJob
    (state : PersistentState)
    (policy : StorePolicy)
    (enforceRetention : Bool)
    (_position : Nat)
    (item : String × StoredJob)
    (maximumJobNumber : UInt64) : RpcResult UInt64 := do
  ensure (¬(item.1 ≠ item.2.jobId.value ∨
      validIdentifier item.2.owner.value "session-" = false ∨
      item.2.method ≠ operationMethod item.2.operation ∨
      item.2.limits.maxThreads = 0 ∨ item.2.limits.maxMemory = 0 ∨
      item.2.limits.maxOutput = 0))
    (internal "job store schema invariants are corrupt")
  (validateIdempotencyKey item.2.idempotencyKey).mapError fun _ =>
    internal "job store idempotency key is corrupt"
  let jobNumber ← parseJobNumber item.2.jobId
  ensure (state.idempotency[idempotencyMapKey item.2.owner
      item.2.idempotencyKey]? = some item.2.jobId.value)
    (internal "job store idempotency index is corrupt")
  validateJobEvents item.2 policy enforceRetention
  validateJobResult item.2
  validatePackPublicationMarker item.2
  .ok (max maximumJobNumber jobNumber)

/-- One row of the index. -/
def validateIndexRow
    (state : PersistentState)
    (_position : Nat)
    (row : String × String)
    (_checked : Unit) : RpcResult Unit := do
  let job ← okOr state.jobs[row.2]?
    (internal "job store idempotency index is corrupt")
  ensure (row.1 = idempotencyMapKey job.owner job.idempotencyKey)
    (internal "job store idempotency index is corrupt")

/-- Refuse a state that is not consistent. -/
def validateState
    (state : PersistentState)
    (policy : StorePolicy)
    (enforceRetention : Bool) : RpcResult Unit := do
  ensure (state.schemaVersion = storeSchemaVersion)
    (internal "unsupported job store schema")
  ensure (¬(enforceRetention = true ∧
      policy.maxRetainedJobs < state.jobs.size))
    (.resourceLimit "job store retention capacity exceeded")
  ensure (¬(state.nextJob = 0 ∨ state.idempotency.size ≠ state.jobs.size))
    (internal "job store counters or indices are corrupt")
  let maximumJobNumber ← forEnum (validateJob state policy enforceRetention) 0
    state.jobs.toList 0
  ensure (¬(state.jobs.size ≠ 0 ∧ state.nextJob ≤ maximumJobNumber))
    (internal "job store next-job counter is corrupt")
  forEnum (validateIndexRow state) 0 state.idempotency.toList ()

/-! ## Storage -/

/-- The JSON crate at the type of the stored state.  Encoding fails on a path
that is not UTF-8.  A number with a fraction is not always read as it was
written: `rereadFloat` is the text of the one that is read. -/
structure StoreJson where
  toVec : PersistentState → Option (List UInt8)
  fromSlice : List UInt8 → Option PersistentState
  rereadFloat : List UInt8 → List UInt8

/-- The storage step of a commit that fails, if one does. -/
inductive StorageFault
  | encode
  | createDirectory
  | createTemporary
  | write
  | sync
  | persist
  | syncParent
  deriving DecidableEq, Repr

/-- Encode a state within the bound. -/
def encodeState
    (json : StoreJson)
    (fault : Option StorageFault)
    (state : PersistentState)
    (maximum : UInt64) : RpcResult (List UInt8) := do
  ensure (fault ≠ some .encode) (internal "cannot encode job store")
  let bytes ← okOr (json.toVec state) (internal "cannot encode job store")
  ensure (bytes.length ≤ maximum.toNat)
    (.resourceLimit "job store size limit exceeded")
  .ok bytes

/-- The steps up to the rename.  When they succeed the file has the new
bytes. -/
def publishState (fault : Option StorageFault) : RpcResult Unit := do
  ensure (fault ≠ some .createDirectory)
    (internal "cannot create state directory")
  ensure (fault ≠ some .createTemporary)
    (internal "cannot create job store transaction")
  ensure (fault ≠ some .write) (internal "cannot write job store")
  ensure (fault ≠ some .sync) (internal "cannot sync job store")
  ensure (fault ≠ some .persist) (internal "cannot commit job store")

/-- The step after the rename. -/
def syncParent (fault : Option StorageFault) : RpcResult Unit :=
  ensure (fault ≠ some .syncParent) (internal "cannot sync state directory")

/-- Everything before the new state counts: the bytes that are published. -/
def publish
    (json : StoreJson)
    (fault : Option StorageFault)
    (policy : StorePolicy)
    (state : PersistentState) : RpcResult (List UInt8) := do
  validateState state policy true
  let bytes ← encodeState json fault state policy.maxStoreBytes
  publishState fault
  .ok bytes

/-- The step of reading the store file that fails, if one does. -/
inductive LoadFault
  | openFile
  | inspect
  | read
  deriving DecidableEq, Repr

/-- The state in a store file; the initial state when there is none. -/
def loadState
    (json : StoreJson)
    (fault : Option LoadFault)
    (policy : StorePolicy)
    (file : Option (List UInt8)) : RpcResult PersistentState := do
  ensure (fault ≠ some .openFile) (internal "cannot open job store")
  match file with
  | none => .ok .initial
  | some bytes => do
      ensure (fault ≠ some .inspect) (internal "cannot inspect job store")
      ensure (bytes.length ≤ policy.maxStoreBytes.toNat)
        (.resourceLimit "job store too large")
      ensure (fault ≠ some .read) (internal "cannot read job store")
      okOr (json.fromSlice bytes) (internal "job store is corrupt")

/-- An open registry with the file it keeps. -/
structure JobRegistry where
  policy : StorePolicy
  state : PersistentState
  file : Option (List UInt8)
  closed : Bool
  healthy : Bool

namespace JobRegistry

/-- Validate, encode and publish a state, and take it over. -/
def commitWithSync
    (json : StoreJson)
    (fault : Option StorageFault)
    (state : PersistentState)
    (registry : JobRegistry) : RpcResult Unit × JobRegistry :=
  match publish json fault registry.policy state with
  | .error failure => (.error failure, { registry with healthy := false })
  | .ok bytes =>
      match syncParent fault with
      | .error failure => (.error failure,
          { registry with state := state, file := some bytes, healthy := false })
      | .ok () => (.ok (), { registry with state := state, file := some bytes })

/-- Commit a state with its surplus events forgotten. -/
def commit
    (json : StoreJson)
    (fault : Option StorageFault)
    (state : PersistentState)
    (registry : JobRegistry) : RpcResult Unit × JobRegistry :=
  registry.commitWithSync json fault
    (trimRetainedEvents state registry.policy)

/-- Finish an operation that has decided what to commit, if anything, and what
to answer. -/
def settle
    {Reply : Type}
    (json : StoreJson)
    (fault : Option StorageFault)
    (decided : RpcResult (Option PersistentState × Reply))
    (registry : JobRegistry) : RpcResult Reply × JobRegistry :=
  match decided with
  | .error failure => (.error failure, registry)
  | .ok (none, reply) => (.ok reply, registry)
  | .ok (some next, reply) =>
      match registry.commit json fault next with
      | (.error failure, after) => (.error failure, after)
      | (.ok (), after) => (.ok reply, after)

end JobRegistry

end Pithos.Daemon
