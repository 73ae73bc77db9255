import Pithos.Daemon.Protocol
import Pithos.Daemon.Store.Guarantees

/-!
# Delivery of results

A job that is completed has a result whose text leaves room in a frame for the
response around it, so that its status can be asked for.

The timeouts of the frames are left out.
-/

namespace Pithos.Daemon

open Bytes
open Fallible
open JsonTree

/-! ## Frames -/

/-- Why a frame is not read or written. -/
inductive FrameError
  | invalidData
  | unexpectedEof
  deriving DecidableEq

/-- `DEFAULT_IPC_FRAME_BYTES`. -/
def defaultIpcFrameBytes : Nat := 1024 * 1024

/-- The first frame of a stream, with what follows. -/
def readFrame (stream : List UInt8) (maximum : Nat) :
    Except FrameError (List UInt8 × List UInt8) := do
  ensure (4 ≤ stream.length) .unexpectedEof
  let length := ofLittleEndian (stream.take 4)
  let stream := stream.drop 4
  ensure (¬(length = 0 ∨ maximum < length)) .invalidData
  ensure (length ≤ stream.length) .unexpectedEof
  .ok (stream.take length, stream.drop length)

/-- A frame is its length in four bytes and the payload, which is not empty and
not above the maximum. -/
def writeFrame (payload : List UInt8) (maximum : Nat) :
    Except FrameError (List UInt8) := do
  ensure (¬(payload = [] ∨ maximum < payload.length ∨
    0xFFFFFFFF < payload.length)) .invalidData
  .ok (toLittleEndian 4 payload.length ++ payload)

/-- What is written is read, by a reader that takes frames as large. -/
theorem readFrame_writeFrame
    {payload sent : List UInt8}
    {maximum readerMaximum : Nat}
    (written : writeFrame payload maximum = .ok sent)
    (within : maximum ≤ readerMaximum) :
    readFrame sent readerMaximum = .ok (payload, []) := by
  simp only [writeFrame, bind_eq_ok, ensure_eq_ok, exists_const, not_or,
    Nat.not_lt, Except.ok.injEq] at written
  obtain ⟨⟨some, fits, isWord⟩, rfl⟩ := written
  have count := length_toLittleEndian 4 payload.length
  have value : ofLittleEndian (toLittleEndian 4 payload.length) =
      payload.length := by
    rw [ofLittleEndian_toLittleEndian]
    exact Nat.mod_eq_of_lt (by omega)
  have positive := List.length_pos_iff.mpr some
  rw [readFrame, List.take_left' count, List.drop_left' count, value,
    ensure_of (by rw [List.length_append, count]; omega), ok_bind]
  dsimp only
  rw [ensure_of (by omega), ok_bind, ensure_of (Nat.le_refl _), ok_bind,
    List.take_length, List.drop_length]

/-! ## Results -/

/-- The bound of a result, which leaves room for the response. -/
def ProtocolLimits.resultLimit (limits : ProtocolLimits) : Nat :=
  max (limits.maxRequestBytes - 1024) 1

/-- Whether an operation only tells what is in an archive. -/
def StoredOperation.metadataResult : StoredOperation → Bool
  | list _ | inspect _ | verify _ => true
  | pack _ _ _ | unpack _ _ | extract _ _ _ | readRange _ _ _ _ => false

/-- The outcome of an operation, when it is not too large. -/
def executeOperation
    (perform : StoredOperation → RpcResult JsonTree)
    (operation : StoredOperation)
    (limits : JobLimits)
    (resultLimit : Nat) : RpcResult JsonTree := do
  let value ← perform operation
  ensure (¬(resultLimit < value.compact.length ∨
      operation.metadataResult = true ∧
        limits.maxOutput.toNat < value.compact.length))
    (.resourceLimit "job result exceeds output quota")
  .ok value

theorem executeOperation_length_le
    {perform : StoredOperation → RpcResult JsonTree}
    {operation : StoredOperation}
    {limits : JobLimits}
    {resultLimit : Nat}
    {value : JsonTree}
    (executed : executeOperation perform operation limits resultLimit =
      .ok value) :
    value.compact.length ≤ resultLimit := by
  simp only [executeOperation, bind_eq_ok, ensure_eq_ok, exists_const, not_or,
    Except.ok.injEq] at executed
  obtain ⟨_, _, ⟨within, _⟩, rfl⟩ := executed
  omega

/-! ## The service -/

/-- The parameters of `job_status`. -/
structure JobStatusParams where
  capabilityToken : String
  jobId : JobId

/-- What a frame meets in the daemon.  The decoders, the sessions and the methods
other than the one for the status of a job are taken as they are. -/
structure FrameService where
  limits : ProtocolLimits
  available : Bool
  rate : RpcResult Unit
  json : RequestJson
  statusParams : JsonTree → Option JobStatusParams
  authenticate : String → RpcResult SessionId
  registry : JobRegistry
  resultJson : Value → JsonTree
  others : RpcMethod → JsonTree → RpcResult JsonTree

namespace FrameService

/-- The job that is asked for. -/
def status (service : FrameService) (params : JsonTree) :
    RpcResult JobSnapshot := do
  let params ← okOr (service.statusParams params)
    (.invalidParams "invalid parameters")
  let owner ← service.authenticate params.capabilityToken
  service.registry.snapshot owner params.jobId

/-- The answer to a request: `job_status` is modelled, the other methods are
given. -/
def dispatch (service : FrameService) (method : RpcMethod) (params : JsonTree) :
    RpcResult JsonTree :=
  if method = .jobStatus then do
    let snapshot ← service.status params
    .ok (snapshot.toJson service.resultJson)
  else service.others method params

/-- Answer one frame: the daemon must work, the rate limiter must let it pass,
and the request must pass its check. -/
def handleFrame (service : FrameService) (frame : List UInt8) : List UInt8 :=
  if service.available = false then
    serializeResponse (.error none
      (internal "daemon persistence is unavailable"))
  else match service.rate with
    | .error failure => serializeResponse (.error none failure)
    | .ok () => match parseRequest service.json frame service.limits with
      | .error failure => serializeResponse (.error none failure)
      | .ok request =>
          match service.dispatch request.method request.params with
          | .error failure => serializeResponse (.error request.id failure)
          | .ok result => serializeResponse (.success request.id result)

/-- What is sent in place of a response that does not fit in a frame. -/
def oversizedResponse : List UInt8 :=
  serializeResponse (.error none
    (.domain .resourceLimit "response exceeds frame limit"))

/-- One round of a connection: a frame is read, handled and answered. -/
def handleConnection (service : FrameService) (stream : List UInt8) :
    Except FrameError (List UInt8 × List UInt8) := do
  let maximumFrame := service.limits.maxRequestBytes
  let (frame, rest) ← readFrame stream maximumFrame
  let response := service.handleFrame frame
  let response :=
    if maximumFrame < response.length then oversizedResponse else response
  let sent ← writeFrame response maximumFrame
  .ok (sent, rest)

/-- The response to a request for the status of a job. -/
theorem handleFrame_of_status
    {service : FrameService}
    (isAvailable : service.available = true)
    (isAdmitted : service.rate = .ok ())
    {frame : List UInt8}
    {request : RawJsonRpcRequest}
    (parsed : parseRequest service.json frame service.limits = .ok request)
    (isStatus : request.method = .jobStatus)
    {snapshot : JobSnapshot}
    (found : service.status request.params = .ok snapshot) :
    service.handleFrame frame = serializeResponse
      (.success request.id (snapshot.toJson service.resultJson)) := by
  have dispatched : service.dispatch request.method request.params =
      .ok (snapshot.toJson service.resultJson) := by
    rw [dispatch, if_pos isStatus, found, ok_bind]
  rw [handleFrame, if_neg (by rw [isAvailable]; decide), isAdmitted]
  dsimp only
  rw [parsed]
  dsimp only
  rw [dispatched]

/-- A response within the bound of a frame reaches a reader that takes frames as
large. -/
theorem handleConnection_of_fits
    {service : FrameService}
    {stream frame rest response : List UInt8}
    (received : readFrame stream service.limits.maxRequestBytes =
      .ok (frame, rest))
    (handled : service.handleFrame frame = response)
    (some : response ≠ [])
    (fits : response.length ≤ service.limits.maxRequestBytes)
    (isWord : service.limits.maxRequestBytes ≤ 0xFFFFFFFF)
    {readerMaximum : Nat}
    (within : service.limits.maxRequestBytes ≤ readerMaximum) :
    ∃ sent, service.handleConnection stream = .ok (sent, rest) ∧
      readFrame sent readerMaximum = .ok (response, []) := by
  have written : writeFrame response service.limits.maxRequestBytes =
      .ok (toLittleEndian 4 response.length ++ response) := by
    rw [writeFrame, ensure_of (by simp only [some, false_or]; omega), ok_bind]
  refine ⟨_, ?_, readFrame_writeFrame written within⟩
  rw [handleConnection]
  dsimp only
  rw [received, ok_bind, handled, if_neg (by omega), written, ok_bind]

end FrameService

/-! ## The room for the response -/

section Room

/-- The identifier of a job stands in a string as it is. -/
theorem length_quoted_jobId
    {jobId : JobId}
    {number : UInt64}
    (parsed : parseJobNumber jobId = .ok number) :
    (quoted (textBytes jobId.value)).length = 22 := by
  simp only [parseJobNumber, bind_eq_ok, ensure_eq_ok, okOr_eq_ok,
    exists_const] at parsed
  obtain ⟨⟨lead, width⟩, _, read, _⟩ := parsed
  obtain ⟨digits, isText⟩ := List.isPrefixOf_iff_prefix.mp lead
  rw [← isText, List.drop_left' (by decide)] at width read
  rw [length_quoted_of_visible, ← String.length_toList, ← isText,
    List.length_append, width]
  · rfl
  · intro character member
    rw [← isText] at member
    rcases List.mem_append.mp member with inLead | inDigits
    · have visible : ∀ character ∈ "job-".toList, 32 ≤ character.toNat ∧
          character.toNat < 127 ∧ character.toNat ≠ 34 ∧
            character.toNat ≠ 92 := by simp
      exact visible character inLead
    · have digit := Hex.toNat_of_read read inDigits
      omega

theorem RpcId.length_toJson_le
    {id : RpcId}
    (short : id.Short .default) :
    id.toJson.compact.length ≤ 770 := by
  cases id with
  | number value =>
      have bound : value.toInt.natAbs < 10 ^ 19 := by
        have below := value.toInt_lt
        have above := value.le_toInt
        omega
      have digits := length_decimal_le (by decide) bound
      rw [RpcId.toJson, compact]
      omega
  | string utf8 =>
      have grown := length_quoted_le utf8
      change utf8.length ≤ 128 at short
      rw [RpcId.toJson, compact]
      omega

theorem RpcMethod.length_asStr_le (method : RpcMethod) :
    (quoted (textBytes method.asStr)).length ≤ 18 := by
  cases method <;> decide

/-- The moments of a job are words. -/
theorem length_integer_toNat_le (value : UInt64) :
    (integer value.toNat).compact.length ≤ 20 := by
  have bound := value.toNat_lt
  rw [compact]
  exact length_decimal_natCast_le (by decide) (by omega)

/-- The response for a completed job is its result and less than a kibibyte
around it. -/
theorem length_success_le
    {resultJson : Value → JsonTree}
    {snapshot : JobSnapshot}
    {value : Value}
    {number : UInt64}
    {id : RpcId}
    (completed : snapshot.state = .completed)
    (isResult : snapshot.result = some value)
    (noError : snapshot.error = none)
    (isJob : parseJobNumber snapshot.jobId = .ok number)
    (short : id.Short .default) :
    (serializeResponse (.success id (snapshot.toJson resultJson))).length ≤
      (resultJson value).compact.length + 1024 := by
  have idLength := RpcId.length_toJson_le short
  have jobLength := length_quoted_jobId isJob
  have operation := snapshot.operation.length_asStr_le
  have created := length_integer_toNat_le snapshot.createdAtUnixMs
  have updated := length_integer_toNat_le snapshot.updatedAtUnixMs
  have texts : ["jsonrpc", "2.0", "result", "id", "created_at_unix_ms",
      "job_id", "operation", "state", ApiJobState.completed.name,
      "updated_at_unix_ms"].map (fun text => (quoted (textBytes text)).length) =
        [9, 5, 8, 4, 20, 8, 11, 7, 11, 20] := by decide
  simp only [List.map_cons, List.map_nil, List.cons.injEq, and_true] at texts
  obtain ⟨jsonrpc, version, result, isId, createdName, jobName, operationName,
    stateName, state, updatedName⟩ := texts
  have status : (snapshot.toJson resultJson).compact.length ≤
      (resultJson value).compact.length + 182 := by
    rw [JobSnapshot.toJson, isResult, noError, completed,
      length_compact_object (by simp)]
    simp only [Option.map_none, Option.map_some, Option.toList_none,
      Option.toList_some, List.append_nil, List.cons_append, List.nil_append,
      List.map_cons, List.map_nil, List.sum_cons, List.sum_nil, compact_text]
    omega
  rw [serializeResponse, JsonRpcResponse.toJson, length_compact_object (by simp)]
  simp only [List.map_cons, List.map_nil, List.sum_cons, List.sum_nil,
    compact_text]
  omega

end Room

/-! ## Delivery -/

section Delivered

variable
  {store : StoreJson}
  {registry : JobRegistry}

/-- What is known of a completed job that can be asked for. -/
theorem exists_result_of_completed
    (lawful : store.Lawful)
    {allowed : Call → Prop}
    (reachable : Reachable store allowed registry)
    {owner : SessionId}
    {jobId : JobId}
    {snapshot : JobSnapshot}
    (found : registry.snapshot owner jobId = .ok snapshot)
    (completed : snapshot.state = .completed) :
    ∃ value number, snapshot.result = some value ∧ snapshot.error = none ∧
      parseJobNumber snapshot.jobId = .ok number := by
  simp only [JobRegistry.snapshot, bind_eq_ok, Except.ok.injEq] at found
  obtain ⟨job, isOwned, rfl⟩ := found
  have isJob := (ownedJob_eq_ok.mp isOwned).1
  have valid := (reachable.registryOk lawful).valid.jobs jobId.value job isJob
  obtain ⟨number, isNumber, _⟩ := valid.number
  have fits := valid.result
  change job.state = .completed at completed
  rw [resultFits, completed] at fits
  obtain ⟨value, isResult⟩ := Option.isSome_iff_exists.mp fits.1
  exact ⟨value, number, isResult, Option.isNone_iff_eq_none.mp fits.2,
    isNumber⟩

/-- Whoever asks for the status of a completed job, under whatever id, receives
the response with its result. -/
theorem completed_result_delivered
    (service : FrameService)
    (lawful : store.Lawful)
    (reachable : Reachable store (fun _ => True) service.registry)
    (isDefault : service.limits = .default)
    (isAvailable : service.available = true)
    (isAdmitted : service.rate = .ok ())
    {stream frame rest : List UInt8}
    (received : readFrame stream service.limits.maxRequestBytes =
      .ok (frame, rest))
    {request : RawJsonRpcRequest}
    (parsed : parseRequest service.json frame service.limits = .ok request)
    (isStatus : request.method = .jobStatus)
    {snapshot : JobSnapshot}
    (found : service.status request.params = .ok snapshot)
    (completed : snapshot.state = .completed)
    (passed : ∀ value ∈ snapshot.result, ∃ perform operation limits,
      executeOperation perform operation limits service.limits.resultLimit =
        .ok (service.resultJson value)) :
    ∃ value response sent,
      snapshot.result = some value ∧
      response = serializeResponse
        (.success request.id (snapshot.toJson service.resultJson)) ∧
      response.length ≤ service.limits.maxRequestBytes ∧
      service.handleConnection stream = .ok (sent, rest) ∧
      readFrame sent defaultIpcFrameBytes = .ok (response, []) := by
  have handled := FrameService.handleFrame_of_status isAvailable isAdmitted
    parsed isStatus found
  rw [FrameService.status, bind_eq_ok] at found
  obtain ⟨params, _, found⟩ := found
  obtain ⟨owner, _, isSnapshot⟩ := bind_eq_ok.mp found
  obtain ⟨value, number, isResult, noError, isNumber⟩ :=
    exists_result_of_completed lawful reachable isSnapshot completed
  obtain ⟨_, _, _, executed⟩ := passed value isResult
  have resultFits := executeOperation_length_le executed
  have short := parseRequest_id_short parsed
  have bound : service.limits.maxRequestBytes = 1048576 := by rw [isDefault]; rfl
  rw [ProtocolLimits.resultLimit, bound] at resultFits
  rw [isDefault] at short
  have length := @length_success_le service.resultJson snapshot value number
    request.id completed isResult noError isNumber short
  have fits : (serializeResponse (.success request.id
      (snapshot.toJson service.resultJson))).length ≤
        service.limits.maxRequestBytes := by omega
  obtain ⟨sent, answered, isRead⟩ :=
    FrameService.handleConnection_of_fits received handled
      (serializeResponse_ne_nil _) fits (by omega)
      (show _ ≤ defaultIpcFrameBytes from bound.le)
  exact ⟨value, _, sent, isResult, rfl, fits, answered, isRead⟩

end Delivered

/-- Parameters that ask for one job. -/
def sampleParams : JsonTree :=
  .object [("capability_token", .text "t"), ("job_id", .text sampleId.value)]

/-- A client asks for the status of the verification. -/
def sampleRequest : JsonTree :=
  .object [("jsonrpc", .text "2.0"), ("method", .text "job_status"),
    ("params", sampleParams), ("id", .integer 7)]

/-- A service that knows one session and one request. -/
def sampleService : FrameService where
  limits := .default
  available := true
  rate := .ok ()
  json := {
    wire := fun bytes =>
      if bytes = sampleRequest.compact then
        .ok ⟨"2.0", "job_status", sampleParams, .integer 7⟩
      else .error .notJson
    value := fun bytes =>
      if bytes = sampleRequest.compact then some sampleRequest else none }
  statusParams := fun params =>
    if params.compact = sampleParams.compact then some ⟨"t", sampleId⟩ else none
  authenticate := fun token =>
    if token = "t" then .ok sampleOwner
    else .error (.domain .permissionDenied "permission denied")
  registry := sampleRegistry (sampleCompleted verified) verifiedText
  resultJson := Value.toJson
  others := fun _ _ => .error (internal "method is left out")

/-- The client receives the result of the verification. -/
theorem completed_result_delivered_verified :
    ∃ stream sent response,
      writeFrame sampleRequest.compact defaultIpcFrameBytes = .ok stream ∧
      sampleService.handleConnection stream = .ok (sent, []) ∧
      readFrame sent defaultIpcFrameBytes = .ok (response, []) := by
  have written : writeFrame sampleRequest.compact defaultIpcFrameBytes =
      .ok (toLittleEndian 4 sampleRequest.compact.length ++
        sampleRequest.compact) := by
    rw [writeFrame, ensure_of (by decide +kernel), ok_bind]
  have reachable : Reachable verifiedJson (fun _ => True)
      sampleService.registry := (sampleRun_reachable trivial trivial trivial).2
  have parsed : parseRequest sampleService.json sampleRequest.compact
      .default = .ok ⟨.jobStatus, sampleParams, .number 7⟩ := by
    have valid : validateJsonValue .default 0 sampleRequest = .ok () := by
      rfl
    have isMethod : RpcMethod.fromStr "job_status" = some .jobStatus :=
      RpcMethod.fromStr_asStr .jobStatus
    rw [parseRequest, ensure_of (by decide +kernel), ok_bind]
    simp only [sampleService, if_true, Except.mapError, ok_bind, okOr_some,
      valid]
    rw [ensure_of trivial, ok_bind, ensure_of (by decide), ok_bind, isMethod,
      okOr_some, ok_bind]
    rfl
  have found : sampleService.status sampleParams = .ok {
      jobId := sampleId
      state := .completed
      operation := .verify
      createdAtUnixMs := 0
      updatedAtUnixMs := 0
      result := some verified
      error := none } := by
    have owned : ownedJob (sampleState (sampleCompleted verified)) sampleOwner
        sampleId = .ok (sampleCompleted verified) :=
      ownedJob_eq_ok.mpr ⟨sampleState_found _, rfl⟩
    have isSession : sampleService.authenticate "t" = .ok sampleOwner := rfl
    have isParams : sampleService.statusParams sampleParams =
        some ⟨"t", sampleId⟩ := by
      simp only [sampleService, if_true]
    rw [FrameService.status, isParams, okOr_some, ok_bind]
    dsimp only
    rw [isSession, ok_bind, JobRegistry.snapshot]
    dsimp only [sampleService, sampleRegistry]
    rw [owned, ok_bind]
    rfl
  obtain ⟨_, response, sent, _, _, _, answered, isRead⟩ :=
    completed_result_delivered sampleService verifiedJson_lawful reachable rfl
      rfl rfl (readFrame_writeFrame written (Nat.le_refl _)) parsed rfl found
      rfl (by
        rintro value ⟨⟩
        refine ⟨fun _ => .ok (Value.toJson verified), .unpack [] [],
          sampleSubmission.limits, ?_⟩
        rw [executeOperation]
        rw [ok_bind, ensure_of (by decide), ok_bind]
        rfl)
  exact ⟨_, sent, response, written, answered, isRead⟩

end Pithos.Daemon
