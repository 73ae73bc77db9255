import Pithos.Daemon.Store.Operations
import Pithos.Library.JsonTree

/-!
# Requests and responses

The envelopes of JSON-RPC: what a request has to look like, and the text of a
response.  How the JSON crate reads a request is an argument.
-/

namespace Pithos.Daemon

open Fallible

/-! ## Names -/

/-- The name of a kind of error. -/
def PublicErrorKind.name : PublicErrorKind → String
  | invalidArgument => "invalid_argument"
  | unsupportedFormat => "unsupported_format"
  | unsupportedFeature => "unsupported_feature"
  | unsafePath => "unsafe_path"
  | permissionDenied => "permission_denied"
  | resourceLimit => "resource_limit"
  | corruptArchive => "corrupt_archive"
  | integrityMismatch => "integrity_mismatch"
  | inputChanged => "input_changed"
  | jobNotFound => "job_not_found"
  | jobConflict => "job_conflict"
  | cancelled => "cancelled"
  | internal => "internal"

/-- The name of a job state. -/
def ApiJobState.name : ApiJobState → String
  | queued => "queued"
  | running => "running"
  | cancelling => "cancelling"
  | completed => "completed"
  | failed => "failed"
  | cancelled => "cancelled"

namespace RpcMethod

/-- `RpcMethod::ALL`. -/
def all : List RpcMethod :=
  [capabilities, estimate, pack, unpack, list, inspect, extract, readRange,
    verify, cancel, jobStatus, subscribeEvents]

/-- The name of a method on the wire. -/
def asStr : RpcMethod → String
  | capabilities => "capabilities"
  | estimate => "estimate"
  | pack => "pack"
  | unpack => "unpack"
  | list => "list"
  | inspect => "inspect"
  | extract => "extract"
  | readRange => "read_range"
  | verify => "verify"
  | cancel => "cancel"
  | jobStatus => "job_status"
  | subscribeEvents => "subscribe_events"

/-- The method of a name. -/
def fromStr (value : String) : Option RpcMethod :=
  all.find? fun method => method.asStr = value

/-- A method is found by its name. -/
theorem fromStr_asStr (method : RpcMethod) :
    fromStr method.asStr = some method := by
  cases method <;> decide

end RpcMethod

/-! ## Errors of the envelope -/

namespace JsonRpcError

/-- A request that is no JSON. -/
def parseError : JsonRpcError where
  code := -32700
  message := "invalid JSON"
  kind := .invalidArgument
  data := none

/-- A request that is no request. -/
def invalidRequest (message : String) : JsonRpcError where
  code := -32600
  message := message
  kind := .invalidArgument
  data := none

/-- A request for a method that the daemon does not have. -/
def methodNotFound : JsonRpcError where
  code := -32601
  message := "method not found"
  kind := .unsupportedFeature
  data := none

end JsonRpcError

/-! ## Requests -/

/-- The id of a request. -/
inductive RpcId
  | number (value : Int64)
  | string (utf8 : List UInt8)
  deriving DecidableEq

/-- A request as it is dispatched. -/
structure RawJsonRpcRequest where
  method : RpcMethod
  params : JsonTree
  id : RpcId

/-- The bounds of a request. -/
structure ProtocolLimits where
  maxRequestBytes : Nat
  maxDepth : Nat
  maxMethodBytes : Nat
  maxIdBytes : Nat
  maxStringBytes : Nat
  maxArrayItems : Nat
  maxObjectFields : Nat
  deriving DecidableEq, Repr

/-- The limits that a daemon starts with. -/
def ProtocolLimits.default : ProtocolLimits where
  maxRequestBytes := 1024 * 1024
  maxDepth := 64
  maxMethodBytes := 128
  maxIdBytes := 128
  maxStringBytes := 32 * 1024
  maxArrayItems := 4096
  maxObjectFields := 256

/-- The envelope of a request before it is checked. -/
structure WireRequest where
  jsonrpc : String
  method : String
  params : JsonTree
  id : JsonTree

/-- Why an envelope is not read: the bytes are no JSON, or JSON of another
shape. -/
inductive DecodeFault
  | notJson
  | otherShape

/-- How the JSON crate reads a request, as an envelope and as a value. -/
structure RequestJson where
  wire : List UInt8 → Except DecodeFault WireRequest
  value : List UInt8 → Option JsonTree

mutual

/-- Refuse a value that is nested too deep or has too large a part. -/
def validateJsonValue (limits : ProtocolLimits) :
    Nat → JsonTree → RpcResult Unit
  | depth, .string utf8 => do
      ensure (depth ≤ limits.maxDepth) (.resourceLimit "JSON depth exceeded")
      ensure (utf8.length ≤ limits.maxStringBytes)
        (.resourceLimit "string too large")
  | depth, .array items => do
      ensure (depth ≤ limits.maxDepth) (.resourceLimit "JSON depth exceeded")
      ensure (items.length ≤ limits.maxArrayItems)
        (.resourceLimit "array too large")
      validateJsonItems limits (depth + 1) items
  | depth, .object fields => do
      ensure (depth ≤ limits.maxDepth) (.resourceLimit "JSON depth exceeded")
      ensure (fields.length ≤ limits.maxObjectFields)
        (.resourceLimit "object too large")
      validateJsonFields limits (depth + 1) fields
  | depth, .null | depth, .bool _ | depth, .integer _ | depth, .fraction _ =>
      ensure (depth ≤ limits.maxDepth) (.resourceLimit "JSON depth exceeded")

/-- Check the items of an array. -/
def validateJsonItems (limits : ProtocolLimits) :
    Nat → List JsonTree → RpcResult Unit
  | _, [] => .ok ()
  | depth, item :: items => do
      validateJsonValue limits depth item
      validateJsonItems limits depth items

/-- Check the fields of an object, with their names. -/
def validateJsonFields (limits : ProtocolLimits) :
    Nat → List (String × JsonTree) → RpcResult Unit
  | _, [] => .ok ()
  | depth, (name, value) :: fields => do
      ensure (name.utf8ByteSize ≤ limits.maxStringBytes)
        (.resourceLimit "object key too large")
      validateJsonValue limits depth value
      validateJsonFields limits depth fields

end

/-- A number as a signed word, if it is one. -/
def asI64 (value : Int) : Option Int64 :=
  if -2 ^ 63 ≤ value ∧ value < 2 ^ 63 then some (Int64.ofInt value) else none

/-- The id of a request, an integer or a short text. -/
def requestId (limits : ProtocolLimits) : JsonTree → RpcResult RpcId
  | .integer value =>
      okOr ((asI64 value).map .number)
        (.invalidRequest "id must be an integer")
  | .fraction _ => .error (.invalidRequest "id must be an integer")
  | .string utf8 => do
      ensure (utf8 ≠ [] ∧ utf8.length ≤ limits.maxIdBytes)
        (.invalidRequest "invalid id")
      .ok (.string utf8)
  | .null | .bool _ | .array _ | .object _ =>
      .error (.invalidRequest "invalid id")

/-- Check a request in the order of the source: its size, its shape, the limits
of its value, and its fields. -/
def parseRequest
    (json : RequestJson)
    (bytes : List UInt8)
    (limits : ProtocolLimits) : RpcResult RawJsonRpcRequest := do
  ensure (bytes.length ≤ limits.maxRequestBytes)
    (.resourceLimit "request too large")
  let wire ← (json.wire bytes).mapError fun
    | .notJson => .parseError
    | .otherShape => .invalidRequest "invalid envelope"
  let value ← okOr (json.value bytes) .parseError
  validateJsonValue limits 0 value
  ensure (wire.jsonrpc = "2.0") (.invalidRequest "jsonrpc must be 2.0")
  ensure (¬(wire.method.utf8ByteSize = 0 ∨
      limits.maxMethodBytes < wire.method.utf8ByteSize))
    (.invalidRequest "invalid method")
  let method ← okOr (RpcMethod.fromStr wire.method) .methodNotFound
  let id ← requestId limits wire.id
  .ok {
    method := method
    params := wire.params
    id := id }

/-- The id of an accepted request is short. -/
def RpcId.Short (limits : ProtocolLimits) : RpcId → Prop
  | number _ => True
  | string utf8 => utf8.length ≤ limits.maxIdBytes

theorem parseRequest_id_short
    {json : RequestJson}
    {bytes : List UInt8}
    {limits : ProtocolLimits}
    {request : RawJsonRpcRequest}
    (parsed : parseRequest json bytes limits = .ok request) :
    request.id.Short limits := by
  simp only [parseRequest, bind_eq_ok, Except.ok.injEq] at parsed
  obtain ⟨_, _, wire, _, _, _, _, _, _, _, _, _, _, _, id, isId, rfl⟩ := parsed
  change id.Short limits
  cases sent : wire.id with
  | string utf8 =>
      simp only [sent, requestId, bind_eq_ok, ensure_eq_ok, exists_const,
        Except.ok.injEq] at isId
      obtain ⟨⟨_, short⟩, rfl⟩ := isId
      exact short
  | integer value =>
      simp only [sent, requestId, okOr_eq_ok, Option.map_eq_some_iff] at isId
      obtain ⟨_, _, rfl⟩ := isId
      trivial
  | null | bool | fraction | array | object =>
      rw [sent] at isId
      cases isId

/-! ## Responses -/

/-- An id as it is written back. -/
def RpcId.toJson : RpcId → JsonTree
  | number value => .integer value.toInt
  | string utf8 => .string utf8

mutual

/-- A value as it is written. -/
def Value.toJson : Value → JsonTree
  | .null => .null
  | .bool value => .bool value
  | .posInt value => .integer value.toNat
  | .negInt value => .integer value.toInt
  | .float text => .fraction text
  | .string utf8 => .string utf8
  | .array items => .array (itemsToJson items)
  | .object fields => .object (fieldsToJson fields)

/-- The items of an array as they are written. -/
def itemsToJson : List Value → List JsonTree
  | [] => []
  | item :: items => item.toJson :: itemsToJson items

/-- The fields of an object as they are written. -/
def fieldsToJson : List (String × Value) → List (String × JsonTree)
  | [] => []
  | (name, value) :: fields => (name, value.toJson) :: fieldsToJson fields

end

namespace JsonRpcError

/-- The data of an error, a field that is left out when it is empty. -/
def dataFields (error : JsonRpcError) : List (String × JsonTree) :=
  (error.data.map fun data => ("data", data.toJson)).toList

/-- An error in an envelope. -/
def toJson (error : JsonRpcError) : JsonTree :=
  .object ([("code", .integer error.code), ("message", .text error.message),
    ("kind", .text error.kind.name)] ++ error.dataFields)

/-- An error in a value, whose fields are sorted. -/
def toValue (error : JsonRpcError) : JsonTree :=
  .object ([("code", .integer error.code)] ++ error.dataFields ++
    [("kind", .text error.kind.name), ("message", .text error.message)])

end JsonRpcError

/-- A response to a request, or to one that could not be read. -/
inductive JsonRpcResponse
  | success (id : RpcId) (result : JsonTree)
  | error (id : Option RpcId) (error : JsonRpcError)

/-- A response as it is written. -/
def JsonRpcResponse.toJson : JsonRpcResponse → JsonTree
  | success id result =>
      .object [("jsonrpc", .text "2.0"), ("result", result), ("id", id.toJson)]
  | error id failure =>
      .object [("jsonrpc", .text "2.0"), ("error", failure.toJson),
        ("id", (id.map RpcId.toJson).getD .null)]

/-- The bytes of a response. -/
def serializeResponse (response : JsonRpcResponse) : List UInt8 :=
  response.toJson.compact

theorem serializeResponse_ne_nil (response : JsonRpcResponse) :
    serializeResponse response ≠ [] := by
  cases response <;>
    simp [serializeResponse, JsonRpcResponse.toJson, JsonTree.compact]

/-- The public view of a job as a value, whose fields are sorted and whose empty
fields are left out.  How a result is written is an argument, since a result may
hold a number with a fraction. -/
def JobSnapshot.toJson
    (resultJson : Value → JsonTree)
    (snapshot : JobSnapshot) : JsonTree :=
  .object (
    [("created_at_unix_ms", .integer snapshot.createdAtUnixMs.toNat)] ++
    (snapshot.error.map fun error => ("error", error.toValue)).toList ++
    [("job_id", .text snapshot.jobId.value),
      ("operation", .text snapshot.operation.asStr)] ++
    (snapshot.result.map fun result => ("result", resultJson result)).toList ++
    [("state", .text snapshot.state.name),
      ("updated_at_unix_ms", .integer snapshot.updatedAtUnixMs.toNat)])

end Pithos.Daemon
