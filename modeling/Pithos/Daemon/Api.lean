import Pithos.Library.Fallible
import Pithos.Library.Hex
import Pithos.Library.HostPath
import Pithos.Library.Machine

/-!
# The agent API

Errors, identifiers, job states and job records that the daemon and its clients
exchange.
-/

namespace Pithos.Daemon

open HostPath
open Fallible

/-! ## Values -/

/-- A JSON value.  Strings are kept as UTF-8 and the fields of an object in the
order of their names.  A number with a fraction is kept as the text that the JSON
crate writes for it, which is another text for every double. -/
inductive Value
  | null
  | bool (value : Bool)
  | posInt (value : UInt64)
  | negInt (value : Int64)
  | float (text : List UInt8)
  | string (utf8 : List UInt8)
  | array (items : List Value)
  | object (fields : List (String × Value))

/-! ## Errors -/

/-- What an error is about. -/
inductive PublicErrorKind
  | invalidArgument
  | unsupportedFormat
  | unsupportedFeature
  | unsafePath
  | permissionDenied
  | resourceLimit
  | corruptArchive
  | integrityMismatch
  | inputChanged
  | jobNotFound
  | jobConflict
  | cancelled
  | internal
  deriving DecidableEq, Repr

/-- An error of the API. -/
structure JsonRpcError where
  code : Int
  message : String
  kind : PublicErrorKind
  data : Option Value

namespace JsonRpcError

/-- An error of the daemon's own. -/
def domain (kind : PublicErrorKind) (message : String) : JsonRpcError where
  code := -32000
  message := message
  kind := kind
  data := none

/-- A limit is exceeded. -/
def resourceLimit (message : String) : JsonRpcError :=
  domain .resourceLimit message

/-- The parameters of a request are refused. -/
def invalidParams (message : String) : JsonRpcError where
  code := -32602
  message := message
  kind := .invalidArgument
  data := none

end JsonRpcError

/-- The daemon failed on its own account. -/
def internal (message : String) : JsonRpcError :=
  .domain .internal message

/-- Result of a fallible operation of the daemon. -/
abbrev RpcResult := Except JsonRpcError

/-! ## Identifiers -/

/-- Letters, digits and the hyphen. -/
def isIdentifierCharacter (character : Char) : Bool :=
  character.isAlphanum || character == '-'

/-- What an identifier with a given beginning looks like. -/
def validIdentifier (value lead : String) : Bool :=
  decide (lead.length + 8 ≤ value.length) && decide (value.length ≤ 96) &&
    lead.toList.isPrefixOf value.toList &&
    value.toList.all isIdentifierCharacter

/-- The identifier of a session, valid by construction. -/
structure SessionId where
  value : String
  valid : validIdentifier value "session-" = true
  deriving DecidableEq

/-- The identifier of a job.  One that a client sends is any text. -/
structure JobId where
  value : String
  deriving DecidableEq, Repr

/-- Refuse a text that is no job identifier. -/
def JobId.new (value : String) : RpcResult JobId := do
  ensure (validIdentifier value "job-" = true)
    (.invalidParams "invalid identifier")
  .ok ⟨value⟩

/-! ## Jobs -/

/-- The state of a job. -/
inductive ApiJobState
  | queued
  | running
  | cancelling
  | completed
  | failed
  | cancelled
  deriving DecidableEq, Repr

/-- Whether a job is done. -/
def ApiJobState.isTerminal : ApiJobState → Bool
  | completed | failed | cancelled => true
  | queued | running | cancelling => false

/-- The lanes of the scheduler. -/
inductive JobPriority
  | interactiveRead
  | interactiveExtract
  | verifyRequested
  | packForeground
  | packBackground
  | benchmark
  deriving DecidableEq, Repr

/-- The methods of the API. -/
inductive RpcMethod
  | capabilities
  | estimate
  | pack
  | unpack
  | list
  | inspect
  | extract
  | readRange
  | verify
  | cancel
  | jobStatus
  | subscribeEvents
  deriving DecidableEq, Repr

/-- What a job may use. -/
structure JobLimits where
  maxThreads : UInt16
  maxMemory : UInt64
  maxTemp : UInt64
  maxOutput : UInt64
  deadlineUnixMs : Option UInt64
  deriving DecidableEq, Repr

/-- The compression profiles of the API. -/
inductive ApiProfile
  | raw
  | stream
  | random
  | balanced
  | archiveMax
  deriving DecidableEq, Repr

/-- One event of a job. -/
structure ProgressEvent where
  jobId : JobId
  sequence : UInt64
  state : ApiJobState
  phase : String
  completedUnits : UInt64
  totalUnits : Option UInt64
  occurredAtUnixMs : UInt64
  deriving DecidableEq, Repr

/-- The answer to a submission. -/
structure JobAccepted where
  jobId : JobId
  state : ApiJobState
  idempotentReplay : Bool
  deriving DecidableEq, Repr

/-- The public view of a job. -/
structure JobSnapshot where
  jobId : JobId
  state : ApiJobState
  operation : RpcMethod
  createdAtUnixMs : UInt64
  updatedAtUnixMs : UInt64
  result : Option Value
  error : Option JsonRpcError

end Pithos.Daemon
