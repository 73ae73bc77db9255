import Pithos.Daemon.Store.Journal
import Pithos.Library.Blake3

/-!
# The session store

Sessions outlive their connections: a client that kept the resume token of its
session comes back to the same session.  The store keeps one state in memory and
the same state, encoded as JSON, in one file.

The random identifiers and tokens are arguments of the operations.
-/

namespace Pithos.Daemon

open HostPath
open Fallible
open Std
open MapValues

/-! ## Records -/

/-- `SESSION_SCHEMA_VERSION`. -/
def sessionSchemaVersion : UInt16 := 2

/-- `MAX_SESSION_STORE_BYTES`. -/
def maxSessionStoreBytes : Nat := 8 * 1024 * 1024

/-- `MAX_SESSIONS`. -/
def maxSessions : Nat := 4096

/-- The directories that a client may read and write. -/
structure PathScope where
  readRoots : List Path
  writeRoots : List Path
  deriving DecidableEq

/-- The roots of a scope. -/
def PathScope.roots (scope : PathScope) : List Path :=
  scope.readRoots ++ scope.writeRoots

/-- What the owner of a new session is told. -/
structure CreatedSession where
  sessionId : SessionId
  resumeToken : String

/-- What the owner of a resumed session is told. -/
structure ResumedSession where
  scope : PathScope
  resumeToken : String

/-- What is kept of a session: of its token only the hash. -/
structure StoredSession where
  resumeTokenHash : List UInt8
  scope : PathScope
  expiresAtUnixMs : UInt64

/-- The sessions as they are stored. -/
structure PersistentSessions where
  schemaVersion : UInt16
  sessions : ExtTreeMap String StoredSession

/-- The sessions of a store that has no file yet. -/
def PersistentSessions.initial : PersistentSessions where
  schemaVersion := sessionSchemaVersion
  sessions := ∅

/-- The JSON crate at the type of the stored sessions.  Encoding fails on a path
that is not UTF-8. -/
structure SessionJson where
  toVec : PersistentSessions → Option (List UInt8)
  fromSlice : List UInt8 → Option PersistentSessions

/-- The registry of sessions with the file it keeps. -/
structure SessionRegistry where
  state : PersistentSessions
  file : Option (List UInt8)

/-! ## Operations -/

/-- The one answer to every token that is not accepted. -/
def permissionDenied : JsonRpcError :=
  .domain .permissionDenied "permission denied"

/-- There is no room for another session. -/
def sessionRegistryFull : JsonRpcError :=
  .resourceLimit "session registry is full"

/-- A session must not have expired. -/
def validateExpiry (nowUnixMs expiresAtUnixMs : UInt64) : RpcResult Unit :=
  ensure (nowUnixMs < expiresAtUnixMs)
    (.invalidParams "invalid session expiration")

/-- Sixty-four hexadecimal digits. -/
def validResumeToken (token : String) : Bool :=
  decide (token.length = 64) &&
    token.toList.all fun character => (Hex.digitValue character.toLower).isSome

theorem validResumeToken_utf8ByteSize
    {token : String}
    (isToken : validResumeToken token = true) :
    token.utf8ByteSize = 64 := by
  rw [validResumeToken, Bool.and_eq_true, decide_eq_true_eq, List.all_eq_true]
    at isToken
  rw [Bytes.utf8ByteSize_eq_length fun character member =>
    Hex.utf8Size_of_digitValue (isToken.2 character member), isToken.1]

namespace SessionRegistry

/-- The bytes of a state, when they are within the bound. -/
def encode (json : SessionJson) (next : PersistentSessions) :
    RpcResult (List UInt8) := do
  let bytes ← okOr (json.toVec next) (internal "cannot encode sessions")
  ensure (bytes.length ≤ maxSessionStoreBytes) sessionRegistryFull
  .ok bytes

/-- The steps up to the rename. -/
def publish (fault : Option StorageFault) : RpcResult Unit := do
  ensure (fault ≠ some .createDirectory)
    (internal "cannot create session directory")
  ensure (fault ≠ some .createTemporary)
    (internal "cannot create session transaction")
  ensure (fault ≠ some .write ∧ fault ≠ some .sync)
    (internal "cannot sync session transaction")
  ensure (fault ≠ some .persist) (internal "cannot publish session registry")

/-- Write the sessions, and keep them in memory once the file has been replaced,
whether or not the directory could be synced. -/
def commit
    (json : SessionJson)
    (fault : Option StorageFault)
    (next : PersistentSessions)
    (registry : SessionRegistry) : RpcResult Unit × SessionRegistry :=
  match (do
    let bytes ← encode json next
    publish fault
    .ok bytes) with
  | .error failure => (.error failure, registry)
  | .ok bytes =>
      (ensure (fault ≠ some .syncParent)
          (internal "cannot sync session directory"),
        { state := next, file := some bytes })

/-- The sessions that have not expired. -/
def unexpired (nowUnixMs : UInt64) (state : PersistentSessions) :
    PersistentSessions :=
  { state with
    sessions := state.sessions.filter fun _ session =>
      decide (nowUnixMs < session.expiresAtUnixMs) }

/-- The first drawn identifier that is free. -/
def drawSessionId (drawn : List SessionId) (state : PersistentSessions) :
    Option SessionId :=
  drawn.find? fun sessionId => state.sessions[sessionId.value]?.isNone

/-- The state with a new session. -/
def opening
    (sessionId : SessionId)
    (resumeToken : String)
    (scope : PathScope)
    (expiresAtUnixMs : UInt64)
    (state : PersistentSessions) : PersistentSessions :=
  { state with
    sessions := state.sessions.insert sessionId.value {
      resumeTokenHash := Blake3.hash (Bytes.textBytes resumeToken)
      scope := scope
      expiresAtUnixMs := expiresAtUnixMs } }

/-- The state without a session. -/
def dropping (sessionId : SessionId) (state : PersistentSessions) :
    PersistentSessions :=
  { state with sessions := state.sessions.erase sessionId.value }

/-- The state with another token and another expiry of a session. -/
def rotating
    (rotatedResumeToken : String)
    (sessionId : SessionId)
    (expiresAtUnixMs : UInt64)
    (stored : StoredSession)
    (state : PersistentSessions) : PersistentSessions :=
  { state with
    sessions := state.sessions.insert sessionId.value {
      stored with
      resumeTokenHash := Blake3.hash (Bytes.textBytes rotatedResumeToken)
      expiresAtUnixMs := expiresAtUnixMs } }

/-- Open a session under the first drawn identifier that is free.  There is no
answer as long as none is. -/
def create
    (json : SessionJson)
    (fault : Option StorageFault)
    (drawn : List SessionId)
    (resumeToken : String)
    (scope : PathScope)
    (nowUnixMs expiresAtUnixMs : UInt64)
    (registry : SessionRegistry) :
    Option (RpcResult CreatedSession × SessionRegistry) :=
  match (do
    validateExpiry nowUnixMs expiresAtUnixMs
    ensure ((unexpired nowUnixMs registry.state).sessions.size < maxSessions)
      sessionRegistryFull) with
  | .error failure => some (.error failure, registry)
  | .ok () =>
      let next := unexpired nowUnixMs registry.state
      match drawSessionId drawn next with
      | none => none
      | some sessionId =>
          let (committed, after) := registry.commit json fault
            (opening sessionId resumeToken scope expiresAtUnixMs next)
          some (committed.map fun _ => ⟨sessionId, resumeToken⟩, after)

/-- Come back to a session. -/
def resume
    (json : SessionJson)
    (fault : Option StorageFault)
    (rotatedResumeToken : String)
    (sessionId : SessionId)
    (resumeToken : String)
    (nowUnixMs expiresAtUnixMs : UInt64)
    (registry : SessionRegistry) :
    RpcResult ResumedSession × SessionRegistry :=
  match (do
    validateExpiry nowUnixMs expiresAtUnixMs
    ensure (validResumeToken resumeToken = true) permissionDenied
    okOr registry.state.sessions[sessionId.value]? permissionDenied) with
  | .error failure => (.error failure, registry)
  | .ok stored =>
      if stored.expiresAtUnixMs ≤ nowUnixMs then
        let (committed, after) := registry.commit json fault
          (dropping sessionId registry.state)
        (committed.bind fun _ => .error permissionDenied, after)
      else if stored.resumeTokenHash ≠
          Blake3.hash (Bytes.textBytes resumeToken) then
        (.error permissionDenied, registry)
      else
        let (committed, after) := registry.commit json fault
          (rotating rotatedResumeToken sessionId expiresAtUnixMs stored
            registry.state)
        (committed.map fun _ => ⟨stored.scope, rotatedResumeToken⟩, after)

/-! ## How the operations end -/

/-- A commit keeps the registry or puts the next state in its place. -/
theorem commit_cases
    (json : SessionJson)
    (fault : Option StorageFault)
    (next : PersistentSessions)
    (registry : SessionRegistry) :
    (∃ failure, registry.commit json fault next =
        (.error failure, registry)) ∨
      ∃ bytes, json.toVec next = some bytes ∧
        registry.commit json fault next =
          (ensure (fault ≠ some .syncParent)
              (internal "cannot sync session directory"),
            { state := next, file := some bytes }) := by
  unfold commit
  split
  · rename_i failure _
    exact Or.inl ⟨failure, rfl⟩
  · rename_i bytes isOk
    simp only [bind_eq_ok, encode, okOr_eq_ok, Except.ok.injEq] at isOk
    obtain ⟨_, ⟨_, encoded, _, _, rfl⟩, _, _, rfl⟩ := isOk
    exact Or.inr ⟨_, encoded, rfl⟩

/-- A commit without faults puts an encodable state in place. -/
theorem commit_of_encode
    {json : SessionJson}
    {registry : SessionRegistry}
    {next : PersistentSessions}
    {bytes : List UInt8}
    (fits : encode json next = .ok bytes) :
    registry.commit json none next =
      (.ok (), { state := next, file := some bytes }) := by
  rw [commit, fits]
  rfl

theorem commit_of_encode_error
    {json : SessionJson}
    {registry : SessionRegistry}
    {next : PersistentSessions}
    {failure : JsonRpcError}
    (tooLarge : encode json next = .error failure) :
    registry.commit json none next = (.error failure, registry) := by
  rw [commit, tooLarge]
  rfl

/-- How a call that opens a session can end. -/
inductive CreateOutcome (json : SessionJson) (drawn : List SessionId)
    (resumeToken : String) (scope : PathScope)
    (nowUnixMs expiresAtUnixMs : UInt64) (registry : SessionRegistry) :
    RpcResult CreatedSession → SessionRegistry → Prop
  | refused (failure : JsonRpcError) :
      CreateOutcome json drawn resumeToken scope nowUnixMs expiresAtUnixMs
        registry (.error failure) registry
  | opened {sessionId : SessionId} {bytes : List UInt8}
      {answer : RpcResult CreatedSession}
      (isDrawn : drawSessionId drawn (unexpired nowUnixMs registry.state) =
        some sessionId)
      (encoded : json.toVec (opening sessionId resumeToken scope
        expiresAtUnixMs (unexpired nowUnixMs registry.state)) = some bytes)
      (answered : ∀ created, answer = .ok created →
        created = ⟨sessionId, resumeToken⟩) :
      CreateOutcome json drawn resumeToken scope nowUnixMs expiresAtUnixMs
        registry answer {
          state := opening sessionId resumeToken scope expiresAtUnixMs
            (unexpired nowUnixMs registry.state)
          file := some bytes }

/-- How a call that resumes a session can end. -/
inductive ResumeOutcome (json : SessionJson) (rotatedResumeToken : String)
    (sessionId : SessionId) (resumeToken : String)
    (nowUnixMs expiresAtUnixMs : UInt64) (registry : SessionRegistry) :
    RpcResult ResumedSession → SessionRegistry → Prop
  | refused (failure : JsonRpcError) :
      ResumeOutcome json rotatedResumeToken sessionId resumeToken nowUnixMs
        expiresAtUnixMs registry (.error failure) registry
  | dropped {bytes : List UInt8} {stored : StoredSession}
      (failure : JsonRpcError)
      (found : registry.state.sessions[sessionId.value]? = some stored)
      (expired : stored.expiresAtUnixMs ≤ nowUnixMs)
      (encoded : json.toVec (dropping sessionId registry.state) = some bytes) :
      ResumeOutcome json rotatedResumeToken sessionId resumeToken nowUnixMs
        expiresAtUnixMs registry (.error failure)
        { state := dropping sessionId registry.state, file := some bytes }
  | rotated {bytes : List UInt8} {stored : StoredSession}
      {answer : RpcResult ResumedSession}
      (found : registry.state.sessions[sessionId.value]? = some stored)
      (live : nowUnixMs < stored.expiresAtUnixMs)
      (known : stored.resumeTokenHash =
        Blake3.hash (Bytes.textBytes resumeToken))
      (encoded : json.toVec (rotating rotatedResumeToken sessionId
        expiresAtUnixMs stored registry.state) = some bytes)
      (answered : ∀ resumed, answer = .ok resumed →
        resumed = ⟨stored.scope, rotatedResumeToken⟩) :
      ResumeOutcome json rotatedResumeToken sessionId resumeToken nowUnixMs
        expiresAtUnixMs registry answer {
          state := rotating rotatedResumeToken sessionId expiresAtUnixMs stored
            registry.state
          file := some bytes }

theorem create_outcome
    {json : SessionJson}
    {fault : Option StorageFault}
    {drawn : List SessionId}
    {resumeToken : String}
    {scope : PathScope}
    {nowUnixMs expiresAtUnixMs : UInt64}
    {registry after : SessionRegistry}
    {answer : RpcResult CreatedSession}
    (created : registry.create json fault drawn resumeToken scope nowUnixMs
      expiresAtUnixMs = some (answer, after)) :
    CreateOutcome json drawn resumeToken scope nowUnixMs expiresAtUnixMs
      registry answer after := by
  unfold create at created
  split at created
  · cases created
    exact .refused _
  · dsimp only at created
    split at created
    · cases created
    · rename_i sessionId isDrawn
      generalize isNext : opening _ _ _ _ _ = next at created
      rcases commit_cases json fault next registry with
        ⟨failure, same⟩ | ⟨bytes, encoded, same⟩
      · rw [same] at created
        cases created
        exact .refused _
      · rw [same] at created
        cases created
        subst isNext
        refine .opened isDrawn encoded ?_
        intro created isOk
        obtain ⟨_, _, isAnswer⟩ := map_eq_ok.mp isOk
        exact isAnswer.symm

theorem resume_outcome
    {json : SessionJson}
    {fault : Option StorageFault}
    {rotatedResumeToken : String}
    {sessionId : SessionId}
    {resumeToken : String}
    {nowUnixMs expiresAtUnixMs : UInt64}
    {registry after : SessionRegistry}
    {answer : RpcResult ResumedSession}
    (resumed : registry.resume json fault rotatedResumeToken sessionId
      resumeToken nowUnixMs expiresAtUnixMs = (answer, after)) :
    ResumeOutcome json rotatedResumeToken sessionId resumeToken nowUnixMs
      expiresAtUnixMs registry answer after := by
  unfold resume at resumed
  split at resumed
  · cases resumed
    exact .refused _
  · rename_i stored isFound
    simp only [bind_eq_ok, okOr_eq_ok] at isFound
    obtain ⟨_, _, _, _, found⟩ := isFound
    split at resumed
    · rename_i expired
      generalize isNext : dropping _ _ = next at resumed
      rcases commit_cases json fault next registry with
        ⟨failure, same⟩ | ⟨bytes, encoded, same⟩
      · rw [same] at resumed
        cases resumed
        exact .refused _
      · rw [same] at resumed
        subst isNext
        cases synced : ensure (fault ≠ some .syncParent)
          (internal "cannot sync session directory") with
        | error failure =>
            rw [synced] at resumed
            cases resumed
            exact .dropped _ found expired encoded
        | ok value =>
            rw [synced] at resumed
            cases resumed
            exact .dropped _ found expired encoded
    · rename_i live
      split at resumed
      · cases resumed
        exact .refused _
      · rename_i known
        rw [not_not] at known
        generalize isNext : rotating _ _ _ _ _ = next at resumed
        rcases commit_cases json fault next registry with
          ⟨failure, same⟩ | ⟨bytes, encoded, same⟩
        · rw [same] at resumed
          cases resumed
          exact .refused _
        · rw [same] at resumed
          cases resumed
          subst isNext
          refine .rotated found (UInt64.not_le.mp live) known encoded ?_
          intro resumed isOk
          obtain ⟨_, _, isAnswer⟩ := map_eq_ok.mp isOk
          exact isAnswer.symm

end SessionRegistry

/-! ## Opening the store -/

/-- The sessions in a file; the initial state when there is none. -/
def loadSessions
    (json : SessionJson)
    (fault : Option LoadFault)
    (file : Option (List UInt8)) : RpcResult PersistentSessions := do
  ensure (fault ≠ some .openFile) (internal "cannot open session registry")
  match file with
  | none => .ok .initial
  | some bytes => do
      ensure (fault ≠ some .inspect)
        (internal "cannot inspect session registry")
      ensure (bytes.length ≤ maxSessionStoreBytes)
        (.resourceLimit "session registry is too large")
      ensure (fault ≠ some .read) (internal "cannot read session registry")
      let state ← okOr (json.fromSlice bytes)
        (internal "session registry is corrupt")
      ensure (state.sessions.size ≤ maxSessions)
        (.resourceLimit "session registry is too large")
      .ok state

/-- Open the session store. -/
def SessionRegistry.openFile
    (json : SessionJson)
    (fault : Option LoadFault)
    (file : Option (List UInt8)) : RpcResult SessionRegistry := do
  let state ← loadSessions json fault file
  ensure (state.schemaVersion = sessionSchemaVersion)
    (internal "unsupported session store schema")
  .ok { state := state, file := file }

end Pithos.Daemon
