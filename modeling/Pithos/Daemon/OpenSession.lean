import Pithos.Daemon.Resume
import Pithos.Daemon.Scope

/-!
# Opening a session on a connection

The first request on a connection opens a session or comes back to one.  Three
parts follow each other: a check of the request and the connection, the work on
the session store and on the scope, and the installation of the session in the
table of connections, which may have changed meanwhile.
-/

namespace Pithos.Daemon

open HostPath
open Fallible
open FileTree
open Std
open MapValues
open Bytes
open SessionRegistry

/-! ## The request -/

/-- `AGENT_PROTOCOL_VERSION`. -/
def agentProtocolVersion : UInt16 := 1

/-- How long the name of a client may be. -/
def maxClientNameBytes : Nat := 128

/-- The session that a client takes up again, and its token. -/
structure SessionResume where
  sessionId : SessionId
  resumeToken : String

/-- The parameters of `capabilities`. -/
structure CapabilitiesParams where
  clientName : String
  protocolVersion : UInt16
  requestedScope : PathScope
  resume : Option SessionResume

/-- The part of the answer that depends on the session. -/
structure SessionCapability where
  sessionId : SessionId
  capabilityToken : String
  resumeToken : String
  expiresAtUnixMs : UInt64

/-- The session of a connection. -/
structure Session where
  sessionId : SessionId
  tokenHash : List UInt8
  expiresAtUnixMs : UInt64
  authorizer : PathAuthorizer

/-- The connections, each with its session once it has one. -/
abbrev Connections := ExtTreeMap UInt64 (Option Session)

/-- What a request meets: the time, the files, what is drawn, and the
connections when it arrives and when it installs its session. -/
structure OpenMoment where
  nowUnixMs : UInt64
  sessionTtlMs : UInt64
  files : HostFiles
  fault : Option StorageFault
  drawnIds : List SessionId
  drawnToken : String
  capabilityToken : String
  arriving : Connections
  installing : Connections

/-- The end of a session that is opened now, at most the largest time. -/
def OpenMoment.expiresAtUnixMs (moment : OpenMoment) : UInt64 :=
  (Machine.checkedAdd moment.nowUnixMs moment.sessionTtlMs).getD
    0xFFFFFFFFFFFFFFFF

/-- What a request leaves. -/
structure Opened where
  answer : RpcResult SessionCapability
  registry : SessionRegistry
  connections : Connections
  storageDegraded : Bool

/-! ## The parts of a request -/

/-- A connection holds one session. -/
def connectionBusy : JsonRpcError :=
  .domain .jobConflict "connection already has a session"

/-- The checks before the session store is used. -/
def checkCapabilities
    (connectionId : UInt64)
    (params : CapabilitiesParams)
    (connections : Connections) : RpcResult Unit := do
  ensure (params.protocolVersion = agentProtocolVersion ∧
      params.clientName ≠ "" ∧
      params.clientName.utf8ByteSize ≤ maxClientNameBytes)
    (.invalidParams "unsupported client protocol")
  ensure (¬(connections[connectionId]?.any Option.isSome = true))
    connectionBusy

/-- Find or make the session, with its resume token and its authoriser. -/
def obtainSession
    (json : SessionJson)
    (allowed : PathAuthorizer)
    (moment : OpenMoment)
    (params : CapabilitiesParams)
    (registry : SessionRegistry) :
    Option (RpcResult (SessionId × String × PathAuthorizer) ×
      SessionRegistry) :=
  match params.resume with
  | some resume =>
      let (resumed, after) := registry.resume json moment.fault
        moment.drawnToken resume.sessionId resume.resumeToken moment.nowUnixMs
        moment.expiresAtUnixMs
      some (do
        let resumed ← resumed
        let authorizer ← allowed.grant moment.files resumed.scope
        .ok (resume.sessionId, resumed.resumeToken, authorizer), after)
  | none =>
      match allowed.grant moment.files params.requestedScope with
      | .error failure => some (.error failure, registry)
      | .ok authorizer =>
          (registry.create json moment.fault moment.drawnIds moment.drawnToken
            authorizer.scope moment.nowUnixMs moment.expiresAtUnixMs).map
            fun (created, after) =>
              (created.map fun created =>
                (created.sessionId, created.resumeToken, authorizer), after)

/-- Whether a connection can be given a session. -/
def freeConnection
    (connectionId : UInt64)
    (connections : Connections) : RpcResult Unit := do
  let session ← okOr connections[connectionId]?
    (internal "connection state missing")
  ensure (session.isNone = true) connectionBusy

/-- Give a connection its session. -/
def installSession
    (connectionId : UInt64)
    (moment : OpenMoment)
    (session : SessionId × String × PathAuthorizer) :
    RpcResult SessionCapability × Connections :=
  match freeConnection connectionId moment.installing with
  | .error failure => (.error failure, moment.installing)
  | .ok () =>
      (.ok {
          sessionId := session.1
          capabilityToken := moment.capabilityToken
          resumeToken := session.2.1
          expiresAtUnixMs := moment.expiresAtUnixMs },
        moment.installing.insert connectionId (some {
          sessionId := session.1
          tokenHash := Blake3.hash (textBytes moment.capabilityToken)
          expiresAtUnixMs := moment.expiresAtUnixMs
          authorizer := session.2.2 }))

/-- Answer a request for a session. -/
def openSession
    (json : SessionJson)
    (allowed : PathAuthorizer)
    (moment : OpenMoment)
    (connectionId : UInt64)
    (params : CapabilitiesParams)
    (registry : SessionRegistry) : Option Opened :=
  match checkCapabilities connectionId params moment.arriving with
  | .error failure => some ⟨.error failure, registry, moment.installing, false⟩
  | .ok () =>
      (obtainSession json allowed moment params registry).map
        fun (obtained, after) =>
          match obtained with
          | .error failure =>
              ⟨.error failure, after, moment.installing,
                decide (failure.kind = .internal)⟩
          | .ok session =>
              let (answer, connections) :=
                installSession connectionId moment session
              ⟨answer, after, connections, false⟩

/-! ## Refused requests -/

/-- The sessions that had not expired are as before. -/
def KeepsSessions
    (nowUnixMs : UInt64)
    (before after : SessionRegistry) : Prop :=
  ∀ (key : String) stored, before.state.sessions[key]? = some stored →
    nowUnixMs < stored.expiresAtUnixMs →
    after.state.sessions[key]? = some stored

/-- If a request is refused, the sessions are as before. -/
def RefusalKeeps
    (json : SessionJson)
    (allowed : PathAuthorizer)
    (moment : OpenMoment)
    (connectionId : UInt64)
    (params : CapabilitiesParams)
    (registry : SessionRegistry) : Prop :=
  ∀ result failure,
    openSession json allowed moment connectionId params registry =
      some result →
    result.answer = .error failure →
    KeepsSessions moment.nowUnixMs registry result.registry

/-- The token of a session is accepted, and the state with its new token can be
kept. -/
structure Resumable
    (json : SessionJson)
    (moment : OpenMoment)
    (resume : SessionResume)
    (registry : SessionRegistry)
    (stored : StoredSession) : Prop where
  ends : moment.nowUnixMs < moment.expiresAtUnixMs
  isToken : validResumeToken resume.resumeToken = true
  found : registry.state.sessions[resume.sessionId.value]? = some stored
  live : moment.nowUnixMs < stored.expiresAtUnixMs
  known : stored.resumeTokenHash = Blake3.hash (textBytes resume.resumeToken)
  fits : ∃ bytes, encode json (rotating moment.drawnToken resume.sessionId
    moment.expiresAtUnixMs stored registry.state) = .ok bytes

/-- A request whose session is resumed although its scope cannot be granted or
its connection cannot be given a session. -/
def ResumedInVain
    (json : SessionJson)
    (allowed : PathAuthorizer)
    (moment : OpenMoment)
    (connectionId : UInt64)
    (params : CapabilitiesParams)
    (resume : SessionResume)
    (registry : SessionRegistry) : Prop :=
  checkCapabilities connectionId params moment.arriving = .ok () ∧
    ∃ stored, Resumable json moment resume registry stored ∧
      ((∃ failure, allowed.grant moment.files stored.scope = .error failure) ∨
        ∃ failure, freeConnection connectionId moment.installing =
          .error failure)

section Refusal

variable
  {json : SessionJson}
  {allowed : PathAuthorizer}
  {moment : OpenMoment}
  {connectionId : UInt64}
  {params : CapabilitiesParams}
  {resume : SessionResume}
  {registry : SessionRegistry}

theorem KeepsSessions.refl
    (nowUnixMs : UInt64)
    (registry : SessionRegistry) :
    KeepsSessions nowUnixMs registry registry :=
  fun _ _ found _ => found

/-- Dropping an expired session keeps the others. -/
theorem keepsSessions_dropping
    {stored : StoredSession}
    (found : registry.state.sessions[resume.sessionId.value]? = some stored)
    {nowUnixMs : UInt64}
    (expired : stored.expiresAtUnixMs ≤ nowUnixMs)
    (file : Option (List UInt8)) :
    KeepsSessions nowUnixMs registry
      ⟨dropping resume.sessionId registry.state, file⟩ := by
  intro key other isOther live
  simp only [dropping]
  rw [getElem?_erase_eq]
  split
  · rename_i same
    subst same
    rw [found] at isOther
    cases isOther
    exact absurd live (UInt64.not_lt.mpr expired)
  · exact isOther

/-- Without faults, a session is resumed exactly when it is resumable; otherwise
the sessions are as before. -/
theorem resume_without_faults
    (noFault : moment.fault = none) :
    (∃ stored, Resumable json moment resume registry stored ∧
      ∃ bytes, registry.resume json moment.fault moment.drawnToken
          resume.sessionId resume.resumeToken moment.nowUnixMs
          moment.expiresAtUnixMs =
        (.ok ⟨stored.scope, moment.drawnToken⟩, {
          state := rotating moment.drawnToken resume.sessionId
            moment.expiresAtUnixMs stored registry.state
          file := some bytes })) ∨
      (∀ stored, ¬Resumable json moment resume registry stored) ∧
      ∃ failure after, registry.resume json moment.fault moment.drawnToken
          resume.sessionId resume.resumeToken moment.nowUnixMs
          moment.expiresAtUnixMs = (.error failure, after) ∧
        KeepsSessions moment.nowUnixMs registry after := by
  rw [noFault]
  unfold SessionRegistry.resume
  split
  · rename_i failure refused
    refine Or.inr ⟨?_, failure, registry, rfl, .refl _ _⟩
    intro stored resumable
    rw [validateExpiry, ensure_of resumable.ends, ok_bind,
      ensure_of resumable.isToken, ok_bind, resumable.found] at refused
    cases refused
  · rename_i stored isFound
    simp only [bind_eq_ok, okOr_eq_ok, validateExpiry, ensure_eq_ok,
      exists_const] at isFound
    obtain ⟨ends, isToken, found⟩ := isFound
    have unique (other : StoredSession)
        (resumable : Resumable json moment resume registry other) :
        other = stored :=
      Option.some.inj (resumable.found.symm.trans found)
    split
    · rename_i expired
      refine Or.inr ⟨?_, ?_⟩
      · intro other resumable
        obtain rfl := unique other resumable
        exact UInt64.not_lt.mpr expired resumable.live
      · cases fits : encode json (dropping resume.sessionId registry.state) with
        | error failure =>
            rw [commit_of_encode_error fits]
            exact ⟨failure, registry, rfl, .refl _ _⟩
        | ok bytes =>
            rw [commit_of_encode fits]
            exact ⟨_, _, rfl, keepsSessions_dropping found expired _⟩
    · rename_i live
      split
      · rename_i unknown
        refine Or.inr ⟨?_, _, registry, rfl, .refl _ _⟩
        intro other resumable
        obtain rfl := unique other resumable
        exact unknown resumable.known
      · rename_i known
        cases fits : encode json (rotating moment.drawnToken resume.sessionId
            moment.expiresAtUnixMs stored registry.state) with
        | error failure =>
            rw [commit_of_encode_error fits]
            refine Or.inr ⟨?_, failure, registry, rfl, .refl _ _⟩
            intro other resumable
            obtain rfl := unique other resumable
            obtain ⟨bytes, isOk⟩ := resumable.fits
            rw [fits] at isOk
            cases isOk
        | ok bytes =>
            rw [commit_of_encode fits]
            exact Or.inl ⟨stored, ⟨ends, isToken, found,
              UInt64.not_le.mp live, not_not.mp known, bytes, fits⟩, bytes,
              rfl⟩

/-- A record with another token differs. -/
theorem rotating_ne
    {stored : StoredSession}
    (different : Blake3.hash (textBytes moment.drawnToken) ≠
      stored.resumeTokenHash)
    (file : Option (List UInt8)) :
    (SessionRegistry.mk (rotating moment.drawnToken resume.sessionId
      moment.expiresAtUnixMs stored registry.state) file).state.sessions[
        resume.sessionId.value]? ≠ some stored := by
  simp only [rotating]
  rw [getElem?_insert_eq, if_pos rfl]
  intro same
  exact different (congrArg StoredSession.resumeTokenHash (Option.some.inj same))

end Refusal

/-! ## The guarantee -/

/-- A refused request leaves the sessions as they were, unless it resumed the
session first: the token is replaced before the scope is granted and before the
session is installed. -/
theorem openSession_refusalKeeps_iff
    {json : SessionJson}
    {allowed : PathAuthorizer}
    {moment : OpenMoment}
    {connectionId : UInt64}
    {params : CapabilitiesParams}
    {resume : SessionResume}
    {registry : SessionRegistry}
    (resumes : params.resume = some resume)
    (noFault : moment.fault = none)
    (fresh : Blake3.hash (textBytes moment.drawnToken) ≠
      Blake3.hash (textBytes resume.resumeToken)) :
    RefusalKeeps json allowed moment connectionId params registry ↔
      ¬ResumedInVain json allowed moment connectionId params resume
        registry := by
  unfold RefusalKeeps openSession obtainSession
  rw [resumes]
  cases checked : checkCapabilities connectionId params moment.arriving with
  | error refusal =>
      refine iff_of_true ?_ fun inVain => ?_
      · rintro result failure isResult _
        cases isResult
        exact .refl _ _
      · rw [ResumedInVain, checked] at inVain
        cases inVain.1
  | ok value =>
      rcases @resume_without_faults json moment resume registry noFault with
        ⟨stored, resumable, bytes, isResumed⟩ |
        ⟨none, failure, after, isResumed, keeps⟩
      · have different : Blake3.hash (textBytes moment.drawnToken) ≠
            stored.resumeTokenHash := by
          rw [resumable.known]
          exact fresh
        have changed := @rotating_ne moment resume registry stored different
          (some bytes)
        have unchanged (keeps : KeepsSessions moment.nowUnixMs registry {
            state := rotating moment.drawnToken resume.sessionId
              moment.expiresAtUnixMs stored registry.state
            file := some bytes }) : False :=
          changed (keeps _ stored resumable.found resumable.live)
        simp only [isResumed, ok_bind]
        cases granted : allowed.grant moment.files stored.scope with
        | error refusal =>
            refine iff_of_false ?_ (not_not.mpr ⟨checked, stored, resumable,
              Or.inl ⟨refusal, granted⟩⟩)
            intro keeps
            exact unchanged (keeps _ refusal rfl rfl)
        | ok authorizer =>
            cases free : freeConnection connectionId moment.installing with
            | error refusal =>
                refine iff_of_false ?_ (not_not.mpr ⟨checked, stored, resumable,
                  Or.inr ⟨refusal, free⟩⟩)
                intro keeps
                refine unchanged (keeps _ refusal rfl ?_)
                simp [installSession, free]
            | ok value =>
                refine iff_of_true ?_ ?_
                · rintro result failure isResult refused
                  cases isResult
                  simp [installSession, free] at refused
                · rintro ⟨_, other, otherResumable, inVain⟩
                  obtain rfl := Option.some.inj
                    (otherResumable.found.symm.trans resumable.found)
                  rcases inVain with ⟨refusal, isRefused⟩ |
                    ⟨refusal, isRefused⟩
                  · rw [granted] at isRefused
                    cases isRefused
                  · rw [free] at isRefused
                    cases isRefused
      · refine iff_of_true ?_ fun inVain => ?_
        · rintro result refusal isResult _
          simp only [isResumed, error_bind, Option.map_some,
            Option.some.injEq] at isResult
          subst isResult
          exact keeps
        · obtain ⟨_, stored, resumable, _⟩ := inVain
          exact none stored resumable

/-- A connection comes back to the session of the sample run after its root has
gone from the files. -/
def sampleMoment : OpenMoment where
  nowUnixMs := 1
  sessionTtlMs := 2
  files := sampleFiles
  fault := none
  drawnIds := []
  drawnToken := sampleToken '1'
  capabilityToken := sampleToken '2'
  arriving := (∅ : Connections).insert 7 none
  installing := (∅ : Connections).insert 7 none

/-- A client that takes up the first session. -/
def sampleResume : SessionResume where
  sessionId := sampleSessionId
  resumeToken := sampleToken '0'

/-- Its call of `capabilities`. -/
def sampleCapabilities : CapabilitiesParams where
  clientName := "cli"
  protocolVersion := agentProtocolVersion
  requestedScope := sampleScope
  resume := some sampleResume

theorem openSession_refusalKeeps_iff_sample :
    RefusalKeeps sampleSessionJson (sampleAuthorizer "/") sampleMoment 7
        sampleCapabilities (sampleSessionRegistry '0' 2) ↔
      ¬ResumedInVain sampleSessionJson (sampleAuthorizer "/") sampleMoment 7
        sampleCapabilities sampleResume (sampleSessionRegistry '0' 2) :=
  openSession_refusalKeeps_iff rfl rfl sampleHash_ne.symm

/-- The refused request has replaced the token of the session. -/
theorem openSession_refused_rotates :
    sampleMoment.fault = none ∧
      ¬RefusalKeeps sampleSessionJson (sampleAuthorizer "/") sampleMoment 7
        sampleCapabilities (sampleSessionRegistry '0' 2) := by
  refine ⟨rfl, fun keeps => ?_⟩
  have checked : checkCapabilities 7 sampleCapabilities sampleMoment.arriving =
      .ok () := by
    have short : "cli".utf8ByteSize ≤ maxClientNameBytes := by decide
    simp [checkCapabilities, sampleCapabilities, sampleMoment, ensure, short]
  have ends : sampleMoment.expiresAtUnixMs = 3 := rfl
  have resumed : (sampleSessionRegistry '0' 2).resume sampleSessionJson
      sampleMoment.fault sampleMoment.drawnToken sampleResume.sessionId
      sampleResume.resumeToken sampleMoment.nowUnixMs
      sampleMoment.expiresAtUnixMs =
        (.ok ⟨sampleScope, sampleToken '1'⟩, sampleSessionRegistry '1' 3) := by
    rw [ends]
    exact sample_resume
  have denied : (sampleAuthorizer "/").grant sampleMoment.files sampleScope =
      .error pathDenied := rfl
  have opened : openSession sampleSessionJson (sampleAuthorizer "/")
      sampleMoment 7 sampleCapabilities (sampleSessionRegistry '0' 2) =
      some ⟨.error pathDenied, sampleSessionRegistry '1' 3,
        sampleMoment.installing, false⟩ := by
    have resumes : sampleCapabilities.resume = some sampleResume := rfl
    rw [openSession, checked, obtainSession, resumes]
    simp only [resumed, ok_bind, denied, error_bind, Option.map_some]
    rfl
  have kept := keeps _ _ opened rfl sampleSessionId.value (sampleStored '0' 2)
    (sampleSessions_found '0' 2) (by decide)
  change (sampleSessions '1' 3).sessions[sampleSessionId.value]? = _ at kept
  rw [sampleSessions_found, Option.some.injEq] at kept
  simp only [sampleStored, StoredSession.mk.injEq] at kept
  exact sampleHash_ne kept.1.symm

end Pithos.Daemon
