import Pithos.Daemon.OpenSession

/-!
# The session of a client

A client keeps a copy of its session: the identifier, the resume token and the
expiry.  When a request fails on the way, or its copy has expired, it connects
again and presents the token.  Requests and responses may be lost, and a request
that the client no longer waits for may still be handled.

A response that arrives is taken to arrive at once: nothing that happens between
its sending and its arrival depends on it.
-/

namespace Pithos.Cli

open Pithos.Daemon
open HostPath
open Fallible
open FileTree
open Std
open MapValues
open Bytes
open SessionRegistry

/-! ## The client -/

/-- Whether a session has expired. -/
def sessionExpiredAt (expiresAtUnixMs nowUnixMs : UInt64) : Bool :=
  expiresAtUnixMs ≤ nowUnixMs

/-- Where a client is in an authenticated request: making it for the first time
or again, or connecting again before that. -/
inductive Phase
  | idle
  | requesting (again : Bool)
  | reconnecting (again : Bool)
  deriving DecidableEq

/-- How a request ends for the client. -/
inductive RequestOutcome
  | answered
  | transport
  | denied
  deriving DecidableEq

/-- The beginning of an authenticated request. -/
def Phase.start (expired : Bool) : Phase :=
  if expired then reconnecting false else requesting false

/-- What follows the end of a request. -/
def Phase.afterRequest (again expired : Bool) : RequestOutcome → Phase
  | .answered => idle
  | .transport => if again then idle else reconnecting true
  | .denied => if !again && expired then reconnecting true else idle

/-- What follows connecting again. -/
def Phase.afterReconnect (again success : Bool) : Phase :=
  if success then requesting again else idle

/-- Whether a client is connecting again. -/
def Phase.isReconnecting : Phase → Bool
  | reconnecting _ => true
  | idle | requesting _ => false

/-- The request to come back to a session. -/
def resumeOf (session : SessionCapability) : SessionResume where
  sessionId := session.sessionId
  resumeToken := session.resumeToken

/-- The session that a client takes from an answer, when it is the one it asked
for. -/
def takeSession
    (resume : SessionResume)
    (answer : RpcResult SessionCapability) : Option SessionCapability :=
  match answer with
  | .error _ => none
  | .ok session =>
      if session.capabilityToken.utf8ByteSize = 64 ∧
          session.resumeToken.utf8ByteSize = 64 ∧
          session.sessionId = resume.sessionId then some session
      else none

/-! ## The client and the daemon -/

/-- A client, the session store of the daemon, and what is under way between
them. -/
structure Link where
  session : SessionCapability
  phase : Phase
  registry : SessionRegistry
  nowUnixMs : UInt64
  sent : List SessionResume

/-- A phase that begins sends a resume request when it connects again. -/
def Link.enter (link : Link) (phase : Phase) : Link :=
  { link with
    phase := phase
    sent := if phase.isReconnecting then resumeOf link.session :: link.sent
      else link.sent }

/-- What happens next. -/
inductive Happening
  | time (nowUnixMs : UInt64)
  | create (drawn : List SessionId) (token : String) (scope : PathScope)
      (expiresAtUnixMs : UInt64)
  | foreign (rotated : String) (sessionId : SessionId) (token : String)
      (expiresAtUnixMs : UInt64)
  | restart
  | begins
  | ends (outcome : RequestOutcome)
  | lost (resume : SessionResume)
  | fails
  | handled (moment : OpenMoment) (connectionId : UInt64)
      (params : CapabilitiesParams) (resume : SessionResume) (delivered : Bool)

/-- The tokens that the daemon draws have their form. -/
def Drawn (moment : OpenMoment) : Prop :=
  validResumeToken moment.drawnToken = true ∧
    validResumeToken moment.capabilityToken = true

/-- Nobody but the client presents the token of its session. -/
def Unknown
    (link : Link)
    (sessionId : SessionId)
    (token : String) : Prop :=
  sessionId = link.session.sessionId →
    ∀ stored, link.registry.state.sessions[sessionId.value]? = some stored →
      stored.resumeTokenHash ≠ Blake3.hash (textBytes token)

/-- One step.  The session store works, time does not go back, and drawn tokens
have their form. -/
inductive LinkStep (json : SessionJson) (allowed : PathAuthorizer) :
    Link → Happening → Link → Prop
  | time {link : Link} {later : UInt64} (forward : link.nowUnixMs ≤ later) :
      LinkStep json allowed link (.time later) { link with nowUnixMs := later }
  | create {link : Link} {drawn : List SessionId} {token : String}
      {scope : PathScope} {expires : UInt64}
      {answer : RpcResult CreatedSession} {after : SessionRegistry}
      (created : link.registry.create json none drawn token scope
        link.nowUnixMs expires = some (answer, after)) :
      LinkStep json allowed link (.create drawn token scope expires)
        { link with registry := after }
  | foreign {link : Link} {rotated : String} {sessionId : SessionId}
      {token : String} {expires : UInt64}
      {answer : RpcResult ResumedSession} {after : SessionRegistry}
      (unknown : Unknown link sessionId token)
      (resumed : link.registry.resume json none rotated sessionId token
        link.nowUnixMs expires = (answer, after)) :
      LinkStep json allowed link (.foreign rotated sessionId token expires)
        { link with registry := after }
  | restart {link : Link} {after : SessionRegistry}
      (opened : SessionRegistry.openFile json none link.registry.file =
        .ok after) :
      LinkStep json allowed link .restart { link with registry := after }
  | begins {link : Link} (idle : link.phase = .idle) :
      LinkStep json allowed link .begins
        (link.enter (.start (sessionExpiredAt link.session.expiresAtUnixMs
          link.nowUnixMs)))
  | ends {link : Link} {again : Bool} (outcome : RequestOutcome)
      (requesting : link.phase = .requesting again) :
      LinkStep json allowed link (.ends outcome)
        (link.enter (.afterRequest again (sessionExpiredAt
          link.session.expiresAtUnixMs link.nowUnixMs) outcome))
  | lost {link : Link} (resume : SessionResume) :
      LinkStep json allowed link (.lost resume)
        { link with sent := link.sent.filter fun other =>
          ¬(other.sessionId = resume.sessionId ∧
            other.resumeToken = resume.resumeToken) }
  | fails {link : Link} {again : Bool}
      (reconnecting : link.phase = .reconnecting again) :
      LinkStep json allowed link .fails
        { link with phase := .afterReconnect again false }
  | handledUnseen {link : Link} {moment : OpenMoment} {connectionId : UInt64}
      {params : CapabilitiesParams} {resume : SessionResume} {result : Opened}
      (isSent : resume ∈ link.sent)
      (asks : params.resume = some resume)
      (works : moment.fault = none)
      (isNow : moment.nowUnixMs = link.nowUnixMs)
      (drawn : Drawn moment)
      (opened : openSession json allowed moment connectionId params
        link.registry = some result) :
      LinkStep json allowed link
        (.handled moment connectionId params resume false)
        { link with registry := result.registry }
  | handledSeen {link : Link} {moment : OpenMoment} {connectionId : UInt64}
      {params : CapabilitiesParams} {result : Opened} {again : Bool}
      (isSent : resumeOf link.session ∈ link.sent)
      (asks : params.resume = some (resumeOf link.session))
      (works : moment.fault = none)
      (isNow : moment.nowUnixMs = link.nowUnixMs)
      (drawn : Drawn moment)
      (opened : openSession json allowed moment connectionId params
        link.registry = some result)
      (reconnecting : link.phase = .reconnecting again) :
      LinkStep json allowed link
        (.handled moment connectionId params (resumeOf link.session) true)
        { link with
          registry := result.registry
          session := (takeSession (resumeOf link.session)
            result.answer).getD link.session
          phase := .afterReconnect again
            (takeSession (resumeOf link.session) result.answer).isSome }

/-- A client that has just connected. -/
inductive Connected (json : SessionJson) (allowed : PathAuthorizer) :
    Link → Prop
  | intro {moment : OpenMoment} {connectionId : UInt64}
      {params : CapabilitiesParams} {registry : SessionRegistry}
      {result : Opened} {session : SessionCapability}
      (asks : params.resume = none)
      (works : moment.fault = none)
      (drawn : Drawn moment)
      (opened : openSession json allowed moment connectionId params registry =
        some result)
      (answered : result.answer = .ok session) :
      Connected json allowed {
        session := session
        phase := .idle
        registry := result.registry
        nowUnixMs := moment.nowUnixMs
        sent := [] }

/-- The token of the client is that of an unexpired session. -/
def Link.Current (link : Link) : Prop :=
  validResumeToken link.session.resumeToken = true ∧
    ∃ stored,
      link.registry.state.sessions[link.session.sessionId.value]? =
        some stored ∧
      stored.resumeTokenHash =
        Blake3.hash (textBytes link.session.resumeToken) ∧
      link.nowUnixMs < stored.expiresAtUnixMs

/-! ## The condition -/

/-- A request makes the daemon replace the token of its session. -/
def Replaces
    (json : SessionJson)
    (moment : OpenMoment)
    (connectionId : UInt64)
    (params : CapabilitiesParams)
    (resume : SessionResume)
    (registry : SessionRegistry) : Prop :=
  checkCapabilities connectionId params moment.arriving = .ok () ∧
    ∃ stored, Resumable json moment resume registry stored

/-- A step keeps the client and the daemon together.  The client connects again
before its session expires, and the time does not pass the expiry meanwhile.  A
token that the daemon replaces is replaced for a client that is told the new
one. -/
def Kept
    (json : SessionJson)
    (allowed : PathAuthorizer)
    (link : Link) : Happening → Prop
  | .time later =>
      link.phase.isReconnecting = true →
        later < link.session.expiresAtUnixMs
  | .begins => link.nowUnixMs < link.session.expiresAtUnixMs
  | .ends outcome =>
      (∃ again, link.phase = .requesting again ∧
        (Phase.afterRequest again (sessionExpiredAt
          link.session.expiresAtUnixMs link.nowUnixMs)
          outcome).isReconnecting = true) →
        link.nowUnixMs < link.session.expiresAtUnixMs
  | .handled moment connectionId params resume true =>
      ¬ResumedInVain json allowed moment connectionId params resume
        link.registry
  | .handled moment connectionId params resume false =>
      ¬Replaces json moment connectionId params resume link.registry
  | .create .. | .foreign .. | .restart | .lost _ | .fails => True

/-- A run of any steps. -/
def LinkRun (json : SessionJson) (allowed : PathAuthorizer) :
    Link → Link → Prop :=
  Relation.ReflTransGen fun link next =>
    ∃ happening, LinkStep json allowed link happening next

/-- A run of steps that keep the client and the daemon together. -/
def KeptRun (json : SessionJson) (allowed : PathAuthorizer) :
    Link → Link → Prop :=
  Relation.ReflTransGen fun link next =>
    ∃ happening, LinkStep json allowed link happening next ∧
      Kept json allowed link happening

/-! ## The session store under a client -/

section Store

variable
  {json : SessionJson}
  {allowed : PathAuthorizer}
  {moment : OpenMoment}
  {connectionId : UInt64}
  {params : CapabilitiesParams}
  {asked : SessionResume}
  {registry after : SessionRegistry}
  {result : Opened}

/-- The file keeps the state. -/
def Filed (json : SessionJson) (registry : SessionRegistry) : Prop :=
  ∃ bytes, registry.file = some bytes ∧ json.toVec registry.state = some bytes

theorem Filed.create
    (filed : Filed json registry)
    {fault : Option StorageFault}
    {drawn : List SessionId}
    {token : String}
    {scope : PathScope}
    {nowUnixMs expiresAtUnixMs : UInt64}
    {answer : RpcResult CreatedSession}
    (created : registry.create json fault drawn token scope nowUnixMs
      expiresAtUnixMs = some (answer, after)) :
    Filed json after := by
  cases create_outcome created with
  | refused failure => exact filed
  | opened isDrawn encoded answered => exact ⟨_, rfl, encoded⟩

theorem Filed.resume
    (filed : Filed json registry)
    {fault : Option StorageFault}
    {rotated : String}
    {sessionId : SessionId}
    {token : String}
    {nowUnixMs expiresAtUnixMs : UInt64}
    {answer : RpcResult ResumedSession}
    (resumed : registry.resume json fault rotated sessionId token nowUnixMs
      expiresAtUnixMs = (answer, after)) :
    Filed json after := by
  cases resume_outcome resumed with
  | refused failure => exact filed
  | dropped failure found expired encoded => exact ⟨_, rfl, encoded⟩
  | rotated found live known encoded answered => exact ⟨_, rfl, encoded⟩

/-- Opening the store again gives back its state. -/
theorem Filed.openFile
    (filed : Filed json registry)
    (lawful : json.Lawful)
    {fault : Option LoadFault}
    (opened : SessionRegistry.openFile json fault registry.file = .ok after) :
    after = registry := by
  obtain ⟨bytes, isFile, encoded⟩ := filed
  rw [isFile] at opened
  simp only [SessionRegistry.openFile, loadSessions, lawful.decodes encoded,
    okOr_some, ok_bind, bind_eq_ok, Except.ok.injEq] at opened
  obtain ⟨state, ⟨_, _, _, _, _, _, _, _, _, _, isState⟩, _, _, rfl⟩ := opened
  rw [← isState, ← isFile]

/-- A session that has not expired stays when another one is opened. -/
theorem keepsSessions_create
    {fault : Option StorageFault}
    {drawn : List SessionId}
    {token : String}
    {scope : PathScope}
    {nowUnixMs expiresAtUnixMs : UInt64}
    {answer : RpcResult CreatedSession}
    (created : registry.create json fault drawn token scope nowUnixMs
      expiresAtUnixMs = some (answer, after)) :
    KeepsSessions nowUnixMs registry after := by
  cases create_outcome created with
  | refused failure => exact .refl _ _
  | @opened sessionId bytes answer isDrawn encoded answered =>
      intro key stored found live
      have kept : (unexpired nowUnixMs registry.state).sessions[key]? =
          some stored := by
        simp [unexpired, found, live]
      simp only [opening]
      rw [getElem?_insert_eq]
      split
      · rename_i same
        have free := List.find?_some isDrawn
        rw [same, kept] at free
        cases free
      · exact kept

/-- A session that has not expired stays when its token is not known to who
asks for it. -/
theorem keepsSession_resume
    {fault : Option StorageFault}
    {rotated : String}
    {sessionId : SessionId}
    {token : String}
    {nowUnixMs expiresAtUnixMs : UInt64}
    {answer : RpcResult ResumedSession}
    (resumed : registry.resume json fault rotated sessionId token nowUnixMs
      expiresAtUnixMs = (answer, after))
    {key : String}
    {stored : StoredSession}
    (found : registry.state.sessions[key]? = some stored)
    (live : nowUnixMs < stored.expiresAtUnixMs)
    (unknown : sessionId.value = key →
      stored.resumeTokenHash ≠ Blake3.hash (textBytes token)) :
    after.state.sessions[key]? = some stored := by
  cases resume_outcome resumed with
  | refused failure => exact found
  | @dropped bytes other failure isOther expired encoded =>
      simp only [dropping]
      rw [getElem?_erase_eq]
      split
      · rename_i same
        rw [same, found] at isOther
        cases isOther
        exact absurd live (UInt64.not_lt.mpr expired)
      · exact found
  | @rotated bytes other answer isOther isLive known encoded answered =>
      simp only [rotating]
      rw [getElem?_insert_eq]
      split
      · rename_i same
        rw [same, found] at isOther
        cases isOther
        exact absurd known (unknown same)
      · exact found

/-- A request for a session that is there works on the session store unless it
is refused at once. -/
theorem openSession_resumes
    (asks : params.resume = some asked)
    (opened : openSession json allowed moment connectionId params registry =
      some result) :
    (∃ failure,
      checkCapabilities connectionId params moment.arriving = .error failure ∧
      result.answer = .error failure ∧ result.registry = registry) ∨
    checkCapabilities connectionId params moment.arriving = .ok () ∧
      ∃ answer,
        registry.resume json moment.fault moment.drawnToken asked.sessionId
          asked.resumeToken moment.nowUnixMs moment.expiresAtUnixMs =
          (answer, result.registry) ∧
        result.answer = (do
          let resumed ← answer
          let authorizer ← allowed.grant moment.files resumed.scope
          (installSession connectionId moment
            (asked.sessionId, resumed.resumeToken, authorizer)).1) := by
  rw [openSession] at opened
  split at opened
  · rename_i failure refused
    cases opened
    exact Or.inl ⟨failure, refused, rfl, rfl⟩
  · rename_i accepted
    refine Or.inr ⟨accepted, ?_⟩
    simp only [obtainSession, asks, Option.map_some, Option.some.injEq] at opened
    subst opened
    generalize isResumed : registry.resume json moment.fault moment.drawnToken
      asked.sessionId asked.resumeToken moment.nowUnixMs
      moment.expiresAtUnixMs = resumed
    obtain ⟨answer, after⟩ := resumed
    refine ⟨answer, ?_⟩
    cases answer with
    | error failure => simp
    | ok resumed =>
        cases granted : allowed.grant moment.files resumed.scope <;>
          simp [granted]

/-- The file keeps the state after a request for a session. -/
theorem Filed.openSession
    (filed : Filed json registry)
    (asks : params.resume = some asked)
    (opened : openSession json allowed moment connectionId params registry =
      some result) :
    Filed json result.registry := by
  rcases openSession_resumes asks opened with
    ⟨_, _, _, same⟩ | ⟨_, answer, resumed, _⟩
  · rwa [same]
  · exact filed.resume resumed

/-- A request that does not make the daemon replace a token is refused, and
leaves the sessions. -/
theorem openSession_of_not_replaces
    (asks : params.resume = some asked)
    (works : moment.fault = none)
    (opened : openSession json allowed moment connectionId params registry =
      some result)
    (keeps : ¬Replaces json moment connectionId params asked registry) :
    KeepsSessions moment.nowUnixMs registry result.registry ∧
      ∃ failure, result.answer = .error failure := by
  rcases openSession_resumes asks opened with
    ⟨failure, _, answered, same⟩ | ⟨accepted, answer, resumed, answered⟩
  · rw [same]
    exact ⟨.refl _ _, failure, answered⟩
  · rcases @resume_without_faults json moment asked registry works with
      ⟨stored, resumable, _⟩ | ⟨_, failure, after, refused, kept⟩
    · exact absurd ⟨accepted, stored, resumable⟩ keeps
    · rw [refused] at resumed
      cases resumed
      exact ⟨kept, failure, answered⟩

/-- A request that makes the daemon replace a token, and not in vain, hands out
the new one. -/
theorem openSession_of_replaces
    (asks : params.resume = some asked)
    (works : moment.fault = none)
    (opened : openSession json allowed moment connectionId params registry =
      some result)
    (replaces : Replaces json moment connectionId params asked registry)
    (useful : ¬ResumedInVain json allowed moment connectionId params asked
      registry) :
    moment.nowUnixMs < moment.expiresAtUnixMs ∧
      (∃ stored,
        result.registry.state.sessions[asked.sessionId.value]? = some stored ∧
        stored.resumeTokenHash = Blake3.hash (textBytes moment.drawnToken) ∧
        stored.expiresAtUnixMs = moment.expiresAtUnixMs) ∧
      result.answer = .ok {
        sessionId := asked.sessionId
        capabilityToken := moment.capabilityToken
        resumeToken := moment.drawnToken
        expiresAtUnixMs := moment.expiresAtUnixMs } := by
  obtain ⟨accepted, stored, resumable⟩ := replaces
  rcases openSession_resumes asks opened with
    ⟨failure, refused, _⟩ | ⟨_, answer, resumed, answered⟩
  · rw [accepted] at refused
    cases refused
  · rcases @resume_without_faults json moment asked registry works with
      ⟨other, isOther, bytes, succeeded⟩ | ⟨none, _⟩
    · rw [succeeded, Prod.mk.injEq] at resumed
      obtain ⟨rfl, isAfter⟩ := resumed
      refine ⟨resumable.ends, ⟨{ other with
        resumeTokenHash := Blake3.hash (textBytes moment.drawnToken)
        expiresAtUnixMs := moment.expiresAtUnixMs }, ?_, rfl, rfl⟩, ?_⟩
      · rw [← isAfter]
        simp only [rotating]
        rw [getElem?_insert_eq, if_pos rfl]
      · rw [answered]
        cases granted : allowed.grant moment.files other.scope with
        | error failure =>
            exact absurd ⟨accepted, other, isOther, Or.inl ⟨failure, granted⟩⟩
              useful
        | ok authorizer =>
            cases free : freeConnection connectionId moment.installing with
            | error failure =>
                exact absurd ⟨accepted, other, isOther, Or.inr ⟨failure, free⟩⟩
                  useful
            | ok value => simp [granted, installSession, free]
    · exact absurd resumable (none stored)

end Store

/-! ## What the steps keep -/

/-- The client and the daemon agree on the session while it has not expired. -/
structure Synced (json : SessionJson) (link : Link) : Prop where
  filed : Filed json link.registry
  isToken : validResumeToken link.session.resumeToken = true
  sent : ∀ resume ∈ link.sent, resume.sessionId = link.session.sessionId
  stored : link.nowUnixMs < link.session.expiresAtUnixMs → ∃ stored,
    link.registry.state.sessions[link.session.sessionId.value]? =
      some stored ∧
    stored.resumeTokenHash =
      Blake3.hash (textBytes link.session.resumeToken) ∧
    stored.expiresAtUnixMs = link.session.expiresAtUnixMs
  live : link.phase.isReconnecting = true →
    link.nowUnixMs < link.session.expiresAtUnixMs

section Steps

variable
  {json : SessionJson}
  {allowed : PathAuthorizer}
  {link next : Link}
  {happening : Happening}

/-- A client that connects again presents the token of its session. -/
theorem Synced.current
    (synced : Synced json link)
    (reconnecting : link.phase.isReconnecting = true) :
    link.Current := by
  have live := synced.live reconnecting
  obtain ⟨stored, found, known, expires⟩ := synced.stored live
  exact ⟨synced.isToken, stored, found, known, by rwa [expires]⟩

/-- Another state of the session store, which keeps the sessions that have not
expired. -/
theorem Synced.store
    (synced : Synced json link)
    {after : SessionRegistry}
    (filed : Filed json after)
    (keeps : ∀ stored,
      link.registry.state.sessions[link.session.sessionId.value]? =
        some stored →
      stored.resumeTokenHash =
        Blake3.hash (textBytes link.session.resumeToken) →
      link.nowUnixMs < stored.expiresAtUnixMs →
      after.state.sessions[link.session.sessionId.value]? = some stored) :
    Synced json { link with registry := after } where
  filed := filed
  isToken := synced.isToken
  sent := synced.sent
  live := synced.live
  stored := by
    intro live
    obtain ⟨stored, found, known, expires⟩ := synced.stored live
    exact ⟨stored, keeps stored found known (by rwa [expires]), known, expires⟩

/-- Another phase, in time when it connects again. -/
theorem Synced.enter
    (synced : Synced json link)
    {phase : Phase}
    (inTime : phase.isReconnecting = true →
      link.nowUnixMs < link.session.expiresAtUnixMs) :
    Synced json (link.enter phase) where
  filed := synced.filed
  isToken := synced.isToken
  sent := by
    intro resume isSent
    simp only [Link.enter] at isSent ⊢
    split at isSent
    · rcases List.mem_cons.mp isSent with rfl | isSent
      · rfl
      · exact synced.sent resume isSent
    · exact synced.sent resume isSent
  stored := synced.stored
  live := inTime

/-- The store keeps the session of the client when another session of the same
daemon is resumed. -/
theorem Synced.foreign
    (synced : Synced json link)
    {rotated : String}
    {sessionId : SessionId}
    {token : String}
    {expires : UInt64}
    {answer : RpcResult ResumedSession}
    {after : SessionRegistry}
    (unknown : Unknown link sessionId token)
    (resumed : link.registry.resume json none rotated sessionId token
      link.nowUnixMs expires = (answer, after)) :
    Synced json { link with registry := after } := by
  refine synced.store (synced.filed.resume resumed) ?_
  intro stored found known live
  refine keepsSession_resume resumed found live ?_
  intro same
  refine unknown ?_ stored (same ▸ found)
  cases sessionId
  cases isSession : link.session.sessionId
  simp_all

/-- A request of the client that no longer waits for the answer, when it is
refused. -/
theorem Synced.handledUnseen
    (synced : Synced json link)
    {moment : OpenMoment}
    {connectionId : UInt64}
    {params : CapabilitiesParams}
    {resume : SessionResume}
    {result : Opened}
    (asks : params.resume = some resume)
    (works : moment.fault = none)
    (isNow : moment.nowUnixMs = link.nowUnixMs)
    (opened : openSession json allowed moment connectionId params
      link.registry = some result)
    (keeps : ¬Replaces json moment connectionId params resume link.registry) :
    Synced json { link with registry := result.registry } := by
  obtain ⟨kept, _⟩ := openSession_of_not_replaces asks works opened keeps
  refine synced.store (synced.filed.openSession asks opened) ?_
  intro stored found _ live
  exact kept _ stored found (by rwa [isNow])

/-- A request of the client with its answer, unless the session was resumed in
vain. -/
theorem Synced.handledSeen
    (synced : Synced json link)
    {moment : OpenMoment}
    {connectionId : UInt64}
    {params : CapabilitiesParams}
    {result : Opened}
    {again : Bool}
    (asks : params.resume = some (resumeOf link.session))
    (works : moment.fault = none)
    (isNow : moment.nowUnixMs = link.nowUnixMs)
    (drawn : Drawn moment)
    (opened : openSession json allowed moment connectionId params
      link.registry = some result)
    (useful : ¬ResumedInVain json allowed moment connectionId params
      (resumeOf link.session) link.registry) :
    Synced json { link with
      registry := result.registry
      session := (takeSession (resumeOf link.session)
        result.answer).getD link.session
      phase := .afterReconnect again
        (takeSession (resumeOf link.session) result.answer).isSome } := by
  have filed := synced.filed.openSession asks opened
  by_cases replaces : Replaces json moment connectionId params
      (resumeOf link.session) link.registry
  · obtain ⟨ends, isStored, answered⟩ :=
      openSession_of_replaces asks works opened replaces useful
    have taken : takeSession (resumeOf link.session) result.answer = some {
        sessionId := link.session.sessionId
        capabilityToken := moment.capabilityToken
        resumeToken := moment.drawnToken
        expiresAtUnixMs := moment.expiresAtUnixMs } := by
      rw [answered]
      exact if_pos ⟨validResumeToken_utf8ByteSize drawn.2,
        validResumeToken_utf8ByteSize drawn.1, rfl⟩
    rw [taken]
    exact {
      filed := filed
      isToken := drawn.1
      sent := synced.sent
      stored := fun _ => isStored
      live := nofun }
  · obtain ⟨kept, failure, answered⟩ :=
      openSession_of_not_replaces asks works opened replaces
    have taken : takeSession (resumeOf link.session) result.answer = none := by
      rw [answered]
      rfl
    rw [taken]
    have unseen := synced.store filed (fun stored found _ live =>
      kept _ stored found (by rwa [isNow]))
    exact { unseen with live := nofun }

/-- What the steps keep, under their condition. -/
theorem Synced.step
    (lawful : json.Lawful)
    (synced : Synced json link)
    (step : LinkStep json allowed link happening next)
    (kept : Kept json allowed link happening) :
    Synced json next := by
  cases step with
  | time forward =>
      exact { synced with
        stored := fun live => synced.stored (UInt64.lt_of_le_of_lt forward live)
        live := kept }
  | create created =>
      refine synced.store (synced.filed.create created) ?_
      intro stored found _ live
      exact keepsSessions_create created _ stored found live
  | foreign unknown resumed => exact synced.foreign unknown resumed
  | restart opened =>
      rw [synced.filed.openFile lawful opened]
      exact synced
  | begins idle => exact synced.enter fun _ => kept
  | ends outcome requesting =>
      exact synced.enter fun reconnecting => kept ⟨_, requesting, reconnecting⟩
  | lost resume =>
      exact { synced with
        sent := fun other isSent =>
          synced.sent other (List.mem_of_mem_filter isSent) }
  | fails reconnecting => exact { synced with live := nofun }
  | handledUnseen isSent asks works isNow drawn opened =>
      exact synced.handledUnseen asks works isNow opened kept
  | handledSeen isSent asks works isNow drawn opened reconnecting =>
      exact synced.handledSeen asks works isNow drawn opened kept

/-- A client that has just connected agrees with the daemon. -/
theorem Connected.synced
    (connected : Connected json allowed link) :
    Synced json link := by
  obtain ⟨asks, works, drawn, opened, answered⟩ := connected
  rename_i moment connectionId params registry result session
  rw [openSession] at opened
  split at opened
  · cases opened
    cases answered
  · simp only [obtainSession, asks] at opened
    split at opened
    · cases opened
      cases answered
    · rename_i authorizer _
      cases isCreated : registry.create json moment.fault moment.drawnIds
          moment.drawnToken authorizer.scope moment.nowUnixMs
          moment.expiresAtUnixMs with
      | none =>
          rw [isCreated] at opened
          cases opened
      | some created =>
          obtain ⟨creation, after⟩ := created
          simp only [isCreated, Option.map_some, Option.some.injEq] at opened
          cases creation with
          | error failure =>
              subst opened
              cases answered
          | ok creation =>
              subst opened
              simp only [Except.map, installSession] at answered ⊢
              split at answered
              · cases answered
              · cases answered
                cases create_outcome isCreated with
                | opened isDrawn encoded isCreation =>
                    have same := isCreation creation rfl
                    subst same
                    exact {
                      filed := ⟨_, rfl, encoded⟩
                      isToken := drawn.1
                      sent := by rintro _ ⟨⟩
                      stored := fun _ => ⟨_, by
                        simp only [opening]
                        rw [getElem?_insert_eq, if_pos rfl], rfl, rfl⟩
                      live := by rintro ⟨⟩ }

/-- A run of such steps keeps the agreement. -/
theorem Synced.run
    (lawful : json.Lawful)
    {first last : Link}
    (synced : Synced json first)
    (run : KeptRun json allowed first last) :
    Synced json last := by
  induction run with
  | refl => exact synced
  | tail before step inductionHypothesis =>
      obtain ⟨happening, step, kept⟩ := step
      exact inductionHypothesis.step lawful step kept

end Steps

/-! ## The guarantee -/

/-- A client that connects again presents the token that the daemon keeps for
its unexpired session, as long as it does so before the expiry and no token was
replaced without its knowledge. -/
theorem client_continuity
    {json : SessionJson}
    (lawful : json.Lawful)
    {allowed : PathAuthorizer}
    {first last : Link}
    (connected : Connected json allowed first)
    (run : KeptRun json allowed first last)
    (reconnecting : last.phase.isReconnecting = true) :
    last.Current :=
  (connected.synced.run lawful run).current reconnecting

/-- Files with one directory. -/
def sampleHome : HostFiles where
  disk := ⟨.directory newDirectory
    [(textBytes "a", .directory newDirectory [])], [], rfl⟩
  workingDirectory := []
  longestPath := 4095
  named := by
    refine named_directory _ ?_
    simp only [List.mem_singleton, forall_eq]
    refine ⟨?_, named_of_isLeaf (Node.isLeaf_directory _)⟩
    exact ⟨⟨⟨by decide, by decide, by decide⟩, by decide⟩, by decide⟩
  isDirectory := ⟨newDirectory, rfl⟩

/-- A client connects, and has its session until time 2. -/
def sampleOpening : OpenMoment where
  nowUnixMs := 1
  sessionTtlMs := 1
  files := sampleHome
  fault := none
  drawnIds := [sampleSessionId]
  drawnToken := sampleToken '0'
  capabilityToken := sampleToken '2'
  arriving := (∅ : Connections).insert 7 none
  installing := (∅ : Connections).insert 7 none

/-- A link that has just been given a session. -/
def sampleLink : Link where
  session := {
    sessionId := sampleSessionId
    capabilityToken := sampleToken '2'
    resumeToken := sampleToken '0'
    expiresAtUnixMs := 2 }
  phase := .idle
  registry := sampleSessionRegistry '0' 2
  nowUnixMs := 1
  sent := []

theorem sampleLink_connected :
    Connected sampleSessionJson (sampleAuthorizer "/") sampleLink := by
  have checked : checkCapabilities 7 { sampleCapabilities with resume := none }
      sampleOpening.arriving = .ok () := by
    have short : "cli".utf8ByteSize ≤ maxClientNameBytes := by decide
    simp [checkCapabilities, sampleCapabilities, sampleOpening, ensure, short]
  have granted : (sampleAuthorizer "/").grant sampleOpening.files sampleScope =
      .ok ⟨[textBytes "/a"], []⟩ := rfl
  have ends : sampleOpening.expiresAtUnixMs = 2 := rfl
  have created : SessionRegistry.create sampleSessionJson sampleOpening.fault
      sampleOpening.drawnIds sampleOpening.drawnToken sampleScope
      sampleOpening.nowUnixMs sampleOpening.expiresAtUnixMs ⟨.initial, none⟩ =
        some (.ok ⟨sampleSessionId, sampleToken '0'⟩,
          sampleSessionRegistry '0' 2) := by
    rw [ends]
    exact sample_create
  have free : freeConnection 7 sampleOpening.installing = .ok () := by
    simp [freeConnection, sampleOpening, ensure]
  have installed : (installSession 7 sampleOpening
      (sampleSessionId, sampleToken '0', ⟨[textBytes "/a"], []⟩)).1 =
        .ok sampleLink.session := by
    rw [installSession, free]
    rfl
  have opened : openSession sampleSessionJson (sampleAuthorizer "/")
      sampleOpening 7 { sampleCapabilities with resume := none }
      ⟨.initial, none⟩ =
      some ⟨.ok sampleLink.session, sampleSessionRegistry '0' 2,
        (installSession 7 sampleOpening
          (sampleSessionId, sampleToken '0', ⟨[textBytes "/a"], []⟩)).2,
        false⟩ := by
    have scope : sampleCapabilities.requestedScope = sampleScope := rfl
    have same : PathAuthorizer.scope ⟨[textBytes "/a"], []⟩ = sampleScope := rfl
    rw [openSession, checked]
    simp only [obtainSession, scope, granted]
    rw [same, created]
    simp only [Option.map_some, Except.map, installed]
  exact @Connected.intro _ _ _ _ _ _ _ _ rfl rfl
    ⟨by decide +kernel, by decide +kernel⟩ opened rfl

/-- A transport error at time 1 makes the client connect again in time. -/
theorem client_continuity_sample :
    ((sampleLink.enter (.requesting false)).enter
      (.reconnecting true)).Current := by
  have live : sampleLink.nowUnixMs < sampleLink.session.expiresAtUnixMs := by
    decide
  have begun : LinkStep sampleSessionJson (sampleAuthorizer "/") sampleLink
      .begins (sampleLink.enter (.requesting false)) :=
    @LinkStep.begins _ _ sampleLink rfl
  have ended : LinkStep sampleSessionJson (sampleAuthorizer "/")
      (sampleLink.enter (.requesting false)) (.ends .transport)
      ((sampleLink.enter (.requesting false)).enter (.reconnecting true)) :=
    @LinkStep.ends _ _ (sampleLink.enter (.requesting false)) false .transport
      rfl
  exact client_continuity sampleSessionJson_lawful sampleLink_connected
    (.tail (.tail .refl ⟨_, begun, live⟩) ⟨_, ended, fun _ => live⟩) rfl

/-- At time 2 the session has expired for the client as for the daemon: the
client connects again and presents a token that is refused. -/
theorem client_continuity_expired :
    ∃ last, LinkRun sampleSessionJson (sampleAuthorizer "/") sampleLink last ∧
      Connected sampleSessionJson (sampleAuthorizer "/") sampleLink ∧
      last.phase.isReconnecting = true ∧ ¬last.Current := by
  refine ⟨({ sampleLink with nowUnixMs := 2 }).enter (.reconnecting false),
    ?_, sampleLink_connected, rfl, ?_⟩
  · exact .tail (.tail .refl ⟨.time 2, .time (by decide)⟩)
      ⟨.begins, .begins rfl⟩
  · rintro ⟨_, stored, found, _, live⟩
    change (sampleSessions '0' 2).sessions[sampleSessionId.value]? = _ at found
    rw [sampleSessions_found, Option.some.injEq] at found
    subst found
    exact absurd live (by decide)

end Pithos.Cli
