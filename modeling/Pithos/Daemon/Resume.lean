import Pithos.Library.Lists
import Pithos.Daemon.Sessions

/-!
# Resuming sessions

A resume token works once.  The runs are those of the session store with its
file: calls that may fail at any step of a commit, stops of the daemon, losses of
power that leave any file not yet known to be durable, and openings.

The invariant looks at all states that may come back.  Whatever token such a
state accepts for a session was drawn by a call for that session, and no later
call has handed out another one.
-/

namespace Pithos.Daemon

open Fallible
open Lists
open Std
open MapValues
open Bytes
open SessionRegistry

/-! ## Runs -/

/-- A call of the session store that has ended, with what it drew. -/
inductive SessionCall
  | create (sessionId : Option SessionId) (drawnToken : String)
      (scope : PathScope) (nowUnixMs expiresAtUnixMs : UInt64)
      (answer : RpcResult CreatedSession)
  | resume (drawnToken : String) (sessionId : SessionId)
      (resumeToken : String) (nowUnixMs expiresAtUnixMs : UInt64)
      (answer : RpcResult ResumedSession)

namespace SessionCall

/-- The token that a call draws. -/
def drawnToken : SessionCall → String
  | create _ token _ _ _ _ => token
  | resume token _ _ _ _ _ => token

/-- The tokens that occur in a call. -/
def tokens : SessionCall → List String
  | create _ token _ _ _ _ => [token]
  | resume token _ presented _ _ _ => [token, presented]

/-- The expiry that a call asks for. -/
def expiry : SessionCall → UInt64
  | create _ _ _ _ expires _ => expires
  | resume _ _ _ _ expires _ => expires

/-- The session that a call is about. -/
def session : SessionCall → Option String
  | create sessionId _ _ _ _ _ => sessionId.map SessionId.value
  | resume _ sessionId _ _ _ _ => some sessionId.value

/-- The token that a call hands out. -/
def issued : SessionCall → Option String
  | create _ _ _ _ _ (.ok created) => some created.resumeToken
  | resume _ _ _ _ _ (.ok resumed) => some resumed.resumeToken
  | _ => none

/-- A call hands out a token for a session. -/
def IssuesFor (key : String) (call : SessionCall) : Prop :=
  call.session = some key ∧ call.issued.isSome

instance (key : String) (call : SessionCall) :
    Decidable (call.IssuesFor key) :=
  inferInstanceAs (Decidable (_ ∧ _))

/-- A call opens a session with a scope. -/
def OpensWith (key : String) (scope : PathScope) : SessionCall → Prop
  | create sessionId _ opened _ _ _ =>
      sessionId.map SessionId.value = some key ∧ opened = scope
  | resume .. => False

/-- A call succeeds in opening a session. -/
def Opens (key : String) : SessionCall → Prop
  | create sessionId _ _ _ _ (.ok _) =>
      sessionId.map SessionId.value = some key
  | _ => False

/-- A call accepts a token for a session. -/
def Accepts (key token : String) (nowUnixMs : UInt64) (scope : PathScope) :
    SessionCall → Prop
  | resume _ sessionId presented now _ (.ok resumed) =>
      sessionId.value = key ∧ presented = token ∧ now = nowUnixMs ∧
        resumed.scope = scope
  | _ => False

end SessionCall

/-- The tokens handed out for a session, in order. -/
def issuedTokens (key : String) (calls : List SessionCall) : List String :=
  (calls.filter fun call => call.IssuesFor key).filterMap SessionCall.issued

/-- The store between two steps: in use, or only a file. -/
inductive SessionStore
  | down (file : Option (List UInt8))
  | up (registry : SessionRegistry)

/-- The file of a store. -/
def SessionStore.file : SessionStore → Option (List UInt8)
  | down file => file
  | up registry => registry.file

/-- A store on a disk.  A loss of power leaves one of the survivors in place of
the file. -/
structure SessionHost where
  store : SessionStore
  survivors : List (Option (List UInt8))

/-- The files that may be left after a call.  A call that succeeds has made its
file durable. -/
def survivorsAfter
    {α : Type}
    (answer : RpcResult α)
    (registry : SessionRegistry)
    (survivors : List (Option (List UInt8))) : List (Option (List UInt8)) :=
  match answer with
  | .ok _ => [registry.file]
  | .error _ => registry.file :: survivors

/-- One step of the store.  A call cut short by a stop is a call that fails,
followed by the stop. -/
inductive SessionStep (json : SessionJson) :
    SessionHost → List SessionCall → SessionHost → Prop
  | create {fault : Option StorageFault} {drawn : List SessionId}
      {token : String} {scope : PathScope}
      {nowUnixMs expiresAtUnixMs : UInt64} {registry after : SessionRegistry}
      {answer : RpcResult CreatedSession}
      (survivors : List (Option (List UInt8)))
      (created : registry.create json fault drawn token scope nowUnixMs
        expiresAtUnixMs = some (answer, after)) :
      SessionStep json ⟨.up registry, survivors⟩
        [.create (drawSessionId drawn (unexpired nowUnixMs registry.state))
          token scope nowUnixMs expiresAtUnixMs answer]
        ⟨.up after, survivorsAfter answer after survivors⟩
  | resume {fault : Option StorageFault} {rotated : String}
      {sessionId : SessionId} {token : String}
      {nowUnixMs expiresAtUnixMs : UInt64} {registry after : SessionRegistry}
      {answer : RpcResult ResumedSession}
      (survivors : List (Option (List UInt8)))
      (resumed : registry.resume json fault rotated sessionId token nowUnixMs
        expiresAtUnixMs = (answer, after)) :
      SessionStep json ⟨.up registry, survivors⟩
        [.resume rotated sessionId token nowUnixMs expiresAtUnixMs answer]
        ⟨.up after, survivorsAfter answer after survivors⟩
  | stop (registry : SessionRegistry)
      (survivors : List (Option (List UInt8))) :
      SessionStep json ⟨.up registry, survivors⟩ []
        ⟨.down registry.file, survivors⟩
  | powerLoss {survivors : List (Option (List UInt8))}
      {left : Option (List UInt8)} (store : SessionStore)
      (survives : left ∈ survivors) :
      SessionStep json ⟨store, survivors⟩ [] ⟨.down left, [left]⟩
  | opened {loadFault : Option LoadFault} {file : Option (List UInt8)}
      {registry : SessionRegistry} (survivors : List (Option (List UInt8)))
      (succeeded : SessionRegistry.openFile json loadFault file =
        .ok registry) :
      SessionStep json ⟨.down file, survivors⟩ [] ⟨.up registry, survivors⟩
  | openFailed {loadFault : Option LoadFault} {file : Option (List UInt8)}
      {failure : JsonRpcError} (survivors : List (Option (List UInt8)))
      (failed : SessionRegistry.openFile json loadFault file =
        .error failure) :
      SessionStep json ⟨.down file, survivors⟩ [] ⟨.down file, survivors⟩

/-- A run from a disk without a store, with its calls in order. -/
inductive SessionRun (json : SessionJson) :
    SessionHost → List SessionCall → Prop
  | start : SessionRun json ⟨.down none, [none]⟩ []
  | step {host next : SessionHost} {calls new : List SessionCall}
      (before : SessionRun json host calls)
      (step : SessionStep json host new next) :
      SessionRun json next (calls ++ new)

/-- What the store relies on in the JSON crate: what was encoded comes back. -/
structure SessionJson.Lawful (json : SessionJson) : Prop where
  decodes : ∀ {state bytes}, json.toVec state = some bytes →
    json.fromSlice bytes = some state

/-! ## The invariant -/

/-- A session in a state that may come back, as the calls have left it: the last
call that handed out a token for it, or a later one that failed, drew its
token. -/
structure Backed
    (calls : List SessionCall)
    (key : String)
    (stored : StoredSession) : Prop where
  token : ∃ (time : Nat) (call : SessionCall),
    calls[time]? = some call ∧ call.session = some key ∧
      stored.resumeTokenHash = Blake3.hash (textBytes call.drawnToken) ∧
      stored.expiresAtUnixMs = call.expiry ∧
      ∀ (later : Nat) other, time < later → calls[later]? = some other →
        ¬other.IssuesFor key
  scope : ∃ (time : Nat) (call : SessionCall),
    calls[time]? = some call ∧ call.OpensWith key stored.scope ∧
      ∀ (later : Nat) other, time < later → calls[later]? = some other →
        ¬other.Opens key

/-- All sessions of a state are backed. -/
def StateBacked (calls : List SessionCall) (state : PersistentSessions) :
    Prop :=
  ∀ (key : String) stored, state.sessions[key]? = some stored →
    Backed calls key stored

/-- A file keeps a state whose sessions are backed. -/
def FileBacked
    (json : SessionJson)
    (calls : List SessionCall)
    (file : Option (List UInt8)) : Prop :=
  ∀ bytes, file = some bytes →
    ∃ state, json.toVec state = some bytes ∧ StateBacked calls state

/-- Every state that may come back is backed. -/
structure HostBacked
    (json : SessionJson)
    (calls : List SessionCall)
    (host : SessionHost) : Prop where
  live : ∀ registry, host.store = .up registry →
    StateBacked calls registry.state
  file : FileBacked json calls host.store.file
  survivors : ∀ file ∈ host.survivors, FileBacked json calls file

section Backing

variable
  {json : SessionJson}
  {calls : List SessionCall}
  {call : SessionCall}
  {key : String}
  {stored : StoredSession}

/-- The last call is the only one after it. -/
theorem not_after_length
    {time : Nat}
    {other : SessionCall}
    (later : calls.length < time) :
    (calls ++ [call])[time]? ≠ some other := by
  rw [List.getElem?_eq_none (by simp; omega)]
  exact (Option.some_ne_none other).symm

/-- A session stays backed when a call hands out nothing for it. -/
theorem Backed.concat
    (backed : Backed calls key stored)
    (issuesNothing : ¬call.IssuesFor key)
    (opensNothing : ¬call.Opens key) :
    Backed (calls ++ [call]) key stored := by
  obtain ⟨⟨time, issue, isIssue, session, hash, expiry, latest⟩,
    opened, creation, isCreation, opens, last⟩ := backed
  refine ⟨⟨time, issue, getElem?_concat_eq_some.mpr (.inl isIssue), session,
    hash, expiry, ?_⟩, opened, creation,
    getElem?_concat_eq_some.mpr (.inl isCreation), opens, ?_⟩
  · intro later other after isOther
    rcases getElem?_concat_eq_some.mp isOther with isOther | ⟨_, rfl⟩
    · exact latest later other after isOther
    · exact issuesNothing
  · intro later other after isOther
    rcases getElem?_concat_eq_some.mp isOther with isOther | ⟨_, rfl⟩
    · exact last later other after isOther
    · exact opensNothing

/-- A call that fails changes nothing about the states that may come back. -/
theorem FileBacked.concat
    {file : Option (List UInt8)}
    (backed : FileBacked json calls file)
    (issuesNothing : ∀ key, ¬call.IssuesFor key)
    (opensNothing : ∀ key, ¬call.Opens key) :
    FileBacked json (calls ++ [call]) file := by
  intro bytes isFile
  obtain ⟨state, encoded, sessions⟩ := backed bytes isFile
  exact ⟨state, encoded, fun key stored found =>
    (sessions key stored found).concat (issuesNothing key) (opensNothing key)⟩

/-- A session that has just been opened. -/
theorem Backed.opened
    (sessionId : SessionId)
    (token : String)
    (scope : PathScope)
    (nowUnixMs expiresAtUnixMs : UInt64)
    (answer : RpcResult CreatedSession) :
    Backed
      (calls ++ [.create (some sessionId) token scope nowUnixMs
        expiresAtUnixMs answer])
      sessionId.value
      { resumeTokenHash := Blake3.hash (textBytes token)
        scope := scope
        expiresAtUnixMs := expiresAtUnixMs } where
  token := ⟨calls.length, _, getElem?_concat_eq_some.mpr (.inr ⟨rfl, rfl⟩),
    rfl, rfl, rfl, fun _ _ later isOther =>
      absurd isOther (not_after_length later)⟩
  scope := ⟨calls.length, _, getElem?_concat_eq_some.mpr (.inr ⟨rfl, rfl⟩),
    ⟨rfl, rfl⟩, fun _ _ later isOther =>
      absurd isOther (not_after_length later)⟩

/-- A session whose token has just been replaced. -/
theorem Backed.rotated
    {sessionId : SessionId}
    (backed : Backed calls sessionId.value stored)
    (rotated token : String)
    (nowUnixMs expiresAtUnixMs : UInt64)
    (answer : RpcResult ResumedSession) :
    Backed
      (calls ++ [.resume rotated sessionId token nowUnixMs expiresAtUnixMs
        answer])
      sessionId.value
      { stored with
        resumeTokenHash := Blake3.hash (textBytes rotated)
        expiresAtUnixMs := expiresAtUnixMs } where
  token := ⟨calls.length, _, getElem?_concat_eq_some.mpr (.inr ⟨rfl, rfl⟩),
    rfl, rfl, rfl, fun _ _ later isOther =>
      absurd isOther (not_after_length later)⟩
  scope := by
    obtain ⟨opened, creation, isCreation, opens, last⟩ := backed.scope
    refine ⟨opened, creation, getElem?_concat_eq_some.mpr (.inl isCreation),
      opens, ?_⟩
    intro later other after isOther
    rcases getElem?_concat_eq_some.mp isOther with isOther | ⟨_, rfl⟩
    · exact last later other after isOther
    · exact id

/-- The state that a successful opening leaves. -/
theorem StateBacked.opening
    {state : PersistentSessions}
    (backed : StateBacked calls state)
    (sessionId : SessionId)
    (token : String)
    (scope : PathScope)
    (nowUnixMs expiresAtUnixMs : UInt64)
    (answer : RpcResult CreatedSession) :
    StateBacked
      (calls ++ [.create (some sessionId) token scope nowUnixMs
        expiresAtUnixMs answer])
      (SessionRegistry.opening sessionId token scope expiresAtUnixMs
        (unexpired nowUnixMs state)) := by
  intro key stored found
  simp only [SessionRegistry.opening] at found
  rw [getElem?_insert_eq] at found
  split at found
  · rename_i same
    cases found
    rw [← same]
    exact .opened sessionId token scope nowUnixMs expiresAtUnixMs answer
  · rename_i different
    simp only [unexpired, ExtTreeMap.getElem?_filter', Option.filter_eq_some_iff]
      at found
    refine (backed key stored found.1).concat ?_ ?_
    · rintro ⟨isSession, _⟩
      exact different (Option.some.inj isSession)
    · cases answer with
      | error failure => exact id
      | ok created => exact fun isSession => different (Option.some.inj isSession)

/-- The state that a replaced token leaves. -/
theorem StateBacked.rotating
    {state : PersistentSessions}
    (backed : StateBacked calls state)
    {sessionId : SessionId}
    (found : state.sessions[sessionId.value]? = some stored)
    (rotated token : String)
    (nowUnixMs expiresAtUnixMs : UInt64)
    (answer : RpcResult ResumedSession) :
    StateBacked
      (calls ++ [.resume rotated sessionId token nowUnixMs expiresAtUnixMs
        answer])
      (SessionRegistry.rotating rotated sessionId expiresAtUnixMs stored
        state) := by
  intro key kept isKept
  simp only [SessionRegistry.rotating] at isKept
  rw [getElem?_insert_eq] at isKept
  split at isKept
  · rename_i same
    cases isKept
    rw [← same]
    exact (backed _ _ found).rotated rotated token nowUnixMs expiresAtUnixMs
      answer
  · rename_i different
    refine (backed key kept isKept).concat ?_ id
    rintro ⟨isSession, _⟩
    exact different (Option.some.inj isSession)

/-- The state that is left when a call has failed. -/
theorem StateBacked.failed
    {state next : PersistentSessions}
    (backed : StateBacked calls state)
    (fewer : ∀ (key : String) stored, next.sessions[key]? = some stored →
      state.sessions[key]? = some stored)
    (issuesNothing : ∀ key, ¬call.IssuesFor key)
    (opensNothing : ∀ key, ¬call.Opens key) :
    StateBacked (calls ++ [call]) next :=
  fun key stored found => (backed key stored (fewer key stored found)).concat
    (issuesNothing key) (opensNothing key)

/-! ## Steps -/

/-- The host after a call whose state is backed. -/
theorem HostBacked.after
    {α : Type}
    {registry after : SessionRegistry}
    {survivors : List (Option (List UInt8))}
    (backed : HostBacked json calls ⟨.up registry, survivors⟩)
    (answer : RpcResult α)
    (state : StateBacked (calls ++ [call]) after.state)
    (encoded : after.file = registry.file ∨
      ∃ bytes, after.file = some bytes ∧ json.toVec after.state = some bytes)
    (silent : ∀ failure, answer = .error failure →
      (∀ key, ¬call.IssuesFor key) ∧ ∀ key, ¬call.Opens key)
    (answered : ∀ value, answer = .ok value → ∃ bytes,
      after.file = some bytes ∧ json.toVec after.state = some bytes) :
    HostBacked json (calls ++ [call])
      ⟨.up after, survivorsAfter answer after survivors⟩ := by
  have written (bytes : List UInt8) (isFile : after.file = some bytes)
      (isEncoded : json.toVec after.state = some bytes) :
      FileBacked json (calls ++ [call]) after.file := by
    intro other isOther
    rw [isFile] at isOther
    cases isOther
    exact ⟨_, isEncoded, state⟩
  cases answer with
  | ok value =>
      obtain ⟨bytes, isFile, isEncoded⟩ := answered value rfl
      have file := written bytes isFile isEncoded
      refine ⟨?_, file, ?_⟩
      · rintro _ ⟨⟩
        exact state
      · intro other isOther
        rw [List.mem_singleton.mp isOther]
        exact file
  | error failure =>
      obtain ⟨issuesNothing, opensNothing⟩ := silent failure rfl
      have file : FileBacked json (calls ++ [call]) after.file := by
        rcases encoded with sameFile | ⟨bytes, isFile, isEncoded⟩
        · rw [sameFile]
          exact backed.file.concat issuesNothing opensNothing
        · exact written bytes isFile isEncoded
      refine ⟨?_, file, ?_⟩
      · rintro _ ⟨⟩
        exact state
      · intro other isOther
        rcases List.mem_cons.mp isOther with rfl | isOther
        · exact file
        · exact (backed.survivors other isOther).concat issuesNothing
            opensNothing

/-- Opening the store loads a backed state. -/
theorem FileBacked.openFile
    (lawful : json.Lawful)
    {file : Option (List UInt8)}
    (backed : FileBacked json calls file)
    {loadFault : Option LoadFault}
    {registry : SessionRegistry}
    (opened : SessionRegistry.openFile json loadFault file = .ok registry) :
    StateBacked calls registry.state ∧ registry.file = file := by
  simp only [SessionRegistry.openFile, loadSessions, bind_eq_ok, ensure_eq_ok,
    exists_const, Except.ok.injEq] at opened
  obtain ⟨state, ⟨_, loaded⟩, _, rfl⟩ := opened
  refine ⟨?_, rfl⟩
  cases file with
  | none =>
      cases loaded
      intro key stored found
      simp [PersistentSessions.initial] at found
  | some bytes =>
      simp only [bind_eq_ok, ensure_eq_ok, okOr_eq_ok, exists_const,
        Except.ok.injEq] at loaded
      obtain ⟨_, _, _, _, decoded, _, rfl⟩ := loaded
      obtain ⟨kept, encoded, sessions⟩ := backed bytes rfl
      rw [lawful.decodes encoded, Option.some.injEq] at decoded
      subst decoded
      exact sessions

theorem HostBacked.step
    (lawful : json.Lawful)
    {host next : SessionHost}
    {new : List SessionCall}
    (backed : HostBacked json calls host)
    (step : SessionStep json host new next) :
    HostBacked json (calls ++ new) next := by
  cases step with
  | @create fault drawn token scope now expires registry after answer
      survivors created =>
      have live := backed.live registry rfl
      have silent (failure : JsonRpcError) (failed : answer = .error failure) :
          (∀ key, ¬SessionCall.IssuesFor key (.create (drawSessionId drawn
            (unexpired now registry.state)) token scope now expires answer)) ∧
          ∀ key, ¬SessionCall.Opens key (.create (drawSessionId drawn
            (unexpired now registry.state)) token scope now expires answer) := by
        subst failed
        exact ⟨fun _ issues => Bool.false_ne_true issues.2, fun _ => id⟩
      cases create_outcome created with
      | refused failure =>
          obtain ⟨issuesNothing, opensNothing⟩ := silent failure rfl
          exact backed.after _ (live.failed (fun _ _ => id) issuesNothing
            opensNothing) (.inl rfl) silent nofun
      | opened isDrawn encoded answered =>
          rw [isDrawn] at silent ⊢
          exact backed.after _ (live.opening _ _ _ _ _ _)
            (.inr ⟨_, rfl, encoded⟩) silent fun _ _ => ⟨_, rfl, encoded⟩
  | @resume fault rotated sessionId token now expires registry after answer
      survivors resumed =>
      have live := backed.live registry rfl
      have silent (failure : JsonRpcError) (failed : answer = .error failure) :
          (∀ key, ¬SessionCall.IssuesFor key (.resume rotated sessionId token
            now expires answer)) ∧
          ∀ key, ¬SessionCall.Opens key (.resume rotated sessionId token
            now expires answer) := by
        subst failed
        exact ⟨fun _ issues => Bool.false_ne_true issues.2, fun _ => id⟩
      cases resume_outcome resumed with
      | refused failure =>
          obtain ⟨issuesNothing, opensNothing⟩ := silent failure rfl
          exact backed.after _ (live.failed (fun _ _ => id) issuesNothing
            opensNothing) (.inl rfl) silent nofun
      | dropped failure found expired encoded =>
          obtain ⟨issuesNothing, opensNothing⟩ := silent failure rfl
          refine backed.after _ (live.failed ?_ issuesNothing opensNothing)
            (.inr ⟨_, rfl, encoded⟩) silent nofun
          intro key stored isKept
          simp only [dropping] at isKept
          rw [getElem?_erase_eq] at isKept
          split at isKept
          · cases isKept
          · exact isKept
      | rotated found isLive known encoded answered =>
          exact backed.after _ (live.rotating found _ _ _ _ _)
            (.inr ⟨_, rfl, encoded⟩) silent fun _ _ => ⟨_, rfl, encoded⟩
  | stop registry survivors =>
      rw [List.append_nil]
      exact ⟨nofun, backed.file, backed.survivors⟩
  | powerLoss store survives =>
      rw [List.append_nil]
      refine ⟨nofun, backed.survivors _ survives, ?_⟩
      intro file isFile
      rw [List.mem_singleton.mp isFile]
      exact backed.survivors _ survives
  | opened survivors succeeded =>
      obtain ⟨state, sameFile⟩ := backed.file.openFile lawful succeeded
      rw [List.append_nil]
      refine ⟨?_, ?_, backed.survivors⟩
      · rintro _ ⟨⟩
        exact state
      · simp only [SessionStore.file]
        rw [sameFile]
        exact backed.file
  | openFailed survivors failed =>
      rw [List.append_nil]
      exact backed

/-- Every state that may come back in a run is backed. -/
theorem SessionRun.backed
    (lawful : json.Lawful)
    {host : SessionHost}
    (run : SessionRun json host calls) :
    HostBacked json calls host := by
  induction run with
  | start => exact ⟨nofun, nofun, fun _ isFile => by
      rw [List.mem_singleton.mp isFile]; exact nofun⟩
  | step _ step inductionHypothesis =>
      exact inductionHypothesis.step lawful step

end Backing

/-! ## Tokens that are accepted -/

/-- A token was accepted after some calls: the last of them that handed out a
token for the session, or a later one that failed, drew it. -/
structure Vouched
    (before : List SessionCall)
    (key token : String)
    (nowUnixMs : UInt64)
    (scope : PathScope) : Prop where
  token : ∃ (time : Nat) (call : SessionCall),
    before[time]? = some call ∧ call.session = some key ∧
      call.drawnToken = token ∧ nowUnixMs < call.expiry ∧
      ∀ (later : Nat) other, time < later → before[later]? = some other →
        ¬other.IssuesFor key
  scope : ∃ (time : Nat) (call : SessionCall),
    before[time]? = some call ∧ call.OpensWith key scope ∧
      ∀ (later : Nat) other, time < later → before[later]? = some other →
        ¬other.Opens key

/-- Every token is used at most once, and only while it is the last one. -/
structure SingleUse (calls : List SessionCall) : Prop where
  once : ∀ {token : String} {first second : Nat} {call other : SessionCall}
    {key otherKey : String} {now otherNow : UInt64}
    {scope otherScope : PathScope},
    calls[first]? = some call → call.Accepts key token now scope →
    calls[second]? = some other →
    other.Accepts otherKey token otherNow otherScope →
    first = second
  vouched : ∀ {time : Nat} {call : SessionCall} {key token : String}
    {now : UInt64} {scope : PathScope},
    calls[time]? = some call → call.Accepts key token now scope →
    Vouched (calls.take time) key token now scope
  latest : ∀ {time : Nat} {call : SessionCall} {key token : String}
    {now : UInt64} {scope : PathScope},
    calls[time]? = some call → call.Accepts key token now scope →
    (∃ issue ∈ calls, issue.issued = some token) →
    (issuedTokens key (calls.take time)).getLast? = some token

section Guarantee

variable
  {json : SessionJson}
  {host : SessionHost}
  {calls : List SessionCall}

/-- The calls of a run answer with the token that they draw. -/
theorem SessionRun.issued_eq
    (run : SessionRun json host calls)
    {call : SessionCall}
    (member : call ∈ calls)
    {token : String}
    (issued : call.issued = some token) :
    call.drawnToken = token := by
  induction run with
  | start => cases member
  | step _ step inductionHypothesis =>
      rcases List.mem_append.mp member with member | isNew
      · exact inductionHypothesis member
      · cases step with
        | @create fault drawn drawnToken scope now expires registry after answer
            survivors created =>
            obtain rfl := List.mem_singleton.mp isNew
            cases answer with
            | error failure => cases issued
            | ok value =>
                cases create_outcome created with
                | opened isDrawn encoded answered =>
                    obtain rfl := answered _ rfl
                    exact Option.some.inj issued
        | @resume fault rotated sessionId presented now expires registry after
            answer survivors resumed =>
            obtain rfl := List.mem_singleton.mp isNew
            cases answer with
            | error failure => cases issued
            | ok value =>
                cases resume_outcome resumed with
                | rotated found live known encoded answered =>
                    obtain rfl := answered _ rfl
                    exact Option.some.inj issued
        | stop | powerLoss | opened | openFailed => cases isNew

/-- A token is accepted by a state whose sessions are backed. -/
theorem SessionRun.accepted
    (lawful : json.Lawful)
    (run : SessionRun json host calls)
    {time : Nat}
    {call : SessionCall}
    (isCall : calls[time]? = some call)
    {key token : String}
    {now : UInt64}
    {scope : PathScope}
    (accepts : call.Accepts key token now scope) :
    ∃ stored, Backed (calls.take time) key stored ∧
      now < stored.expiresAtUnixMs ∧ stored.scope = scope ∧
      stored.resumeTokenHash = Blake3.hash (textBytes token) := by
  induction run with
  | start => simp at isCall
  | @step host next calls new before step inductionHypothesis =>
      by_cases inside : time < calls.length
      · rw [List.getElem?_append_left inside] at isCall
        rw [List.take_append_of_le_length (Nat.le_of_lt inside)]
        exact inductionHypothesis isCall
      · rw [List.getElem?_append_right (Nat.not_lt.mp inside)] at isCall
        have isNew := List.mem_of_getElem? isCall
        cases step with
        | @create =>
            obtain rfl := List.mem_singleton.mp isNew
            exact accepts.elim
        | @resume fault rotated sessionId presented asked expires registry after
            answer survivors resumed =>
            obtain rfl := List.mem_singleton.mp isNew
            have isLast : time = calls.length := by
              have short := (List.getElem?_eq_some_iff.mp isCall).1
              simp at short
              omega
            rw [isLast, List.take_left']
            · cases answer with
              | error failure => exact accepts.elim
              | ok value =>
                  obtain ⟨rfl, rfl, rfl, rfl⟩ := accepts
                  cases resume_outcome resumed with
                  | rotated found live known encoded answered =>
                      obtain rfl := answered _ rfl
                      exact ⟨_, (before.backed lawful).live _ rfl _ _ found,
                        live, rfl, known⟩
            · rfl
        | stop | powerLoss | opened | openFailed => cases isNew

/-- The hash tells apart the tokens that occur in some calls. -/
def DistinctHashes (calls : List SessionCall) : Prop :=
  ∀ first ∈ calls.flatMap SessionCall.tokens,
    ∀ second ∈ calls.flatMap SessionCall.tokens,
    Blake3.hash (textBytes first) = Blake3.hash (textBytes second) →
    first = second

theorem SessionCall.drawnToken_mem_tokens (call : SessionCall) :
    call.drawnToken ∈ call.tokens := by
  cases call <;> exact List.mem_cons_self

/-- An accepted token has been presented. -/
theorem SessionCall.Accepts.mem_tokens
    {call : SessionCall}
    {key token : String}
    {now : UInt64}
    {scope : PathScope}
    (accepts : call.Accepts key token now scope) :
    token ∈ call.tokens := by
  cases call with
  | create => exact accepts.elim
  | resume drawn sessionId presented asked expires answer =>
      cases answer with
      | error failure => exact accepts.elim
      | ok resumed =>
          rw [← accepts.2.1]
          exact List.mem_cons_of_mem _ List.mem_cons_self

/-- A call that accepts a token hands out another one. -/
theorem SessionCall.Accepts.issuesFor
    {call : SessionCall}
    {key token : String}
    {now : UInt64}
    {scope : PathScope}
    (accepts : call.Accepts key token now scope) :
    call.IssuesFor key := by
  cases call with
  | create => exact accepts.elim
  | resume drawn sessionId presented asked expires answer =>
      cases answer with
      | error failure => exact accepts.elim
      | ok resumed => exact ⟨congrArg some accepts.1, rfl⟩

theorem SessionRun.vouched
    (lawful : json.Lawful)
    (run : SessionRun json host calls)
    (distinct : DistinctHashes calls)
    {time : Nat}
    {call : SessionCall}
    (isCall : calls[time]? = some call)
    {key token : String}
    {now : UInt64}
    {scope : PathScope}
    (accepts : call.Accepts key token now scope) :
    Vouched (calls.take time) key token now scope := by
  obtain ⟨stored, backed, live, rfl, known⟩ :=
    run.accepted lawful isCall accepts
  obtain ⟨earlier, issue, isIssue, session, hash, expiry, latest⟩ :=
    backed.token
  refine ⟨⟨earlier, issue, isIssue, session, ?_, expiry ▸ live, latest⟩,
    backed.scope⟩
  refine distinct _ ?_ _ ?_ (hash.symm.trans known)
  · exact List.mem_flatMap.mpr ⟨issue,
      List.mem_of_mem_take (List.mem_of_getElem? isIssue),
      issue.drawnToken_mem_tokens⟩
  · exact List.mem_flatMap.mpr ⟨call, List.mem_of_getElem? isCall,
      accepts.mem_tokens⟩

/-- A call at an earlier time. -/
theorem getElem?_take_eq_some
    {α : Type}
    {items : List α}
    {item : α}
    {time earlier : Nat} :
    (items.take time)[earlier]? = some item ↔
      earlier < time ∧ items[earlier]? = some item := by
  rw [List.getElem?_take]
  split <;> simp [*]

/-- Tokens that are drawn once are drawn by one call. -/
theorem time_unique
    (fresh : (calls.map SessionCall.drawnToken).Nodup)
    {first second : Nat}
    {call other : SessionCall}
    (isCall : calls[first]? = some call)
    (isOther : calls[second]? = some other)
    (same : call.drawnToken = other.drawnToken) :
    first = second := by
  have inside : first < (calls.map SessionCall.drawnToken).length := by
    rw [List.length_map]
    exact (List.getElem?_eq_some_iff.mp isCall).1
  refine (List.getElem?_inj inside fresh).mp ?_
  rw [List.getElem?_map, List.getElem?_map, isCall, isOther, Option.map_some,
    Option.map_some, same]

/-- The last token handed out, when no later call hands one out. -/
theorem issuedTokens_getLast?
    {before : List SessionCall}
    {time : Nat}
    {issue : SessionCall}
    {key token : String}
    (isIssue : before[time]? = some issue)
    (session : issue.session = some key)
    (issued : issue.issued = some token)
    (latest : ∀ (later : Nat) other, time < later →
      before[later]? = some other → ¬other.IssuesFor key) :
    (issuedTokens key before).getLast? = some token := by
  have split : before = before.take time ++ issue :: before.drop (time + 1) := by
    obtain ⟨inside, rfl⟩ := List.getElem?_eq_some_iff.mp isIssue
    rw [List.getElem_cons_drop, List.take_append_drop]
  have none : (before.drop (time + 1)).filter (fun call =>
      call.IssuesFor key) = [] := by
    rw [List.filter_eq_nil_iff]
    intro other isOther
    obtain ⟨position, isAt⟩ := List.mem_iff_getElem?.mp isOther
    rw [List.getElem?_drop] at isAt
    simpa using latest _ other (by omega) isAt
  have issues : issue.IssuesFor key := ⟨session, by rw [issued]; rfl⟩
  rw [issuedTokens, split, List.filter_append, List.filter_cons_of_pos
    (by simpa using issues), none, List.filterMap_append]
  simp [issued]

end Guarantee

/-! ## A session that is resumed -/

open Classical in
/-- The JSON crate on the states of one run, given with their texts. -/
noncomputable def SessionJson.ofTable
    (table : List (PersistentSessions × List UInt8)) : SessionJson where
  toVec state := (table.find? fun row => row.1 = state).map Prod.snd
  fromSlice bytes := (table.find? fun row => row.2 = bytes).map Prod.fst

/-- A table of different texts makes a lawful crate. -/
theorem SessionJson.ofTable_lawful
    {table : List (PersistentSessions × List UInt8)}
    (texts : (table.map Prod.snd).Nodup) :
    (SessionJson.ofTable table).Lawful where
  decodes := by
    intro state bytes encoded
    simp only [SessionJson.ofTable, Option.map_eq_some_iff] at encoded
    obtain ⟨⟨found, text⟩, isRow, rfl⟩ := encoded
    have same := List.find?_some isRow
    simp only [decide_eq_true_eq] at same
    subst same
    have member := List.mem_of_find?_eq_some isRow
    cases isOther : table.find? fun row => row.2 = text with
    | none =>
        have absent := List.find?_eq_none.mp isOther _ member
        simp at absent
    | some row =>
        have sameText := List.find?_some isOther
        simp only [decide_eq_true_eq] at sameText
        obtain rfl : row = (found, text) := List.inj_on_of_nodup_map texts
          (List.mem_of_find?_eq_some isOther) member sameText
        simp [SessionJson.ofTable, isOther]

/-- The id of the first session. -/
def sampleSessionId : SessionId :=
  ⟨"session-00000000000000000000000000000000", by decide⟩

/-- A scope with one root to read. -/
def sampleScope : PathScope where
  readRoots := [textBytes "/a"]
  writeRoots := []

/-- A token of one digit. -/
def sampleToken (digit : Char) : String :=
  String.ofList (List.replicate 64 digit)

/-- The session with one of its tokens. -/
def sampleStored (digit : Char) (expiresAtUnixMs : UInt64) : StoredSession where
  resumeTokenHash := Blake3.hash (textBytes (sampleToken digit))
  scope := sampleScope
  expiresAtUnixMs := expiresAtUnixMs

/-- The state with that session alone. -/
def sampleSessions (digit : Char) (expiresAtUnixMs : UInt64) :
    PersistentSessions where
  schemaVersion := sessionSchemaVersion
  sessions := (∅ : ExtTreeMap String StoredSession).insert sampleSessionId.value
    (sampleStored digit expiresAtUnixMs)

/-- The text of that state. -/
def sampleSessionsText (digit : Char) (expiresAtUnixMs : UInt64) : List UInt8 :=
  [ "\x7b\"schema_version\":2,\"sessions\":\x7b\"", sampleSessionId.value,
    "\":\x7b\"resume_token_hash\":[",
    ",".intercalate ((Blake3.hash (textBytes (sampleToken digit))).map
      fun byte => byte.toNat.repr),
    "],\"scope\":\x7b\"read_roots\":[\"/a\"],\"write_roots\":[]\x7d,",
    "\"expires_at_unix_ms\":", expiresAtUnixMs.toNat.repr,
    "\x7d\x7d\x7d" ].flatMap textBytes

/-- The registry in that state. -/
def sampleSessionRegistry (digit : Char) (expiresAtUnixMs : UInt64) :
    SessionRegistry where
  state := sampleSessions digit expiresAtUnixMs
  file := some (sampleSessionsText digit expiresAtUnixMs)

/-- The JSON crate on the states of the run. -/
noncomputable def sampleSessionJson : SessionJson := .ofTable [
  (sampleSessions '0' 2, sampleSessionsText '0' 2),
  (sampleSessions '1' 3, sampleSessionsText '1' 3)]

/-- The two tokens have different hashes, and the two texts differ and are
short. -/
theorem sampleSessionsText_facts :
    Blake3.hash (textBytes (sampleToken '0')) ≠
        Blake3.hash (textBytes (sampleToken '1')) ∧
      sampleSessionsText '0' 2 ≠ sampleSessionsText '1' 3 ∧
      (sampleSessionsText '0' 2).length ≤ maxSessionStoreBytes ∧
      (sampleSessionsText '1' 3).length ≤ maxSessionStoreBytes := by
  decide +kernel

theorem sampleSessionJson_lawful : sampleSessionJson.Lawful :=
  SessionJson.ofTable_lawful (by simp [sampleSessionsText_facts.2.1])

theorem sampleSessions_found (digit : Char) (expiresAtUnixMs : UInt64) :
    (sampleSessions digit expiresAtUnixMs).sessions[sampleSessionId.value]? =
      some (sampleStored digit expiresAtUnixMs) := by
  simp [sampleSessions]

theorem sampleHash_ne : Blake3.hash (textBytes (sampleToken '0')) ≠
    Blake3.hash (textBytes (sampleToken '1')) :=
  sampleSessionsText_facts.1

theorem sampleSessionJson_opened :
    sampleSessionJson.toVec (sampleSessions '0' 2) =
      some (sampleSessionsText '0' 2) := by
  simp [sampleSessionJson, SessionJson.ofTable]

theorem sampleSessionJson_rotated :
    sampleSessionJson.toVec (sampleSessions '1' 3) =
      some (sampleSessionsText '1' 3) := by
  have different : sampleSessions '0' 2 ≠ sampleSessions '1' 3 := by
    intro same
    have found := sampleSessions_found '0' 2
    rw [same, sampleSessions_found, Option.some.injEq] at found
    simp only [sampleStored, StoredSession.mk.injEq] at found
    exact sampleHash_ne found.1.symm
  simp [sampleSessionJson, SessionJson.ofTable, different]

theorem sampleSessionsText_length :
    (sampleSessionsText '0' 2).length ≤ maxSessionStoreBytes ∧
      (sampleSessionsText '1' 3).length ≤ maxSessionStoreBytes :=
  sampleSessionsText_facts.2.2

theorem unexpired_initial (nowUnixMs : UInt64) :
    unexpired nowUnixMs .initial = .initial := by
  have none : (∅ : ExtTreeMap String StoredSession).filter
      (fun _ session => decide (nowUnixMs < session.expiresAtUnixMs)) = ∅ := by
    refine ExtTreeMap.ext_getElem? fun key => ?_
    simp
  rw [unexpired, PersistentSessions.initial, none]

/-- A commit of a state that the crate encodes. -/
theorem commit_of_encoded
    {json : SessionJson}
    {next : PersistentSessions}
    {bytes : List UInt8}
    (encoded : json.toVec next = some bytes)
    (short : bytes.length ≤ maxSessionStoreBytes)
    (registry : SessionRegistry) :
    registry.commit json none next =
      (.ok (), { state := next, file := some bytes }) := by
  refine commit_of_encode ?_
  rw [encode, encoded, okOr_some, ok_bind, ensure_of short, ok_bind]

theorem sample_create :
    SessionRegistry.create sampleSessionJson none [sampleSessionId]
        (sampleToken '0') sampleScope 1 2 ⟨.initial, none⟩ =
      some (.ok ⟨sampleSessionId, sampleToken '0'⟩,
        sampleSessionRegistry '0' 2) := by
  have free : drawSessionId [sampleSessionId] .initial =
      some sampleSessionId := by
    simp [drawSessionId, PersistentSessions.initial]
  have few : PersistentSessions.initial.sessions.size < maxSessions := by
    rw [PersistentSessions.initial, ExtTreeMap.size_empty]
    decide
  have next : opening sampleSessionId (sampleToken '0') sampleScope 2 .initial =
      sampleSessions '0' 2 := rfl
  rw [create, unexpired_initial, validateExpiry, ensure_of (by decide),
    ok_bind, ensure_of few]
  simp only [free, next]
  rw [commit_of_encoded sampleSessionJson_opened sampleSessionsText_length.1]
  rfl

theorem sample_resume :
    (sampleSessionRegistry '0' 2).resume sampleSessionJson none
        (sampleToken '1') sampleSessionId (sampleToken '0') 1 3 =
      (.ok ⟨sampleScope, sampleToken '1'⟩, sampleSessionRegistry '1' 3) := by
  have found : (sampleSessionRegistry '0' 2).state.sessions[
      sampleSessionId.value]? = some (sampleStored '0' 2) :=
    sampleSessions_found '0' 2
  have next : rotating (sampleToken '1') sampleSessionId 3 (sampleStored '0' 2)
      (sampleSessions '0' 2) = sampleSessions '1' 3 := by
    have same : (rotating (sampleToken '1') sampleSessionId 3
        (sampleStored '0' 2) (sampleSessions '0' 2)).sessions =
        (sampleSessions '1' 3).sessions := by
      refine ExtTreeMap.ext_getElem? fun key => ?_
      simp only [rotating, sampleSessions, getElem?_insert_eq]
      split <;> rfl
    rw [PersistentSessions.mk.injEq]
    exact ⟨rfl, same⟩
  rw [resume, validateExpiry, ensure_of (by decide), ok_bind,
    ensure_of (by decide), ok_bind, found, okOr_some]
  have live : ¬(sampleStored '0' 2).expiresAtUnixMs ≤ 1 := by decide
  have known : ¬(sampleStored '0' 2).resumeTokenHash ≠
      Blake3.hash (textBytes (sampleToken '0')) := by
    simp only [sampleStored, ne_eq, not_true_eq_false, not_false_eq_true]
  simp only [if_neg live, if_neg known]
  have state : (sampleSessionRegistry '0' 2).state = sampleSessions '0' 2 := rfl
  rw [state, next,
    commit_of_encoded sampleSessionJson_rotated sampleSessionsText_length.2]
  rfl

/-- The calls of the run: a session is opened and resumed. -/
def sampleSessionCalls : List SessionCall := [
  .create (some sampleSessionId) (sampleToken '0') sampleScope 1 2
    (.ok ⟨sampleSessionId, sampleToken '0'⟩),
  .resume (sampleToken '1') sampleSessionId (sampleToken '0') 1 3
    (.ok ⟨sampleScope, sampleToken '1'⟩)]

theorem sampleSessionRun :
    SessionRun sampleSessionJson
      ⟨.up (sampleSessionRegistry '1' 3),
        [(sampleSessionRegistry '1' 3).file]⟩
      sampleSessionCalls := by
  have free : drawSessionId [sampleSessionId] (unexpired 1 .initial) =
      some sampleSessionId := by
    rw [unexpired_initial]
    simp [drawSessionId, PersistentSessions.initial]
  have opened : SessionRegistry.openFile sampleSessionJson none none =
      .ok ⟨.initial, none⟩ := rfl
  have created := SessionStep.create [none] sample_create
  rw [free] at created
  exact ((SessionRun.start.step (.opened [none] opened)).step created).step
    (.resume _ sample_resume)

/-! ## The guarantee -/

/-- Resume tokens are used once, while they are the last token of their session
and before their expiry, and give back the scope of the session. -/
theorem sessionRegistry_singleUse
    {json : SessionJson}
    (lawful : json.Lawful)
    {host : SessionHost}
    {calls : List SessionCall}
    (run : SessionRun json host calls)
    (fresh : (calls.map SessionCall.drawnToken).Nodup)
    (distinct : DistinctHashes calls) :
    SingleUse calls where
  vouched isCall accepts := run.vouched lawful distinct isCall accepts
  latest := by
    intro time call key token now scope isCall accepts
    rintro ⟨issuer, isIssuer, issued⟩
    obtain ⟨earlier, issue, isIssue, session, drawn, _, latest⟩ :=
      (run.vouched lawful distinct isCall accepts).token
    obtain ⟨position, isAt⟩ := List.mem_iff_getElem?.mp isIssuer
    have isIssueOfAll := (getElem?_take_eq_some.mp isIssue).2
    have same : position = earlier := by
      refine time_unique fresh isAt isIssueOfAll ?_
      rw [run.issued_eq isIssuer issued, drawn]
    rw [same, isIssueOfAll] at isAt
    cases isAt
    exact issuedTokens_getLast? isIssue session issued latest
  once := by
    -- The later of two uses was drawn by the same call as the earlier one, after
    -- which the earlier use has handed out another token.
    have notBefore {token : String} {first second : Nat}
        {call other : SessionCall} {key otherKey : String}
        {now otherNow : UInt64} {scope otherScope : PathScope}
        (isCall : calls[first]? = some call)
        (accepts : call.Accepts key token now scope)
        (isOther : calls[second]? = some other)
        (otherAccepts : other.Accepts otherKey token otherNow otherScope) :
        ¬first < second := by
      intro earlier
      obtain ⟨time, issue, isIssue, session, drawn, _, _⟩ :=
        (run.vouched lawful distinct isCall accepts).token
      obtain ⟨otherTime, otherIssue, isOtherIssue, otherSession, otherDrawn, _,
        latest⟩ := (run.vouched lawful distinct isOther otherAccepts).token
      obtain ⟨before, isIssue⟩ := getElem?_take_eq_some.mp isIssue
      obtain ⟨_, isOtherIssueOfAll⟩ := getElem?_take_eq_some.mp isOtherIssue
      have same : time = otherTime :=
        time_unique fresh isIssue isOtherIssueOfAll
          (drawn.trans otherDrawn.symm)
      subst same
      rw [isIssue] at isOtherIssueOfAll
      cases isOtherIssueOfAll
      obtain rfl := Option.some.inj (session.symm.trans otherSession)
      exact latest first call before
        (getElem?_take_eq_some.mpr ⟨earlier, isCall⟩) accepts.issuesFor
    intro token first second call other key otherKey now otherNow scope
      otherScope isCall accepts isOther otherAccepts
    have notFirst := notBefore isCall accepts isOther otherAccepts
    have notSecond := notBefore isOther otherAccepts isCall accepts
    omega

theorem sampleSessionRun_singleUse : SingleUse sampleSessionCalls := by
  refine sessionRegistry_singleUse sampleSessionJson_lawful sampleSessionRun
    (by decide) ?_
  have distinct (first second : String)
      (isFirst : first = sampleToken '0' ∨ first = sampleToken '1')
      (isSecond : second = sampleToken '0' ∨ second = sampleToken '1')
      (same : Blake3.hash (textBytes first) = Blake3.hash (textBytes second)) :
      first = second := by
    rcases isFirst with rfl | rfl <;> rcases isSecond with rfl | rfl
    · rfl
    · exact absurd same sampleHash_ne
    · exact absurd same.symm sampleHash_ne
    · rfl
  intro first isFirst second isSecond
  refine distinct first second ?_ ?_
  · simpa [sampleSessionCalls, SessionCall.tokens, or_comm] using isFirst
  · simpa [sampleSessionCalls, SessionCall.tokens, or_comm] using isSecond

end Pithos.Daemon
