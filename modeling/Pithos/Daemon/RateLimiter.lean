import Pithos.Daemon.OpenSession
import Pithos.Library.TokenBucket

/-!
# The request rate of a connection

Every connection has a limiter, a token bucket that counts in thousandths of a
token: a millisecond at a rate per second is worth that many thousandths.  Its
clock starts at the first request.
-/

namespace Pithos.Daemon

open Std
open Machine
open MapValues
open TokenBucket

/-- The tokens of a connection, in thousandths, and when they were last filled
up. -/
structure ConnectionRateLimiter where
  ratePerSecond : UInt32
  capacity : UInt32
  tokensMilli : UInt64
  lastMs : UInt64

namespace ConnectionRateLimiter

/-- A full limiter whose clock has not started. -/
def new (ratePerSecond burst : UInt32) : ConnectionRateLimiter where
  ratePerSecond := max ratePerSecond 1
  capacity := max burst 1
  tokensMilli := (max burst 1).toUInt64 * 1000
  lastMs := 0

/-- The tokens at the time of a request, with what has flowed in since the last
one. -/
def refilled (limiter : ConnectionRateLimiter) (nowMs : UInt64) : UInt64 :=
  let lastMs := if limiter.lastMs = 0 then nowMs else limiter.lastMs
  let elapsed := saturatingSub nowMs lastMs
  let refill := saturatingMul elapsed limiter.ratePerSecond.toUInt64
  let capacity := limiter.capacity.toUInt64 * 1000
  min (saturatingAdd limiter.tokensMilli refill) capacity

/-- Whether a request may pass now, and the limiter after it. -/
def allow
    (limiter : ConnectionRateLimiter)
    (nowMs : UInt64) : Bool × ConnectionRateLimiter :=
  let tokensMilli := limiter.refilled nowMs
  if tokensMilli < 1000 then
    (false, { limiter with tokensMilli := tokensMilli, lastMs := nowMs })
  else
    (true, { limiter with tokensMilli := tokensMilli - 1000, lastMs := nowMs })

/-- The answers to requests at some times. -/
def answers : ConnectionRateLimiter → List UInt64 → List TokenBucket.Call
  | _, [] => []
  | limiter, nowMs :: times =>
      ⟨nowMs.toNat, (limiter.allow nowMs).1⟩ ::
        answers (limiter.allow nowMs).2 times

/-! ## The limiter as a token bucket -/

/-- The bucket of a limiter, in thousandths of a token. -/
def bucket (limiter : ConnectionRateLimiter) : Bucket where
  rate := limiter.ratePerSecond.toNat
  capacity := limiter.capacity.toNat * 1000
  cost := 1000

/-- A limiter whose clock has not started is full. -/
def FullAtStart (limiter : ConnectionRateLimiter) : Prop :=
  limiter.lastMs = 0 → limiter.tokensMilli.toNat = limiter.bucket.capacity

theorem toNat_milli (tokens : UInt32) :
    (tokens.toUInt64 * 1000).toNat = tokens.toNat * 1000 := by
  have bound := tokens.toNat_lt
  have thousand : (1000 : UInt64).toNat = 1000 := rfl
  rw [UInt64.toNat_mul, UInt32.toNat_toUInt64, thousand,
    Nat.mod_eq_of_lt (by omega)]

theorem toNat_raised (value : UInt32) :
    (max value 1).toNat = max value.toNat 1 := by
  have one : (1 : UInt32).toNat = 1 := rfl
  change (if value ≤ 1 then 1 else value).toNat = _
  split
  · rename_i small
    rw [UInt32.le_iff_toNat_le, one] at small
    rw [one, Nat.max_eq_right small]
  · rename_i large
    rw [UInt32.le_iff_toNat_le, one] at large
    rw [Nat.max_eq_left (by omega)]

variable
  {limiter : ConnectionRateLimiter}
  {nowMs : UInt64}
  {times : List UInt64}

/-- Saturation never shows, because no bucket is that large. -/
theorem toNat_refilled (fullAtStart : FullAtStart limiter) :
    (limiter.refilled nowMs).toNat =
      limiter.bucket.filled limiter.tokensMilli.toNat limiter.lastMs.toNat
        nowMs.toNat := by
  have small := limiter.capacity.toNat_lt
  rw [refilled, toNat_min, toNat_saturatingAdd, toNat_saturatingMul,
    toNat_saturatingSub, toNat_milli, UInt32.toNat_toUInt64, Bucket.filled]
  simp only [bucket]
  split
  · rename_i atStart
    have full : limiter.tokensMilli.toNat = limiter.capacity.toNat * 1000 :=
      fullAtStart atStart
    rw [Nat.sub_self, Nat.zero_mul]
    omega
  · rw [Nat.mul_comm limiter.ratePerSecond.toNat]
    omega

theorem allow_bucket : (limiter.allow nowMs).2.bucket = limiter.bucket := by
  unfold allow
  dsimp only
  split <;> rfl

@[simp] theorem allow_lastMs : (limiter.allow nowMs).2.lastMs = nowMs := by
  unfold allow
  dsimp only
  split <;> rfl

theorem fullAtStart_allow (positive : 0 < nowMs) :
    FullAtStart (limiter.allow nowMs).2 := by
  intro isZero
  rw [allow_lastMs] at isZero
  rw [isZero] at positive
  exact absurd positive (by decide)

/-- One request is answered as the bucket answers it. -/
theorem answers_allow
    (fullAtStart : FullAtStart limiter)
    (times : List Nat) :
    limiter.bucket.answers limiter.tokensMilli.toNat limiter.lastMs.toNat
        (nowMs.toNat :: times) =
      ⟨nowMs.toNat, (limiter.allow nowMs).1⟩ ::
        limiter.bucket.answers (limiter.allow nowMs).2.tokensMilli.toNat
          nowMs.toNat times := by
  have thousand : (1000 : UInt64).toNat = 1000 := rfl
  have cost : limiter.bucket.cost = 1000 := rfl
  have filled := @toNat_refilled limiter nowMs fullAtStart
  rw [Bucket.answers, ← filled, cost]
  unfold allow
  dsimp only
  by_cases low : limiter.refilled nowMs < 1000
  · have lowNat : (limiter.refilled nowMs).toNat < 1000 :=
      UInt64.lt_iff_toNat_lt.mp low
    rw [if_pos lowNat, if_pos low]
  · have enough : 1000 ≤ limiter.refilled nowMs := UInt64.not_lt.mp low
    have enoughNat : 1000 ≤ (limiter.refilled nowMs).toNat :=
      UInt64.le_iff_toNat_le.mp enough
    rw [if_neg (Nat.not_lt.mpr enoughNat), if_neg low,
      UInt64.toNat_sub_of_le _ _ enough, thousand]

/-- A limiter answers as its bucket does. -/
theorem answers_eq
    (fullAtStart : FullAtStart limiter)
    (positive : ∀ time ∈ times, 0 < time) :
    limiter.answers times =
      limiter.bucket.answers limiter.tokensMilli.toNat limiter.lastMs.toNat
        (times.map (·.toNat)) := by
  induction times generalizing limiter with
  | nil => rfl
  | cons nowMs times induction =>
      have started := positive nowMs List.mem_cons_self
      have rest := induction (@fullAtStart_allow limiter nowMs started)
        fun time member => positive time (List.mem_cons_of_mem nowMs member)
      rw [answers, rest, allow_bucket, allow_lastMs, List.map_cons,
        answers_allow fullAtStart]

theorem fullAtStart_new (ratePerSecond burst : UInt32) :
    FullAtStart (new ratePerSecond burst) := by
  intro _
  exact toNat_milli _

theorem bucket_new (ratePerSecond burst : UInt32) :
    (new ratePerSecond burst).bucket =
      { rate := max ratePerSecond.toNat 1
        capacity := max burst.toNat 1 * 1000
        cost := 1000 } := by
  simp only [bucket, new, toNat_raised]

/-- The requests of a connection, whose times never go back.  No window of them
gets more than the burst and what the rate lets in meanwhile; a request is
refused exactly when some window that ends with it has no room for one more;
requests that keep to the bound in every window are all answered. -/
theorem rate_limited
    (ratePerSecond burst : UInt32)
    (times : List UInt64)
    (sorted : times.Pairwise (· ≤ ·))
    (positive : ∀ time ∈ times, 0 < time) :
    (∀ window, window <:+: (new ratePerSecond burst).answers times →
      accepted window ≤ max burst.toNat 1 +
        max ratePerSecond.toNat 1 * elapsed (window.map (·.time)) / 1000) ∧
    (∀ before call after,
      (new ratePerSecond burst).answers times = before ++ call :: after →
      (call.accepted = false ↔ ∃ window, window <:+ before ∧
        max burst.toNat 1 + max ratePerSecond.toNat 1 *
          elapsed ((window ++ [call]).map (·.time)) / 1000 <
          accepted window + 1)) ∧
    ((∀ window, window <:+: times.map (·.toNat) →
      window.length ≤ max burst.toNat 1 +
        max ratePerSecond.toNat 1 * elapsed window / 1000) →
      ∀ call ∈ (new ratePerSecond burst).answers times,
        call.accepted = true) := by
  have isBucket := answers_eq (fullAtStart_new ratePerSecond burst) positive
  have isFull := fullAtStart_new ratePerSecond burst rfl
  have sortedNat : (0 :: times.map (·.toNat)).Pairwise (· ≤ ·) := by
    refine List.pairwise_cons.mpr ⟨fun _ _ => Nat.zero_le _, ?_⟩
    exact List.pairwise_map.mpr
      (sorted.imp fun below => UInt64.le_iff_toNat_le.mp below)
  rw [isFull, bucket_new] at isBucket
  have start : (new ratePerSecond burst).lastMs.toNat = 0 := rfl
  rw [start] at isBucket
  rw [isBucket]
  refine ⟨?_, ?_, ?_⟩
  · intro window isWindow
    have bound := Bucket.accepted_le sortedNat isWindow
    dsimp only at bound
    omega
  · intro before call after split
    have isRefused := Bucket.refused_iff sortedNat split
    rw [isRefused]
    dsimp only
    refine exists_congr fun window => and_congr_right fun _ => ?_
    omega
  · intro within
    refine Bucket.all_accepted sortedNat ?_
    intro window isWindow
    have bound := within window isWindow
    dsimp only
    omega

/-- Two requests a second: the third of a burst is refused, and one a second later
is answered. -/
theorem burst_refused :
    let calls := (new 2 2).answers [1000, 1000, 1000, 2000]
    calls.map (·.accepted) = [true, true, false, true] ∧
      ∀ window, window <:+: calls →
        accepted window ≤ 2 + 2 * elapsed (window.map (·.time)) / 1000 :=
  ⟨by decide,
    (rate_limited 2 2 [1000, 1000, 1000, 2000] (by simp) (by simp)).1⟩

end ConnectionRateLimiter

/-! ## The limiters of the connections -/

/-- What the daemon keeps of a connection. -/
structure ConnectionState where
  limiter : ConnectionRateLimiter
  session : Option Session

/-- The limits on the requests of a daemon. -/
structure RequestLimits where
  maxConnections : Nat
  requestRatePerSecond : UInt32
  requestBurst : UInt32

/-- A connection that has just sent its first request. -/
def RequestLimits.newConnection (limits : RequestLimits) : ConnectionState where
  limiter := .new limits.requestRatePerSecond limits.requestBurst
  session := none

/-- Ask the limiter of a connection, which its first request makes. -/
def checkConnectionRate
    (limits : RequestLimits)
    (connectionId nowMs : UInt64)
    (connections : ExtTreeMap UInt64 ConnectionState) :
    RpcResult Unit × ExtTreeMap UInt64 ConnectionState :=
  if connections[connectionId]?.isNone = true ∧
      limits.maxConnections ≤ connections.size then
    (.error (.resourceLimit "connection limit exceeded"), connections)
  else
    let connection := connections[connectionId]?.getD limits.newConnection
    let (allowed, limiter) := connection.limiter.allow nowMs
    (if allowed then .ok () else .error (.resourceLimit "request rate exceeded"),
      connections.insert connectionId { connection with limiter := limiter })

/-- What the connections of a daemon do. -/
inductive ConnectionEvent
  | request (connectionId nowMs : UInt64)
  | disconnect (connectionId : UInt64)

/-- The answers to the requests of some events, each with its connection. -/
def checkRequests
    (limits : RequestLimits) :
    ExtTreeMap UInt64 ConnectionState → List ConnectionEvent →
      List (UInt64 × RpcResult Unit)
  | _, [] => []
  | connections, .request connectionId nowMs :: events =>
      let (answer, after) :=
        checkConnectionRate limits connectionId nowMs connections
      (connectionId, answer) :: checkRequests limits after events
  | connections, .disconnect connectionId :: events =>
      checkRequests limits (connections.erase connectionId) events

/-- The times of the requests of a connection. -/
def requestTimes (connectionId : UInt64) (events : List ConnectionEvent) :
    List UInt64 :=
  events.filterMap fun
    | .request other nowMs => if other = connectionId then some nowMs else none
    | .disconnect _ => none

/-- Which requests of a connection passed. -/
def passed (connectionId : UInt64) (answers : List (UInt64 × RpcResult Unit)) :
    List Bool :=
  answers.filterMap fun (other, answer) =>
    if other = connectionId then some answer.toBool else none

@[simp] theorem requestTimes_request
    (connectionId other nowMs : UInt64)
    (events : List ConnectionEvent) :
    requestTimes connectionId (.request other nowMs :: events) =
      if other = connectionId then nowMs :: requestTimes connectionId events
      else requestTimes connectionId events := by
  unfold requestTimes
  split <;> simp_all

@[simp] theorem passed_cons
    (connectionId other : UInt64)
    (answer : RpcResult Unit)
    (answers : List (UInt64 × RpcResult Unit)) :
    passed connectionId ((other, answer) :: answers) =
      if other = connectionId then answer.toBool :: passed connectionId answers
      else passed connectionId answers := by
  unfold passed
  split <;> simp_all

section Connections

variable
  {limits : RequestLimits}
  {connectionId other nowMs : UInt64}
  {connection : ConnectionState}
  {connections : ExtTreeMap UInt64 ConnectionState}
  {events : List ConnectionEvent}

/-- The request of a connection that has a place. -/
theorem checkConnectionRate_eq
    (hasPlace : connections[connectionId]? = some connection ∨
      connections[connectionId]? = none ∧
        connections.size < limits.maxConnections ∧
        connection = limits.newConnection) :
    (checkConnectionRate limits connectionId nowMs connections).1.toBool =
        (connection.limiter.allow nowMs).1 ∧
      (checkConnectionRate limits connectionId nowMs
        connections).2[connectionId]? =
        some { connection with
          limiter := (connection.limiter.allow nowMs).2 } := by
  have isConnection :
      connections[connectionId]?.getD limits.newConnection = connection := by
    rcases hasPlace with found | ⟨absent, _, rfl⟩
    · rw [found, Option.getD_some]
    · rw [absent, Option.getD_none]
  have admitted : ¬(connections[connectionId]?.isNone = true ∧
      limits.maxConnections ≤ connections.size) := by
    rcases hasPlace with found | ⟨_, room, _⟩
    · simp [found]
    · omega
  unfold checkConnectionRate
  rw [if_neg admitted, isConnection]
  dsimp only
  refine ⟨?_, by rw [getElem?_insert_eq, if_pos rfl]⟩
  cases (connection.limiter.allow nowMs).1 <;> rfl

/-- A request changes no other connection. -/
theorem checkConnectionRate_frame (others : other ≠ connectionId) :
    (checkConnectionRate limits other nowMs connections).2[connectionId]? =
      connections[connectionId]? := by
  unfold checkConnectionRate
  split
  · rfl
  · exact (getElem?_insert_eq _ _ _ _).trans (if_neg others)

/-- A connection with a limiter is served by that limiter, whatever the other
connections do. -/
theorem passed_eq_answers
    (found : connections[connectionId]? = some connection)
    (stays : .disconnect connectionId ∉ events) :
    passed connectionId (checkRequests limits connections events) =
      (connection.limiter.answers (requestTimes connectionId events)).map
        (·.accepted) := by
  induction events generalizing connection connections with
  | nil => rfl
  | cons event events induction =>
      have staysOn : .disconnect connectionId ∉ events :=
        fun member => stays (List.mem_cons_of_mem event member)
      cases event with
      | disconnect other =>
          have others : other ≠ connectionId := by
            rintro rfl
            exact stays List.mem_cons_self
          refine induction ?_ staysOn
          rw [getElem?_erase_eq, if_neg others, found]
      | request other nowMs =>
          by_cases same : other = connectionId
          · subst same
            obtain ⟨answer, foundNext⟩ :=
              @checkConnectionRate_eq limits other nowMs connection connections
                (Or.inl found)
            rw [checkRequests, passed_cons, if_pos rfl, requestTimes_request,
              if_pos rfl, ConnectionRateLimiter.answers, List.map_cons,
              induction foundNext staysOn, answer]
          · have foundNext := (@checkConnectionRate_frame limits connectionId
              other nowMs connections same).trans found
            rw [checkRequests, passed_cons, if_neg same, requestTimes_request,
              if_neg same, induction foundNext staysOn]

/-- A new connection that finds a place is served by a limiter of its own. -/
theorem passed_eq_new
    (absent : connections[connectionId]? = none)
    (room : connections.size < limits.maxConnections)
    (stays : .disconnect connectionId ∉ events) :
    passed connectionId (checkRequests limits connections
        (.request connectionId nowMs :: events)) =
      ((ConnectionRateLimiter.new limits.requestRatePerSecond
        limits.requestBurst).answers
          (nowMs :: requestTimes connectionId events)).map (·.accepted) := by
  obtain ⟨answer, found⟩ :=
    @checkConnectionRate_eq limits connectionId nowMs limits.newConnection
      connections (Or.inr ⟨absent, room, rfl⟩)
  have rest := @passed_eq_answers limits _ _ _ _ found stays
  rw [checkRequests, passed_cons, if_pos rfl, ConnectionRateLimiter.answers,
    List.map_cons, rest, answer]
  rfl

end Connections

end Pithos.Daemon
