import Pithos.Daemon.Delivery

/-!
# A whole connection

A connection reads frame after frame and answers each before it reads the next,
until a frame is not read or a response is not written.  The service changes
between two frames, by this connection and by others.  Faults of the stream are
left out: the stream ends where the bytes end.
-/

namespace Pithos.Daemon

open Bytes
open Fallible

/-! ## Frames behind each other -/

/-- A payload behind its length. -/
def framed (payload : List UInt8) : List UInt8 :=
  toLittleEndian 4 payload.length ++ payload

/-- A payload that fits a frame. -/
def FitsFrame (maximum : Nat) (payload : List UInt8) : Prop :=
  payload ≠ [] ∧ payload.length ≤ maximum ∧ payload.length ≤ 0xFFFFFFFF

theorem writeFrame_eq_ok
    {payload sent : List UInt8}
    {maximum : Nat} :
    writeFrame payload maximum = .ok sent ↔
      FitsFrame maximum payload ∧ sent = framed payload := by
  simp only [writeFrame, bind_eq_ok, ensure_eq_ok, exists_const, not_or,
    Nat.not_lt, Except.ok.injEq, FitsFrame, framed]
  constructor
  · rintro ⟨fits, rfl⟩
    exact ⟨fits, rfl⟩
  · rintro ⟨fits, rfl⟩
    exact ⟨fits, rfl⟩

/-- A frame at the front of a stream is read, whatever follows. -/
theorem readFrame_framed
    {payload : List UInt8}
    {maximum : Nat}
    (fits : FitsFrame maximum payload)
    (rest : List UInt8) :
    readFrame (framed payload ++ rest) maximum = .ok (payload, rest) := by
  obtain ⟨some, within, isWord⟩ := fits
  have count := length_toLittleEndian 4 payload.length
  have value : ofLittleEndian (toLittleEndian 4 payload.length) =
      payload.length := by
    rw [ofLittleEndian_toLittleEndian]
    exact Nat.mod_eq_of_lt (by omega)
  have positive := List.length_pos_iff.mpr some
  rw [framed, List.append_assoc, readFrame, List.take_left' count,
    List.drop_left' count, value,
    ensure_of (by rw [List.length_append, count]; omega), ok_bind]
  dsimp only
  rw [ensure_of (by omega), ok_bind,
    ensure_of (by rw [List.length_append]; omega), ok_bind,
    List.take_left' rfl, List.drop_left' rfl]

/-- What is read is shorter than the stream it stood in. -/
theorem length_lt_of_readFrame
    {stream frame rest : List UInt8}
    {maximum : Nat}
    (received : readFrame stream maximum = .ok (frame, rest)) :
    rest.length < stream.length := by
  simp only [readFrame, bind_eq_ok, ensure_eq_ok, exists_const,
    Except.ok.injEq, Prod.mk.injEq] at received
  obtain ⟨header, _, _, _, rfl⟩ := received
  rw [List.length_drop, List.length_drop]
  omega

/-- All frames of a stream. -/
def readFrames (maximum : Nat) (stream : List UInt8) : List (List UInt8) :=
  match _received : readFrame stream maximum with
  | .error _ => []
  | .ok (frame, rest) => frame :: readFrames maximum rest
termination_by stream.length
decreasing_by exact length_lt_of_readFrame _received

theorem readFrames_of_error
    {maximum : Nat}
    {stream : List UInt8}
    {failure : FrameError}
    (failed : readFrame stream maximum = .error failure) :
    readFrames maximum stream = [] := by
  rw [readFrames]
  split
  · rfl
  · rename_i received
    rw [failed] at received
    cases received

theorem readFrames_of_ok
    {maximum : Nat}
    {stream frame rest : List UInt8}
    (received : readFrame stream maximum = .ok (frame, rest)) :
    readFrames maximum stream = frame :: readFrames maximum rest := by
  rw [readFrames]
  split
  · rename_i failed
    rw [received] at failed
    cases failed
  · rename_i again
    rw [received] at again
    cases again
    rfl

/-- Payloads that are sent one behind the other are read as they were sent. -/
theorem readFrames_framed
    {maximum : Nat}
    {payloads : List (List UInt8)}
    (fit : ∀ payload ∈ payloads, FitsFrame maximum payload)
    (rest : List UInt8) :
    readFrames maximum (payloads.flatMap framed ++ rest) =
      payloads ++ readFrames maximum rest := by
  induction payloads with
  | nil => rfl
  | cons payload payloads inductionHypothesis =>
      have first := fit payload List.mem_cons_self
      rw [List.flatMap_cons, List.append_assoc,
        readFrames_of_ok (readFrame_framed first _), List.cons_append,
        inductionHypothesis fun other member =>
          fit other (List.mem_cons_of_mem _ member)]

/-! ## The loop -/

/-- The service behind a connection: what a frame meets in each state, and how
the state changes until the next frame is handled. -/
structure ServiceRun (σ : Type) where
  limits : ProtocolLimits
  service : σ → FrameService
  next : σ → List UInt8 → σ
  sameLimits : ∀ state, (service state).limits = limits

namespace ServiceRun

variable
  {σ : Type}
  {run : ServiceRun σ}

/-- The response to a frame, or the short one in its place. -/
def response (run : ServiceRun σ) (state : σ) (frame : List UInt8) :
    List UInt8 :=
  if run.limits.maxRequestBytes < ((run.service state).handleFrame frame).length
  then FrameService.oversizedResponse
  else (run.service state).handleFrame frame

/-- The rounds of a connection, with all that is sent and the last state. -/
def serve (run : ServiceRun σ) (state : σ) (stream : List UInt8) :
    List UInt8 × σ :=
  match _received : readFrame stream run.limits.maxRequestBytes with
  | .error _ => ([], state)
  | .ok (frame, rest) =>
      match (run.service state).handleConnection stream with
      | .error _ => ([], run.next state frame)
      | .ok (sent, _) =>
          (sent ++ (serve run (run.next state frame) rest).1,
            (serve run (run.next state frame) rest).2)
termination_by stream.length
decreasing_by all_goals exact length_lt_of_readFrame _received

/-- The responses to frames that are handled one after the other.  Frames behind
one whose response does not fit are not handled. -/
inductive Answers (run : ServiceRun σ) :
    σ → List (List UInt8) → List (List UInt8) → σ → Prop
  | done (state : σ) : Answers run state [] [] state
  | round
      {state final : σ}
      {frame : List UInt8}
      {frames responses : List (List UInt8)}
      (fits : FitsFrame run.limits.maxRequestBytes (run.response state frame))
      (others : Answers run (run.next state frame) frames responses final) :
      Answers run state (frame :: frames)
        (run.response state frame :: responses) final
  | closed
      {state : σ}
      {frame : List UInt8}
      {frames : List (List UInt8)}
      (tooLong : ¬FitsFrame run.limits.maxRequestBytes
        (run.response state frame)) :
      Answers run state (frame :: frames) [] (run.next state frame)

/-- A frame is never answered with nothing. -/
theorem response_ne_nil
    (state : σ)
    (frame : List UInt8) :
    run.response state frame ≠ [] := by
  unfold response FrameService.oversizedResponse FrameService.handleFrame
  repeat' split
  all_goals exact serializeResponse_ne_nil _

/-! ### One round -/

section Round

variable
  {state : σ}
  {stream frame rest : List UInt8}

theorem handleConnection_eq
    (received : readFrame stream run.limits.maxRequestBytes =
      .ok (frame, rest)) :
    (run.service state).handleConnection stream =
      (writeFrame (run.response state frame) run.limits.maxRequestBytes >>=
        fun sent => .ok (sent, rest)) := by
  rw [FrameService.handleConnection, run.sameLimits]
  dsimp only
  rw [received, ok_bind]
  rfl

theorem serve_of_error
    {failure : FrameError}
    (failed : readFrame stream run.limits.maxRequestBytes = .error failure) :
    run.serve state stream = ([], state) := by
  rw [serve]
  split
  · rfl
  · rename_i received
    rw [failed] at received
    cases received

theorem serve_of_tooLong
    (received : readFrame stream run.limits.maxRequestBytes =
      .ok (frame, rest))
    (tooLong : ¬FitsFrame run.limits.maxRequestBytes
      (run.response state frame)) :
    run.serve state stream = ([], run.next state frame) := by
  have handled := @handleConnection_eq σ run state stream frame rest received
  cases written : writeFrame (run.response state frame)
      run.limits.maxRequestBytes with
  | ok sent => exact absurd (writeFrame_eq_ok.mp written).1 tooLong
  | error failure =>
      rw [written, error_bind] at handled
      rw [serve]
      split
      · rename_i failed
        rw [received] at failed
        cases failed
      · rename_i again
        rw [received] at again
        cases again
        rw [handled]

theorem serve_of_fits
    (received : readFrame stream run.limits.maxRequestBytes =
      .ok (frame, rest))
    (fits : FitsFrame run.limits.maxRequestBytes (run.response state frame)) :
    run.serve state stream =
      (framed (run.response state frame) ++
          (run.serve (run.next state frame) rest).1,
        (run.serve (run.next state frame) rest).2) := by
  have handled := @handleConnection_eq σ run state stream frame rest received
  rw [writeFrame_eq_ok.mpr ⟨fits, rfl⟩, ok_bind] at handled
  rw [serve]
  split
  · rename_i failed
    rw [received] at failed
    cases failed
  · rename_i again
    rw [received] at again
    cases again
    rw [handled]

end Round

/-! ### All rounds -/

/-- The loop answers the frames of the stream. -/
theorem exists_answers
    (run : ServiceRun σ)
    (state : σ)
    (stream : List UInt8) :
    ∃ responses final,
      run.Answers state (readFrames run.limits.maxRequestBytes stream) responses
        final ∧
      run.serve state stream = (responses.flatMap framed, final) := by
  induction size : stream.length using Nat.strong_induction_on
    generalizing state stream with
  | _ size inductionHypothesis =>
      subst size
      cases received : readFrame stream run.limits.maxRequestBytes with
      | error failure =>
          rw [readFrames_of_error received]
          exact ⟨[], state, .done state, serve_of_error received⟩
      | ok parts =>
          obtain ⟨frame, rest⟩ := parts
          rw [readFrames_of_ok received]
          by_cases fits : FitsFrame run.limits.maxRequestBytes
              (run.response state frame)
          · obtain ⟨responses, final, answers, served⟩ :=
              inductionHypothesis rest.length (length_lt_of_readFrame received)
                (run.next state frame) rest rfl
            refine ⟨_, final, .round fits answers, ?_⟩
            rw [serve_of_fits received fits, served, List.flatMap_cons]
          · exact ⟨[], _, .closed fits, serve_of_tooLong received fits⟩

namespace Answers

variable
  {state final : σ}
  {frames responses : List (List UInt8)}

/-- Every response that is sent fits a frame. -/
theorem fit
    (answers : run.Answers state frames responses final) :
    ∀ response ∈ responses, FitsFrame run.limits.maxRequestBytes response := by
  induction answers with
  | done state => simp
  | round fits _ inductionHypothesis =>
      exact List.forall_mem_cons.mpr ⟨fits, inductionHypothesis⟩
  | closed _ => simp

/-- Every frame is answered when the short response fits a frame. -/
theorem length_eq
    (roomy : FrameService.oversizedResponse.length ≤ run.limits.maxRequestBytes)
    (isWord : run.limits.maxRequestBytes ≤ 0xFFFFFFFF)
    (answers : run.Answers state frames responses final) :
    responses.length = frames.length := by
  induction answers with
  | done state => rfl
  | round _ _ inductionHypothesis =>
      rw [List.length_cons, List.length_cons, inductionHypothesis]
  | @closed state frame _ tooLong =>
      refine absurd ⟨response_ne_nil state frame, ?_⟩ tooLong
      have short : (run.response state frame).length ≤
          run.limits.maxRequestBytes := by
        unfold response
        split <;> omega
      exact ⟨short, short.trans isWord⟩

end Answers

/-- Whatever a client sends, the daemon takes the frames of the stream one by one
and answers each before the next: what it sends is read back as the responses,
one for each frame in the same order, by any reader that takes frames as large.
Only a limit that is too small for the short response, or too large for the length
of a frame, ends a connection earlier. -/
theorem serve_answers_in_order
    (run : ServiceRun σ)
    (state : σ)
    (stream : List UInt8) :
    ∃ responses final,
      run.Answers state (readFrames run.limits.maxRequestBytes stream) responses
        final ∧
      run.serve state stream = (responses.flatMap framed, final) ∧
      (∀ readerMaximum, run.limits.maxRequestBytes ≤ readerMaximum →
        readFrames readerMaximum (run.serve state stream).1 = responses) ∧
      (FrameService.oversizedResponse.length ≤ run.limits.maxRequestBytes →
        run.limits.maxRequestBytes ≤ 0xFFFFFFFF →
        responses.length =
          (readFrames run.limits.maxRequestBytes stream).length) := by
  obtain ⟨responses, final, answers, served⟩ := exists_answers run state stream
  refine ⟨responses, final, answers, served, ?_, fun roomy isWord =>
    answers.length_eq roomy isWord⟩
  intro readerMaximum within
  have fit : ∀ response ∈ responses, FitsFrame readerMaximum response := by
    intro response member
    obtain ⟨some, short, isWord⟩ := answers.fit response member
    exact ⟨some, short.trans within, isWord⟩
  have read := readFrames_framed fit []
  have ended : readFrame [] readerMaximum = .error .unexpectedEof := rfl
  rw [List.append_nil, readFrames_of_error ended, List.append_nil] at read
  rw [served]
  exact read

end ServiceRun

/-! ## Three frames -/

/-- A service that admits a number of requests and refuses those that follow. -/
def limitedRun : ServiceRun Nat where
  limits := .default
  service left := { sampleService with
    rate := ensure (0 < left)
      (.domain .resourceLimit "request rate exceeded") }
  next left _ := left - 1
  sameLimits := fun _ => rfl

/-- Two requests for the status of a job, around bytes that are no request. -/
def sampleFrames : List (List UInt8) :=
  [sampleRequest.compact, [123], sampleRequest.compact]

theorem sampleFrames_fit :
    ∀ frame ∈ sampleFrames, FitsFrame ProtocolLimits.default.maxRequestBytes
      frame := by
  have request : FitsFrame ProtocolLimits.default.maxRequestBytes
      sampleRequest.compact :=
    ⟨by decide +kernel, by decide +kernel, by decide +kernel⟩
  have other : FitsFrame ProtocolLimits.default.maxRequestBytes [123] :=
    ⟨by decide, by decide, by decide⟩
  exact List.forall_mem_cons.mpr ⟨request, List.forall_mem_cons.mpr
    ⟨other, List.forall_mem_singleton.mpr request⟩⟩

/-- A client that sends three frames at once reads three responses, the last one
from a service that has no request left. -/
theorem sampleFrames_answered :
    ∃ first second third final,
      limitedRun.Answers 2 sampleFrames [first, second, third] final ∧
      readFrames defaultIpcFrameBytes
        (limitedRun.serve 2 (sampleFrames.flatMap framed)).1 =
          [first, second, third] := by
  obtain ⟨responses, final, answers, _, isRead, complete⟩ :=
    limitedRun.serve_answers_in_order 2 (sampleFrames.flatMap framed)
  have ended : readFrame [] ProtocolLimits.default.maxRequestBytes =
      .error .unexpectedEof := rfl
  have frames := readFrames_framed sampleFrames_fit []
  rw [List.append_nil, readFrames_of_error ended, List.append_nil] at frames
  change readFrames limitedRun.limits.maxRequestBytes _ = _ at frames
  rw [frames] at answers complete
  have count := complete (by decide +kernel) (by decide)
  obtain ⟨first, second, third, rfl⟩ := List.length_eq_three.mp count
  have read := isRead defaultIpcFrameBytes (Nat.le_refl _)
  exact ⟨first, second, third, final, answers, read⟩

end Pithos.Daemon
