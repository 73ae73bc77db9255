import Pithos.Daemon.Store.Lifecycle

/-!
# Submitting again

A session that submits under a key it used before gets the job it already has.
The index that decides this is keyed by a text made of session and key, which no
two pairs share, and it keeps its rows for ever.
-/

namespace Pithos.Daemon

open HostPath
open Fallible
open Machine
open Std
open MapValues
open Simulation

/-- The parameters of a submission are those of a job. -/
def SameParameters (job : StoredJob) (submission : JobSubmission) : Prop :=
  job.paramsHash = submission.paramsHash ∧ job.method = submission.method ∧
    job.priority = submission.priority

instance (job : StoredJob) (submission : JobSubmission) :
    Decidable (SameParameters job submission) := by
  unfold SameParameters
  infer_instance

/-- The answer to a submission whose key has a job. -/
def answerAgain (job : StoredJob) (submission : JobSubmission) :
    RpcResult JobAccepted :=
  if SameParameters job submission then
    .ok { jobId := job.jobId, state := job.state, idempotentReplay := true }
  else
    .error (.domain .jobConflict "idempotency key has different parameters")

theorem replay_eq_answerAgain (job : StoredJob) (submission : JobSubmission) :
    replay job submission = answerAgain job submission := by
  unfold replay answerAgain SameParameters ensure
  by_cases hash : job.paramsHash = submission.paramsHash
  · by_cases method : job.method = submission.method
    · by_cases priority : job.priority = submission.priority
      · simp [hash, method, priority]
      · simp [hash, method, priority]
    · simp [hash, method]
  · simp [hash]

/-- A submission whose key has a job is answered from that job, before any bound
is looked at. -/
theorem submitWithLimit_known
    {registry : JobRegistry}
    {policy : StorePolicy}
    {enforce : Bool}
    (valid : ValidState registry.state policy enforce)
    (isOpen : registry.closed = false)
    (healthy : registry.healthy = true)
    {key : String}
    {job : StoredJob}
    (found : registry.state.jobs[key]? = some job)
    {submission : JobSubmission}
    (sameOwner : submission.owner = job.owner)
    (sameKey : submission.idempotencyKey = job.idempotencyKey)
    (json : StoreJson)
    (fault : Option StorageFault)
    (created now : UInt64)
    (maxNonterminalForOwner : Nat) :
    registry.submitWithLimit json fault created now submission
      maxNonterminalForOwner = (answerAgain job submission, registry) := by
  have ok := valid.jobs key job found
  have decided : decideSubmit registry.policy created now submission
      maxNonterminalForOwner registry.state =
        (answerAgain job submission).map fun accepted => (none, accepted) := by
    simp only [decideSubmit, decideAdmission, sameOwner, sameKey,
      ok.idempotencyKey, ok.index, ← ok.key, found, okOr_some,
      replay_eq_answerAgain, ok_bind]
    rcases answerAgain job submission with failure | accepted <;> rfl
  simp only [JobRegistry.submitWithLimit, isOpen, Bool.false_eq_true, if_false,
    JobRegistry.gated, healthy, if_true, decided]
  rcases answerAgain job submission with failure | accepted <;> rfl

/-- At most one job of a valid state has a given session and key. -/
theorem ValidState.key_unique
    {state : PersistentState}
    {policy : StorePolicy}
    {enforce : Bool}
    (valid : ValidState state policy enforce)
    {key other : String}
    {job otherJob : StoredJob}
    (found : state.jobs[key]? = some job)
    (otherFound : state.jobs[other]? = some otherJob)
    (sameOwner : otherJob.owner = job.owner)
    (sameKey : otherJob.idempotencyKey = job.idempotencyKey) :
    other = key := by
  have ok := valid.jobs key job found
  have otherOk := valid.jobs other otherJob otherFound
  have index := otherOk.index
  rw [sameOwner, sameKey, ok.index, Option.some.injEq] at index
  rw [otherOk.key, ok.key, index]

/-- What submitting under a key means over a run. -/
structure SubmitsOnce
    (json : StoreJson)
    (run : Nat → Store)
    (committed : Nat → PersistentState) : Prop where
  /-- A job is never removed. -/
  kept : ∀ {time later : Nat} {key : String} {job : StoredJob},
    time ≤ later → (committed time).jobs[key]? = some job →
    ∃ same, (committed later).jobs[key]? = some same ∧ SameAdmission job same
  /-- A session never has two jobs under one key, at no two times. -/
  unique : ∀ {time later : Nat} {key other : String} {job otherJob : StoredJob},
    (committed time).jobs[key]? = some job →
    (committed later).jobs[other]? = some otherJob →
    otherJob.owner = job.owner →
    otherJob.idempotencyKey = job.idempotencyKey → other = key
  /-- A later submission under the key is answered from the job. -/
  answered : ∀ {time later : Nat} {key : String} {job : StoredJob}
      {registry : JobRegistry} {submission : JobSubmission}
      (fault : Option StorageFault) (created now : UInt64)
      (maxNonterminalForOwner : Nat),
    time ≤ later → (committed time).jobs[key]? = some job →
    run later = .up registry → registry.closed = false →
    registry.healthy = true → submission.owner = job.owner →
    submission.idempotencyKey = job.idempotencyKey →
    ∃ current, registry.state.jobs[key]? = some current ∧
      registry.submitWithLimit json fault created now submission
          maxNonterminalForOwner =
        (if SameParameters job submission then
          .ok {
            jobId := job.jobId
            state := current.state
            idempotentReplay := true }
        else .error (.domain .jobConflict
          "idempotency key has different parameters"), registry)
  /-- Two pairs of session and key never share a row of the index. -/
  separate : ∀ {owner otherOwner : SessionId} {key otherKey : String},
    idempotencyMapKey owner key = idempotencyMapKey otherOwner otherKey →
    owner = otherOwner ∧ key = otherKey

end Pithos.Daemon
