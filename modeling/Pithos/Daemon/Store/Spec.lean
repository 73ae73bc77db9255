import Pithos.Daemon.Store.Operations

/-!
# What the store checks demand

Identifiers and keys are read back from their texts; the events of a job are
numbered without gap; and a state is valid exactly when all its jobs and index
rows are.
-/

namespace Pithos.Daemon

open HostPath
open Fallible
open Machine
open Std
open MapValues

/-! ## Identifiers and keys -/

theorem toList_jobIdText (number : UInt64) :
    (jobIdText number).toList = "job-".toList ++ Hex.write 16 number.toNat := by
  simp only [jobIdText, String.toList_append, String.toList_ofList]

/-- The number of a job is read back from its identifier. -/
theorem parseJobNumber_jobIdText (number : UInt64) :
    parseJobNumber ⟨jobIdText number⟩ = .ok number := by
  have lead : "job-".toList.isPrefixOf (jobIdText number).toList = true := by
    rw [toList_jobIdText, List.isPrefixOf_iff_prefix]
    exact List.prefix_append _ _
  have digits : (jobIdText number).toList.drop 4 =
      Hex.write 16 number.toNat := by
    rw [toList_jobIdText]
    exact List.drop_left' (by decide)
  have bound := number.toNat_lt
  have read := @Hex.read_write 16 number.toNat (by
    have width : 16 ^ 16 = 2 ^ 64 := by decide
    rwa [width])
  unfold parseJobNumber
  rw [digits, ensure_of ⟨lead, Hex.length_write _ _⟩, ok_bind, read, okOr_some,
    ok_bind, UInt64.ofNat_toNat]

theorem JobId.new_jobIdText (number : UInt64) :
    JobId.new (jobIdText number) = .ok ⟨jobIdText number⟩ := by
  have length : (jobIdText number).length = 20 := by
    rw [← String.length_toList, toList_jobIdText, List.length_append,
      Hex.length_write]
    rfl
  have digits : ∀ small < 16,
      isIdentifierCharacter (Hex.digit small) = true := by decide
  have characters : (jobIdText number).toList.all isIdentifierCharacter =
      true := by
    rw [toList_jobIdText, List.all_append, Bool.and_eq_true]
    refine ⟨by decide, List.all_eq_true.mpr fun character member => ?_⟩
    obtain ⟨small, isSmall, rfl⟩ := Hex.exists_digit_of_mem_write member
    exact digits small isSmall
  have lead : "job-".toList.isPrefixOf (jobIdText number).toList = true := by
    rw [toList_jobIdText, List.isPrefixOf_iff_prefix]
    exact List.prefix_append _ _
  unfold JobId.new validIdentifier
  rw [length, lead, characters, ensure_of (by decide), ok_bind]

/-- No identifier has a colon. -/
theorem SessionId.colon_notMem (owner : SessionId) :
    ':' ∉ owner.value.toList := by
  intro member
  have valid := owner.valid
  simp only [validIdentifier, Bool.and_eq_true, List.all_eq_true] at valid
  have colon := valid.2 ':' member
  exact absurd colon (by decide)

/-- Texts are cut in one way at their first colon. -/
theorem eq_of_append_colon_eq
    {first second rest other : List Char}
    (firstFree : ':' ∉ first)
    (secondFree : ':' ∉ second)
    (same : first ++ ':' :: rest = second ++ ':' :: other) :
    first = second ∧ rest = other := by
  induction first generalizing second with
  | nil =>
      cases second with
      | nil => exact ⟨rfl, by simpa using same⟩
      | cons character characters =>
          simp only [List.nil_append, List.cons_append, List.cons.injEq] at same
          exact absurd (List.mem_cons.mpr (Or.inl same.1)) secondFree
  | cons character characters inductionHypothesis =>
      cases second with
      | nil =>
          simp only [List.nil_append, List.cons_append, List.cons.injEq] at same
          exact absurd (List.mem_cons.mpr (Or.inl same.1.symm)) firstFree
      | cons other others =>
          simp only [List.cons_append, List.cons.injEq] at same
          obtain ⟨rfl, tail⟩ := same
          have := inductionHypothesis
            (fun member => firstFree (List.mem_cons_of_mem _ member))
            (fun member => secondFree (List.mem_cons_of_mem _ member)) tail
          exact ⟨by rw [this.1], this.2⟩

/-- Two pairs of owner and key share an index key only when they are the
same. -/
theorem idempotencyMapKey_inj
    {owner otherOwner : SessionId}
    {key otherKey : String}
    (same : idempotencyMapKey owner key =
      idempotencyMapKey otherOwner otherKey) :
    owner = otherOwner ∧ key = otherKey := by
  have texts := congrArg String.toList same
  simp only [idempotencyMapKey, String.toList_append, List.append_assoc]
    at texts
  obtain ⟨values, keys⟩ := eq_of_append_colon_eq owner.colon_notMem
    otherOwner.colon_notMem texts
  refine ⟨?_, String.toList_inj.mp keys⟩
  obtain ⟨value, _⟩ := owner
  obtain ⟨otherValue, _⟩ := otherOwner
  simpa only [SessionId.mk.injEq] using String.toList_inj.mp values

/-! ## Events -/

/-- The event that a job in its current state adds. -/
def StoredJob.nextEvent (job : StoredJob) (phase : String) (now : UInt64) :
    ProgressEvent where
  jobId := job.jobId
  sequence := job.nextSequence
  state := job.state
  phase := phase
  completedUnits := if job.state.isTerminal then 1 else 0
  totalUnits := some 1
  occurredAtUnixMs := now

/-- The job with one more event, before any is forgotten. -/
def StoredJob.withEvent (job : StoredJob) (phase : String) (now : UInt64) :
    StoredJob :=
  { job with
    nextSequence := job.nextSequence + 1
    updatedAtUnixMs := now
    events := job.events ++ [job.nextEvent phase now] }

theorem appendEvent_eq_ok
    {job next : StoredJob}
    {phase : String}
    {maximumEvents : Nat}
    {now : UInt64} :
    appendEvent job phase maximumEvents now = .ok next ↔
      job.nextSequence.toNat + 1 < 2 ^ 64 ∧
        next = trimEventHistory (job.withEvent phase now) maximumEvents := by
  simp only [appendEvent, bind_eq_ok, okOr_eq_ok, Except.ok.injEq]
  constructor
  · rintro ⟨nextSequence, sum, rfl⟩
    have value := checkedAdd_eq_some_add sum
    have bound := nextSequence.toNat_lt
    rw [checkedAdd_eq_some] at sum
    subst value
    refine ⟨?_, rfl⟩
    simpa [← sum] using bound
  · rintro ⟨fits, rfl⟩
    obtain ⟨sum, added, _⟩ := @checkedAdd_of_lt job.nextSequence 1 (by simpa)
    have value := checkedAdd_eq_some_add added
    subst value
    exact ⟨_, added, rfl⟩

/-- The events of a job are numbered without gap up to the latest, which has the
job's state. -/
structure EventsOk (job : StoredJob) : Prop where
  nonempty : job.events ≠ []
  sequences : job.events.map (fun event => event.sequence.toNat) =
    List.range' (job.nextSequence.toNat - job.events.length)
      job.events.length
  fewer : job.events.length < job.nextSequence.toNat
  own : ∀ event ∈ job.events, event.jobId = job.jobId
  last : ∀ event ∈ job.events.getLast?, event.state = job.state

/-- Forgetting old events keeps the numbering. -/
theorem EventsOk.trim
    {job : StoredJob}
    (ok : EventsOk job)
    {maximumEvents : Nat}
    (positive : maximumEvents ≠ 0) :
    EventsOk (trimEventHistory job maximumEvents) where
  nonempty := by
    have := List.length_pos_iff.mpr ok.nonempty
    simp only [trimEventHistory, ne_eq, List.drop_eq_nil_iff]
    omega
  sequences := by
    have fewer := ok.fewer
    simp only [trimEventHistory, List.map_drop, ok.sequences,
      List.length_drop]
    rw [List.drop_range']
    congr 1
    omega
  fewer := by
    have := ok.fewer
    simp only [trimEventHistory, List.length_drop]
    omega
  own := fun event member => ok.own event (List.mem_of_mem_drop member)
  last := by
    intro event isLast
    refine ok.last event ?_
    simp only [trimEventHistory, List.getLast?_drop] at isLast
    split at isLast
    · cases isLast
    · exact isLast

/-- One more event keeps the numbering. -/
theorem EventsOk.withEvent
    {job : StoredJob}
    (numbered : job.events.map (fun event => event.sequence.toNat) =
      List.range' (job.nextSequence.toNat - job.events.length)
        job.events.length)
    (fewer : job.events.length < job.nextSequence.toNat)
    (own : ∀ event ∈ job.events, event.jobId = job.jobId)
    (fits : job.nextSequence.toNat + 1 < 2 ^ 64)
    (phase : String)
    (now : UInt64) :
    EventsOk (job.withEvent phase now) := by
  have next : (job.nextSequence + 1).toNat = job.nextSequence.toNat + 1 := by
    rw [UInt64.toNat_add]
    exact Nat.mod_eq_of_lt fits
  refine {
    nonempty := by simp [StoredJob.withEvent]
    sequences := ?_
    fewer := ?_
    own := ?_
    last := ?_ }
  · simp only [StoredJob.withEvent, List.map_append, numbered, List.map_cons,
      List.map_nil, List.length_append, List.length_cons, List.length_nil,
      next, StoredJob.nextEvent, Nat.zero_add]
    rw [List.range'_concat, Nat.add_sub_add_right]
    congr 2
    omega
  · simp only [StoredJob.withEvent, List.length_append, List.length_cons,
      List.length_nil, next]
    omega
  · intro event member
    rcases List.mem_append.mp member with old | isNew
    · exact own event old
    · rw [List.mem_singleton.mp isNew]
      rfl
  · intro event isLast
    simp only [StoredJob.withEvent, List.getLast?_append,
      List.getLast?_singleton, Option.some_or, Option.mem_def,
      Option.some.injEq] at isLast
    rw [← isLast]
    rfl

/-- Events numbered in order from a positive number pass the check. -/
theorem validateEvents_of_range
    {jobId : JobId}
    {events : List ProgressEvent}
    {start : Nat}
    (numbered : events.map (fun event => event.sequence.toNat) =
      List.range' start events.length)
    (positive : 0 < start)
    (own : ∀ event ∈ events, event.jobId = jobId)
    {position : Nat}
    {previous : Option UInt64}
    (earlier : ∀ sequence ∈ previous, sequence.toNat < start) :
    ∃ latest, forEnum (validateEvent jobId) position events previous =
      .ok latest := by
  induction events generalizing start position previous with
  | nil => exact ⟨previous, rfl⟩
  | cons first rest inductionHypothesis =>
      simp only [List.map_cons, List.length_cons, List.range'_succ,
        List.cons.injEq] at numbered
      obtain ⟨isStart, restNumbered⟩ := numbered
      obtain ⟨latest, passed⟩ := @inductionHypothesis (start + 1) restNumbered
        (by omega) (fun event member => own event (List.mem_cons_of_mem _ member))
        (position + 1) (some first.sequence) (by
          intro sequence isSequence
          cases isSequence
          omega)
      refine ⟨latest, ?_⟩
      have nonzero : first.sequence ≠ 0 := by
        intro isZero
        rw [isZero] at isStart
        simp at isStart
        omega
      have accepted : validateEvent jobId position first previous =
          .ok (some first.sequence) := by
        rw [validateEvent, ensure_of, ok_bind]
        rintro (foreign | isZero | ⟨sequence, isSequence, notAfter⟩)
        · exact foreign (own first List.mem_cons_self)
        · exact nonzero isZero
        · have := earlier sequence isSequence
          rw [UInt64.le_iff_toNat_le] at notAfter
          omega
      rw [forEnum_cons, accepted, ok_bind, passed]

/-- Well numbered events pass the check when they are few enough. -/
theorem EventsOk.validateJobEvents_eq_ok
    {job : StoredJob}
    (ok : EventsOk job)
    {policy : StorePolicy}
    {enforceRetention : Bool} :
    validateJobEvents job policy enforceRetention = .ok () ↔
      (enforceRetention = true →
        job.events.length ≤ policy.maxEventsPerJob) := by
  have fewer := ok.fewer
  obtain ⟨latest, passed⟩ := @validateEvents_of_range job.jobId job.events _
    ok.sequences (by omega) ok.own 0 none (by simp)
  obtain ⟨last, isLast⟩ := Option.ne_none_iff_exists'.mp
    (fun absent => ok.nonempty (List.getLast?_eq_none_iff.mp absent))
  have positive := List.length_pos_iff.mpr ok.nonempty
  have lastNumber : last.sequence.toNat + 1 = job.nextSequence.toNat := by
    have mapped := congrArg List.getLast? ok.sequences
    rw [List.getLast?_map, isLast, Option.map_some, List.getLast?_range',
      if_neg (by omega), Option.some.injEq] at mapped
    omega
  have bound := job.nextSequence.toNat_lt
  obtain ⟨sum, added, value⟩ := @checkedAdd_of_lt last.sequence 1 (by
    simp
    omega)
  have sameNext : job.nextSequence = sum := by
    rw [← UInt64.toNat_inj, value]
    simpa using lastNumber.symm
  have lastState := ok.last last isLast
  unfold validateJobEvents
  simp only [bind_eq_ok, ensure_eq_ok, okOr_eq_ok, exists_const]
  constructor
  · rintro ⟨few, _⟩ enforced
    by_contra many
    exact few (Or.inr ⟨enforced, by omega⟩)
  · intro few
    refine ⟨?_, latest, passed, last, isLast, sum, added, ?_⟩
    · rintro (empty | ⟨enforced, many⟩)
      · exact ok.nonempty empty
      · have := few enforced
        omega
    · rintro (different | different)
      · exact different sameNext
      · exact different lastState

/-! ## Jobs and states -/

/-- The demands on one job of a state. -/
structure ValidJob
    (state : PersistentState)
    (policy : StorePolicy)
    (enforceRetention : Bool)
    (key : String)
    (job : StoredJob) : Prop where
  key : key = job.jobId.value
  method : job.method = operationMethod job.operation
  threads : job.limits.maxThreads ≠ 0
  memory : job.limits.maxMemory ≠ 0
  output : job.limits.maxOutput ≠ 0
  idempotencyKey : validateIdempotencyKey job.idempotencyKey = .ok ()
  number : ∃ number, parseJobNumber job.jobId = .ok number ∧
    number < state.nextJob
  index : state.idempotency[idempotencyMapKey job.owner
    job.idempotencyKey]? = some job.jobId.value
  events : validateJobEvents job policy enforceRetention = .ok ()
  result : resultFits job
  marker : validatePackPublicationMarker job = .ok ()

/-- The demands on a state. -/
structure ValidState
    (state : PersistentState)
    (policy : StorePolicy)
    (enforceRetention : Bool) : Prop where
  schema : state.schemaVersion = storeSchemaVersion
  retention : enforceRetention = true →
    state.jobs.size ≤ policy.maxRetainedJobs
  nextJob : state.nextJob ≠ 0
  sizes : state.idempotency.size = state.jobs.size
  jobs : ∀ (key : String) job, state.jobs[key]? = some job →
    ValidJob state policy enforceRetention key job
  index : ∀ (key jobId : String), state.idempotency[key]? = some jobId →
    ∃ job, state.jobs[jobId]? = some job ∧
      key = idempotencyMapKey job.owner job.idempotencyKey

theorem mapError_eq_ok
    {ε ε' α : Type}
    {result : Except ε α}
    {change : ε → ε'}
    {value : α} :
    result.mapError change = .ok value ↔ result = .ok value := by
  cases result <;> simp [Except.mapError]

/-- The checks on one job that do not compare it with the others. -/
structure CheckedJob
    (state : PersistentState)
    (policy : StorePolicy)
    (enforceRetention : Bool)
    (item : String × StoredJob) : Prop where
  key : item.1 = item.2.jobId.value
  method : item.2.method = operationMethod item.2.operation
  threads : item.2.limits.maxThreads ≠ 0
  memory : item.2.limits.maxMemory ≠ 0
  output : item.2.limits.maxOutput ≠ 0
  idempotencyKey : validateIdempotencyKey item.2.idempotencyKey = .ok ()
  number : ∃ number, parseJobNumber item.2.jobId = .ok number
  index : state.idempotency[idempotencyMapKey item.2.owner
    item.2.idempotencyKey]? = some item.2.jobId.value
  events : validateJobEvents item.2 policy enforceRetention = .ok ()
  result : resultFits item.2
  marker : validatePackPublicationMarker item.2 = .ok ()

/-- The number of a job, when it has one. -/
def numberOf (item : String × StoredJob) : UInt64 :=
  match parseJobNumber item.2.jobId with
  | .ok number => number
  | .error _ => 0

theorem validateJob_eq_ok
    {state : PersistentState}
    {policy : StorePolicy}
    {enforceRetention : Bool}
    (position : Nat)
    (item : String × StoredJob)
    (maximum next : UInt64) :
    validateJob state policy enforceRetention position item maximum =
        .ok next ↔
      CheckedJob state policy enforceRetention item ∧
        next = max maximum (numberOf item) := by
  have ownerValid := item.2.owner.valid
  simp only [validateJob, bind_eq_ok, ensure_eq_ok, mapError_eq_ok,
    exists_const, validateJobResult, Except.ok.injEq, ownerValid, not_or,
    Decidable.not_not, numberOf]
  constructor
  · rintro ⟨⟨key, _, method, threads, memory, output⟩, _, keyOk, number,
      isNumber, index, _, events, result, _, marker, rfl⟩
    refine ⟨⟨key, method, threads, memory, output, keyOk, ⟨number, isNumber⟩,
      index, events, result, marker⟩, ?_⟩
    rw [isNumber]
  · rintro ⟨ok, rfl⟩
    obtain ⟨number, isNumber⟩ := ok.number
    refine ⟨⟨ok.key, by simp, ok.method, ok.threads, ok.memory, ok.output⟩,
      (), ok.idempotencyKey, number, isNumber, ok.index, (), ok.events,
      ok.result, (), ok.marker, ?_⟩
    rw [isNumber]

theorem validateIndexRow_eq_ok
    {state : PersistentState}
    (position : Nat)
    (row : String × String)
    (checked next : Unit) :
    validateIndexRow state position row checked = .ok next ↔
      (∃ job, state.jobs[row.2]? = some job ∧
        row.1 = idempotencyMapKey job.owner job.idempotencyKey) ∧
      next = checked := by
  simp only [validateIndexRow, bind_eq_ok, okOr_eq_ok, ensure_eq_ok,
    and_true]

/-- The largest number is below a bound exactly when every number is. -/
theorem foldl_max_lt_iff
    {items : List (String × StoredJob)}
    {start bound : UInt64} :
    items.foldl (fun maximum item => max maximum (numberOf item)) start <
        bound ↔
      start < bound ∧ ∀ item ∈ items, numberOf item < bound := by
  have maximum (left right : UInt64) :
      max left right < bound ↔ left < bound ∧ right < bound := by
    have unfolded : max left right = if left ≤ right then right else left := rfl
    rw [unfolded]
    simp only [UInt64.lt_iff_toNat_lt, UInt64.le_iff_toNat_le]
    split <;> omega
  induction items generalizing start with
  | nil => simp
  | cons first rest inductionHypothesis =>
      rw [List.foldl_cons, List.forall_mem_cons, ← and_assoc, ← maximum]
      exact inductionHypothesis

/-- A state is valid exactly when it meets all demands. -/
theorem validateState_eq_ok
    {state : PersistentState}
    {policy : StorePolicy}
    {enforceRetention : Bool}
    {result : Unit} :
    validateState state policy enforceRetention = .ok result ↔
      ValidState state policy enforceRetention := by
  have inList {key : String} {job : StoredJob} :
      (key, job) ∈ state.jobs.toList ↔ state.jobs[key]? = some job :=
    ExtTreeMap.mem_toList_iff_getElem?_eq_some
  have inIndex {key jobId : String} :
      (key, jobId) ∈ state.idempotency.toList ↔
        state.idempotency[key]? = some jobId :=
    ExtTreeMap.mem_toList_iff_getElem?_eq_some
  simp only [validateState, bind_eq_ok, ensure_eq_ok, exists_const,
    forEnum_mem_eq_ok (@validateJob_eq_ok state policy enforceRetention),
    forEnum_mem_eq_ok (@validateIndexRow_eq_ok state)]
  constructor
  · rintro ⟨schema, retention, counters, _, ⟨jobs, rfl⟩, next, index, _⟩
    rw [not_or, Decidable.not_not] at counters
    refine ⟨schema, ?_, counters.1, counters.2, ?_, ?_⟩
    · intro enforced
      by_contra many
      exact retention ⟨enforced, by omega⟩
    · intro key job found
      have checked := jobs (key, job) (inList.mpr found)
      obtain ⟨number, isNumber⟩ := checked.number
      have below : state.jobs.toList.foldl
          (fun maximum item => max maximum (numberOf item)) 0 <
          state.nextJob := by
        by_contra notBelow
        refine next ⟨size_ne_zero_of_getElem?_eq_some found, ?_⟩
        rw [UInt64.le_iff_toNat_le]
        rw [UInt64.lt_iff_toNat_lt] at notBelow
        omega
      have numberBelow := (foldl_max_lt_iff.mp below).2 (key, job)
        (inList.mpr found)
      rw [numberOf, isNumber] at numberBelow
      exact ⟨checked.key, checked.method, checked.threads, checked.memory,
        checked.output, checked.idempotencyKey, ⟨number, isNumber, numberBelow⟩,
        checked.index, checked.events, checked.result, checked.marker⟩
    · intro key jobId found
      exact index (key, jobId) (inIndex.mpr found)
  · intro valid
    refine ⟨valid.schema, ?_, ?_, _, ⟨?_, rfl⟩, ?_, ?_, trivial⟩
    · rintro ⟨enforced, many⟩
      have := valid.retention enforced
      omega
    · rw [not_or, Decidable.not_not]
      exact ⟨valid.nextJob, valid.sizes⟩
    · rintro ⟨key, job⟩ member
      have ok := valid.jobs key job (inList.mp member)
      obtain ⟨number, isNumber, _⟩ := ok.number
      exact ⟨ok.key, ok.method, ok.threads, ok.memory, ok.output,
        ok.idempotencyKey, ⟨number, isNumber⟩, ok.index, ok.events, ok.result,
        ok.marker⟩
    · rintro ⟨_, notAbove⟩
      have below : state.jobs.toList.foldl
          (fun maximum item => max maximum (numberOf item)) 0 <
          state.nextJob := by
        rw [foldl_max_lt_iff]
        constructor
        · exact UInt64.pos_iff_ne_zero.mpr valid.nextJob
        · rintro ⟨key, job⟩ member
          obtain ⟨number, isNumber, numberBelow⟩ :=
            (valid.jobs key job (inList.mp member)).number
          rw [numberOf, isNumber]
          exact numberBelow
      rw [UInt64.lt_iff_toNat_lt] at below
      rw [UInt64.le_iff_toNat_le] at notAbove
      omega
    · rintro ⟨key, jobId⟩ member
      exact valid.index key jobId (inIndex.mp member)

end Pithos.Daemon
