import Pithos.Daemon.Store.Run

/-!
# The journal of the job store

Opening a store again takes the last committed state and finishes the jobs that
were under way.  Together with the calls this makes every run of the store a run
of an abstract journal of committed states, in which each state follows the one
before.
-/

namespace Pithos.Daemon

open HostPath
open Fallible
open Machine
open Std
open MapValues
open Utf8

/-! ## Decoding what was encoded -/

/-- Whether a value is the null of JSON. -/
def Value.isNull : Value → Bool
  | null => true
  | _ => false

mutual

/-- A value as it comes back from JSON, given how numbers with a fraction do. -/
def Value.reread (rereadFloat : List UInt8 → List UInt8) : Value → Value
  | .null => .null
  | .bool value => .bool value
  | .posInt value => .posInt value
  | .negInt value => .negInt value
  | .float text => .float (rereadFloat text)
  | .string utf8 => .string utf8
  | .array items => .array (rereadItems rereadFloat items)
  | .object fields => .object (rereadFields rereadFloat fields)

/-- The items of an array as they come back. -/
def rereadItems (rereadFloat : List UInt8 → List UInt8) :
    List Value → List Value
  | [] => []
  | item :: items => item.reread rereadFloat :: rereadItems rereadFloat items

/-- The fields of an object as they come back. -/
def rereadFields (rereadFloat : List UInt8 → List UInt8) :
    List (String × Value) → List (String × Value)
  | [] => []
  | (name, value) :: fields =>
      (name, value.reread rereadFloat) :: rereadFields rereadFloat fields

end

/-- An optional field as it comes back: a null is no value. -/
def rereadOptional
    (rereadFloat : List UInt8 → List UInt8)
    (field : Option Value) : Option Value :=
  (field.map (Value.reread rereadFloat)).filter fun value => !value.isNull

/-- An error as it comes back from JSON. -/
def JsonRpcError.reread
    (rereadFloat : List UInt8 → List UInt8)
    (error : JsonRpcError) : JsonRpcError :=
  { error with data := rereadOptional rereadFloat error.data }

/-- A job as it comes back from JSON. -/
def StoredJob.reread
    (rereadFloat : List UInt8 → List UInt8)
    (job : StoredJob) : StoredJob :=
  { job with
    result := rereadOptional rereadFloat job.result
    error := job.error.map (JsonRpcError.reread rereadFloat) }

/-- A state as it comes back from JSON. -/
def PersistentState.reread
    (rereadFloat : List UInt8 → List UInt8)
    (state : PersistentState) : PersistentState :=
  { state with jobs := state.jobs.map fun _ job => job.reread rereadFloat }

mutual

/-- How deep a value is nested. -/
def Value.depth : Value → Nat
  | .null | .bool _ | .posInt _ | .negInt _ | .float _ | .string _ => 0
  | .array items => depthOfItems items + 1
  | .object fields => depthOfFields fields + 1

/-- How deep the items of an array are nested. -/
def depthOfItems : List Value → Nat
  | [] => 0
  | item :: items => max item.depth (depthOfItems items)

/-- How deep the fields of an object are nested. -/
def depthOfFields : List (String × Value) → Nat
  | [] => 0
  | (_, value) :: fields => max value.depth (depthOfFields fields)

end

/-- How deep a result may be nested: the decoder goes 127 levels deep, and a
result lies three levels below the state. -/
def maxResultDepth : Nat := 124

/-- How deep the data of an error may be nested, which lie in the error. -/
def maxDataDepth : Nat := 123

/-- A value that comes back from the store as it went in. -/
def Value.Storable
    (rereadFloat : List UInt8 → List UInt8)
    (maximumDepth : Nat)
    (value : Value) : Prop :=
  value.isNull = false ∧ value.reread rereadFloat = value ∧
    value.depth ≤ maximumDepth

/-- An error that comes back from the store as it went in. -/
def JsonRpcError.Storable
    (rereadFloat : List UInt8 → List UInt8)
    (error : JsonRpcError) : Prop :=
  ∀ value ∈ error.data, value.Storable rereadFloat maxDataDepth

/-- The result and the error of a job are of a kind. -/
structure StoredJob.OutcomeIs
    (Result : Value → Prop)
    (Error : JsonRpcError → Prop)
    (job : StoredJob) : Prop where
  result : ∀ value ∈ job.result, Result value
  error : ∀ error ∈ job.error, Error error

/-- The results and errors of all jobs are of a kind. -/
def PersistentState.OutcomesAre
    (Result : Value → Prop)
    (Error : JsonRpcError → Prop)
    (state : PersistentState) : Prop :=
  ∀ (key : String) job, state.jobs[key]? = some job →
    job.OutcomeIs Result Error

/-- All outcomes come back from the store as they went in. -/
abbrev PersistentState.Plain
    (rereadFloat : List UInt8 → List UInt8)
    (state : PersistentState) : Prop :=
  state.OutcomesAre (Value.Storable rereadFloat maxResultDepth)
    (JsonRpcError.Storable rereadFloat)

/-- All outcomes come back as they went in, null results apart. -/
abbrev PersistentState.Kept
    (rereadFloat : List UInt8 → List UInt8)
    (state : PersistentState) : Prop :=
  state.OutcomesAre (fun value => value.reread rereadFloat = value)
    fun error => error.reread rereadFloat = error

/-- The paths of an operation. -/
def StoredOperation.paths : StoredOperation → List Path
  | pack inputs output _ => inputs ++ [output]
  | unpack archive output => [archive, output]
  | list archive => [archive]
  | inspect archive => [archive]
  | extract archive entry output => [archive, entry, output]
  | readRange archive entry _ _ => [archive, entry]
  | verify archive => [archive]

/-- All paths of the jobs are UTF-8. -/
def PersistentState.Utf8Paths (state : PersistentState) : Prop :=
  ∀ (key : String) job, state.jobs[key]? = some job →
    ∀ path ∈ job.operation.paths, isUtf8 path = true

/-- What the store relies on in the JSON crate.  Only UTF-8 paths are encoded,
whatever an encoded state decodes to is the state up to nulls and fractions, and
a state with storable outcomes does decode. -/
structure StoreJson.Lawful (json : StoreJson) : Prop where
  text : ∀ {state bytes}, json.toVec state = some bytes → state.Utf8Paths
  reread : ∀ {state next bytes}, json.toVec state = some bytes →
    json.fromSlice bytes = some next → next = state.reread json.rereadFloat
  decodes : ∀ {state bytes}, json.toVec state = some bytes →
    state.Plain json.rereadFloat → ∃ next, json.fromSlice bytes = some next

section Reread

variable
  {rereadFloat : List UInt8 → List UInt8}
  {state : PersistentState}

theorem getElem?_reread (key : String) :
    (state.reread rereadFloat).jobs[key]? =
      state.jobs[key]?.map (StoredJob.reread rereadFloat) :=
  ExtTreeMap.getElem?_map

/-- A state whose jobs come back as they were comes back as it was. -/
theorem reread_eq_self_of_jobs
    (same : ∀ (key : String) job, state.jobs[key]? = some job →
      job.reread rereadFloat = job) :
    state.reread rereadFloat = state := by
  have jobs : (state.reread rereadFloat).jobs = state.jobs := by
    refine ExtTreeMap.ext_getElem? fun key => ?_
    rw [getElem?_reread]
    cases found : state.jobs[key]? with
    | none => rfl
    | some job => rw [Option.map_some, same key job found]
  exact congrArg (fun jobs => { state with jobs := jobs }) jobs

theorem rereadOptional_eq_self
    {field : Option Value}
    (same : ∀ value ∈ field, value.reread rereadFloat = value)
    (notNull : ∀ value ∈ field, value.isNull = false) :
    rereadOptional rereadFloat field = field := by
  cases field with
  | none => rfl
  | some value =>
      simp [rereadOptional, Option.filter, same value rfl, notNull value rfl]

theorem JsonRpcError.Storable.reread_eq
    {error : JsonRpcError}
    (storable : error.Storable rereadFloat) :
    error.reread rereadFloat = error := by
  have data := @rereadOptional_eq_self rereadFloat error.data
    (fun value isData => (storable value isData).2.1)
    (fun value isData => (storable value isData).1)
  rw [JsonRpcError.reread, data]

/-- A job comes back as it was when its outcome does and is not null. -/
theorem StoredJob.reread_eq_self
    {job : StoredJob}
    (kept : job.OutcomeIs (fun value => value.reread rereadFloat = value)
      fun error => error.reread rereadFloat = error)
    (notNull : ∀ value ∈ job.result, value.isNull = false) :
    job.reread rereadFloat = job := by
  have result := rereadOptional_eq_self kept.result notNull
  have error : job.error.map (JsonRpcError.reread rereadFloat) = job.error := by
    cases isError : job.error with
    | none => rfl
    | some error => rw [Option.map_some, kept.error error isError]
  rw [StoredJob.reread, result, error]

/-- Storable outcomes come back. -/
theorem plain_reread
    (plain : state.Plain rereadFloat) :
    state.reread rereadFloat = state := by
  refine reread_eq_self_of_jobs fun key job found => ?_
  have outcome := plain key job found
  refine StoredJob.reread_eq_self ⟨fun value isResult =>
    (outcome.result value isResult).2.1, fun error isError =>
    (outcome.error error isError).reread_eq⟩ ?_
  exact fun value isResult => (outcome.result value isResult).1

/-- A valid state that comes back valid comes back as it was, when its outcomes
do, null results apart: a job whose result was null is not valid when it has come
back. -/
theorem reread_eq_self
    {policy rereadPolicy : StorePolicy}
    {enforce rereadEnforce : Bool}
    (kept : state.Kept rereadFloat)
    (valid : ValidState state policy enforce)
    (rereadValid : ValidState (state.reread rereadFloat) rereadPolicy
      rereadEnforce) :
    state.reread rereadFloat = state := by
  refine reread_eq_self_of_jobs fun key job found =>
    StoredJob.reread_eq_self (kept key job found) ?_
  intro value isResult
  have foundAgain : (state.reread rereadFloat).jobs[key]? =
      some (job.reread rereadFloat) := by
    rw [getElem?_reread, found, Option.map_some]
  have fits := (valid.jobs key job found).result
  have rereadFits := (rereadValid.jobs key _ foundAgain).result
  have isValue := (kept key job found).result value isResult
  cases isNull : value.isNull with
  | false => rfl
  | true =>
      cases isState : job.state <;>
        simp_all [resultFits, StoredJob.reread, rereadOptional, Option.filter]

end Reread

/-! ## Recovery -/

/-- A step after old events are forgotten is a step. -/
theorem JobStep.of_trim
    {job next : StoredJob}
    {maximumEvents : Nat}
    (positive : maximumEvents ≠ 0)
    (step : JobStep (trimEventHistory job maximumEvents) next) :
    JobStep job next := by
  cases step with
  | kept bound boundPositive =>
      rw [trimEventHistory_trimEventHistory]
      exact .kept _ (by omega)
  | advanced change phase now bound boundPositive live moves fits =>
      have same : (trimEventHistory job maximumEvents).advance change phase now
          bound = job.advance change phase now
            (min bound (maximumEvents + 1)) := by
        simp only [StoredJob.advance, trimEventHistory, StoredJob.apply,
          StoredJob.withEvent, StoredJob.nextEvent, StoredJob.mk.injEq,
          true_and, and_true, List.length_append, List.length_drop,
          List.length_singleton]
        rw [← List.drop_append_of_le_length (by omega), List.drop_drop]
        congr 1
        omega
      rw [same]
      exact .advanced change phase now _ (by omega) live moves fits

/-- What follows after old events are forgotten follows. -/
theorem Follows.of_trim
    {before after : PersistentState}
    {policy : StorePolicy}
    (positive : policy.maxEventsPerJob ≠ 0)
    (follows : Follows (trimRetainedEvents before policy) after)
    (same : SameJobs (trimRetainedEvents before policy) after) :
    Follows before after := by
  have lookup := getElem?_trimRetainedEvents before policy
  refine ⟨follows.schema, ?_, Or.inl ⟨same.nextJob, same.index, ?_, ?_⟩⟩
  · intro key job found _
    have foundTrimmed : (trimRetainedEvents before policy).jobs[key]? =
        some (trimEventHistory job policy.maxEventsPerJob) := by
      rw [lookup, found, Option.map_some]
    obtain ⟨next, isNext, step⟩ :=
      follows.steps key _ foundTrimmed (Or.inr same)
    exact ⟨next, isNext, step.of_trim positive⟩
  · rw [same.size]
    exact ExtTreeMap.size_map
  · intro key absent
    refine same.absent key ?_
    rw [lookup, absent, Option.map_none]

/-- Recovery finishes every job. -/
theorem recoverJob_isTerminal
    {policy : StorePolicy}
    {archives : Archives}
    {now : UInt64}
    {job next : StoredJob}
    (done : recoverJob policy archives now job = .ok next) :
    next.state.isTerminal = true := by
  obtain ⟨terminal, rfl⟩ | ⟨_, _, recovered⟩ := recoverJob_ok done
  · exact terminal
  · obtain ⟨_, _, _, rfl⟩ | ⟨_, rfl⟩ := recovered <;> rfl

/-- What recovery makes of a loaded state. -/
structure Recovered
    (policy : StorePolicy)
    (archives : Archives)
    (loaded recovered : PersistentState) : Prop where
  loadedValid : ValidState loaded policy false
  follows : Follows loaded recovered
  same : SameJobs loaded recovered
  valid : ValidState recovered policy true
  origin : ∀ (key : String) job, recovered.jobs[key]? = some job →
    ∃ old now next, loaded.jobs[key]? = some old ∧
      recoverJob policy archives now
        (trimEventHistory old policy.maxEventsPerJob) = .ok next ∧
      job = trimEventHistory next policy.maxEventsPerJob

theorem recoverState_ok
    {policy : StorePolicy}
    (positive : policy.maxEventsPerJob ≠ 0)
    {archives : Archives}
    {clock : String → UInt64}
    {loaded recovered : PersistentState}
    {changed : Bool}
    (done : recoverState policy archives clock loaded =
      .ok (recovered, changed)) :
    Recovered policy archives loaded recovered ∧
      (changed = false → recovered = loaded) := by
  simp only [recoverState, bind_eq_ok, Except.ok.injEq, Prod.mk.injEq,
    validateState_eq_ok, exists_const] at done
  obtain ⟨loadedValid, jobs, mapped, valid, rfl, rfl⟩ := done
  obtain ⟨size, absent, all⟩ := tryMap_eq_ok.mp mapped
  have trimmedLookup := getElem?_trimRetainedEvents loaded policy
  have lookup := getElem?_trimRetainedEvents { loaded with jobs := jobs } policy
  have follows : Follows (trimRetainedEvents loaded policy)
      (trimRetainedEvents { loaded with jobs := jobs } policy) :=
    (follows_tryMap (fun _ _ _ done => recoverJob_step positive done)
      mapped).trim positive
  have same : SameJobs (trimRetainedEvents loaded policy)
      (trimRetainedEvents { loaded with jobs := jobs } policy) := by
    refine ⟨rfl, rfl, ?_, ?_⟩
    · rw [← size]
      exact ExtTreeMap.size_map
    · intro key isAbsent
      rw [lookup, absent key isAbsent, Option.map_none]
  have origin (key : String) (next : StoredJob)
      (found : jobs[key]? = some next) :
      ∃ job, loaded.jobs[key]? = some job ∧
        recoverJob policy archives (clock key)
          (trimEventHistory job policy.maxEventsPerJob) = .ok next := by
    cases isJob : loaded.jobs[key]? with
    | none =>
        have isAbsent := absent key (by rw [trimmedLookup, isJob]; rfl)
        rw [found] at isAbsent
        cases isAbsent
    | some job =>
        obtain ⟨recovered, isRecovered, isFound⟩ := all key
          (trimEventHistory job policy.maxEventsPerJob)
          (by rw [trimmedLookup, isJob]; rfl)
        rw [isFound] at found
        cases found
        exact ⟨job, rfl, isRecovered⟩
  refine ⟨⟨loadedValid, follows.of_trim positive same, ?_, valid, ?_⟩, ?_⟩
  · refine ⟨rfl, rfl, ?_, ?_⟩
    · rw [same.size]
      exact ExtTreeMap.size_map
    · intro key isAbsent
      exact same.absent key (by rw [trimmedLookup, isAbsent]; rfl)
  · intro key job found
    rw [lookup, Option.map_eq_some_iff] at found
    obtain ⟨next, isNext, rfl⟩ := found
    obtain ⟨old, isOld, recovered⟩ := origin key next isNext
    exact ⟨old, _, next, isOld, recovered, rfl⟩
  · intro unchanged
    rw [Bool.or_eq_false_iff, hasSurplusEvents, List.any_eq_false,
      List.any_eq_false] at unchanged
    obtain ⟨few, terminal⟩ := unchanged
    have jobsSame : (trimRetainedEvents { loaded with jobs := jobs }
        policy).jobs = loaded.jobs := by
      refine ExtTreeMap.ext_getElem? fun key => ?_
      rw [lookup]
      cases isJob : loaded.jobs[key]? with
      | none =>
          change jobs[key]?.map _ = none
          rw [absent key (by rw [trimmedLookup, isJob]; rfl), Option.map_none]
      | some job =>
          have member : (key, job) ∈ loaded.jobs.toList :=
            ExtTreeMap.mem_toList_iff_getElem?_eq_some.mpr isJob
          have noSurplus := few (key, job) member
          have isTerminal := terminal (key, job) member
          simp only [decide_eq_true_eq, Nat.not_lt] at noSurplus
          obtain ⟨next, isNext, isFound⟩ := all key
            (trimEventHistory job policy.maxEventsPerJob)
            (by rw [trimmedLookup, isJob]; rfl)
          change jobs[key]?.map _ = some job
          rw [trimEventHistory_eq_self noSurplus] at isNext
          rw [recoverJob, if_pos (by simpa using isTerminal)] at isNext
          cases isNext
          rw [isFound, Option.map_some, trimEventHistory_eq_self noSurplus]
    exact congrArg (fun jobs => { loaded with jobs := jobs }) jobsSame

/-- After recovery every job is done. -/
theorem Recovered.isTerminal
    {policy : StorePolicy}
    {archives : Archives}
    {loaded recovered : PersistentState}
    (recovery : Recovered policy archives loaded recovered)
    {key : String}
    {job : StoredJob}
    (found : recovered.jobs[key]? = some job) :
    job.state.isTerminal = true := by
  obtain ⟨_, _, next, _, done, rfl⟩ := recovery.origin key job found
  change next.state.isTerminal = true
  exact recoverJob_isTerminal done

/-- What an attempt to open a store can end in. -/
theorem openWithPolicy_cases
    {json : StoreJson}
    {loadFault : Option LoadFault}
    {fault : Option StorageFault}
    {archives : Archives}
    {clock : String → UInt64}
    {policy : StorePolicy}
    {file after : Option (List UInt8)}
    {outcome : RpcResult JobRegistry}
    (opened : openWithPolicy json loadFault fault archives clock policy file =
      (outcome, after)) :
    (∃ failure, outcome = .error failure) ∧ after = file ∨
      ∃ loaded recovered, policy.maxEventsPerJob ≠ 0 ∧
        loadState json loadFault policy file = .ok loaded ∧
        Recovered policy archives loaded recovered ∧
        (recovered = loaded ∧ after = file ∨
          ∃ bytes, json.toVec recovered = some bytes ∧ after = some bytes) ∧
        ((∃ failure, outcome = .error failure) ∨
          outcome = .ok {
            policy := policy
            state := recovered
            file := after
            closed := false
            healthy := true }) := by
  unfold openWithPolicy at opened
  split at opened
  case h_1 failure failed =>
      cases opened
      exact Or.inl ⟨⟨failure, rfl⟩, rfl⟩
  all_goals
    rename_i recovered isOk
    simp only [bind_eq_ok, StorePolicy.validate, ensure_eq_ok, exists_const,
      Except.ok.injEq, and_assoc, exists_and_left] at isOk
    obtain ⟨nonzero, _, rfl, loaded, isLoaded, isRecovered⟩ := isOk
    have positive : policy.maxEventsPerJob ≠ 0 := by tauto
    obtain ⟨recovery, unchanged⟩ := recoverState_ok positive isRecovered
  case h_2 =>
      cases opened
      exact Or.inr ⟨loaded, recovered, positive, isLoaded, recovery,
        Or.inl ⟨unchanged rfl, rfl⟩, Or.inr rfl⟩
  case h_3 =>
      split at opened
      case h_1 failure failed =>
          cases opened
          exact Or.inl ⟨⟨failure, rfl⟩, rfl⟩
      case h_2 bytes published =>
          obtain ⟨_, encoded, _, _⟩ := publish_eq_ok.mp published
          split at opened
          case h_1 failure failed =>
              cases opened
              exact Or.inr ⟨loaded, recovered, positive, isLoaded, recovery,
                Or.inr ⟨bytes, encoded, rfl⟩, Or.inl ⟨failure, rfl⟩⟩
          case h_2 synced =>
              cases opened
              exact Or.inr ⟨loaded, recovered, positive, isLoaded, recovery,
                Or.inr ⟨bytes, encoded, rfl⟩, Or.inr rfl⟩

/-- Without the bounds on retention a state is valid for every policy. -/
theorem ValidState.relax
    {state : PersistentState}
    {policy : StorePolicy}
    {enforce : Bool}
    (valid : ValidState state policy enforce)
    (other : StorePolicy) :
    ValidState state other false where
  schema := valid.schema
  retention := by simp
  nextJob := valid.nextJob
  sizes := valid.sizes
  index := valid.index
  jobs := by
    intro key job found
    have ok := valid.jobs key job found
    refine ⟨ok.key, ok.method, ok.threads, ok.memory, ok.output,
      ok.idempotencyKey, ok.number, ok.index, ?_, ok.result, ok.marker⟩
    have events := ok.events
    simp only [validateJobEvents, bind_eq_ok, ensure_eq_ok, exists_const,
      not_or, Bool.false_eq_true, false_and, not_false_eq_true, and_true]
      at events ⊢
    exact ⟨events.1.1, events.2⟩

/-- A store whose jobs are all done is opened as it is. -/
theorem openWithPolicy_of_terminal
    {json : StoreJson}
    (archives : Archives)
    (clock : String → UInt64)
    {policy : StorePolicy}
    (policyValid : policy.validate = .ok policy)
    {file : Option (List UInt8)}
    {state : PersistentState}
    (loaded : loadState json none policy file = .ok state)
    (valid : ValidState state policy true)
    (few : ∀ (key : String) job, state.jobs[key]? = some job →
      job.events.length ≤ policy.maxEventsPerJob)
    (terminal : ∀ (key : String) job, state.jobs[key]? = some job →
      job.state.isTerminal = true) :
    openWithPolicy json none none archives clock policy file =
      (.ok {
        policy := policy
        state := state
        file := file
        closed := false
        healthy := true }, file) := by
  have untrimmed := trimRetainedEvents_eq_self few
  have mapped : tryMap
      (fun key job => recoverJob policy archives (clock key) job)
      (trimRetainedEvents state policy).jobs = .ok state.jobs := by
    rw [untrimmed, tryMap_eq_ok]
    refine ⟨rfl, fun _ absent => absent, fun key job found => ⟨job, ?_, found⟩⟩
    rw [recoverJob, if_pos (terminal key job found)]
  have unchanged : (hasSurplusEvents state policy ||
      state.jobs.toList.any fun item => !item.2.state.isTerminal) = false := by
    rw [Bool.or_eq_false_iff, hasSurplusEvents, List.any_eq_false,
      List.any_eq_false]
    constructor
    · rintro ⟨key, job⟩ member
      have found := ExtTreeMap.mem_toList_iff_getElem?_eq_some.mp member
      simpa using few key job found
    · rintro ⟨key, job⟩ member
      have found := ExtTreeMap.mem_toList_iff_getElem?_eq_some.mp member
      simpa using terminal key job found
  have recovered : recoverState policy archives clock state =
      .ok (state, false) := by
    refine bind_eq_ok.mpr
      ⟨(), validateState_eq_ok.mpr (valid.relax policy), ?_⟩
    refine bind_eq_ok.mpr ⟨state.jobs, mapped, ?_⟩
    refine bind_eq_ok.mpr ⟨(), validateState_eq_ok.mpr ?_, ?_⟩
    · change ValidState (trimRetainedEvents state policy) policy true
      rwa [untrimmed]
    · rw [unchanged]
      exact congrArg (fun recovered => Except.ok (recovered, false)) untrimmed
  simp only [openWithPolicy, policyValid, ok_bind, loaded, recovered]

/-! ## Sound states -/

/-- What every committed state keeps. -/
structure Sound (state : PersistentState) : Prop where
  events : ∀ (key : String) job, state.jobs[key]? = some job → EventsOk job
  valid : ∀ policy, ValidState state policy false

theorem sound_initial : Sound .initial where
  events := by
    intro key job found
    simp [PersistentState.initial] at found
  valid := by
    intro policy
    refine ⟨rfl, by simp, by decide, rfl, ?_, ?_⟩
    · intro key job found
      simp [PersistentState.initial] at found
    · intro key jobId found
      simp [PersistentState.initial] at found

/-- No job has the next identifier yet. -/
theorem ValidState.next_absent
    {state : PersistentState}
    {policy : StorePolicy}
    {enforce : Bool}
    (valid : ValidState state policy enforce) :
    state.jobs[jobIdText state.nextJob]? = none := by
  cases found : state.jobs[jobIdText state.nextJob]? with
  | none => rfl
  | some job =>
      have ok := valid.jobs _ job found
      obtain ⟨number, isNumber, below⟩ := ok.number
      have isId : job.jobId = ⟨jobIdText state.nextJob⟩ := by
        rw [ok.key]
      rw [isId, parseJobNumber_jobIdText] at isNumber
      cases isNumber
      exact absurd below (UInt64.lt_irrefl _)

/-- Every job of a sound state takes a step. -/
theorem Sound.step
    {before after : PersistentState}
    (sound : Sound before)
    (follows : Follows before after)
    {key : String}
    {job : StoredJob}
    (found : before.jobs[key]? = some job) :
    ∃ next, after.jobs[key]? = some next ∧ JobStep job next := by
  refine follows.steps key job found (Or.inl ?_)
  rintro rfl
  rw [(sound.valid .default).next_absent] at found
  cases found

/-- A job that was not there is the one that was admitted. -/
theorem Follows.arrival
    {before after : PersistentState}
    (follows : Follows before after)
    {key : String}
    {job : StoredJob}
    (absent : before.jobs[key]? = none)
    (found : after.jobs[key]? = some job) :
    key = jobIdText before.nextJob ∧
      ∃ submission, Admitted before after submission job := by
  rcases follows.arrivals with same | ⟨submission, arrived, admitted⟩
  · rw [same.absent key absent] at found
    cases found
  · have isKey : key = jobIdText before.nextJob := by
      by_contra different
      rw [admitted.others key different absent] at found
      cases found
    subst isKey
    rw [admitted.found] at found
    cases found
    exact ⟨rfl, submission, admitted⟩

/-- The events of a job that was just admitted. -/
theorem Admitted.eventsOk
    {before after : PersistentState}
    {submission : JobSubmission}
    {job : StoredJob}
    (admitted : Admitted before after submission job) :
    EventsOk job := by
  obtain ⟨created, now, bound, positive, rfl⟩ := admitted.isNew
  refine EventsOk.trim ?_ positive
  refine EventsOk.withEvent rfl ?_ ?_ ?_ "queued" now
  · change 0 < (1 : UInt64).toNat
    decide
  · simp [newJob]
  · change (1 : UInt64).toNat + 1 < 2 ^ 64
    decide

/-- Whatever follows a sound state and is valid is sound. -/
theorem Sound.follows
    {before after : PersistentState}
    {policy : StorePolicy}
    {enforce : Bool}
    (sound : Sound before)
    (follows : Follows before after)
    (valid : ValidState after policy enforce) :
    Sound after where
  valid := valid.relax
  events := by
    intro key job found
    cases isJob : before.jobs[key]? with
    | none =>
        obtain ⟨_, _, admitted⟩ := follows.arrival isJob found
        exact admitted.eventsOk
    | some old =>
        obtain ⟨next, isNext, step⟩ := sound.step follows isJob
        rw [isNext] at found
        cases found
        exact (sound.events key old isJob).step step

/-! ## Runs -/

/-- The store between two steps: in use, or only a file. -/
inductive Store
  | down (file : Option (List UInt8))
  | up (registry : JobRegistry)

/-- One step of the store.  The calls that are made may be restricted. -/
inductive Step (json : StoreJson) (allowed : Call → Prop) : Store → Store → Prop
  | call {call : Call} (isAllowed : allowed call)
      (fault : Option StorageFault) (registry : JobRegistry) :
      Step json allowed (.up registry)
        (.up (call.perform json fault registry).2)
  | crash (registry : JobRegistry) :
      Step json allowed (.up registry) (.down registry.file)
  | openFailed {loadFault : Option LoadFault} {fault : Option StorageFault}
      {archives : Archives} {clock : String → UInt64} {policy : StorePolicy}
      {file after : Option (List UInt8)} {failure : JsonRpcError}
      (failed : openWithPolicy json loadFault fault archives clock policy file =
        (.error failure, after)) :
      Step json allowed (.down file) (.down after)
  | opened {loadFault : Option LoadFault} {fault : Option StorageFault}
      {archives : Archives} {clock : String → UInt64} {policy : StorePolicy}
      {file after : Option (List UInt8)} {registry : JobRegistry}
      (succeeded : openWithPolicy json loadFault fault archives clock policy
        file = (.ok registry, after)) :
      Step json allowed (.down file) (.up registry)

/-- A file was written with a state. -/
def Written
    (json : StoreJson)
    (file : Option (List UInt8))
    (state : PersistentState) : Prop :=
  file = none ∧ state = .initial ∨
    ∃ bytes, file = some bytes ∧ json.toVec state = some bytes

/-- A state as it was, or as it has come back from JSON. -/
def Back (json : StoreJson) (state back : PersistentState) : Prop :=
  back = state ∨ back = state.reread json.rereadFloat

/-- A file keeps a state: the one that was written, or what that comes back
as. -/
def Stored
    (json : StoreJson)
    (file : Option (List UInt8))
    (state : PersistentState) : Prop :=
  ∃ written, Written json file written ∧ Back json written state

/-- The state that was committed last. -/
def Store.Holds (json : StoreJson) : Store → PersistentState → Prop
  | down file, state => Stored json file state
  | up registry, state => registry.state = state ∧ Stored json registry.file state

/-- The invariant of a registry in use. -/
structure RegistryOk (json : StoreJson) (registry : JobRegistry) : Prop where
  positive : registry.policy.maxEventsPerJob ≠ 0
  valid : ValidState registry.state registry.policy true
  sound : Sound registry.state
  stored : Stored json registry.file registry.state

/-- The committed state belongs to the store, and all invariants hold. -/
def Store.Committed (json : StoreJson) : Store → PersistentState → Prop
  | down file, state => Stored json file state ∧ Sound state
  | up registry, state => registry.state = state ∧ RegistryOk json registry

theorem Store.Committed.holds
    {json : StoreJson}
    {store : Store}
    {state : PersistentState}
    (committed : store.Committed json state) :
    store.Holds json state := by
  cases store with
  | down file => exact committed.1
  | up registry =>
      obtain ⟨rfl, ok⟩ := committed
      exact ⟨rfl, ok.stored⟩

theorem Store.Committed.sound
    {json : StoreJson}
    {store : Store}
    {state : PersistentState}
    (committed : store.Committed json state) :
    Sound state := by
  cases store with
  | down file => exact committed.2
  | up registry =>
      obtain ⟨rfl, ok⟩ := committed
      exact ok.sound

/-- What makes a committed state out of the one before. -/
inductive Cause (allowed : Call → Prop) (before : PersistentState) :
    PersistentState → Prop
  | nothing : Cause allowed before before
  | call {call : Call} (isAllowed : allowed call) {policy : StorePolicy}
      {next : PersistentState} {answer : Answer}
      (decided : call.decide policy before = .ok (some next, answer)) :
      Cause allowed before (trimRetainedEvents next policy)
  | recovery {policy : StorePolicy} {archives : Archives}
      {after : PersistentState}
      (recovered : Recovered policy archives before after) :
      Cause allowed before after

/-- The invariant of a registry passes every call. -/
theorem RegistryOk.perform
    {json : StoreJson}
    {registry : JobRegistry}
    (ok : RegistryOk json registry)
    {allowed : Call → Prop}
    {call : Call}
    (isAllowed : allowed call)
    (fault : Option StorageFault) :
    RegistryOk json (call.perform json fault registry).2 ∧
      Follows registry.state (call.perform json fault registry).2.state ∧
      Cause allowed registry.state
        (call.perform json fault registry).2.state ∧
      (Written json (call.perform json fault registry).2.file
          (call.perform json fault registry).2.state ∨
        (call.perform json fault registry).2.file = registry.file ∧
          (call.perform json fault registry).2.state = registry.state) := by
  have change := call.perform_change json fault registry
  generalize (call.perform json fault registry).2 = after at change ⊢
  cases change with
  | unchanged closed healthy =>
      exact ⟨⟨ok.positive, ok.valid, ok.sound, ok.stored⟩, .refl _, .nothing,
        Or.inr ⟨rfl, rfl⟩⟩
  | committed next answer bytes closed healthy isDecided valid encoded fits =>
      have follows := (Call.decide_follows ok.positive isDecided).trim
        ok.positive
      have written : Written json (some bytes)
          (trimRetainedEvents next registry.policy) :=
        Or.inr ⟨bytes, rfl, encoded⟩
      exact ⟨⟨ok.positive, valid, ok.sound.follows follows valid, _, written,
        Or.inl rfl⟩, follows, .call isAllowed isDecided, Or.inl written⟩

/-! ## Coming back -/

/-- A job as it was, or as it has come back from JSON. -/
def BackJob (json : StoreJson) (job back : StoredJob) : Prop :=
  back = job ∨ back = job.reread json.rereadFloat

section Back

variable
  {json : StoreJson}
  {state base : PersistentState}

theorem reread_initial (rereadFloat : List UInt8 → List UInt8) :
    PersistentState.initial.reread rereadFloat = .initial :=
  reread_eq_self_of_jobs fun key job found => by
    simp [PersistentState.initial] at found

/-- Every job has come back. -/
theorem Back.found
    (isBack : Back json state base)
    {key : String}
    {job : StoredJob}
    (found : state.jobs[key]? = some job) :
    ∃ old, base.jobs[key]? = some old ∧ BackJob json job old := by
  rcases isBack with rfl | rfl
  · exact ⟨job, found, Or.inl rfl⟩
  · exact ⟨_, by rw [getElem?_reread, found, Option.map_some], Or.inr rfl⟩

/-- No job has come in. -/
theorem Back.absent
    (isBack : Back json state base)
    {key : String}
    (absent : state.jobs[key]? = none) :
    base.jobs[key]? = none := by
  rcases isBack with rfl | rfl
  · exact absent
  · rw [getElem?_reread, absent, Option.map_none]

theorem EventsOk.back
    {job old : StoredJob}
    (ok : EventsOk job)
    (isBack : BackJob json job old) :
    EventsOk old := by
  rcases isBack with rfl | rfl
  · exact ok
  · exact ⟨ok.nonempty, ok.sequences, ok.fewer, ok.own, ok.last⟩

/-- A sound state that comes back valid comes back sound. -/
theorem Sound.back
    {policy : StorePolicy}
    {enforce : Bool}
    (sound : Sound state)
    (isBack : Back json state base)
    (valid : ValidState base policy enforce) :
    Sound base where
  valid := valid.relax
  events := by
    intro key old found
    cases isJob : state.jobs[key]? with
    | none =>
        rw [isBack.absent isJob] at found
        cases found
    | some job =>
        obtain ⟨same, isSame, sameBack⟩ := isBack.found isJob
        rw [isSame] at found
        cases found
        exact (sound.events key job isJob).back sameBack

/-- Sound states whose outcomes come back are the same before and after. -/
theorem Back.eq
    (isBack : Back json state base)
    (kept : state.Kept json.rereadFloat)
    (sound : Sound state)
    (soundBase : Sound base) :
    base = state := by
  rcases isBack with rfl | rfl
  · rfl
  · exact reread_eq_self kept (sound.valid .default) (soundBase.valid .default)

/-- What is loaded is the committed state, or what that comes back as. -/
theorem Stored.loaded
    (lawful : json.Lawful)
    {loadFault : Option LoadFault}
    {policy : StorePolicy}
    {file : Option (List UInt8)}
    {loaded : PersistentState}
    (stored : Stored json file state)
    (isLoaded : loadState json loadFault policy file = .ok loaded) :
    Back json state loaded ∧ Stored json file loaded := by
  obtain ⟨written, isWritten, isState⟩ := stored
  rcases isWritten with ⟨rfl, rfl⟩ | ⟨bytes, rfl, encoded⟩
  · simp only [loadState, bind_eq_ok, ensure_eq_ok, exists_const,
      Except.ok.injEq] at isLoaded
    obtain ⟨_, rfl⟩ := isLoaded
    have same : state = .initial := by
      rcases isState with rfl | rfl
      · rfl
      · exact reread_initial _
    exact ⟨Or.inl same.symm, _, Or.inl ⟨rfl, rfl⟩, Or.inl rfl⟩
  · simp only [loadState, bind_eq_ok, ensure_eq_ok, okOr_eq_ok,
      exists_const] at isLoaded
    obtain rfl := lawful.reread encoded isLoaded.2.2.2.2
    refine ⟨?_, written, Or.inr ⟨bytes, rfl, encoded⟩, Or.inr rfl⟩
    rcases isState with rfl | rfl
    · exact Or.inr rfl
    · exact Or.inl rfl

end Back

/-- What a store holds after recovery. -/
theorem Stored.recovered
    {json : StoreJson}
    {file after : Option (List UInt8)}
    {loaded recovered : PersistentState}
    (stored : Stored json file loaded)
    (written : recovered = loaded ∧ after = file ∨
      ∃ bytes, json.toVec recovered = some bytes ∧ after = some bytes) :
    Stored json after recovered := by
  rcases written with ⟨rfl, rfl⟩ | ⟨bytes, encoded, rfl⟩
  · exact stored
  · exact ⟨recovered, Or.inr ⟨bytes, rfl, encoded⟩, Or.inl rfl⟩

/-- A file decodes to a state; no file stands for the initial state. -/
def Decodes (json : StoreJson) : Option (List UInt8) → PersistentState → Prop
  | none, state => state = .initial
  | some bytes, state => json.fromSlice bytes = some state

theorem decodes_of_loadState
    {json : StoreJson}
    {loadFault : Option LoadFault}
    {policy : StorePolicy}
    {file : Option (List UInt8)}
    {loaded : PersistentState}
    (isLoaded : loadState json loadFault policy file = .ok loaded) :
    Decodes json file loaded := by
  cases file with
  | none =>
      simp only [loadState, bind_eq_ok, ensure_eq_ok, exists_const,
        Except.ok.injEq] at isLoaded
      exact isLoaded.2.symm
  | some bytes =>
      simp only [loadState, bind_eq_ok, ensure_eq_ok, okOr_eq_ok,
        exists_const] at isLoaded
      exact isLoaded.2.2.2.2

/-- The file of a store. -/
def Store.file : Store → Option (List UInt8)
  | down file => file
  | up registry => registry.file

/-- What a step commits: a state that follows the one before, or what that has
come back as when the store is opened again.  The step writes it, or leaves the
file as it is. -/
structure Commits
    (json : StoreJson)
    (allowed : Call → Prop)
    (before after : Store)
    (state base next : PersistentState) : Prop where
  isBack : Back json state base
  sound : Sound base
  committed : after.Committed json next
  follows : Follows base next
  cause : Cause allowed base next
  file : Written json after.file next ∨ after.file = before.file ∧
    (next = state ∨ Decodes json after.file next)

/-- Opening a store commits what has been recovered. -/
theorem Stored.commits_recovered
    {json : StoreJson}
    (lawful : json.Lawful)
    {allowed : Call → Prop}
    {loadFault : Option LoadFault}
    {policy : StorePolicy}
    {archives : Archives}
    {file after : Option (List UInt8)}
    {state loaded recovered : PersistentState}
    (stored : Stored json file state)
    (sound : Sound state)
    (isLoaded : loadState json loadFault policy file = .ok loaded)
    (recovery : Recovered policy archives loaded recovered)
    (written : recovered = loaded ∧ after = file ∨
      ∃ bytes, json.toVec recovered = some bytes ∧ after = some bytes) :
    Commits json allowed (.down file) (.down after) state loaded recovered := by
  obtain ⟨isBack, storedLoaded⟩ := stored.loaded lawful isLoaded
  have soundLoaded := sound.back isBack recovery.loadedValid
  refine {
    isBack := isBack
    sound := soundLoaded
    committed := ⟨storedLoaded.recovered written,
      soundLoaded.follows recovery.follows recovery.valid⟩
    follows := recovery.follows
    cause := .recovery recovery
    file := ?_ }
  rcases written with ⟨rfl, rfl⟩ | ⟨bytes, encoded, rfl⟩
  · exact Or.inr ⟨rfl, Or.inr (decodes_of_loadState isLoaded)⟩
  · exact Or.inl (Or.inr ⟨bytes, rfl, encoded⟩)

/-- Every step of the store commits. -/
theorem Store.Committed.step
    {json : StoreJson}
    (lawful : json.Lawful)
    {allowed : Call → Prop}
    {before after : Store}
    {state : PersistentState}
    (committed : before.Committed json state)
    (step : Step json allowed before after) :
    ∃ base next, Commits json allowed before after state base next := by
  cases step with
  | call isAllowed fault registry =>
      obtain ⟨rfl, ok⟩ := committed
      obtain ⟨okAfter, follows, cause, file⟩ := ok.perform isAllowed fault
      exact ⟨_, _, Or.inl rfl, ok.sound, ⟨rfl, okAfter⟩, follows, cause,
        file.imp_right (And.imp_right Or.inl)⟩
  | crash registry =>
      obtain ⟨rfl, ok⟩ := committed
      exact ⟨_, _, Or.inl rfl, ok.sound, ⟨ok.stored, ok.sound⟩, .refl _,
        .nothing, Or.inr ⟨rfl, Or.inl rfl⟩⟩
  | openFailed failed =>
      obtain ⟨stored, sound⟩ := committed
      rcases openWithPolicy_cases failed with ⟨_, rfl⟩ |
          ⟨loaded, recovered, positive, isLoaded, recovery, written, _⟩
      · exact ⟨state, state, Or.inl rfl, sound, ⟨stored, sound⟩, .refl _,
          .nothing, Or.inr ⟨rfl, Or.inl rfl⟩⟩
      · exact ⟨loaded, recovered,
          stored.commits_recovered lawful sound isLoaded recovery written⟩
  | opened succeeded =>
      obtain ⟨stored, sound⟩ := committed
      rcases openWithPolicy_cases succeeded with ⟨⟨_, failed⟩, _⟩ |
          ⟨loaded, recovered, positive, isLoaded, recovery, written, outcome⟩
      · cases failed
      · have commits := @Stored.commits_recovered json lawful allowed _ _ _ _ _
          _ _ _ stored sound isLoaded recovery written
        rcases outcome with ⟨_, failed⟩ | isRegistry
        · cases failed
        · cases isRegistry
          obtain ⟨isStored, isSound⟩ := commits.committed
          exact ⟨loaded, recovered, commits.isBack, commits.sound, ⟨rfl,
            positive, recovery.valid, isSound, isStored⟩, commits.follows,
            commits.cause, commits.file⟩

/-- One step of the journal. -/
structure JournalStep
    (json : StoreJson)
    (allowed : Call → Prop)
    (before after : PersistentState) : Prop where
  soundBefore : Sound before
  soundAfter : Sound after
  change : ∃ base, Back json before base ∧ Sound base ∧ Follows base after ∧
    Cause allowed base after

/-- The store goes along the journal of its committed states. -/
theorem store_simulates_journal
    {json : StoreJson}
    (lawful : json.Lawful)
    (allowed : Call → Prop) :
    Simulation.Simulates (Step json allowed) (.down none)
      (JournalStep json allowed) .initial (Store.Committed json) where
  start := ⟨⟨.initial, Or.inl ⟨rfl, rfl⟩, Or.inl rfl⟩, sound_initial⟩
  step := by
    intro before after state committed step
    obtain ⟨base, next, commits⟩ := committed.step lawful step
    exact ⟨next, commits.committed, committed.sound, commits.committed.sound,
      base, commits.isBack, commits.sound, commits.follows, commits.cause⟩

section Step

variable
  {json : StoreJson}
  {allowed : Call → Prop}
  {before after : PersistentState}

/-- A job takes a step, after it has come back if the store was opened. -/
theorem JournalStep.job
    (step : JournalStep json allowed before after)
    {key : String}
    {job : StoredJob}
    (found : before.jobs[key]? = some job) :
    ∃ old next, BackJob json job old ∧ after.jobs[key]? = some next ∧
      JobStep old next := by
  obtain ⟨_, _, base, isBack, sound, follows, _⟩ := step
  obtain ⟨old, isOld, oldBack⟩ := isBack.found found
  obtain ⟨next, isNext, stepped⟩ := sound.step follows isOld
  exact ⟨old, next, oldBack, isNext, stepped⟩

/-- A job that comes in is the one that was submitted. -/
theorem JournalStep.arrival
    (step : JournalStep json allowed before after)
    {key : String}
    {job : StoredJob}
    (absent : before.jobs[key]? = none)
    (found : after.jobs[key]? = some job) :
    ∃ base submission, base.jobs[key]? = none ∧
      Admitted base after submission job := by
  obtain ⟨_, _, base, isBack, _, follows, _⟩ := step
  have absentBase := isBack.absent absent
  obtain ⟨_, submission, admitted⟩ := follows.arrival absentBase found
  exact ⟨base, submission, absentBase, admitted⟩

end Step

end Pithos.Daemon
