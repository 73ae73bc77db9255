import Pithos.Daemon.Store.Idempotency
import Pithos.Daemon.Store.Memory

/-!
# Guarantees of the job store

The main results about runs of the store, each with a run that it is about: a
session submits a verification, which is then completed, and the daemon is
restarted.
-/

namespace Pithos.Daemon

open HostPath
open Fallible
open Machine
open Std
open MapValues
open Simulation
open Bytes

/-! ## A store with few states -/

open Classical in
/-- The JSON crate on the states of one run, given with their texts. -/
noncomputable def StoreJson.ofTable
    (rereadFloat : List UInt8 → List UInt8)
    (table : List (PersistentState × List UInt8)) : StoreJson where
  toVec state := (table.find? fun row => row.1 = state).map Prod.snd
  fromSlice bytes :=
    (table.find? fun row => row.2 = bytes).map fun row =>
      row.1.reread rereadFloat
  rereadFloat := rereadFloat

/-- A table of different texts and UTF-8 paths makes a lawful crate. -/
theorem StoreJson.ofTable_lawful
    {rereadFloat : List UInt8 → List UInt8}
    {table : List (PersistentState × List UInt8)}
    (texts : (table.map Prod.snd).Nodup)
    (paths : ∀ row ∈ table, row.1.Utf8Paths) :
    (StoreJson.ofTable rereadFloat table).Lawful := by
  have listed {state : PersistentState} {bytes : List UInt8}
      (encoded : (StoreJson.ofTable rereadFloat table).toVec state = some bytes) :
      (state, bytes) ∈ table := by
    simp only [StoreJson.ofTable, Option.map_eq_some_iff] at encoded
    obtain ⟨⟨found, text⟩, isRow, rfl⟩ := encoded
    have same := List.find?_some isRow
    simp only [decide_eq_true_eq] at same
    subst same
    exact List.mem_of_find?_eq_some isRow
  have decoded {state : PersistentState} {bytes : List UInt8}
      (member : (state, bytes) ∈ table) :
      (StoreJson.ofTable rereadFloat table).fromSlice bytes = some (state.reread rereadFloat) := by
    cases isRow : table.find? fun row => row.2 = bytes with
    | none =>
        have absent := List.find?_eq_none.mp isRow (state, bytes) member
        simp at absent
    | some row =>
        have same := List.find?_some isRow
        simp only [decide_eq_true_eq] at same
        have rowListed := List.mem_of_find?_eq_some isRow
        have isSame : row = (state, bytes) :=
          List.inj_on_of_nodup_map texts rowListed member same
        subst isSame
        simp only [StoreJson.ofTable, isRow, Option.map_some]
  refine ⟨fun encoded => paths _ (listed encoded), ?_, ?_⟩
  · intro state next bytes encoded isNext
    rw [decoded (listed encoded)] at isNext
    exact (Option.some.inj isNext).symm
  · intro state bytes encoded _
    exact ⟨_, decoded (listed encoded)⟩

/-! ## A verification -/

/-- The owner of the sample jobs. -/
def sampleOwner : SessionId := ⟨"session-00000000", by decide⟩

/-- A session asks to verify an archive. -/
def sampleSubmission : JobSubmission where
  owner := sampleOwner
  method := .verify
  priority := .verifyRequested
  idempotencyKey := "k"
  paramsHash := ⟨List.replicate 32 0, rfl⟩
  limits := {
    maxThreads := 1
    maxMemory := 1
    maxTemp := 1
    maxOutput := 1
    deadlineUnixMs := none }
  operation := .verify (textBytes "/a")

/-- The id of the first job. -/
def sampleId : JobId := ⟨jobIdText 1⟩

/-- The state of a store whose only job is the first one. -/
def sampleState (job : StoredJob) : PersistentState where
  schemaVersion := 1
  nextJob := 2
  jobs := (∅ : ExtTreeMap String StoredJob).insert (jobIdText 1) job
  idempotency := (∅ : ExtTreeMap String String).insert
    (idempotencyMapKey sampleOwner "k") (jobIdText 1)

/-- The job after its submission. -/
def sampleQueued : StoredJob :=
  trimEventHistory ((newJob sampleSubmission sampleId 0).withEvent "queued" 0)
    StorePolicy.default.maxEventsPerJob

/-- The job after its completion with a result. -/
def sampleCompleted (result : Value) : StoredJob :=
  sampleQueued.advance ⟨.completed, some result, none, none⟩ "completed" 0
    StorePolicy.default.maxEventsPerJob

/-- The job while it runs. -/
def sampleRunning : StoredJob :=
  sampleQueued.advance ⟨.running, none, none, none⟩ "started" 0
    StorePolicy.default.maxEventsPerJob

/-- The text of the store up to the state of the job. -/
def sampleHead : List UInt8 := [
  "\x7b\"schema_version\":1,\"next_job\":2,",
  "\"jobs\":\x7b\"job-0000000000000001\":\x7b",
  "\"job_id\":\"job-0000000000000001\",",
  "\"owner\":\"session-00000000\",",
  "\"method\":\"verify\",\"priority\":\"verify_requested\",",
  "\"idempotency_key\":\"k\",",
  "\"params_hash\":[0,0,0,0,0,0,0,0,0,0,0,0,0,0,0,0,",
  "0,0,0,0,0,0,0,0,0,0,0,0,0,0,0,0],",
  "\"limits\":\x7b\"max_threads\":1,\"max_memory\":1,",
  "\"max_temp\":1,\"max_output\":1\x7d,",
  "\"operation\":\x7b\"kind\":\"verify\",\"archive\":\"/a\"\x7d,",
  "\"state\":\""].flatMap textBytes

/-- The text between the state of the job and its result. -/
def sampleTimes : List UInt8 := [
  "\",\"created_at_unix_ms\":0,",
  "\"updated_at_unix_ms\":0,\"result\":"].flatMap textBytes

/-- The text between the result of the job and its second event. -/
def sampleFirstEvent : List UInt8 := [
  ",\"error\":null,\"events\":[",
  "\x7b\"job_id\":\"job-0000000000000001\",\"sequence\":1,",
  "\"state\":\"queued\",\"phase\":\"queued\",",
  "\"completed_units\":0,\"total_units\":1,",
  "\"occurred_at_unix_ms\":0\x7d"].flatMap textBytes

/-- The text of a second event. -/
def sampleSecondEvent (state phase completed : String) : List UInt8 := [
  ",\x7b\"job_id\":\"job-0000000000000001\",\"sequence\":2,",
  "\"state\":\"", state, "\",\"phase\":\"", phase,
  "\",\"completed_units\":", completed, ",\"total_units\":1,",
  "\"occurred_at_unix_ms\":0\x7d"].flatMap textBytes

/-- The text after the events of the job. -/
def sampleTail (nextSequence : String) : List UInt8 := [
  "],\"next_sequence\":", nextSequence,
  "\x7d\x7d,\"idempotency\":\x7b\"session-00000000:k\":",
  "\"job-0000000000000001\"\x7d\x7d"].flatMap textBytes

/-- The text of the store with the job in a given state. -/
def sampleText (state result : String) (secondEvent tail : List UInt8) :
    List UInt8 :=
  sampleHead ++ (textBytes state ++ (sampleTimes ++ (textBytes result ++
    (sampleFirstEvent ++ (secondEvent ++ tail)))))

/-- The store with the first job queued. -/
def sampleQueuedText : List UInt8 :=
  sampleText "queued" "null" [] (sampleTail "2")

/-- The store with the first job completed with a result. -/
def sampleCompletedText (result : String) : List UInt8 :=
  sampleText "completed" result
    (sampleSecondEvent "completed" "completed" "1") (sampleTail "3")

/-- The store with the first job running. -/
def sampleRunningText : List UInt8 :=
  sampleText "running" "null"
    (sampleSecondEvent "running" "started" "0") (sampleTail "3")

/-- What all texts share is short. -/
theorem sampleText_fixed :
    sampleHead.length ≤ 500 ∧ sampleTimes.length ≤ 100 ∧
      sampleFirstEvent.length ≤ 200 := by
  simp only [sampleHead, sampleTimes, sampleFirstEvent,
    length_flatMap_textBytes]
  decide

/-- The texts are within the bound of the daemon. -/
theorem sampleText_length
    {state result : String}
    {secondEvent tail : List UInt8}
    (short : state.utf8ByteSize + result.utf8ByteSize +
      secondEvent.length + tail.length ≤ 1000) :
    (sampleText state result secondEvent tail).length ≤
      StorePolicy.default.maxStoreBytes.toNat := by
  obtain ⟨head, times, firstEvent⟩ := sampleText_fixed
  have bound : StorePolicy.default.maxStoreBytes.toNat = 67108864 := by decide
  rw [bound]
  simp only [sampleText, List.length_append, length_textBytes]
  omega

theorem sampleCompletedText_length
    {result : String}
    (short : result.utf8ByteSize ≤ 500) :
    (sampleCompletedText result).length ≤
      StorePolicy.default.maxStoreBytes.toNat := by
  have others : "completed".utf8ByteSize +
      (sampleSecondEvent "completed" "completed" "1").length +
      (sampleTail "3").length ≤ 500 := by
    simp only [sampleSecondEvent, sampleTail, length_flatMap_textBytes]
    decide
  exact sampleText_length (by omega)

/-- Texts with different states differ. -/
theorem sampleText_ne
    {state other result otherResult : String}
    {event otherEvent tail otherTail : List UInt8}
    (differ : (textBytes state).head? ≠ (textBytes other).head?)
    (nonempty : textBytes state ≠ [] ∧ textBytes other ≠ []) :
    sampleText state result event tail ≠
      sampleText other otherResult otherEvent otherTail := by
  intro same
  have rest := congrArg List.head? (List.append_cancel_left same)
  rw [List.head?_append_of_ne_nil _ nonempty.1,
    List.head?_append_of_ne_nil _ nonempty.2] at rest
  exact differ rest

/-! ## Its states -/

theorem sampleState_lookup (job : StoredJob) (key : String) :
    (sampleState job).jobs[key]? =
      if jobIdText 1 = key then some job else none := by
  change ((∅ : ExtTreeMap String StoredJob).insert (jobIdText 1) job)[key]? = _
  rw [getElem?_insert_eq]
  simp

theorem sampleState_found (job : StoredJob) :
    (sampleState job).jobs[sampleId.value]? = some job := by
  rw [sampleState_lookup]
  exact if_pos rfl

theorem sampleState_forall
    {job : StoredJob}
    {Holds : StoredJob → Prop}
    (holds : Holds job) :
    ∀ (key : String) other, (sampleState job).jobs[key]? = some other →
      Holds other := by
  intro key other found
  rw [sampleState_lookup] at found
  split at found
  · cases found
    exact holds
  · cases found

theorem sampleState_setJob (job next : StoredJob) :
    (sampleState job).setJob sampleId.value next = sampleState next := by
  have jobs : ((∅ : ExtTreeMap String StoredJob).insert (jobIdText 1)
      job).insert (jobIdText 1) next =
        (∅ : ExtTreeMap String StoredJob).insert (jobIdText 1) next := by
    refine ExtTreeMap.ext_getElem? fun key => ?_
    simp only [getElem?_insert_eq]
    split <;> rfl
  exact congrArg (fun jobs => { sampleState job with jobs := jobs }) jobs

theorem sampleState_reread
    (rereadFloat : List UInt8 → List UInt8)
    (job : StoredJob) :
    (sampleState job).reread rereadFloat =
      sampleState (job.reread rereadFloat) := by
  have jobs : ((sampleState job).reread rereadFloat).jobs =
      (sampleState (job.reread rereadFloat)).jobs := by
    refine ExtTreeMap.ext_getElem? fun key => ?_
    rw [getElem?_reread, sampleState_lookup, sampleState_lookup]
    split <;> rfl
  exact congrArg (fun jobs => { sampleState job with jobs := jobs }) jobs

/-- The registry of a new daemon. -/
def emptyRegistry : JobRegistry where
  policy := .default
  state := .initial
  file := none
  closed := false
  healthy := true

/-- The registry with the job. -/
def sampleRegistry (job : StoredJob) (bytes : List UInt8) : JobRegistry where
  policy := .default
  state := sampleState job
  file := some bytes
  closed := false
  healthy := true

theorem default_positive : StorePolicy.default.maxEventsPerJob ≠ 0 := by decide

theorem valid_initial : ValidState .initial .default true := by
  have valid := sound_initial.valid .default
  exact ⟨valid.schema, fun _ => Nat.zero_le _, valid.nextJob, valid.sizes,
    fun key job found => by simp [PersistentState.initial] at found,
    fun key jobId found => by simp [PersistentState.initial] at found⟩

theorem sampleSubmission_admissible :
    Call.Admissible emptyRegistry sampleSubmission 1 where
  isOpen := rfl
  key := ensure_of (by decide) _
  keyFree := by simp [emptyRegistry, PersistentState.initial]
  room := by decide
  quota := by
    simp [nonterminalCount, emptyRegistry, PersistentState.initial]
  numbers := by decide

theorem sampleSubmission_decided :
    decideNewJob .default 0 0 sampleSubmission 1 .initial =
      .ok (some (sampleState sampleQueued), {
        jobId := sampleId
        state := .queued
        idempotentReplay := false }) :=
  decideNewJob_eq_ok.mpr ⟨by decide, sampleSubmission_admissible.quota,
    by decide, rfl, rfl⟩

/-- Every state of the run is within the bound on events. -/
theorem sampleState_trim
    {job : StoredJob}
    (few : job.events.length ≤ StorePolicy.default.maxEventsPerJob) :
    trimRetainedEvents (sampleState job) .default = sampleState job :=
  trimRetainedEvents_eq_self (sampleState_forall few)

theorem sampleQueued_valid : ValidState (sampleState sampleQueued) .default
    true := by
  have valid := validState_admitted default_positive valid_initial
    sound_initial ⟨rfl, by decide, by decide, by decide⟩
    sampleSubmission_admissible.key sampleSubmission_admissible.keyFree
    sampleSubmission_decided
  rwa [sampleState_trim (by decide)] at valid

theorem sampleQueued_sound : Sound (sampleState sampleQueued) := by
  have follows := decideSubmit_follows default_positive
    ((sampleSubmission_admissible.decideSubmit_eq 0 0).trans
      sampleSubmission_decided)
  exact sound_initial.follows follows sampleQueued_valid

/-- A change of the job leads to a valid state. -/
theorem sampleState_valid
    {next : StoredJob}
    (step : JobStep sampleQueued next)
    (fits : JobFits .default next) :
    ValidState (sampleState next) .default true := by
  have valid := (validState_setJob_iff sampleQueued_valid sampleQueued_sound
    (sampleState_found sampleQueued) step fits.few).mpr fits
  rwa [sampleState_setJob, sampleState_trim fits.few] at valid

theorem sampleCompleted_done (result : Value) :
    completeJob .default 0 result sampleQueued =
      .ok (sampleCompleted result, ()) := by
  have appended := (@appendEvent_apply .default 0 sampleQueued _
    ⟨.completed, some result, none, none⟩ "completed").mpr ⟨by decide, rfl⟩
  exact bind_eq_ok.mpr ⟨(), rfl, bind_eq_ok.mpr ⟨(), rfl,
    bind_eq_ok.mpr ⟨_, appended, rfl⟩⟩⟩

theorem sampleRunning_done :
    transitionJob .default (fun _ => .notFound) 0 .running "started"
      sampleQueued = .ok (sampleRunning, ()) := by
  have appended := (@appendEvent_apply .default 0 sampleQueued _
    ⟨.running, none, none, none⟩ "started").mpr ⟨by decide, rfl⟩
  exact bind_eq_ok.mpr ⟨(), rfl, bind_eq_ok.mpr ⟨none, rfl,
    bind_eq_ok.mpr ⟨_, appended, rfl⟩⟩⟩

theorem sampleQueued_fits : JobFits .default sampleQueued :=
  sampleQueued_valid.jobFits sampleQueued_sound (sampleState_found sampleQueued)

theorem sampleCompleted_valid (result : Value) :
    ValidState (sampleState (sampleCompleted result)) .default true :=
  sampleState_valid (completeJob_step default_positive
    (sampleCompleted_done result)) (completeJob_fits default_positive
      sampleQueued_fits (sampleCompleted_done result))

theorem sampleRunning_valid :
    ValidState (sampleState sampleRunning) .default true :=
  sampleState_valid (transitionJob_step default_positive sampleRunning_done)
    ((transitionJob_fits default_positive sampleQueued_fits
      sampleRunning_done).mpr (by rintro (same | same) <;> cases same))

/-! ## Its run -/

section Run

variable
  {json : StoreJson}
  {queuedText nextText : List UInt8}

theorem open_empty :
    openWithPolicy json none none ⟨fun _ => false, fun _ => .error jobNotFound⟩
      (fun _ => 0) .default none = (.ok emptyRegistry, none) :=
  openWithPolicy_of_terminal _ _ rfl rfl valid_initial
    (fun key job found => by simp [PersistentState.initial] at found)
    (fun key job found => by simp [PersistentState.initial] at found)

theorem open_completed
    {result : Value}
    (decoded : json.fromSlice nextText =
      some (sampleState (sampleCompleted result)))
    (fits : nextText.length ≤ StorePolicy.default.maxStoreBytes.toNat) :
    openWithPolicy json none none ⟨fun _ => false, fun _ => .error jobNotFound⟩
        (fun _ => 0) .default (some nextText) =
      (.ok (sampleRegistry (sampleCompleted result) nextText),
        some nextText) := by
  refine openWithPolicy_of_terminal _ _ rfl ?_ (sampleCompleted_valid result)
    (sampleState_forall ?_) (sampleState_forall rfl)
  · simp only [loadState, bind_eq_ok, ensure_eq_ok, okOr_eq_ok, exists_const]
    exact ⟨by decide, by decide, fits, by decide, decoded⟩
  · exact sampleQueued.advance_few _ _ _ _

theorem perform_submit
    (encoded : json.toVec (sampleState sampleQueued) = some queuedText)
    (fits : queuedText.length ≤ StorePolicy.default.maxStoreBytes.toNat) :
    ((Call.submit 0 0 sampleSubmission 1).perform json none emptyRegistry).2 =
      sampleRegistry sampleQueued queuedText := by
  have untrimmed := @sampleState_trim sampleQueued (by decide)
  have decided := Call.decided_wrap .accepted
    ((sampleSubmission_admissible.decideSubmit_eq 0 0).trans
      sampleSubmission_decided)
  have performed := @Call.perform_eq_of_decided json
    (Call.submit 0 0 sampleSubmission 1) emptyRegistry rfl rfl _ _ decided
    (by change ValidState (trimRetainedEvents _ .default) _ _
        rw [untrimmed]
        exact sampleQueued_valid)
    queuedText
    (by change json.toVec (trimRetainedEvents _ .default) = _
        rw [untrimmed]
        exact encoded)
    fits
  rw [performed]
  exact congrArg (fun state =>
    { sampleRegistry sampleQueued queuedText with state := state }) untrimmed

/-- A change of the queued job is committed. -/
theorem perform_update
    {call : Call}
    (isLawful : call.Lawful)
    (admitted : call.refusal (sampleRegistry sampleQueued queuedText) = none)
    {next : StoredJob}
    {answer : Answer}
    (decided : call.decide .default (sampleState sampleQueued) =
      .ok (some (sampleState next), answer))
    (few : next.events.length ≤ StorePolicy.default.maxEventsPerJob)
    (valid : ValidState (sampleState next) .default true)
    (encoded : json.toVec (sampleState next) = some nextText)
    (fits : nextText.length ≤ StorePolicy.default.maxStoreBytes.toNat) :
    (call.perform json none (sampleRegistry sampleQueued queuedText)).2 =
      sampleRegistry next nextText := by
  have untrimmed := sampleState_trim few
  have performed := @Call.perform_eq_of_decided json call
    (sampleRegistry sampleQueued queuedText)
    (Call.entering_eq isLawful _) admitted _ _ decided
    (by change ValidState (trimRetainedEvents _ .default) _ _
        rw [untrimmed]
        exact valid)
    nextText
    (by change json.toVec (trimRetainedEvents _ .default) = _
        rw [untrimmed]
        exact encoded)
    fits
  rw [performed]
  exact congrArg (fun state =>
    { sampleRegistry next nextText with state := state }) untrimmed

theorem perform_complete
    {result : Value}
    (encoded : json.toVec (sampleState (sampleCompleted result)) =
      some nextText)
    (fits : nextText.length ≤ StorePolicy.default.maxStoreBytes.toNat) :
    ((Call.complete 0 sampleOwner sampleId result).perform json none
        (sampleRegistry sampleQueued queuedText)).2 =
      sampleRegistry (sampleCompleted result) nextText := by
  have decided := (@decideUpdate_eq_ok _ sampleOwner sampleId
    (completeJob .default 0 result) (sampleState sampleQueued) _ _).mpr
    ⟨sampleQueued, _, sampleState_found sampleQueued, rfl,
      sampleCompleted_done result, rfl⟩
  rw [sampleState_setJob] at decided
  exact @perform_update json queuedText nextText
    (.complete 0 sampleOwner sampleId result) trivial rfl _ _
    (Call.decided_wrap (fun _ => .done) decided)
    (sampleQueued.advance_few _ _ _ _) (sampleCompleted_valid result) encoded
    fits

theorem perform_start
    (encoded : json.toVec (sampleState sampleRunning) = some nextText)
    (fits : nextText.length ≤ StorePolicy.default.maxStoreBytes.toNat) :
    ((Call.transition (fun _ => .notFound) 0 sampleOwner sampleId .running
        "started").perform json none
        (sampleRegistry sampleQueued queuedText)).2 =
      sampleRegistry sampleRunning nextText := by
  have decided := (@decideUpdate_eq_ok _ sampleOwner sampleId
    (transitionJob .default (fun _ => .notFound) 0 .running "started")
    (sampleState sampleQueued) _ _).mpr
    ⟨sampleQueued, _, sampleState_found sampleQueued, rfl,
      sampleRunning_done, rfl⟩
  rw [sampleState_setJob] at decided
  exact @perform_update json queuedText nextText
    (.transition (fun _ => .notFound) 0 sampleOwner sampleId .running
      "started") trivial rfl _ _
    (Call.decided_wrap (fun _ => .done) decided)
    (sampleQueued.advance_few _ _ _ _) sampleRunning_valid encoded fits

/-- The deadline of a job that is done changes nothing. -/
theorem perform_expire (result : Value) :
    ((Call.expireDeadline 0 sampleOwner sampleId).perform json none
        (sampleRegistry (sampleCompleted result) nextText)).2 =
      sampleRegistry (sampleCompleted result) nextText := by
  have decided : decideExpireDeadline .default 0 sampleOwner sampleId
      (sampleState (sampleCompleted result)) = .ok (none, false) :=
    bind_eq_ok.mpr ⟨sampleCompleted result,
      ownedJob_eq_ok.mpr ⟨sampleState_found _, rfl⟩, rfl⟩
  change (answering Answer.cancelWorker (JobRegistry.settle json none
    (decideExpireDeadline .default 0 sampleOwner sampleId
      (sampleState (sampleCompleted result))) _)).2 = _
  rw [decided]
  rfl

end Run

/-- A fraction that the JSON crate does not read as it was written. -/
def sampleFraction : List UInt8 := textBytes "51.248178375505404"

/-- The fraction that it reads instead. -/
def rereadFraction : List UInt8 := textBytes "51.24817837550541"

/-- How fractions come back. -/
def sampleReread (text : List UInt8) : List UInt8 :=
  if text = sampleFraction then rereadFraction else text

/-- The JSON crate on the queued job and one later state of it. -/
noncomputable def sampleJson (next : StoredJob) (text : List UInt8) :
    StoreJson :=
  .ofTable sampleReread [(sampleState sampleQueued, sampleQueuedText),
    (sampleState next, text)]

section Json

variable
  {next : StoredJob}
  {text : List UInt8}
  (texts : sampleQueuedText ≠ text)
  (operation : next.operation = sampleSubmission.operation)

include texts operation in
theorem sampleJson_lawful : (sampleJson next text).Lawful := by
  refine StoreJson.ofTable_lawful (by simpa using texts) ?_
  have paths {job : StoredJob}
      (same : job.operation = sampleSubmission.operation) :
      (sampleState job).Utf8Paths := by
    refine sampleState_forall ?_
    rw [same]
    decide
  intro row member
  simp only [List.mem_cons, List.not_mem_nil, or_false] at member
  rcases member with rfl | rfl
  · exact paths rfl
  · exact paths operation

theorem sampleJson_queued :
    (sampleJson next text).toVec (sampleState sampleQueued) =
      some sampleQueuedText := by
  simp [sampleJson, StoreJson.ofTable]

theorem sampleJson_next (moved : next.state ≠ .queued) :
    (sampleJson next text).toVec (sampleState next) = some text := by
  have different : sampleState sampleQueued ≠ sampleState next := by
    intro same
    have jobs := congrArg (fun state : PersistentState =>
      state.jobs[sampleId.value]?) same
    simp only [sampleState_found, Option.some.injEq] at jobs
    rw [← jobs] at moved
    exact moved rfl
  simp [sampleJson, StoreJson.ofTable, different]

include texts in
theorem sampleJson_decoded :
    (sampleJson next text).fromSlice text =
      some (sampleState (next.reread sampleReread)) := by
  simp [sampleJson, StoreJson.ofTable, texts, sampleState_reread]

end Json

/-- What a verification answers. -/
def verified : Value := .object [("verified", .bool true)]

/-- The store with the first job completed as verified. -/
def verifiedText : List UInt8 :=
  sampleCompletedText "\x7b\"verified\":true\x7d"

theorem verifiedText_ne : sampleQueuedText ≠ verifiedText :=
  sampleText_ne (by decide) (by decide)

theorem verifiedText_length :
    verifiedText.length ≤ StorePolicy.default.maxStoreBytes.toNat :=
  sampleCompletedText_length (by decide)

theorem sampleQueuedText_length :
    sampleQueuedText.length ≤ StorePolicy.default.maxStoreBytes.toNat := by
  refine sampleText_length ?_
  simp only [sampleTail, length_flatMap_textBytes]
  decide

/-- A writer and reader that know this store. -/
noncomputable def verifiedJson : StoreJson :=
  sampleJson (sampleCompleted verified) verifiedText

theorem verifiedJson_lawful : verifiedJson.Lawful :=
  sampleJson_lawful verifiedText_ne rfl

/-- A job is submitted and completed with a result, the daemon crashes and is
started again, and reads a result. -/
def restartRun (result read : Value) (text : List UInt8) : Nat → Store
  | 0 => .down none
  | 1 => .up emptyRegistry
  | 2 => .up (sampleRegistry sampleQueued sampleQueuedText)
  | 3 => .up (sampleRegistry (sampleCompleted result) text)
  | 4 => .down (some text)
  | _ + 5 => .up (sampleRegistry (sampleCompleted read) text)

/-- The states that are committed on the way. -/
def restartStates (result read : Value) : Nat → PersistentState
  | 0 | 1 => .initial
  | 2 => sampleState sampleQueued
  | 3 | 4 => sampleState (sampleCompleted result)
  | _ + 5 => sampleState (sampleCompleted read)

theorem restartRun_isRun
    {allowed : Call → Prop}
    {result read : Value}
    {text : List UInt8}
    (different : sampleQueuedText ≠ text)
    (fits : text.length ≤ StorePolicy.default.maxStoreBytes.toNat)
    (comesBack : (sampleCompleted result).reread sampleReread =
      sampleCompleted read)
    (submits : allowed (.submit 0 0 sampleSubmission 1))
    (completes : allowed (.complete 0 sampleOwner sampleId result))
    (expires : allowed (.expireDeadline 0 sampleOwner sampleId)) :
    IsRun (Step (sampleJson (sampleCompleted result) text) allowed)
      (.down none) (restartRun result read text) := by
  let json := sampleJson (sampleCompleted result) text
  have moved : (sampleCompleted result).state ≠ .queued := by
    change ApiJobState.completed ≠ .queued
    decide
  have decoded : json.fromSlice text =
      some (sampleState (sampleCompleted read)) := by
    rw [← comesBack]
    exact sampleJson_decoded different
  refine ⟨rfl, ?_⟩
  rintro (_ | _ | _ | _ | _ | time)
  · exact .opened open_empty
  · have step := @Step.call json allowed _ submits none emptyRegistry
    rwa [@perform_submit json _ sampleJson_queued sampleQueuedText_length]
      at step
  · have step := @Step.call json allowed _ completes none
      (sampleRegistry sampleQueued sampleQueuedText)
    rwa [@perform_complete json _ _ _ (sampleJson_next moved) fits] at step
  · exact .crash _
  · exact .opened (open_completed decoded fits)
  · have step := @Step.call json allowed _ expires none
      (sampleRegistry (sampleCompleted read) text)
    rwa [perform_expire] at step

/-- The verification is completed, and its result read again. -/
def sampleRun : Nat → Store :=
  restartRun verified verified verifiedText

theorem sampleRun_isRun
    {allowed : Call → Prop}
    (submits : allowed (.submit 0 0 sampleSubmission 1))
    (completes : allowed (.complete 0 sampleOwner sampleId verified))
    (expires : allowed (.expireDeadline 0 sampleOwner sampleId)) :
    IsRun (Step verifiedJson allowed) (.down none) sampleRun :=
  restartRun_isRun verifiedText_ne verifiedText_length rfl submits completes
    expires

/-! ## The life of a job -/

/-- Every run of the registry from an empty store, with any calls, any failures
of storage, any crashes and any attempts to open it again, commits states that
obey the law, and outcomes that are final when those that the calls bring come
back from JSON. -/
theorem jobRegistry_lifecycle
    {json : StoreJson}
    (lawful : json.Lawful)
    {allowed : Call → Prop}
    {run : Nat → Store}
    (isRun : IsRun (Step json allowed) (.down none) run) :
    ∃ committed, (∀ time, (run time).Holds json (committed time)) ∧
      Lifecycle committed ∧
      ((∀ call, allowed call → call.OutcomeKept json.rereadFloat) →
        OutcomesFinal committed) := by
  obtain ⟨committed, isJournal, related⟩ :=
    (store_simulates_journal lawful allowed).exists_run isRun
  exact ⟨committed, fun time => (related time).holds,
    journal_lifecycle isJournal, fun brings =>
      journal_outcomes isJournal (journal_kept isJournal brings)⟩

/-- The law holds of the run of a verification, and its outcome is final. -/
theorem sampleRun_lifecycle :
    verifiedJson.Lawful ∧
      IsRun (Step verifiedJson (Call.OutcomeKept sampleReread)) (.down none)
        sampleRun ∧
      ∃ committed,
        (∀ time, (sampleRun time).Holds verifiedJson (committed time)) ∧
        Lifecycle committed ∧ OutcomesFinal committed := by
  have isRun : IsRun (Step verifiedJson (Call.OutcomeKept sampleReread))
      (.down none) sampleRun := sampleRun_isRun trivial rfl trivial
  obtain ⟨committed, holds, lifecycle, final⟩ :=
    jobRegistry_lifecycle verifiedJson_lawful isRun
  exact ⟨verifiedJson_lawful, isRun, committed, holds, lifecycle,
    final fun _ brings => brings⟩

/-- An outcome comes back with the job. -/
theorem StoredJob.reread_advance
    (rereadFloat : List UInt8 → List UInt8)
    (job : StoredJob)
    (change : JobChange)
    (phase : String)
    (now : UInt64)
    (bound : Nat) :
    (job.advance change phase now bound).reread rereadFloat =
      job.advance { change with
        result := rereadOptional rereadFloat change.result
        error := change.error.map (JsonRpcError.reread rereadFloat) } phase now
          bound :=
  rfl

/-- The text of the store with a fraction as result. -/
def fractionText : List UInt8 :=
  sampleCompletedText "51.248178375505404"

theorem fractionText_ne : sampleQueuedText ≠ fractionText :=
  sampleText_ne (by decide) (by decide)

theorem fractionText_length :
    fractionText.length ≤ StorePolicy.default.maxStoreBytes.toNat :=
  sampleCompletedText_length (by decide)

/-- A job that is completed with a fraction has another result when the daemon
has been started again. -/
theorem completed_fraction_changes :
    ¬∀ (json : StoreJson) (run : Nat → Store)
      (committed : Nat → PersistentState), json.Lawful →
      IsRun (Step json fun _ => True) (.down none) run →
      (∀ time, (run time).Holds json (committed time)) →
      OutcomesFinal committed := by
  intro always
  let written : Value := .float sampleFraction
  let json := sampleJson (sampleCompleted written) fractionText
  have lawful : json.Lawful := @sampleJson_lawful (sampleCompleted written)
    fractionText fractionText_ne rfl
  have comesBack : (sampleCompleted written).reread sampleReread =
      sampleCompleted (.float rereadFraction) := by
    have read : sampleReread sampleFraction = rereadFraction := if_pos rfl
    rw [← read]
    exact StoredJob.reread_advance _ _ _ _ _ _
  have isRun := @restartRun_isRun (fun _ => True) written
    (.float rereadFraction) fractionText fractionText_ne fractionText_length
    comesBack trivial trivial trivial
  have moved : (sampleCompleted written).state ≠ .queued := by
    change ApiJobState.completed ≠ .queued
    decide
  have stored : Written json (some fractionText)
      (sampleState (sampleCompleted written)) :=
    Or.inr ⟨_, rfl, sampleJson_next moved⟩
  have holds : ∀ time, (restartRun written (.float rereadFraction)
      fractionText time).Holds json
        (restartStates written (.float rereadFraction) time) := by
    rintro (_ | _ | _ | _ | _ | time)
    · exact ⟨.initial, Or.inl ⟨rfl, rfl⟩, Or.inl rfl⟩
    · exact ⟨rfl, .initial, Or.inl ⟨rfl, rfl⟩, Or.inl rfl⟩
    · exact ⟨rfl, _, Or.inr ⟨_, rfl, sampleJson_queued⟩, Or.inl rfl⟩
    · exact ⟨rfl, _, stored, Or.inl rfl⟩
    · exact ⟨_, stored, Or.inl rfl⟩
    · refine ⟨rfl, _, stored, Or.inr ?_⟩
      exact ((sampleState_reread _ _).trans (congrArg sampleState
        comesBack)).symm
  obtain ⟨same, isSame, _, result, _⟩ := always json _ _ lawful isRun holds 3 5
    sampleId.value (sampleCompleted written) (by decide) (sampleState_found _)
    rfl
  cases (sampleState_found _).symm.trans isSame
  have texts : rereadFraction = sampleFraction :=
    Value.float.inj (Option.some.inj result)
  exact absurd texts (by decide)

/-! ## Submitting again -/

/-- In every run of the registry, whatever fails and however often it is opened
again, a session gets one job for a key and the same answer ever after. -/
theorem jobRegistry_submitsOnce
    {json : StoreJson}
    (lawful : json.Lawful)
    {run : Nat → Store}
    (isRun : IsRun (Step json fun _ => True) (.down none) run) :
    ∃ committed, (∀ time, (run time).Holds json (committed time)) ∧
      SubmitsOnce json run committed := by
  obtain ⟨committed, isJournal, related⟩ :=
    (store_simulates_journal lawful fun _ => True).exists_run isRun
  have kept {time later : Nat} {key : String} {job : StoredJob}
      (ordered : time ≤ later)
      (found : (committed time).jobs[key]? = some job) :=
    journal_identity isJournal ordered found
  refine ⟨committed, fun time => (related time).holds, kept, ?_, ?_, ?_⟩
  · intro time later key other job otherJob found otherFound sameOwner sameKey
    obtain ⟨same, isSame, admission⟩ :=
      kept (Nat.le_max_left time later) found
    obtain ⟨otherSame, isOtherSame, otherAdmission⟩ :=
      kept (Nat.le_max_right time later) otherFound
    refine ((related (max time later)).sound.valid .default).key_unique isSame
      isOtherSame ?_ ?_
    · rw [otherAdmission.owner, sameOwner, admission.owner]
    · rw [otherAdmission.idempotencyKey, sameKey, admission.idempotencyKey]
  · intro time later key job registry submission fault created now maximum
      ordered found isUp isOpen healthy sameOwner sameKey
    obtain ⟨same, isSame, admission⟩ := kept ordered found
    have isRelated := related later
    rw [isUp] at isRelated
    obtain ⟨isState, ok⟩ := isRelated
    rw [← isState] at isSame
    refine ⟨same, isSame, ?_⟩
    rw [submitWithLimit_known ok.valid isOpen healthy isSame
      (sameOwner.trans admission.owner.symm)
      (sameKey.trans admission.idempotencyKey.symm)]
    simp only [answerAgain, SameParameters, admission.paramsHash,
      admission.method, admission.priority, admission.jobId]
  · exact fun same => idempotencyMapKey_inj same

/-- The session of the verification gets its job again. -/
theorem sampleRun_submitsOnce :
    verifiedJson.Lawful ∧
      IsRun (Step verifiedJson fun _ => True) (.down none) sampleRun ∧
      ∃ committed,
        (∀ time, (sampleRun time).Holds verifiedJson (committed time)) ∧
        SubmitsOnce verifiedJson sampleRun committed :=
  ⟨verifiedJson_lawful, sampleRun_isRun trivial trivial trivial,
    jobRegistry_submitsOnce verifiedJson_lawful
      (sampleRun_isRun trivial trivial trivial)⟩

/-! ## Staying healthy -/

/-- In every reachable healthy registry on working storage, a lawful call is
harmless exactly when it is neither a transition that is let through to
completed or failed nor a new job with a path that is not UTF-8. -/
theorem call_harmless_iff
    {json : StoreJson}
    (lawful : json.Lawful)
    {registry : JobRegistry}
    (reachable : Reachable json (fun _ => True) registry)
    (healthy : registry.healthy = true)
    {call : Call}
    (isLawful : call.Lawful)
    (works : call.StorageWorks json registry) :
    call.Harmless json registry ↔ ¬call.Poisons registry :=
  Call.harmless_iff lawful (reachable.registryOk lawful) healthy isLawful works

theorem sampleRun_reachable
    {allowed : Call → Prop}
    (submits : allowed (.submit 0 0 sampleSubmission 1))
    (completes : allowed (.complete 0 sampleOwner sampleId verified))
    (expires : allowed (.expireDeadline 0 sampleOwner sampleId)) :
    Reachable verifiedJson allowed
        (sampleRegistry sampleQueued sampleQueuedText) ∧
      Reachable verifiedJson allowed
        (sampleRegistry (sampleCompleted verified) verifiedText) :=
  ⟨(sampleRun_isRun submits completes expires).reachable 2,
    (sampleRun_isRun submits completes expires).reachable 3⟩

/-- Completing the verification is harmless. -/
theorem sampleComplete_harmless :
    Reachable verifiedJson (fun _ => True)
        (sampleRegistry sampleQueued sampleQueuedText) ∧
      ((Call.complete 0 sampleOwner sampleId verified).Harmless verifiedJson
          (sampleRegistry sampleQueued sampleQueuedText) ↔
        ¬(Call.complete 0 sampleOwner sampleId verified).Poisons
          (sampleRegistry sampleQueued sampleQueuedText)) := by
  have reachable := (@sampleRun_reachable (fun _ => True) trivial trivial
    trivial).1
  refine ⟨reachable, call_harmless_iff verifiedJson_lawful reachable rfl
    trivial ?_⟩
  intro next answer decided _ _
  change Except.map (Prod.map id fun _ => Answer.done)
    (decideUpdate sampleOwner sampleId (completeJob .default 0 verified)
      (sampleState sampleQueued)) = _ at decided
  obtain ⟨_, unwrapped⟩ := Call.decided_unwrap decided
  obtain ⟨job, after, found, _, updated, isNext⟩ :=
    decideUpdate_eq_ok.mp unwrapped
  cases (sampleState_found sampleQueued).symm.trans found
  cases (sampleCompleted_done verified).symm.trans updated
  have isState := (Option.some.inj isNext).trans
    (sampleState_setJob sampleQueued (sampleCompleted verified))
  refine ⟨verifiedText, ?_, verifiedText_length⟩
  rw [isState]
  change verifiedJson.toVec (trimRetainedEvents _ .default) = _
  rw [@sampleState_trim (sampleCompleted verified)
    (sampleQueued.advance_few _ _ _ _)]
  exact sampleJson_next (by decide)

theorem runningText_ne : sampleQueuedText ≠ sampleRunningText :=
  sampleText_ne (by decide) (by decide)

theorem runningText_length :
    sampleRunningText.length ≤ StorePolicy.default.maxStoreBytes.toNat := by
  refine sampleText_length ?_
  simp only [sampleSecondEvent, sampleTail, length_flatMap_textBytes]
  decide

/-- A running job that is moved to completed closes the registry. -/
theorem transition_to_completed_poisons :
    ¬∀ (json : StoreJson) (registry : JobRegistry) (call : Call),
      json.Lawful → Reachable json (fun _ => True) registry →
      registry.healthy = true → call.Lawful →
      call.StorageWorks json registry → call.Harmless json registry := by
  intro harmless
  let json := sampleJson sampleRunning sampleRunningText
  let registry := sampleRegistry sampleRunning sampleRunningText
  let call := Call.transition (fun _ => .notFound) 0 sampleOwner sampleId
    .completed "completed"
  have lawful : json.Lawful := sampleJson_lawful runningText_ne rfl
  have reachable : Reachable json (fun _ => True) registry := by
    have opened : Step json (fun _ => True) (.down none)
        (.up emptyRegistry) := .opened open_empty
    have submitted := @Step.call json (fun _ => True)
      (.submit 0 0 sampleSubmission 1) trivial none emptyRegistry
    rw [perform_submit sampleJson_queued sampleQueuedText_length] at submitted
    have started := @Step.call json (fun _ => True)
      (.transition (fun _ => .notFound) 0 sampleOwner sampleId .running
        "started") trivial none
      (sampleRegistry sampleQueued sampleQueuedText)
    rw [@perform_start json _ _ (sampleJson_next (by decide))
      runningText_length] at started
    exact ((Relation.ReflTransGen.single opened).tail submitted).tail started
  have ok := reachable.registryOk lawful
  have isLawful : call.Lawful := trivial
  have poisons : call.Poisons registry :=
    ⟨Or.inl rfl, sampleRunning, sampleState_found sampleRunning, rfl, rfl,
      by decide⟩
  have works : call.StorageWorks json registry := by
    intro next answer decided valid paths
    exact absurd poisons ((Call.fine_iff_not_poisons lawful ok isLawful rfl
      decided).mp ⟨valid, paths⟩)
  exact (Call.harmless_iff lawful ok rfl isLawful works).mp
    (harmless json registry call lawful reachable rfl isLawful works) poisons

/-! ## Memory and disk -/

/-- In every run in which jobs end with results and errors that come back from
JSON, memory equals disk after every step, and a failed commit closes the
registry. -/
theorem memoryEqualsDisk_of_storable
    {json : StoreJson}
    (lawful : json.Lawful)
    {registry : JobRegistry}
    (reachable : Reachable json (Call.OutcomeStorable json.rereadFloat)
      registry) :
    MemoryEqualsDisk json registry where
  decodes := by
    obtain ⟨state, ⟨rfl, _⟩, _, decodes⟩ :=
      committed_decodes_of_reachable lawful reachable
    exact decodes
  failsClosed := by
    intro call fault fails later next nextFault isGated
    exact Call.perform_eq_of_unhealthy isGated
      (performAll_unhealthy fails.unhealthy later)

/-- After the verification memory equals disk. -/
theorem sampleRun_memoryEqualsDisk :
    Reachable verifiedJson (Call.OutcomeStorable sampleReread)
        (sampleRegistry (sampleCompleted verified) verifiedText) ∧
      MemoryEqualsDisk verifiedJson
        (sampleRegistry (sampleCompleted verified) verifiedText) := by
  have reachable := (@sampleRun_reachable (Call.OutcomeStorable sampleReread)
    trivial ⟨rfl, rfl, show 1 ≤ maxResultDepth by decide⟩ trivial).2
  exact ⟨reachable, memoryEqualsDisk_of_storable verifiedJson_lawful reachable⟩

theorem nullText_ne : sampleQueuedText ≠ sampleCompletedText "null" :=
  sampleText_ne (by decide) (by decide)

theorem nullText_length : (sampleCompletedText "null").length ≤
    StorePolicy.default.maxStoreBytes.toNat :=
  sampleCompletedText_length (by decide)

/-- A job that is completed with null has another state in memory than on
disk. -/
theorem complete_with_null_differs :
    ¬∀ (json : StoreJson) (registry : JobRegistry), json.Lawful →
      Reachable json (fun _ => True) registry →
      MemoryEqualsDisk json registry := by
  intro always
  let json := sampleJson (sampleCompleted .null) (sampleCompletedText "null")
  let registry := sampleRegistry (sampleCompleted .null)
    (sampleCompletedText "null")
  have lawful : json.Lawful := sampleJson_lawful nullText_ne rfl
  have reachable : Reachable json (fun _ => True) registry := by
    have opened : Step json (fun _ => True) (.down none)
        (.up emptyRegistry) := .opened open_empty
    have submitted := @Step.call json (fun _ => True)
      (.submit 0 0 sampleSubmission 1) trivial none emptyRegistry
    rw [perform_submit sampleJson_queued sampleQueuedText_length] at submitted
    have completed := @Step.call json (fun _ => True)
      (.complete 0 sampleOwner sampleId .null) trivial none
      (sampleRegistry sampleQueued sampleQueuedText)
    rw [@perform_complete json _ _ _ (sampleJson_next (by decide))
      nullText_length] at completed
    exact ((Relation.ReflTransGen.single opened).tail submitted).tail completed
  have decodes := (always json registry lawful reachable).decodes
  have decoded := @sampleJson_decoded (sampleCompleted .null) _ nullText_ne
  have same := (Option.some.inj (decoded.symm.trans decodes))
  have jobs : (sampleState _).jobs[sampleId.value]? =
      (sampleState (sampleCompleted .null)).jobs[sampleId.value]? :=
    congrArg (fun state : PersistentState => state.jobs[sampleId.value]?) same
  rw [sampleState_found, sampleState_found, Option.some.injEq] at jobs
  have results := congrArg StoredJob.result jobs
  cases results

end Pithos.Daemon
