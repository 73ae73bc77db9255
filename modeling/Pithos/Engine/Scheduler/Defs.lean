import Mathlib.Data.List.Sort
import Std.Data.ExtTreeMap
import Pithos.Core
import Pithos.Library.Machine

/-!
# The scheduler of the engine

`executeScheduled` runs tasks that depend on each other on a pool of workers.
The calling thread dispatches every task that is ready and for which there is
memory, and takes the results from a channel.  The workers run at the same time:
a state is that of the calling thread together with the tasks that it has
dispatched and the results that wait in the channel.

A task's action is the set of results that it may give.
-/

namespace Pithos.Scheduler

open Fallible
open Std
open Machine

/-! ## Tasks -/

/-- What a task is for. -/
inductive JobPriority
  | interactiveRead
  | interactiveExtract
  | verifyRequested
  | packForeground
  | packBackground
  | benchmark
  deriving DecidableEq

/-- The smaller rank goes first. -/
def JobPriority.rank : JobPriority → UInt8
  | interactiveRead => 0
  | interactiveExtract => 1
  | verifyRequested => 2
  | packForeground => 3
  | packBackground => 4
  | benchmark => 5

/-- The memory that a task asks for. -/
structure ResourceEstimate where
  inputBytes : UInt64
  scratchBytes : UInt64
  outputBound : UInt64

/-- The memory of a task in all. -/
def ResourceEstimate.total (estimate : ResourceEstimate) : Result UInt64 :=
  okOr ((checkedAdd estimate.inputBytes estimate.scratchBytes).bind
    fun value => checkedAdd value estimate.outputBound) .integerOverflow

/-- A task: `action` says which results it may have. -/
structure ScheduledTask where
  taskId : UInt64
  priority : JobPriority
  dependencies : List UInt64
  resources : ResourceEstimate
  action : Result (List UInt8) → Prop

/-- The limits, which are not zero. -/
structure SchedulerConfig where
  workers : UInt64
  memoryBudget : UInt64
  someWorkers : workers ≠ 0
  someMemory : memoryBudget ≠ 0

/-- How many tasks may be on their way to the workers. -/
def SchedulerConfig.queueCapacity (config : SchedulerConfig) : Nat :=
  max (min (2 * config.workers.toNat) (2 ^ 64 - 1)) 4

/-- A result in its temporary file. -/
structure SpoolHandle where
  taskId : UInt64
  payload : List UInt8

/-! ## Checking the dependencies -/

/-- The tasks that wait for a task, in their order. -/
def dependentsOf (tasks : List ScheduledTask) (taskId : UInt64) : List UInt64 :=
  (tasks.filter fun task => taskId ∈ task.dependencies).map ScheduledTask.taskId

/-- Count down the dependencies of some tasks.  Those that have none left become
ready. -/
def releaseDependents :
    List UInt64 → ExtTreeMap UInt64 Nat → List UInt64 →
      Result (ExtTreeMap UInt64 Nat × List UInt64)
  | [], indegree, ready => .ok (indegree, ready)
  | child :: rest, indegree, ready =>
      match indegree[child]? with
      | none => .error (.invalidMetadata "invalid scheduler dependency")
      | some 0 => .error .integerOverflow
      | some (count + 1) =>
          releaseDependents rest (indegree.insert child count)
            (if count = 0 then ready ++ [child] else ready)

/-- Visit the ready tasks until none is left, and count them.  No task is
visited twice, so the bound is not reached before. -/
def visitReady (dependents : UInt64 → List UInt64) :
    Nat → ExtTreeMap UInt64 Nat → List UInt64 → Nat → Result Nat
  | 0, _, _, visited => .ok visited
  | _ + 1, _, [], visited => .ok visited
  | bound + 1, indegree, taskId :: ready, visited => do
      ensure (visited + 1 < 2 ^ 64) .integerOverflow
      let (indegree, ready) ←
        releaseDependents (dependents taskId) indegree ready
      visitReady dependents bound indegree ready (visited + 1)

/-- The number of dependencies of each task. -/
def indegrees (tasks : List ScheduledTask) : ExtTreeMap UInt64 Nat :=
  ExtTreeMap.ofList
    (tasks.map fun task => (task.taskId, task.dependencies.length)) compare

/-- The tasks without dependencies. -/
def initiallyReady (indegree : ExtTreeMap UInt64 Nat) : List UInt64 :=
  (indegree.toList.filter fun entry => entry.2 = 0).map Prod.fst

/-- A task depends on other tasks, and on none twice. -/
def validDependencies (tasks : List ScheduledTask) (task : ScheduledTask) :
    Bool :=
  decide task.dependencies.Nodup &&
    task.dependencies.all fun dependency =>
      decide (dependency ∈ tasks.map ScheduledTask.taskId)

/-- Refuse two tasks with one id, unknown dependencies and cycles. -/
def validateDag (tasks : List ScheduledTask) : Result Unit := do
  ensure (tasks.map ScheduledTask.taskId).Nodup
    (.invalidMetadata "duplicate scheduler task ID")
  ensure (tasks.all (validDependencies tasks) = true)
    (.invalidMetadata "invalid scheduler dependency")
  let visited ← visitReady (dependentsOf tasks) tasks.length (indegrees tasks)
    (initiallyReady (indegrees tasks)) 0
  ensure (visited = tasks.length) .dependencyCycle

/-! ## The state -/

/-- How far a dispatched task has come: before its first look at the
cancellation token, or after it. -/
inductive Stage
  | queued
  | acting (cancelledBefore : Bool)
  deriving DecidableEq

/-- A task that has been dispatched and has not sent its result. -/
structure Flight where
  task : ScheduledTask
  memory : UInt64
  stage : Stage

/-- A result, with the task that it comes from. -/
structure WorkerResult where
  task : ScheduledTask
  memory : UInt64
  result : Result SpoolHandle

/-- Where the calling thread is. -/
inductive Control
  | looking
  | dispatching (dispatched : Bool)
  | settling (dispatched : Bool)
  | receiving
  | returned (result : Result (List SpoolHandle))

/-- The state of the scheduler, of its workers and of the channel between them.
-/
structure State where
  control : Control
  pending : List (Option (ScheduledTask × UInt64))
  availableMemory : UInt64
  running : UInt64
  completed : List SpoolHandle
  flights : List Flight
  channel : List WorkerResult
  cancelled : Bool

/-- The identifiers of the completed tasks. -/
def State.completedIds (state : State) : List UInt64 :=
  state.completed.map SpoolHandle.taskId

/-- The memory of every task, which must be within the budget. -/
def reserve (config : SchedulerConfig) (task : ScheduledTask) :
    Result (Option (ScheduledTask × UInt64)) := do
  let memory ← task.resources.total
  ensure (memory ≤ config.memoryBudget) .memoryLimit
  .ok (some (task, memory))

/-- The state at the head of the main loop. -/
def prepare
    (tasks : List ScheduledTask)
    (config : SchedulerConfig)
    (cancelled poolBuilt : Bool) : Result State := do
  validateDag tasks
  ensure (cancelled = false) .cancelled
  let pending ← tasks.mapM (reserve config)
  ensure (poolBuilt = true)
    (.invalidMetadata "failed to build scheduler worker pool")
  .ok {
    control := .looking
    pending := pending
    availableMemory := config.memoryBudget
    running := 0
    completed := []
    flights := []
    channel := []
    cancelled := cancelled }

/-! ## The calling thread -/

/-- Whether the dependencies are done is decided one by one. -/
instance (priority := 2000) decidableDependenciesDone
    (completed dependencies : List UInt64) :
    Decidable (∀ dependency ∈ dependencies, dependency ∈ completed) :=
  List.decidableBAll _ _

/-- A pending task that may be dispatched, with its place and its key. -/
def readyEntry
    (completed : List UInt64)
    (availableMemory : UInt64)
    (entry : Option (ScheduledTask × UInt64) × Nat) :
    Option ((UInt8 × UInt64) × Nat) :=
  entry.1.bind fun (task, memory) =>
    if memory ≤ availableMemory ∧
        ∀ dependency ∈ task.dependencies, dependency ∈ completed then
      some ((task.priority.rank, task.taskId), entry.2)
    else none

/-- The first of the entries with the least key. -/
def leastEntry : List ((UInt8 × UInt64) × Nat) →
    Option ((UInt8 × UInt64) × Nat)
  | [] => none
  | entry :: rest =>
      match leastEntry rest with
      | none => some entry
      | some least =>
          if least.1.1 < entry.1.1 ∨
              least.1.1 = entry.1.1 ∧ least.1.2 < entry.1.2 then some least
          else some entry

/-- The place of the task to dispatch next. -/
def nextReadyTask
    (pending : List (Option (ScheduledTask × UInt64)))
    (completed : List UInt64)
    (availableMemory : UInt64) : Option Nat :=
  (leastEntry (pending.zipIdx.filterMap
    (readyEntry completed availableMemory))).map Prod.snd

/-- What happens in a step. -/
inductive Event
  | proceeds
  | dispatches (task : ScheduledTask)
  | receives (worker : WorkerResult)
  | starts (task : ScheduledTask)
  | sends (worker : WorkerResult)
  | cancels

/-- Leave the call with an error. -/
def State.fail (state : State) (failure : PithosError) : State :=
  { state with control := .returned (.error failure) }

/-- Take a task from its place and hand it to the pool. -/
def dispatch (index : Nat) (state : State) : Event × State :=
  match (do
    let (task, memory) ← okOr (state.pending[index]?.join)
      (.invalidMetadata "task dispatched twice")
    let available ← okOr (checkedSub state.availableMemory memory)
      .integerOverflow
    let running ← okOr (checkedAdd state.running 1) .integerOverflow
    .ok (task, memory, available, running) : Result _) with
  | .error failure => (.proceeds, state.fail failure)
  | .ok (task, memory, available, running) =>
      (.dispatches task, { state with
        control := .dispatching true
        pending := state.pending.set index none
        availableMemory := available
        running := running
        flights := state.flights ++ [⟨task, memory, .queued⟩] })

/-- Take a result from the channel. -/
def receive
    (worker : WorkerResult)
    (rest : List WorkerResult)
    (state : State) : Event × State :=
  (.receives worker,
    match (do
      let running ← okOr (checkedSub state.running 1) .integerOverflow
      let available ← okOr (checkedAdd state.availableMemory worker.memory)
        .integerOverflow
      .ok (running, available) : Result _) with
    | .error failure => { state with channel := rest }.fail failure
    | .ok (running, available) =>
        let state := { state with
          running := running
          availableMemory := available
          channel := rest }
        match worker.result with
        | .ok spool => { state with
            control := .looking
            completed := state.completed ++ [spool] }
        | .error failure => { state with cancelled := true }.fail failure)

/-- The spool files in the order of their tasks. -/
def sortSpools (completed : List SpoolHandle) : List SpoolHandle :=
  completed.mergeSort fun left right => decide (left.taskId ≤ right.taskId)

/-- The next step of the calling thread, unless it waits for a result or has
returned. -/
def turn (taskCount : Nat) (config : SchedulerConfig) (state : State) :
    Option (Event × State) :=
  match state.control with
  | .looking =>
      some (.proceeds, { state with
        control :=
          if state.completed.length < taskCount then .dispatching false
          else .returned (.ok (sortSpools state.completed)) })
  | .dispatching dispatched =>
      some <|
        if state.running < config.workers ∧ state.cancelled = false then
          match nextReadyTask state.pending state.completedIds
              state.availableMemory with
          | none => (.proceeds, { state with control := .settling dispatched })
          | some index => dispatch index state
        else (.proceeds, { state with control := .settling dispatched })
  | .settling dispatched =>
      some (.proceeds,
        if state.running = 0 then
          state.fail (if state.cancelled then .cancelled else .dependencyCycle)
        else { state with
          control :=
            if dispatched = false ∨ config.workers ≤ state.running then
              .receiving
            else .looking })
  | .receiving =>
      match state.channel with
      | [] => none
      | worker :: rest => some (receive worker rest state)
  | .returned _ => none

/-! ## The workers -/

/-- Run a task: the token as it is before and after the action, the result of
the action, and a fault of the temporary file. -/
def runTask
    (task : ScheduledTask)
    (cancelledBefore : Bool)
    (outcome : Result (List UInt8))
    (cancelledAfter : Bool)
    (fault : Option FileTree.IoErrorKind) : Result SpoolHandle := do
  ensure (cancelledBefore = false) .cancelled
  let payload ← outcome
  ensure (cancelledAfter = false) .cancelled
  ensure (payload.length < 2 ^ 64) .integerOverflow
  ensure (payload.length ≤ task.resources.outputBound.toNat)
    (.resourceLimit "scheduled task exceeded reserved output bound")
  match fault with
  | some kind => .error (.io kind)
  | none => .ok ⟨task.taskId, payload⟩

/-- One step of the calling thread, of a worker, or of whoever may cancel the
job. -/
inductive Step (taskCount : Nat) (config : SchedulerConfig) :
    State → Event → State → Prop
  | turns {state next : State} {event : Event}
      (isTurn : turn taskCount config state = some (event, next)) :
      Step taskCount config state event next
  | starts {state : State} {task : ScheduledTask} {memory : UInt64}
      {before after : List Flight}
      (isFlight : state.flights = before ++ ⟨task, memory, .queued⟩ :: after) :
      Step taskCount config state (.starts task) { state with
        flights :=
          before ++ ⟨task, memory, .acting state.cancelled⟩ :: after }
  | sends {state : State} {task : ScheduledTask} {memory : UInt64}
      {cancelledBefore : Bool} {before after : List Flight}
      {outcome : Result (List UInt8)} (fault : Option FileTree.IoErrorKind)
      (isFlight : state.flights =
        before ++ ⟨task, memory, .acting cancelledBefore⟩ :: after)
      (acts : cancelledBefore = false → task.action outcome)
      (hasRoom : state.channel.length < config.queueCapacity) :
      Step taskCount config state
        (.sends ⟨task, memory,
          runTask task cancelledBefore outcome state.cancelled fault⟩)
        { state with
          flights := before ++ after
          channel := state.channel ++ [⟨task, memory,
            runTask task cancelledBefore outcome state.cancelled fault⟩] }
  | cancels {state : State} (notYet : state.cancelled = false) :
      Step taskCount config state .cancels { state with cancelled := true }

/-- A run with its events in order. -/
inductive Run (taskCount : Nat) (config : SchedulerConfig) (start : State) :
    List Event → State → Prop
  | start : Run taskCount config start [] start
  | step {events : List Event} {state next : State} {event : Event}
      (before : Run taskCount config start events state)
      (step : Step taskCount config state event next) :
      Run taskCount config start (events ++ [event]) next

end Pithos.Scheduler
