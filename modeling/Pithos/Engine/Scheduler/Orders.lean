import Pithos.Engine.Scheduler.Safety

/-!
# Either order of two tasks

Two tasks without dependencies run at the same time when there are two workers
and memory for both.  Whichever of them ends first, some run of the scheduler
receives the results in that order, and the call returns the same.
-/

namespace Pithos.Scheduler

open Fallible
open Machine

/-! ## What a run receives -/

/-- The tasks whose results were received, in order. -/
def receivedIds (events : List Event) : List UInt64 :=
  events.filterMap fun
    | .receives worker => some worker.task.taskId
    | _ => none

/-- Some run leads to a state, and has received the results of some tasks. -/
def Reached
    (taskCount : Nat)
    (config : SchedulerConfig)
    (start : State)
    (received : List UInt64)
    (state : State) : Prop :=
  ∃ events, Run taskCount config start events state ∧
    receivedIds events = received

section Reached

variable
  {taskCount : Nat}
  {config : SchedulerConfig}
  {start state next : State}
  {received : List UInt64}

theorem Reached.step
    {event : Event}
    (reached : Reached taskCount config start received state)
    (step : Step taskCount config state event next) :
    Reached taskCount config start (received ++ receivedIds [event]) next := by
  obtain ⟨events, run, rfl⟩ := reached
  exact ⟨events ++ [event], run.step step, List.filterMap_append⟩

/-- A step of the calling thread that receives nothing. -/
theorem Reached.turns
    (reached : Reached taskCount config start received state)
    (event : Event)
    (isTurn : turn taskCount config state = some (event, next))
    (silent : receivedIds [event] = []) :
    Reached taskCount config start received next := by
  have stepped := reached.step (.turns isTurn)
  rwa [silent, List.append_nil] at stepped

/-- A step of the calling thread that receives a result. -/
theorem Reached.receives
    (reached : Reached taskCount config start received state)
    (worker : WorkerResult)
    (isTurn : turn taskCount config state = some (.receives worker, next)) :
    Reached taskCount config start (received ++ [worker.task.taskId]) next :=
  reached.step (.turns isTurn)

end Reached

/-! ## Two tasks -/

section TwoTasks

variable
  {config : SchedulerConfig}
  {first last : ScheduledTask}
  {firstMemory lastMemory : UInt64}

/-- Two tasks that two workers may run at the same time. -/
structure TwoTasks
    (config : SchedulerConfig)
    (first last : ScheduledTask)
    (firstMemory lastMemory : UInt64) : Prop where
  workers : config.workers = 2
  firstFree : first.dependencies = []
  lastFree : last.dependencies = []
  samePriority : first.priority = last.priority
  ordered : first.taskId < last.taskId
  firstFits : firstMemory ≤ config.memoryBudget
  lastFits : lastMemory ≤ config.memoryBudget - firstMemory

/-- The two tasks before the first turn. -/
def pairStart
    (config : SchedulerConfig)
    (first last : ScheduledTask)
    (firstMemory lastMemory : UInt64) : State where
  control := .looking
  pending := [some (first, firstMemory), some (last, lastMemory)]
  availableMemory := config.memoryBudget
  running := 0
  completed := []
  flights := []
  channel := []
  cancelled := false

/-- The calling thread waits for the results of two tasks. -/
def twoFlights
    (available : UInt64)
    (flights : List Flight)
    (channel : List WorkerResult) : State where
  control := .receiving
  pending := [none, none]
  availableMemory := available
  running := 2
  completed := []
  flights := flights
  channel := channel
  cancelled := false

theorem nextReadyTask_nothing (completed : List UInt64) (available : UInt64) :
    nextReadyTask [none, none] completed available = none := rfl

theorem TwoTasks.nextReadyTask_first
    (two : TwoTasks config first last firstMemory lastMemory)
    (completed : List UInt64) :
    nextReadyTask [some (first, firstMemory), some (last, lastMemory)] completed
      config.memoryBudget = some 0 := by
  have notBefore : ¬last.taskId < first.taskId := fun before =>
    UInt64.lt_irrefl _ (UInt64.lt_trans two.ordered before)
  by_cases fits : lastMemory ≤ config.memoryBudget <;>
    simp [nextReadyTask, readyEntry, leastEntry, two.firstFree, two.lastFree,
      two.samePriority, two.firstFits, notBefore, fits]

theorem TwoTasks.nextReadyTask_last
    (two : TwoTasks config first last firstMemory lastMemory)
    (completed : List UInt64) :
    nextReadyTask [none, some (last, lastMemory)] completed
      (config.memoryBudget - firstMemory) = some 1 := by
  simp [nextReadyTask, readyEntry, leastEntry, two.lastFree, two.lastFits]

/-- Both tasks are dispatched before the calling thread waits. -/
theorem TwoTasks.dispatched
    (two : TwoTasks config first last firstMemory lastMemory) :
    Reached 2 config (pairStart config first last firstMemory lastMemory) []
      (twoFlights (config.memoryBudget - firstMemory - lastMemory)
        [⟨first, firstMemory, .queued⟩, ⟨last, lastMemory, .queued⟩] []) := by
  have firstTaken := UInt64.le_iff_toNat_le.mp two.firstFits
  have lastTaken := UInt64.le_iff_toNat_le.mp two.lastFits
  have workers := two.workers
  let start := pairStart config first last firstMemory lastMemory
  let half : State := { start with
    control := .dispatching true
    pending := [none, some (last, lastMemory)]
    availableMemory := config.memoryBudget - firstMemory
    running := 1
    flights := [⟨first, firstMemory, .queued⟩] }
  let both := twoFlights (config.memoryBudget - firstMemory - lastMemory)
    [⟨first, firstMemory, .queued⟩, ⟨last, lastMemory, .queued⟩] []
  have begun : Reached 2 config start [] start := ⟨[], .start, rfl⟩
  have looked : Reached 2 config start [] { start with
      control := .dispatching false } :=
    begun.turns .proceeds rfl rfl
  have dispatchedFirst : Reached 2 config start [] half := by
    refine looked.turns (.dispatches first) ?_ rfl
    have next := two.nextReadyTask_first []
    simp [turn, start, half, pairStart, workers, next, dispatch, checkedSub,
      checkedAdd, firstTaken, okOr, State.completedIds]
  have dispatchedBoth : Reached 2 config start [] { both with
      control := .dispatching true } := by
    refine dispatchedFirst.turns (.dispatches last) ?_ rfl
    have next := two.nextReadyTask_last []
    simp [turn, start, half, both, pairStart, twoFlights, workers, next, dispatch,
      checkedSub, checkedAdd, lastTaken, okOr, State.completedIds]
  have settled : Reached 2 config start [] { both with
      control := .settling true } := by
    refine dispatchedBoth.turns .proceeds ?_ rfl
    simp [turn, both, twoFlights, workers]
  refine settled.turns .proceeds ?_ rfl
  simp [turn, both, twoFlights, workers]

/-- What a worker sends for a task that goes well. -/
def sent (task : ScheduledTask) (memory : UInt64) (payload : List UInt8) :
    WorkerResult :=
  ⟨task, memory, .ok ⟨task.taskId, payload⟩⟩

/-- A worker sends the result of a task that goes well. -/
theorem Reached.sends
    {start : State}
    {available : UInt64}
    {task : ScheduledTask}
    {memory : UInt64}
    {payload : List UInt8}
    (before after : List Flight)
    {channel : List WorkerResult}
    (reached : Reached 2 config start [] (twoFlights available
      (before ++ ⟨task, memory, .acting false⟩ :: after) channel))
    (few : channel.length < 4)
    (acts : task.action (.ok payload))
    (within : payload.length ≤ task.resources.outputBound.toNat) :
    Reached 2 config start [] (twoFlights available (before ++ after)
      (channel ++ [sent task memory payload])) := by
  have bound := task.resources.outputBound.toNat_lt
  have short : payload.length < 2 ^ 64 := by omega
  have ran : runTask task false (.ok payload) false none =
      .ok ⟨task.taskId, payload⟩ := by
    rw [runTask, ensure_of rfl, ok_bind, ok_bind, ok_bind, ensure_of short,
      ok_bind, ensure_of within, ok_bind]
  have hasRoom : channel.length < config.queueCapacity :=
    Nat.lt_of_lt_of_le few (Nat.le_max_right _ _)
  have stepped := reached.step
    (@Step.sends 2 config _ task memory false before after _ none rfl
      (fun _ => acts) hasRoom)
  change Reached 2 config start [] (twoFlights available (before ++ after)
    (channel ++ [⟨task, memory,
      runTask task false (.ok payload) false none⟩])) at stepped
  rwa [ran] at stepped

/-- The results are received in the order in which they wait. -/
theorem received_in_order
    {start : State}
    (workers : config.workers = 2)
    {available : UInt64}
    {early late : ScheduledTask}
    {earlyMemory lateMemory : UInt64}
    (room : available.toNat + earlyMemory.toNat + lateMemory.toNat < 2 ^ 64)
    {earlyPayload latePayload : List UInt8}
    (reached : Reached 2 config start [] (twoFlights available []
      [sent early earlyMemory earlyPayload,
        sent late lateMemory latePayload])) :
    ∃ state, Reached 2 config start [early.taskId, late.taskId] state ∧
      state.control = .returned (.ok (sortSpools
        [⟨early.taskId, earlyPayload⟩, ⟨late.taskId, latePayload⟩])) := by
  obtain ⟨afterEarly, isEarly, earlyValue⟩ :=
    @checkedAdd_of_lt available earlyMemory (by omega)
  obtain ⟨afterLate, isLate, lateValue⟩ :=
    @checkedAdd_of_lt afterEarly lateMemory (by omega)
  let one : State := {
    twoFlights afterEarly [] [sent late lateMemory latePayload] with
    running := 1
    completed := [⟨early.taskId, earlyPayload⟩] }
  let all : State := { twoFlights afterLate [] [] with
    running := 0
    completed := [⟨early.taskId, earlyPayload⟩, ⟨late.taskId, latePayload⟩] }
  have receivedEarly : Reached 2 config start [early.taskId] { one with
      control := .looking } := by
    refine reached.receives (sent early earlyMemory earlyPayload) ?_
    simp [turn, twoFlights, receive, sent, one, checkedSub, okOr, isEarly]
  have looked : Reached 2 config start [early.taskId] { one with
      control := .dispatching false } :=
    receivedEarly.turns .proceeds rfl rfl
  have settled : Reached 2 config start [early.taskId] { one with
      control := .settling false } := by
    refine looked.turns .proceeds ?_ rfl
    simp [turn, one, twoFlights, workers, nextReadyTask_nothing]
  have waiting : Reached 2 config start [early.taskId] one := by
    refine settled.turns .proceeds ?_ rfl
    simp [turn, one, twoFlights]
  have receivedLate : Reached 2 config start [early.taskId, late.taskId]
      { all with control := .looking } := by
    refine waiting.receives (sent late lateMemory latePayload) ?_
    simp [turn, twoFlights, receive, sent, one, all, checkedSub, okOr, isLate]
  exact ⟨_, receivedLate.turns .proceeds rfl rfl, rfl⟩

theorem sortSpools_pair
    {small large : SpoolHandle}
    (below : small.taskId < large.taskId) :
    sortSpools [small, large] = [small, large] ∧
      sortSpools [large, small] = [small, large] := by
  have inOrder : small.taskId ≤ large.taskId := UInt64.le_of_lt below
  have notAfter : ¬large.taskId ≤ small.taskId := UInt64.not_le.mpr below
  constructor
  · exact List.mergeSort_of_pairwise (by simpa using inOrder)
  · rw [sortSpools, List.mergeSort]
    simp [notAfter, List.MergeSort.Internal.splitInTwo]

/-- Whichever of two tasks ends first, the call returns the same results. -/
theorem TwoTasks.either_order
    (two : TwoTasks config first last firstMemory lastMemory)
    {firstPayload lastPayload : List UInt8}
    (firstActs : first.action (.ok firstPayload))
    (firstWithin : firstPayload.length ≤ first.resources.outputBound.toNat)
    (lastActs : last.action (.ok lastPayload))
    (lastWithin : lastPayload.length ≤ last.resources.outputBound.toNat)
    {received : List UInt64}
    (order : received = [first.taskId, last.taskId] ∨
      received = [last.taskId, first.taskId]) :
    ∃ state, Reached 2 config
        (pairStart config first last firstMemory lastMemory) received state ∧
      state.control = .returned (.ok
        [⟨first.taskId, firstPayload⟩, ⟨last.taskId, lastPayload⟩]) := by
  have room : (config.memoryBudget - firstMemory - lastMemory).toNat +
      firstMemory.toNat + lastMemory.toNat < 2 ^ 64 := by
    have bound := config.memoryBudget.toNat_lt
    have firstTaken := UInt64.le_iff_toNat_le.mp two.firstFits
    have lastTaken := UInt64.le_iff_toNat_le.mp two.lastFits
    rw [UInt64.toNat_sub_of_le _ _ two.lastFits]
    rw [UInt64.toNat_sub_of_le _ _ two.firstFits] at lastTaken ⊢
    omega
  have started : Reached 2 config
      (pairStart config first last firstMemory lastMemory) []
      (twoFlights (config.memoryBudget - firstMemory - lastMemory)
        [⟨first, firstMemory, .acting false⟩,
          ⟨last, lastMemory, .acting false⟩] []) :=
    (two.dispatched.step
      (@Step.starts 2 config _ first firstMemory [] _ rfl)).step
      (@Step.starts 2 config _ last lastMemory [_] [] rfl)
  rcases order with rfl | rfl
  · have sentFirst := started.sends [] _ (Nat.zero_lt_succ 3) firstActs
      firstWithin
    have sentBoth := sentFirst.sends [] [] (Nat.one_lt_succ_succ 2) lastActs
      lastWithin
    obtain ⟨state, reached, returned⟩ :=
      received_in_order two.workers room sentBoth
    rw [(sortSpools_pair two.ordered).1] at returned
    exact ⟨state, reached, returned⟩
  · have sentLast := started.sends [_] [] (Nat.zero_lt_succ 3) lastActs
      lastWithin
    have sentBoth := sentLast.sends [] [] (Nat.one_lt_succ_succ 2) firstActs
      firstWithin
    obtain ⟨state, reached, returned⟩ :=
      received_in_order two.workers (by omega) sentBoth
    rw [(sortSpools_pair two.ordered).2] at returned
    exact ⟨state, reached, returned⟩

end TwoTasks

end Pithos.Scheduler
