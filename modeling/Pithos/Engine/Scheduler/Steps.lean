import Pithos.Engine.Scheduler.Defs

/-!
# What the steps of the scheduler do

The cases of a step of the calling thread, and the weight of a state, which every
step lowers.
-/

namespace Pithos.Scheduler

open Fallible
open Machine

/-! ## The next task -/

section Next

variable
  {pending : List (Option (ScheduledTask × UInt64))}
  {completed : List UInt64}
  {availableMemory : UInt64}

/-- A task whose dependencies are completed, and for which there is memory. -/
def Dispatchable
    (completed : List UInt64)
    (availableMemory : UInt64)
    (task : ScheduledTask)
    (memory : UInt64) : Prop :=
  memory ≤ availableMemory ∧
    ∀ dependency ∈ task.dependencies, dependency ∈ completed

theorem leastEntry_mem
    {entries : List ((UInt8 × UInt64) × Nat)}
    {least : (UInt8 × UInt64) × Nat}
    (isLeast : leastEntry entries = some least) :
    least ∈ entries := by
  induction entries generalizing least with
  | nil => cases isLeast
  | cons entry rest inductionHypothesis =>
      rw [leastEntry] at isLeast
      split at isLeast
      · cases isLeast
        exact List.mem_cons_self
      · rename_i other isOther
        split at isLeast
        · cases isLeast
          exact List.mem_cons_of_mem _ (inductionHypothesis isOther)
        · cases isLeast
          exact List.mem_cons_self

theorem leastEntry_eq_none
    {entries : List ((UInt8 × UInt64) × Nat)}
    (none : leastEntry entries = none) :
    entries = [] := by
  cases entries with
  | nil => rfl
  | cons entry rest =>
      rw [leastEntry] at none
      split at none
      · cases none
      · split at none <;> cases none

/-- The next task is pending and can be dispatched. -/
theorem nextReadyTask_eq_some
    {index : Nat}
    (found : nextReadyTask pending completed availableMemory = some index) :
    ∃ task memory, pending[index]? = some (some (task, memory)) ∧
      Dispatchable completed availableMemory task memory := by
  rw [nextReadyTask, Option.map_eq_some_iff] at found
  obtain ⟨entry, isLeast, rfl⟩ := found
  obtain ⟨⟨item, place⟩, isItem, isReady⟩ :=
    List.mem_filterMap.mp (leastEntry_mem isLeast)
  rw [readyEntry, Option.bind_eq_some_iff] at isReady
  obtain ⟨⟨task, memory⟩, isTask, isReady⟩ := isReady
  dsimp only at isTask isReady
  split at isReady
  · rename_i ready
    cases isReady
    refine ⟨task, memory, ?_, ready⟩
    rw [List.mk_mem_zipIdx_iff_getElem?] at isItem
    rw [isItem, isTask]
  · cases isReady

/-- If there is no next task, no pending task can be dispatched. -/
theorem nextReadyTask_eq_none
    (none : nextReadyTask pending completed availableMemory = none)
    {task : ScheduledTask}
    {memory : UInt64}
    (isPending : some (task, memory) ∈ pending) :
    ¬Dispatchable completed availableMemory task memory := by
  intro ready
  rw [nextReadyTask, Option.map_eq_none_iff] at none
  have empty := leastEntry_eq_none none
  obtain ⟨place, isPlace⟩ := List.mem_iff_getElem?.mp isPending
  have isEntry : ((task.priority.rank, task.taskId), place) ∈
      pending.zipIdx.filterMap (readyEntry completed availableMemory) := by
    refine List.mem_filterMap.mpr ⟨(some (task, memory), place), ?_, ?_⟩
    · exact List.mk_mem_zipIdx_iff_getElem?.mpr isPlace
    · exact if_pos ready
  rw [empty] at isEntry
  cases isEntry

end Next

/-! ## The calling thread -/

/-- The cases of a step of the calling thread. -/
inductive Turn (taskCount : Nat) (config : SchedulerConfig) (state : State) :
    Event → State → Prop
  | enters
      (isControl : state.control = .looking)
      (unfinished : state.completed.length < taskCount) :
      Turn taskCount config state .proceeds
        { state with control := .dispatching false }
  | finishes
      (isControl : state.control = .looking)
      (finished : taskCount ≤ state.completed.length) :
      Turn taskCount config state .proceeds
        { state with control := .returned (.ok (sortSpools state.completed)) }
  | dispatches {dispatched : Bool} {index : Nat} {task : ScheduledTask}
      {memory available running : UInt64}
      (isControl : state.control = .dispatching dispatched)
      (hasWorker : state.running < config.workers)
      (found : state.pending[index]? = some (some (task, memory)))
      (ready : Dispatchable state.completedIds state.availableMemory task memory)
      (isAvailable : state.availableMemory.toNat =
        memory.toNat + available.toNat)
      (isRunning : state.running.toNat + 1 = running.toNat) :
      Turn taskCount config state (.dispatches task) { state with
        control := .dispatching true
        pending := state.pending.set index none
        availableMemory := available
        running := running
        flights := state.flights ++ [⟨task, memory, .queued⟩] }
  | settles {dispatched : Bool}
      (isControl : state.control = .dispatching dispatched)
      (reason : config.workers ≤ state.running ∨ state.cancelled = true ∨
        nextReadyTask state.pending state.completedIds
          state.availableMemory = none) :
      Turn taskCount config state .proceeds
        { state with control := .settling dispatched }
  | givesUp {dispatched : Bool}
      (isControl : state.control = .settling dispatched)
      (idle : state.running = 0) :
      Turn taskCount config state .proceeds
        (state.fail (if state.cancelled then .cancelled else .dependencyCycle))
  | waits {dispatched : Bool}
      (isControl : state.control = .settling dispatched)
      (busy : state.running ≠ 0) :
      Turn taskCount config state .proceeds { state with control := .receiving }
  | looksAgain
      (isControl : state.control = .settling true) :
      Turn taskCount config state .proceeds { state with control := .looking }
  | overflows {worker : WorkerResult} {rest : List WorkerResult}
      (isControl : state.control = .receiving)
      (isChannel : state.channel = worker :: rest)
      (overflow : state.running = 0 ∨
        2 ^ 64 ≤ state.availableMemory.toNat + worker.memory.toNat) :
      Turn taskCount config state (.receives worker)
        ({ state with channel := rest }.fail .integerOverflow)
  | completes {worker : WorkerResult} {rest : List WorkerResult}
      {available running : UInt64} {spool : SpoolHandle}
      (isControl : state.control = .receiving)
      (isChannel : state.channel = worker :: rest)
      (isRunning : state.running.toNat = 1 + running.toNat)
      (isAvailable : state.availableMemory.toNat + worker.memory.toNat =
        available.toNat)
      (isOk : worker.result = .ok spool) :
      Turn taskCount config state (.receives worker) { state with
        control := .looking
        running := running
        availableMemory := available
        channel := rest
        completed := state.completed ++ [spool] }
  | fails {worker : WorkerResult} {rest : List WorkerResult}
      {available running : UInt64} {failure : PithosError}
      (isControl : state.control = .receiving)
      (isChannel : state.channel = worker :: rest)
      (isRunning : state.running.toNat = 1 + running.toNat)
      (isAvailable : state.availableMemory.toNat + worker.memory.toNat =
        available.toNat)
      (isError : worker.result = .error failure) :
      Turn taskCount config state (.receives worker) { state with
        control := .returned (.error failure)
        running := running
        availableMemory := available
        channel := rest
        cancelled := true }

section Turns

variable
  {taskCount : Nat}
  {config : SchedulerConfig}
  {state next : State}
  {event : Event}

/-- A task that can be dispatched is dispatched. -/
theorem turn_dispatch
    {dispatched : Bool}
    (isControl : state.control = .dispatching dispatched)
    (hasWorker : state.running < config.workers)
    {index : Nat}
    (isNext : nextReadyTask state.pending state.completedIds
      state.availableMemory = some index) :
    Turn taskCount config state (dispatch index state).1
      (dispatch index state).2 := by
  obtain ⟨task, memory, found, ready⟩ := nextReadyTask_eq_some isNext
  have hasMemory := UInt64.le_iff_toNat_le.mp ready.1
  have few := UInt64.lt_iff_toNat_lt.mp hasWorker
  have bound := config.workers.toNat_lt
  have one : (1 : UInt64).toNat = 1 := rfl
  obtain ⟨running, isRunning, value⟩ := @checkedAdd_of_lt state.running 1
    (by omega)
  have isAvailable : checkedSub state.availableMemory memory =
      some (state.availableMemory - memory) := if_pos hasMemory
  have difference := checkedSub_eq_some.mp isAvailable
  rw [dispatch, found]
  simp only [Option.join_some, okOr_some, ok_bind, isAvailable, isRunning]
  exact .dispatches isControl hasWorker found ready difference value.symm

/-- A result that is taken from the channel. -/
theorem turn_receive
    (isControl : state.control = .receiving)
    {worker : WorkerResult}
    {rest : List WorkerResult}
    (isChannel : state.channel = worker :: rest) :
    Turn taskCount config state (receive worker rest state).1
      (receive worker rest state).2 := by
  rw [receive]
  cases isRunning : checkedSub state.running 1 with
  | none =>
      have idle : state.running = 0 := by
        rw [checkedSub] at isRunning
        split at isRunning
        · cases isRunning
        · rename_i small
          have one : (1 : UInt64).toNat = 1 := rfl
          refine UInt64.toNat_inj.mp ?_
          rw [UInt64.toNat_zero]
          omega
      exact .overflows isControl isChannel (.inl idle)
  | some running =>
      have one : (1 : UInt64).toNat = 1 := rfl
      have less := checkedSub_eq_some.mp isRunning
      rw [one] at less
      cases isAvailable : checkedAdd state.availableMemory worker.memory with
      | none =>
          refine .overflows isControl isChannel (.inr ?_)
          rw [checkedAdd] at isAvailable
          split at isAvailable
          · cases isAvailable
          · rename_i large
            exact Nat.not_lt.mp large
      | some available =>
          have sum := checkedAdd_eq_some.mp isAvailable
          simp only [okOr_some, ok_bind]
          cases result : worker.result with
          | ok spool => exact .completes isControl isChannel less sum result
          | error failure => exact .fails isControl isChannel less sum result

theorem turn_cases
    (isTurn : turn taskCount config state = some (event, next)) :
    Turn taskCount config state event next := by
  rw [turn] at isTurn
  split at isTurn
  · rename_i isControl
    cases isTurn
    split
    · rename_i unfinished
      exact .enters isControl unfinished
    · rename_i finished
      exact .finishes isControl (Nat.not_lt.mp finished)
  · rename_i dispatched isControl
    rw [Option.some.injEq] at isTurn
    split at isTurn
    · rename_i free
      split at isTurn
      · rename_i none
        cases isTurn
        exact .settles isControl (.inr (.inr none))
      · rename_i index isNext
        have dispatched := @turn_dispatch taskCount config state _ isControl
          free.1 index isNext
        rw [isTurn] at dispatched
        exact dispatched
    · rename_i busy
      cases isTurn
      refine .settles isControl ?_
      by_cases full : state.running < config.workers
      · exact .inr (.inl (by simpa [full] using busy))
      · exact .inl (UInt64.not_lt.mp full)
  · rename_i dispatched isControl
    cases isTurn
    split
    · rename_i idle
      exact .givesUp isControl idle
    · rename_i busy
      split
      · exact .waits isControl busy
      · rename_i again
        rw [not_or, Bool.not_eq_false] at again
        exact .looksAgain (by rw [isControl, again.1])
  · rename_i isControl
    split at isTurn
    · cases isTurn
    · rename_i worker rest isChannel
      rw [Option.some.injEq] at isTurn
      have received := @turn_receive taskCount config state isControl worker
        rest isChannel
      rw [isTurn] at received
      exact received
  · cases isTurn

end Turns

/-! ## The weight of a state -/

/-- The tasks that have not been dispatched. -/
def State.waiting (state : State) : List ScheduledTask :=
  (state.pending.filterMap id).map Prod.fst

/-- The steps that a task in flight may still take. -/
def Stage.weight : Stage → Nat
  | queued => 12
  | acting _ => 11

/-- The steps before the scheduler comes back to the channel. -/
def Control.weight : Control → Nat
  | looking => 4
  | dispatching false => 3
  | dispatching true => 6
  | settling false => 2
  | settling true => 5
  | receiving => 1
  | returned _ => 0

/-- A bound on the steps that are left. -/
def State.weight (state : State) : Nat :=
  20 * state.waiting.length +
    (state.flights.map fun flight => flight.stage.weight).sum +
    10 * state.channel.length + state.control.weight +
    (!state.cancelled).toNat

/-- A task that leaves its place no longer waits. -/
theorem waiting_set_none
    {pending : List (Option (ScheduledTask × UInt64))}
    {index : Nat}
    {task : ScheduledTask}
    {memory : UInt64}
    (found : pending[index]? = some (some (task, memory))) :
    ((pending.filterMap id).map Prod.fst).Perm
      (task :: ((pending.set index none).filterMap id).map Prod.fst) := by
  obtain ⟨inside, isEntry⟩ := List.getElem?_eq_some_iff.mp found
  have split : pending = pending.take index ++
      some (task, memory) :: pending.drop (index + 1) := by
    rw [← isEntry, List.getElem_cons_drop, List.take_append_drop]
  have rest : pending.set index none = pending.take index ++
      none :: pending.drop (index + 1) := by
    rw [List.set_eq_take_append_cons_drop, if_pos inside]
  rw [rest]
  conv_lhs => rw [split]
  simp only [List.filterMap_append, List.filterMap_cons, id, List.map_append,
    List.map_cons]
  exact List.perm_middle

theorem Control.weight_dispatching_le (dispatched : Bool) :
    3 ≤ (dispatching dispatched).weight := by
  cases dispatched <;> decide

theorem Control.weight_settling_lt (dispatched : Bool) :
    (settling dispatched).weight < (dispatching dispatched).weight := by
  cases dispatched <;> decide

theorem Control.weight_settling_ge (dispatched : Bool) :
    2 ≤ (settling dispatched).weight := by
  cases dispatched <;> decide

/-- Every step lowers the weight. -/
theorem Step.weight_lt
    {taskCount : Nat}
    {config : SchedulerConfig}
    {state next : State}
    {event : Event}
    (step : Step taskCount config state event next) :
    next.weight < state.weight := by
  cases step with
  | turns isTurn =>
      cases turn_cases isTurn with
      | enters isControl unfinished =>
          simp [State.weight, State.waiting, isControl, Control.weight]
      | finishes isControl finished =>
          simp [State.weight, State.waiting, isControl, Control.weight]
      | @dispatches dispatched index task memory available running isControl
          hasWorker found ready isAvailable isRunning =>
          have fewer := (waiting_set_none found).length_eq
          have control := Control.weight_dispatching_le dispatched
          rw [List.length_cons] at fewer
          simp only [State.weight, State.waiting, isControl, fewer,
            List.map_append, List.map_cons, List.map_nil, List.sum_append,
            List.sum_cons, List.sum_nil, Stage.weight, Control.weight]
            at control ⊢
          omega
      | @settles dispatched isControl reason =>
          have control := Control.weight_settling_lt dispatched
          simp only [State.weight, State.waiting, isControl]
          omega
      | @givesUp dispatched isControl idle =>
          have control := Control.weight_settling_ge dispatched
          simp only [State.weight, State.waiting, State.fail, isControl,
            Control.weight] at control ⊢
          omega
      | @waits dispatched isControl busy =>
          have control := Control.weight_settling_ge dispatched
          simp only [State.weight, State.waiting, isControl,
            Control.weight] at control ⊢
          omega
      | looksAgain isControl =>
          simp [State.weight, State.waiting, isControl, Control.weight]
      | overflows isControl isChannel overflow =>
          simp only [State.weight, State.waiting, State.fail, isControl,
            isChannel, List.length_cons, Control.weight]
          omega
      | completes isControl isChannel isRunning isAvailable isOk =>
          simp only [State.weight, State.waiting, isControl, isChannel,
            List.length_cons, Control.weight]
          omega
      | fails isControl isChannel isRunning isAvailable isError =>
          simp only [State.weight, State.waiting, isControl, isChannel,
            List.length_cons, Control.weight, Bool.not_true, Bool.toNat_false]
          omega
  | starts isFlight =>
      simp only [State.weight, State.waiting, isFlight, List.map_append,
        List.map_cons, List.sum_append, List.sum_cons, Stage.weight]
      omega
  | sends fault isFlight acts hasRoom =>
      simp only [State.weight, State.waiting, isFlight, List.map_append,
        List.map_cons, List.sum_append, List.sum_cons, Stage.weight,
        List.length_append, List.length_singleton]
      omega
  | cancels notYet =>
      simp [State.weight, State.waiting, notYet]

/-- A run is no longer than the weight of its start. -/
theorem Run.length_le
    {taskCount : Nat}
    {config : SchedulerConfig}
    {start state : State}
    {events : List Event}
    (run : Run taskCount config start events state) :
    events.length + state.weight ≤ start.weight := by
  induction run with
  | start => simp
  | step before step inductionHypothesis =>
      have lower := step.weight_lt
      rw [List.length_append, List.length_singleton]
      omega

end Pithos.Scheduler
