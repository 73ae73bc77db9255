import Pithos.Engine.Scheduler.Dag
import Pithos.Engine.Scheduler.Steps

/-!
# The safety of the scheduler

The invariant has three parts: the workers and the memory that are in use, the
places where the tasks are, and what the calling thread may conclude.  That
there is always something to do rests on the order of the tasks that the check
of the dependencies has found.
-/

namespace Pithos.Scheduler

open Fallible
open Machine
open Dependencies

/-! ## What happens in a run -/

/-- The task that an event dispatches. -/
def Event.dispatched : Event → Option UInt64
  | dispatches task => some task.taskId
  | proceeds | receives _ | starts _ | sends _ | cancels => none

/-- The dispatched tasks, in order. -/
def dispatchedIds (events : List Event) : List UInt64 :=
  events.filterMap Event.dispatched

/-- A task has completed successfully. -/
def Succeeded (events : List Event) (taskId : UInt64) : Prop :=
  ∃ worker spool, .receives worker ∈ events ∧ worker.result = .ok spool ∧
    worker.task.taskId = taskId

/-- Every task is dispatched after those that it depends on have completed. -/
def AfterDependencies (events : List Event) : Prop :=
  ∀ before task after, events = before ++ .dispatches task :: after →
    ∀ dependency ∈ task.dependencies, Succeeded before dependency

/-- A file with a result that its task may give. -/
def Produced (tasks : List ScheduledTask) (spool : SpoolHandle) : Prop :=
  ∃ task ∈ tasks, task.taskId = spool.taskId ∧
    task.action (.ok spool.payload) ∧
    spool.payload.length ≤ task.resources.outputBound.toNat

/-- The memory of the dispatched tasks whose results have not been taken. -/
def State.reserved (state : State) : Nat :=
  (state.flights.map fun flight => flight.memory.toNat).sum +
    (state.channel.map fun worker => worker.memory.toNat).sum

/-- The dispatched tasks, as far as their results have not been lost. -/
def State.placedIds (state : State) : List UInt64 :=
  (state.flights.map fun flight => flight.task.taskId) ++
    ((state.channel.map fun worker => worker.task.taskId) ++ state.completedIds)

/-- The call has ended with an error. -/
def State.HasFailed (state : State) : Prop :=
  ∃ failure, state.control = .returned (.error failure)

/-! ## The invariant -/

/-- The workers and the memory in use. -/
structure Resources (config : SchedulerConfig) (state : State) : Prop where
  running : state.running.toNat = state.flights.length + state.channel.length
  workers : state.running ≤ config.workers
  memory : state.reserved + state.availableMemory.toNat =
    config.memoryBudget.toNat

/-- Where the tasks are. -/
structure Places
    (tasks : List ScheduledTask)
    (config : SchedulerConfig)
    (events : List Event)
    (state : State) : Prop where
  pending : ∀ task memory, some (task, memory) ∈ state.pending →
    task ∈ tasks ∧ memory ≤ config.memoryBudget
  waiting : (state.waiting.map ScheduledTask.taskId ++
    dispatchedIds events).Perm (tasks.map ScheduledTask.taskId)
  placed : ∃ lost, (state.placedIds ++ lost).Perm (dispatchedIds events) ∧
    (lost = [] ∨ state.HasFailed)
  flights : ∀ flight ∈ state.flights, flight.task ∈ tasks
  channel : ∀ worker ∈ state.channel, .sends worker ∈ events
  results : ∀ worker, .sends worker ∈ events →
    worker.task ∈ tasks ∧ ∀ spool, worker.result = .ok spool →
      spool.taskId = worker.task.taskId ∧ Produced tasks spool
  completed : ∀ spool ∈ state.completed,
    Produced tasks spool ∧ Succeeded events spool.taskId
  order : AfterDependencies events

/-- What the calling thread may conclude. -/
structure Conclusions
    (tasks : List ScheduledTask)
    (events : List Event)
    (state : State) : Prop where
  token : state.cancelled = true → .cancels ∈ events ∨ state.HasFailed
  unfinished : ∀ dispatched, state.control = .dispatching dispatched →
    state.completed.length < tasks.length
  settling : ∀ dispatched, state.control = .settling dispatched →
    state.cancelled = true ∨ state.running ≠ 0
  receiving : state.control = .receiving → state.running ≠ 0
  returns : ∀ spools, state.control = .returned (.ok spools) →
    spools = sortSpools state.completed ∧ tasks.length ≤ state.completed.length
  errors : ∀ failure, state.control = .returned (.error failure) →
    failure = .cancelled ∧ .cancels ∈ events ∨
      ∃ worker, .sends worker ∈ events ∧ worker.result = .error failure

/-! ## Resources -/

section Resources

variable
  {taskCount : Nat}
  {config : SchedulerConfig}
  {state next : State}
  {event : Event}

/-- A result in the channel can be taken. -/
theorem Resources.not_overflows
    (resources : Resources config state)
    {worker : WorkerResult}
    {rest : List WorkerResult}
    (isChannel : state.channel = worker :: rest) :
    ¬(state.running = 0 ∨
      2 ^ 64 ≤ state.availableMemory.toNat + worker.memory.toNat) := by
  have running := resources.running
  have memory := resources.memory
  have bound := config.memoryBudget.toNat_lt
  rw [isChannel, List.length_cons] at running
  simp only [State.reserved, isChannel, List.map_cons, List.sum_cons] at memory
  rintro (idle | overflow)
  · rw [idle, UInt64.toNat_zero] at running
    omega
  · omega

theorem Resources.turn
    (resources : Resources config state)
    (step : Turn taskCount config state event next) :
    Resources config next := by
  cases step with
  | enters | finishes | settles | waits | looksAgain | givesUp =>
      exact ⟨resources.running, resources.workers, resources.memory⟩
  | @dispatches dispatched index task memory available running isControl
      hasWorker found ready isAvailable isRunning =>
      have before := resources.running
      have budget := resources.memory
      refine ⟨?_, ?_, ?_⟩
      · dsimp only
        rw [List.length_append, List.length_singleton]
        omega
      · dsimp only
        rw [UInt64.le_iff_toNat_le]
        rw [UInt64.lt_iff_toNat_lt] at hasWorker
        omega
      · simp only [State.reserved, List.map_append, List.map_cons,
          List.map_nil, List.sum_append, List.sum_cons, List.sum_nil]
          at budget ⊢
        omega
  | overflows isControl isChannel overflow =>
      exact absurd overflow (resources.not_overflows isChannel)
  | completes isControl isChannel isRunning isAvailable isOk
  | fails isControl isChannel isRunning isAvailable isError =>
      have before := resources.running
      have workers := UInt64.le_iff_toNat_le.mp resources.workers
      have budget := resources.memory
      rw [isChannel, List.length_cons] at before
      refine ⟨?_, ?_, ?_⟩
      · dsimp only
        omega
      · dsimp only
        rw [UInt64.le_iff_toNat_le]
        omega
      · simp only [State.reserved, isChannel, List.map_cons, List.sum_cons]
          at budget ⊢
        omega

theorem Resources.step
    (resources : Resources config state)
    (step : Step taskCount config state event next) :
    Resources config next := by
  have running := resources.running
  have budget := resources.memory
  cases step with
  | turns isTurn => exact resources.turn (turn_cases isTurn)
  | starts isFlight =>
      refine ⟨?_, resources.workers, ?_⟩
      · simpa [isFlight] using running
      · simpa [State.reserved, isFlight] using budget
  | sends fault isFlight acts hasRoom =>
      refine ⟨?_, resources.workers, ?_⟩
      · simp only [isFlight, List.length_append, List.length_cons,
          List.length_nil] at running ⊢
        omega
      · simp only [State.reserved, isFlight, List.map_append, List.map_cons,
          List.map_nil, List.sum_append, List.sum_cons, List.sum_nil]
          at budget ⊢
        omega
  | cancels notYet => exact ⟨running, resources.workers, budget⟩

end Resources

/-! ## Places -/

section Places

variable
  {tasks : List ScheduledTask}
  {config : SchedulerConfig}
  {taskCount : Nat}
  {events : List Event}
  {state next : State}
  {event : Event}

theorem Succeeded.append
    {taskId : UInt64}
    (succeeded : Succeeded events taskId)
    (more : List Event) :
    Succeeded (events ++ more) taskId := by
  obtain ⟨worker, spool, received, isOk, isTask⟩ := succeeded
  exact ⟨worker, spool, List.mem_append_left _ received, isOk, isTask⟩

/-- An event that dispatches nothing, or a task whose dependencies have
completed. -/
theorem AfterDependencies.concat
    (order : AfterDependencies events)
    (ready : ∀ task, event = .dispatches task →
      ∀ dependency ∈ task.dependencies, Succeeded events dependency) :
    AfterDependencies (events ++ [event]) := by
  intro before task after split
  rcases List.eq_nil_or_concat after with rfl | ⟨rest, last, rfl⟩
  · obtain ⟨rfl, isLast⟩ := List.append_inj' split rfl
    exact ready task (List.singleton_inj.mp isLast)
  · rw [List.concat_eq_append, ← List.cons_append, ← List.append_assoc] at split
    exact order before task rest (List.append_inj' split rfl).1

/-- The dispatched tasks after an event that dispatches none. -/
theorem dispatchedIds_concat
    (none : event.dispatched = none) :
    dispatchedIds (events ++ [event]) = dispatchedIds events := by
  simp [dispatchedIds, none]

/-- Nothing is lost as long as the call has not failed. -/
theorem Places.perm
    (places : Places tasks config events state)
    (notFailed : ¬state.HasFailed) :
    state.placedIds.Perm (dispatchedIds events) := by
  obtain ⟨lost, isPerm, rfl | failed⟩ := places.placed
  · rwa [List.append_nil] at isPerm
  · exact absurd failed notFailed

/-- A step that neither dispatches a task nor moves one. -/
theorem Places.stay
    (places : Places tasks config events state)
    (isPending : next.pending = state.pending)
    (isPlaced : next.placedIds = state.placedIds)
    (stillFailed : state.HasFailed → next.HasFailed)
    (isFlight : ∀ flight ∈ next.flights, flight.task ∈ tasks)
    (isChannel : next.channel = state.channel)
    (isCompleted : next.completed = state.completed)
    (dispatchesNone : event.dispatched = none)
    (sendsNone : ∀ worker, event ≠ .sends worker) :
    Places tasks config (events ++ [event]) next where
  pending := by
    rw [isPending]
    exact places.pending
  waiting := by
    rw [dispatchedIds_concat dispatchesNone, State.waiting, isPending]
    exact places.waiting
  placed := by
    obtain ⟨lost, isPerm, reason⟩ := places.placed
    rw [dispatchedIds_concat dispatchesNone, isPlaced]
    exact ⟨lost, isPerm, reason.imp id stillFailed⟩
  flights := isFlight
  channel := by
    rw [isChannel]
    exact fun worker waits => List.mem_append_left _
      (places.channel worker waits)
  results := by
    intro worker isSent
    rcases List.mem_append.mp isSent with isSent | isSent
    · exact places.results worker isSent
    · exact absurd (List.mem_singleton.mp isSent).symm (sendsNone worker)
  completed := by
    rw [isCompleted]
    intro spool isSpool
    obtain ⟨produced, succeeded⟩ := places.completed spool isSpool
    exact ⟨produced, succeeded.append _⟩
  order := by
    refine places.order.concat ?_
    rintro task rfl
    cases dispatchesNone

/-- A task is dispatched. -/
theorem Places.dispatch
    (places : Places tasks config events state)
    {dispatched : Bool}
    {index : Nat}
    {task : ScheduledTask}
    {memory available running : UInt64}
    (isControl : state.control = .dispatching dispatched)
    (found : state.pending[index]? = some (some (task, memory)))
    (ready : Dispatchable state.completedIds state.availableMemory task
      memory) :
    Places tasks config (events ++ [.dispatches task]) { state with
      control := .dispatching true
      pending := state.pending.set index none
      availableMemory := available
      running := running
      flights := state.flights ++ [⟨task, memory, .queued⟩] } := by
  have isPending := places.pending task memory (List.mem_of_getElem? found)
  have moved := (waiting_set_none found).map ScheduledTask.taskId
  rw [List.map_cons] at moved
  have isDispatched : dispatchedIds (events ++ [.dispatches task]) =
      dispatchedIds events ++ [task.taskId] := by
    simp [dispatchedIds, Event.dispatched]
  refine ⟨?_, ?_, ?_, ?_, ?_, ?_, ?_, ?_⟩
  · intro other otherMemory isOther
    rcases List.mem_or_eq_of_mem_set isOther with isOther | isNone
    · exact places.pending other otherMemory isOther
    · cases isNone
  · rw [isDispatched, ← List.append_assoc]
    refine (List.perm_append_singleton _ _).trans ?_
    exact (moved.symm.append_right _).trans places.waiting
  · obtain ⟨lost, isPerm, reason⟩ := places.placed
    rw [isDispatched]
    refine ⟨lost, ?_, Or.inl ?_⟩
    · have split : (State.placedIds { state with
          control := .dispatching true
          pending := state.pending.set index none
          availableMemory := available
          running := running
          flights := state.flights ++ [⟨task, memory, .queued⟩] } ++
            lost).Perm (task.taskId :: (state.placedIds ++ lost)) := by
        simp only [State.placedIds, State.completedIds, List.map_append,
          List.map_cons, List.map_nil, List.append_assoc, List.cons_append,
          List.nil_append]
        exact List.perm_middle
      exact split.trans ((isPerm.cons _).trans
        (List.perm_append_singleton _ _).symm)
    · rcases reason with noneLost | ⟨failure, returned⟩
      · exact noneLost
      · rw [isControl] at returned
        cases returned
  · intro flight isFlight
    rcases List.mem_append.mp isFlight with isFlight | isNew
    · exact places.flights flight isFlight
    · rw [List.mem_singleton.mp isNew]
      exact isPending.1
  · exact fun worker waits => List.mem_append_left _
      (places.channel worker waits)
  · intro worker isSent
    rcases List.mem_append.mp isSent with isSent | isNew
    · exact places.results worker isSent
    · cases List.mem_singleton.mp isNew
  · intro spool isSpool
    obtain ⟨produced, succeeded⟩ := places.completed spool isSpool
    exact ⟨produced, succeeded.append _⟩
  · refine places.order.concat ?_
    rintro other isOther dependency depends
    cases isOther
    obtain ⟨spool, isSpool, rfl⟩ := List.mem_map.mp
      (ready.2 dependency depends)
    exact (places.completed spool isSpool).2

/-- A result is taken from the channel. -/
theorem Places.receive
    (places : Places tasks config events state)
    {worker : WorkerResult}
    {rest : List WorkerResult}
    (isControl : state.control = .receiving)
    (isChannel : state.channel = worker :: rest)
    (isPending : next.pending = state.pending)
    (isFlights : next.flights = state.flights)
    (isRest : next.channel = rest)
    (outcome : (∃ spool, worker.result = .ok spool ∧
        next.completed = state.completed ++ [spool]) ∨
      next.completed = state.completed ∧ next.HasFailed) :
    Places tasks config (events ++ [.receives worker]) next := by
  have isSent : .sends worker ∈ events :=
    places.channel worker (by rw [isChannel]; exact List.mem_cons_self)
  have same : dispatchedIds (events ++ [.receives worker]) =
      dispatchedIds events := dispatchedIds_concat rfl
  have isPerm := places.perm (by rintro ⟨_, failed⟩; simp_all)
  have split : state.placedIds.Perm (worker.task.taskId ::
      ((state.flights.map fun flight => flight.task.taskId) ++
        ((rest.map fun worker => worker.task.taskId) ++
          state.completedIds))) := by
    simp only [State.placedIds, isChannel, List.map_cons, List.cons_append]
    exact List.perm_middle
  refine ⟨?_, ?_, ?_, ?_, ?_, ?_, ?_, ?_⟩
  · rw [isPending]
    exact places.pending
  · rw [same, State.waiting, isPending]
    exact places.waiting
  · rw [same]
    rcases outcome with ⟨spool, isOk, isCompleted⟩ | ⟨isCompleted, failed⟩
    · refine ⟨[], ?_, Or.inl rfl⟩
      have isTask := ((places.results worker isSent).2 spool isOk).1
      refine List.Perm.trans ?_ (split.symm.trans isPerm)
      simp only [State.placedIds, State.completedIds, isFlights, isRest,
        isCompleted, List.map_append, List.map_cons, List.map_nil, isTask,
        List.append_nil]
      rw [← List.append_assoc, ← List.append_assoc, ← List.append_assoc]
      exact List.perm_append_singleton _ _
    · refine ⟨[worker.task.taskId], ?_, Or.inr failed⟩
      refine List.Perm.trans ?_ (split.symm.trans isPerm)
      simp only [State.placedIds, State.completedIds, isFlights, isRest,
        isCompleted]
      exact List.perm_append_singleton _ _
  · rw [isFlights]
    exact places.flights
  · intro other isOther
    refine List.mem_append_left _ (places.channel other ?_)
    rw [isRest] at isOther
    rw [isChannel]
    exact List.mem_cons_of_mem _ isOther
  · intro other isOther
    rcases List.mem_append.mp isOther with isOther | isNew
    · exact places.results other isOther
    · cases List.mem_singleton.mp isNew
  · intro spool isSpool
    have old (isSpool : spool ∈ state.completed) :
        Produced tasks spool ∧
          Succeeded (events ++ [.receives worker]) spool.taskId := by
      obtain ⟨produced, succeeded⟩ := places.completed spool isSpool
      exact ⟨produced, succeeded.append _⟩
    rcases outcome with ⟨new, isOk, isCompleted⟩ | ⟨isCompleted, _⟩
    · rw [isCompleted] at isSpool
      rcases List.mem_append.mp isSpool with isSpool | isNew
      · exact old isSpool
      · obtain rfl := List.mem_singleton.mp isNew
        obtain ⟨isTask, produced⟩ := (places.results worker isSent).2 spool isOk
        exact ⟨produced, worker, spool, by simp, isOk, isTask.symm⟩
    · rw [isCompleted] at isSpool
      exact old isSpool
  · exact places.order.concat (by rintro _ ⟨⟩)

/-- A task has sent its result. -/
theorem Places.send
    (places : Places tasks config events state)
    {before after : List Flight}
    {worker : WorkerResult}
    {stage : Stage}
    (isFlight : state.flights =
      before ++ ⟨worker.task, worker.memory, stage⟩ :: after)
    (results : ∀ spool, worker.result = .ok spool →
      spool.taskId = worker.task.taskId ∧ Produced tasks spool) :
    Places tasks config (events ++ [.sends worker]) { state with
      flights := before ++ after
      channel := state.channel ++ [worker] } := by
  have isTask : worker.task ∈ tasks :=
    places.flights ⟨worker.task, worker.memory, stage⟩ (by simp [isFlight])
  refine ⟨places.pending, ?_, ?_, ?_, ?_, ?_, ?_, ?_⟩
  · rw [dispatchedIds_concat rfl]
    exact places.waiting
  · obtain ⟨lost, isPerm, reason⟩ := places.placed
    rw [dispatchedIds_concat rfl]
    refine ⟨lost, List.Perm.trans (List.Perm.append_right _ ?_) isPerm, reason⟩
    simp only [State.placedIds, State.completedIds, isFlight, List.map_append,
      List.map_cons, List.map_nil, List.append_assoc, List.cons_append,
      List.nil_append]
    refine List.Perm.append_left _ ?_
    rw [← List.append_assoc]
    refine List.perm_middle.trans ?_
    rw [List.append_assoc]
  · intro flight isIn
    refine places.flights flight ?_
    rw [isFlight]
    rcases List.mem_append.mp isIn with isIn | isIn
    · exact List.mem_append_left _ isIn
    · exact List.mem_append_right _ (List.mem_cons_of_mem _ isIn)
  · intro other waits
    rcases List.mem_append.mp waits with waits | isNew
    · exact List.mem_append_left _ (places.channel other waits)
    · rw [List.mem_singleton.mp isNew]
      simp
  · intro other isSent
    rcases List.mem_append.mp isSent with isSent | isNew
    · exact places.results other isSent
    · cases List.mem_singleton.mp isNew
      exact ⟨isTask, results⟩
  · intro spool isSpool
    obtain ⟨produced, succeeded⟩ := places.completed spool isSpool
    exact ⟨produced, succeeded.append _⟩
  · exact places.order.concat nofun

/-- The result of a task that has run to its end. -/
theorem runTask_ok
    {task : ScheduledTask}
    {cancelledBefore cancelledAfter : Bool}
    {outcome : Result (List UInt8)}
    {fault : Option FileTree.IoErrorKind}
    {spool : SpoolHandle}
    (isOk : runTask task cancelledBefore outcome cancelledAfter fault =
      .ok spool) :
    cancelledBefore = false ∧ outcome = .ok spool.payload ∧
      spool.taskId = task.taskId ∧
      spool.payload.length ≤ task.resources.outputBound.toNat := by
  simp only [runTask, bind_eq_ok, ensure_eq_ok] at isOk
  obtain ⟨_, before, payload, rfl, _, _, _, _, _, short, isOk⟩ := isOk
  cases fault with
  | none =>
      cases isOk
      exact ⟨before, rfl, rfl, short⟩
  | some kind => cases isOk

theorem Places.turn
    (places : Places tasks config events state)
    (resources : Resources config state)
    (step : Turn taskCount config state event next) :
    Places tasks config (events ++ [event]) next := by
  cases step with
  | enters isControl | finishes isControl | settles isControl
  | waits isControl | looksAgain isControl | givesUp isControl =>
      refine places.stay rfl rfl ?_ places.flights rfl rfl rfl nofun
      rintro ⟨_, failed⟩
      rw [isControl] at failed
      cases failed
  | dispatches isControl hasWorker found ready isAvailable isRunning =>
      exact places.dispatch isControl found ready
  | overflows isControl isChannel overflow =>
      exact absurd overflow (resources.not_overflows isChannel)
  | completes isControl isChannel isRunning isAvailable isOk =>
      exact places.receive isControl isChannel rfl rfl rfl
        (.inl ⟨_, isOk, rfl⟩)
  | fails isControl isChannel isRunning isAvailable isError =>
      exact places.receive isControl isChannel rfl rfl rfl
        (.inr ⟨rfl, _, rfl⟩)

theorem Places.step
    (places : Places tasks config events state)
    (resources : Resources config state)
    (step : Step taskCount config state event next) :
    Places tasks config (events ++ [event]) next := by
  cases step with
  | turns isTurn => exact places.turn resources (turn_cases isTurn)
  | starts isFlight =>
      refine places.stay rfl ?_ id ?_ rfl rfl rfl nofun
      · simp [State.placedIds, State.completedIds, isFlight]
      · have inFlight := places.flights
        simp only [isFlight, List.forall_mem_append, List.forall_mem_cons]
          at inFlight ⊢
        exact inFlight
  | @sends task memory cancelledBefore before after outcome fault isFlight acts
      hasRoom =>
      have isTask : task ∈ tasks :=
        places.flights ⟨task, memory, .acting cancelledBefore⟩
          (by simp [isFlight])
      refine @Places.send _ _ _ _ places before after
        ⟨task, memory, _⟩ _ isFlight ?_
      intro spool isOk
      obtain ⟨notCancelled, rfl, same, short⟩ := runTask_ok isOk
      exact ⟨same, task, isTask, same.symm, acts notCancelled, short⟩
  | cancels notYet =>
      exact places.stay rfl rfl id places.flights rfl rfl rfl nofun

end Places

/-! ## There is always something to do -/

/-- When nothing runs and not all tasks are completed, some task can be
dispatched. -/
theorem exists_dispatchable
    {tasks : List ScheduledTask}
    {config : SchedulerConfig}
    {events : List Event}
    {state : State}
    (accepted : validateDag tasks = .ok ())
    (resources : Resources config state)
    (places : Places tasks config events state)
    (notFailed : ¬state.HasFailed)
    (idle : state.running = 0)
    (unfinished : state.completed.length < tasks.length) :
    ∃ task memory, some (task, memory) ∈ state.pending ∧
      Dispatchable state.completedIds state.availableMemory task memory := by
  obtain ⟨wellFormed, order, ordered, isOrder⟩ := validateDag_ok accepted
  have running := resources.running
  rw [idle, UInt64.toNat_zero] at running
  have noFlights : state.flights = [] :=
    List.eq_nil_of_length_eq_zero (by omega)
  have noResults : state.channel = [] :=
    List.eq_nil_of_length_eq_zero (by omega)
  have available : state.availableMemory = config.memoryBudget := by
    have memory := resources.memory
    simp only [State.reserved, noFlights, noResults, List.map_nil,
      List.sum_nil, Nat.zero_add] at memory
    exact UInt64.toNat_inj.mp memory
  have split : (state.waiting.map ScheduledTask.taskId ++
      state.completedIds).Perm (tasks.map ScheduledTask.taskId) := by
    have placed := places.perm notFailed
    simp only [State.placedIds, noFlights, noResults, List.map_nil,
      List.nil_append] at placed
    exact (placed.append_left _).trans places.waiting
  have isWaiting (taskId : UInt64)
      (isTask : taskId ∈ tasks.map ScheduledTask.taskId)
      (isOpen : taskId ∉ state.completedIds) :
      taskId ∈ state.waiting.map ScheduledTask.taskId :=
    (List.mem_append.mp (split.mem_iff.mpr isTask)).resolve_right isOpen
  obtain ⟨first, isFirst⟩ : ∃ first,
      first ∈ state.waiting.map ScheduledTask.taskId := by
    refine List.exists_mem_of_length_pos ?_
    have lengths := split.length_eq
    rw [List.length_append, State.completedIds,
      @List.length_map _ _ state.completed, @List.length_map _ _ tasks]
      at lengths
    omega
  have firstOpen : first ∉ state.completedIds := fun finished =>
    (List.nodup_append.mp (split.nodup_iff.mpr wellFormed.unique)).2.2 first
      isFirst first finished rfl
  have inOrder : first ∈ order := (isOrder first).mpr
    (split.mem_iff.mp (List.mem_append_left _ isFirst))
  obtain ⟨taskId, isNext, isOpen, ready⟩ :=
    ordered.exists_ready inOrder firstOpen
  obtain ⟨task, isTask, rfl⟩ := List.mem_map.mp
    (isWaiting taskId ((isOrder taskId).mp isNext) isOpen)
  simp only [State.waiting, List.mem_map, List.mem_filterMap, id,
    exists_eq_right, Prod.exists, exists_and_right] at isTask
  obtain ⟨memory, isPending⟩ := isTask
  obtain ⟨isTask, fits⟩ := places.pending task memory isPending
  refine ⟨task, memory, isPending, ?_, ?_⟩
  · rwa [available]
  · exact fun dependency depends =>
      ready dependency ⟨task, isTask, rfl, depends⟩

/-! ## Conclusions -/

section Conclusions

variable
  {tasks : List ScheduledTask}
  {config : SchedulerConfig}
  {events : List Event}
  {state next : State}
  {event : Event}

/-- A step of the calling thread in which it does not return. -/
theorem Conclusions.goOn
    (conclusions : Conclusions tasks events state)
    (notFailed : ¬state.HasFailed)
    (sameToken : next.cancelled = state.cancelled)
    (unfinished : ∀ dispatched, next.control = .dispatching dispatched →
      next.completed.length < tasks.length)
    (settling : ∀ dispatched, next.control = .settling dispatched →
      next.cancelled = true ∨ next.running ≠ 0)
    (receiving : next.control = .receiving → next.running ≠ 0)
    (goesOn : ∀ result, next.control ≠ .returned result) :
    Conclusions tasks (events ++ [event]) next where
  token := by
    rw [sameToken]
    intro cancelled
    exact .inl (List.mem_append_left _
      ((conclusions.token cancelled).resolve_right notFailed))
  unfinished := unfinished
  settling := settling
  receiving := receiving
  returns := fun spools returned => absurd returned (goesOn _)
  errors := fun failure returned => absurd returned (goesOn _)

/-- A step of the calling thread in which it returns with an error. -/
theorem Conclusions.fail
    {failure : PithosError}
    (failed : next.control = .returned (.error failure))
    (reason : failure = .cancelled ∧ .cancels ∈ events ∨
      ∃ worker, .sends worker ∈ events ∧ worker.result = .error failure) :
    Conclusions tasks (events ++ [event]) next := by
  refine ⟨fun _ => .inr ⟨failure, failed⟩, ?_, ?_, ?_, ?_, ?_⟩
  all_goals
    rw [failed]
  · exact nofun
  · exact nofun
  · exact nofun
  · exact nofun
  · rintro other same
    cases same
    exact reason.imp (And.imp id (List.mem_append_left _))
      fun ⟨worker, isSent, isError⟩ =>
        ⟨worker, List.mem_append_left _ isSent, isError⟩

theorem Conclusions.turn
    (accepted : validateDag tasks = .ok ())
    (conclusions : Conclusions tasks events state)
    (resources : Resources config state)
    (places : Places tasks config events state)
    (step : Turn tasks.length config state event next) :
    Conclusions tasks (events ++ [event]) next := by
  have notFailed {control : Control} (isControl : state.control = control)
      (goesOn : ∀ failure, control ≠ .returned (.error failure)) :
      ¬state.HasFailed := by
    rintro ⟨failure, failed⟩
    exact goesOn failure (isControl.symm.trans failed)
  cases step with
  | enters isControl unfinished =>
      exact conclusions.goOn (notFailed isControl nofun) rfl
        (fun _ _ => unfinished) nofun nofun nofun
  | finishes isControl finished =>
      refine ⟨?_, nofun, nofun, nofun, ?_, nofun⟩
      · intro cancelled
        exact .inl (List.mem_append_left _ ((conclusions.token
          cancelled).resolve_right (notFailed isControl nofun)))
      · intro spools returned
        cases returned
        exact ⟨rfl, finished⟩
  | @dispatches dispatched index task memory available running isControl
      hasWorker found ready isAvailable isRunning =>
      exact conclusions.goOn (notFailed isControl nofun) rfl
        (fun _ _ => conclusions.unfinished dispatched isControl) nofun nofun
        nofun
  | @settles dispatched isControl reason =>
      refine conclusions.goOn (notFailed isControl nofun) rfl nofun ?_ nofun
        nofun
      rintro _ _
      rcases reason with full | cancelled | none
      · refine .inr fun idle => config.someWorkers ?_
        have idle : state.running = 0 := idle
        rw [idle] at full
        exact UInt64.le_zero_iff.mp full
      · exact .inl cancelled
      · refine .inr fun idle => ?_
        obtain ⟨task, memory, isPending, ready⟩ := exists_dispatchable accepted
          resources places (notFailed isControl nofun) idle
          (conclusions.unfinished dispatched isControl)
        exact nextReadyTask_eq_none none isPending ready
  | @givesUp dispatched isControl idle =>
      have cancelled := (conclusions.settling dispatched
        isControl).resolve_right (not_not.mpr idle)
      rw [if_pos cancelled]
      exact .fail rfl (.inl ⟨rfl, (conclusions.token cancelled).resolve_right
        (notFailed isControl nofun)⟩)
  | waits isControl busy =>
      exact conclusions.goOn (notFailed isControl nofun) rfl nofun nofun
        (fun _ => busy) nofun
  | looksAgain isControl =>
      exact conclusions.goOn (notFailed isControl nofun) rfl nofun nofun nofun
        nofun
  | overflows isControl isChannel overflow =>
      exact absurd overflow (resources.not_overflows isChannel)
  | completes isControl isChannel isRunning isAvailable isOk =>
      exact conclusions.goOn (notFailed isControl nofun) rfl nofun nofun nofun
        nofun
  | @fails worker rest available running failure isControl isChannel isRunning
      isAvailable isError =>
      exact .fail rfl (.inr ⟨worker, places.channel worker (by simp [isChannel]),
        isError⟩)

theorem Conclusions.step
    (accepted : validateDag tasks = .ok ())
    (conclusions : Conclusions tasks events state)
    (resources : Resources config state)
    (places : Places tasks config events state)
    (step : Step tasks.length config state event next) :
    Conclusions tasks (events ++ [event]) next := by
  have errors (failure : PithosError)
      (failed : state.control = .returned (.error failure)) :
      failure = .cancelled ∧ .cancels ∈ events ++ [event] ∨
        ∃ worker, .sends worker ∈ events ++ [event] ∧
          worker.result = .error failure :=
    (conclusions.errors failure failed).imp
      (And.imp id (List.mem_append_left _))
      fun ⟨worker, isSent, isError⟩ =>
        ⟨worker, List.mem_append_left _ isSent, isError⟩
  cases step with
  | turns isTurn =>
      exact conclusions.turn accepted resources places (turn_cases isTurn)
  | starts isFlight | sends fault isFlight acts hasRoom =>
      exact ⟨fun cancelled => (conclusions.token cancelled).imp
        (List.mem_append_left _) id, conclusions.unfinished,
        conclusions.settling, conclusions.receiving, conclusions.returns,
        errors⟩
  | cancels notYet =>
      exact ⟨fun _ => .inl (by simp), conclusions.unfinished,
        fun _ _ => .inl rfl, conclusions.receiving, conclusions.returns,
        errors⟩

end Conclusions

/-! ## Runs -/

/-- What holds at every moment of a run. -/
structure Invariant
    (tasks : List ScheduledTask)
    (config : SchedulerConfig)
    (events : List Event)
    (state : State) : Prop where
  resources : Resources config state
  places : Places tasks config events state
  conclusions : Conclusions tasks events state

theorem Invariant.run
    {tasks : List ScheduledTask}
    {config : SchedulerConfig}
    {start state : State}
    {events : List Event}
    (accepted : validateDag tasks = .ok ())
    (begins : Invariant tasks config [] start)
    (run : Run tasks.length config start events state) :
    Invariant tasks config events state := by
  induction run with
  | start => exact begins
  | step before step inductionHypothesis =>
      obtain ⟨resources, places, conclusions⟩ := inductionHypothesis
      exact ⟨resources.step step, places.step resources step,
        conclusions.step accepted resources places step⟩

/-- All tasks are reserved. -/
theorem mapM_reserve
    {config : SchedulerConfig}
    (tasks : List ScheduledTask)
    (fits : ∀ task ∈ tasks, ∃ memory, task.resources.total = .ok memory ∧
      memory ≤ config.memoryBudget) :
    ∃ pending, tasks.mapM (reserve config) = .ok pending ∧
      (pending.filterMap id).map Prod.fst = tasks ∧
      ∀ task memory, some (task, memory) ∈ pending →
        task ∈ tasks ∧ memory ≤ config.memoryBudget := by
  induction tasks with
  | nil => exact ⟨[], rfl, rfl, nofun⟩
  | cons task rest inductionHypothesis =>
      obtain ⟨memory, isTotal, small⟩ := fits task List.mem_cons_self
      obtain ⟨pending, isPending, isRest, within⟩ := inductionHypothesis
        fun other isOther => fits other (List.mem_cons_of_mem _ isOther)
      have reserved : reserve config task = .ok (some (task, memory)) := by
        rw [reserve, isTotal, ok_bind, ensure_of small, ok_bind]
      refine ⟨some (task, memory) :: pending, ?_, ?_, ?_⟩
      · rw [List.mapM_cons, reserved, ok_bind, isPending]
        rfl
      · change task :: (pending.filterMap id).map Prod.fst = task :: rest
        rw [isRest]
      · intro other otherMemory isOther
        rcases List.mem_cons.mp isOther with same | isOther
        · cases same
          exact ⟨List.mem_cons_self, small⟩
        · obtain ⟨isTask, small⟩ := within other otherMemory isOther
          exact ⟨List.mem_cons_of_mem _ isTask, small⟩

/-- The state in which a run starts. -/
theorem prepare_ok
    {tasks : List ScheduledTask}
    {config : SchedulerConfig}
    (accepted : validateDag tasks = .ok ())
    (fits : ∀ task ∈ tasks, ∃ memory, task.resources.total = .ok memory ∧
      memory ≤ config.memoryBudget) :
    ∃ start, prepare tasks config false true = .ok start ∧
      Invariant tasks config [] start ∧
      start.weight = 20 * tasks.length + 5 := by
  obtain ⟨pending, isPending, isWaiting, within⟩ := mapM_reserve tasks fits
  refine ⟨_, by
    rw [prepare, accepted, ok_bind, ensure_of rfl, ok_bind, isPending, ok_bind,
      ensure_of rfl, ok_bind], ⟨?_, ?_, ?_⟩, ?_⟩
  · exact ⟨rfl, UInt64.zero_le, by simp [State.reserved]⟩
  · refine ⟨within, ?_, ⟨[], ?_, .inl rfl⟩, ?_, ?_, ?_, ?_, ?_⟩
    · rw [State.waiting, isWaiting]
      simp [dispatchedIds]
    · simp [State.placedIds, State.completedIds, dispatchedIds]
    · rintro _ ⟨⟩
    · rintro _ ⟨⟩
    · rintro _ ⟨⟩
    · rintro _ ⟨⟩
    · intro before task after split
      simp at split
  · refine ⟨?_, ?_, ?_, ?_, ?_, ?_⟩
    all_goals first | (rintro _ ⟨⟩; done) | rintro ⟨⟩
  · rw [State.weight, State.waiting, isWaiting]
    rfl

/-! ## The guarantee -/

/-- All tasks, once each and in the order of their identifiers, with results
that they may give. -/
structure Complete (tasks : List ScheduledTask) (spools : List SpoolHandle) :
    Prop where
  each : (spools.map SpoolHandle.taskId).Perm
    (tasks.map ScheduledTask.taskId)
  sorted : (spools.map SpoolHandle.taskId).Pairwise (· < ·)
  produced : ∀ spool ∈ spools, Produced tasks spool

/-- What a run keeps. -/
structure Safe
    (tasks : List ScheduledTask)
    (config : SchedulerConfig)
    (events : List Event)
    (state : State) : Prop where
  workers : state.flights.length ≤ config.workers.toNat
  memory : state.reserved + state.availableMemory.toNat =
    config.memoryBudget.toNat
  order : AfterDependencies events
  once : (dispatchedIds events).Nodup
  returns : .cancels ∉ events →
    (∀ worker, .sends worker ∈ events → ∃ spool, worker.result = .ok spool) →
    ∀ result, state.control = .returned result →
      ∃ spools, result = .ok spools ∧ Complete tasks spools
  errors : ∀ failure, state.control = .returned (.error failure) →
    failure = .cancelled ∧ .cancels ∈ events ∨
      ∃ worker, .sends worker ∈ events ∧ worker.result = .error failure
  sends : state.flights ≠ [] → state.channel.length < config.queueCapacity
  proceeds : (∀ result, state.control ≠ .returned result) →
    state.flights = [] → ∃ event next,
      turn tasks.length config state = some (event, next)
  ends : events.length ≤ 20 * tasks.length + 5

section Guarantee

variable
  {tasks : List ScheduledTask}
  {config : SchedulerConfig}
  {events : List Event}
  {state : State}

theorem sortSpools_sorted (completed : List SpoolHandle) :
    (sortSpools completed).Pairwise fun left right =>
      left.taskId ≤ right.taskId := by
  have sorted := @List.pairwise_mergeSort SpoolHandle
    (fun left right => decide (left.taskId ≤ right.taskId))
    (fun one two three first second => by
      simp only [decide_eq_true_eq] at first second ⊢
      exact UInt64.le_trans first second)
    (fun one two => by
      simp only [Bool.or_eq_true, decide_eq_true_eq]
      exact UInt64.le_total _ _) completed
  exact sorted.imp fun le => by simpa using le

/-- The call returns all tasks. -/
theorem Conclusions.complete
    (accepted : validateDag tasks = .ok ())
    (conclusions : Conclusions tasks events state)
    (places : Places tasks config events state)
    {spools : List SpoolHandle}
    (returned : state.control = .returned (.ok spools)) :
    Complete tasks spools := by
  obtain ⟨wellFormed, _⟩ := validateDag_ok accepted
  obtain ⟨rfl, all⟩ := conclusions.returns spools returned
  have placed := places.perm (by rintro ⟨_, failed⟩; simp_all)
  have isPerm : (sortSpools state.completed).Perm state.completed :=
    List.mergeSort_perm _ _
  have ids : state.completedIds.Perm (tasks.map ScheduledTask.taskId) := by
    have inside : state.completedIds.Subperm
        (tasks.map ScheduledTask.taskId) := by
      refine List.Subperm.trans ?_ places.waiting.subperm
      refine List.Subperm.trans ?_ (placed.append_left _).subperm
      rw [State.placedIds, ← List.append_assoc, ← List.append_assoc]
      exact (List.sublist_append_right _ _).subperm
    refine inside.perm_of_length_le ?_
    rw [List.length_map, State.completedIds, List.length_map]
    exact all
  have each : ((sortSpools state.completed).map SpoolHandle.taskId).Perm
      (tasks.map ScheduledTask.taskId) :=
    (isPerm.map SpoolHandle.taskId).trans ids
  refine ⟨each, ?_, ?_⟩
  · have distinct : ((sortSpools state.completed).map
        SpoolHandle.taskId).Pairwise (· ≠ ·) :=
      each.nodup_iff.mpr wellFormed.unique
    have sorted := List.pairwise_map.mpr (sortSpools_sorted state.completed)
    exact (sorted.and distinct).imp fun ⟨le, ne⟩ =>
      UInt64.lt_of_le_of_ne le ne
  · intro spool isSpool
    exact (places.completed spool (isPerm.mem_iff.mp isSpool)).1

theorem workers_le_queueCapacity (config : SchedulerConfig) :
    config.workers.toNat ≤ config.queueCapacity := by
  have bound := config.workers.toNat_lt
  rw [SchedulerConfig.queueCapacity]
  omega

end Guarantee

section Results

variable
  {tasks : List ScheduledTask}
  {config : SchedulerConfig}
  {start state : State}
  {events : List Event}

/-- A call that starts has accepted its tasks. -/
theorem accepted_of_prepare
    (prepared : prepare tasks config false true = .ok start) :
    validateDag tasks = .ok () ∧
      ∀ task ∈ tasks, ∃ memory, task.resources.total = .ok memory ∧
        memory ≤ config.memoryBudget := by
  simp only [prepare, bind_eq_ok] at prepared
  obtain ⟨_, accepted, _, _, pending, reserved, _⟩ := prepared
  refine ⟨accepted, fun task isTask => ?_⟩
  obtain ⟨entry, _, isReserved⟩ := exists_of_mapM_eq_ok reserved isTask
  simp only [reserve, bind_eq_ok, ensure_eq_ok] at isReserved
  obtain ⟨memory, isTotal, _, small, _⟩ := isReserved
  exact ⟨memory, isTotal, small⟩

/-- A call that returns its results returns all of them. -/
theorem complete_of_run
    (prepared : prepare tasks config false true = .ok start)
    (run : Run tasks.length config start events state)
    {spools : List SpoolHandle}
    (returned : state.control = .returned (.ok spools)) :
    Complete tasks spools := by
  obtain ⟨accepted, fits⟩ := accepted_of_prepare prepared
  obtain ⟨first, isFirst, begins, _⟩ := prepare_ok accepted fits
  obtain rfl := Except.ok.inj (isFirst.symm.trans prepared)
  obtain ⟨_, places, conclusions⟩ := begins.run accepted run
  exact conclusions.complete accepted places returned

/-- Results of tasks in order stand in the order of the tasks. -/
theorem Complete.forall₂
    {spools : List SpoolHandle}
    (complete : Complete tasks spools)
    (ordered : (tasks.map ScheduledTask.taskId).Pairwise (· < ·)) :
    List.Forall₂ (fun task spool => spool.taskId = task.taskId ∧
      task.action (.ok spool.payload)) tasks spools := by
  have same : spools.map SpoolHandle.taskId =
      tasks.map ScheduledTask.taskId := by
    refine complete.each.eq_of_pairwise ?_ complete.sorted ordered
    intro left right _ _ below above
    exact absurd (UInt64.lt_trans below above) (UInt64.lt_irrefl _)
  have distinct : (tasks.map ScheduledTask.taskId).Nodup := by
    refine List.Pairwise.imp (fun {left right} below same => ?_) ordered
    rw [same] at below
    exact UInt64.lt_irrefl _ below
  refine List.forall₂_iff_get.mpr ⟨?_, fun place inTasks inSpools => ?_⟩
  · simpa using (congrArg List.length same).symm
  · have atPlace : spools[place].taskId = tasks[place].taskId := by
      have both := congrArg (·[place]?) same
      simpa [inTasks, inSpools] using both
    obtain ⟨task, isTask, isId, acts, _⟩ :=
      complete.produced spools[place] (List.getElem_mem inSpools)
    have isThis : task = tasks[place] :=
      List.inj_on_of_nodup_map distinct isTask (List.getElem_mem inTasks)
        (isId.trans atPlace)
    rw [isThis] at acts
    exact ⟨atPlace, acts⟩

end Results

/-- In every run on accepted tasks that fit the budget, the limits are kept,
tasks are dispatched once and in order, and the call ends with all results or
with the error of a task or of a cancellation. -/
theorem executeScheduled_safe
    {tasks : List ScheduledTask}
    {config : SchedulerConfig}
    (accepted : validateDag tasks = .ok ())
    (fits : ∀ task ∈ tasks, ∃ memory, task.resources.total = .ok memory ∧
      memory ≤ config.memoryBudget) :
    ∃ start, prepare tasks config false true = .ok start ∧
      ∀ events state, Run tasks.length config start events state →
        Safe tasks config events state := by
  obtain ⟨wellFormed, _⟩ := validateDag_ok accepted
  obtain ⟨start, isStart, begins, weight⟩ := prepare_ok accepted fits
  refine ⟨start, isStart, fun events state run => ?_⟩
  obtain ⟨resources, places, conclusions⟩ := begins.run accepted run
  have running := resources.running
  have workers := UInt64.le_iff_toNat_le.mp resources.workers
  refine {
    workers := by omega
    memory := resources.memory
    order := places.order
    once := (List.nodup_append.mp
      (places.waiting.nodup_iff.mpr wellFormed.unique)).2.1
    returns := ?_
    errors := conclusions.errors
    sends := ?_
    proceeds := ?_
    ends := ?_ }
  · intro notCancelled noneFails result returned
    cases result with
    | ok spools =>
        exact ⟨spools, rfl, conclusions.complete accepted places returned⟩
    | error failure =>
        rcases conclusions.errors failure returned with
          ⟨_, cancelled⟩ | ⟨worker, isSent, isError⟩
        · exact absurd cancelled notCancelled
        · obtain ⟨spool, isOk⟩ := noneFails worker isSent
          rw [isError] at isOk
          cases isOk
  · intro someFlight
    have room := workers_le_queueCapacity config
    have flying := List.length_pos_iff.mpr someFlight
    omega
  · intro goesOn noFlights
    unfold turn
    split
    · exact ⟨_, _, rfl⟩
    · exact ⟨_, _, rfl⟩
    · exact ⟨_, _, rfl⟩
    · rename_i isControl
      split
      · rename_i empty
        refine absurd ?_ (conclusions.receiving isControl)
        rw [noFlights, empty] at running
        exact UInt64.toNat_inj.mp running
      · exact ⟨_, _, rfl⟩
    · rename_i result returned
      exact absurd returned (goesOn result)
  · have bound := run.length_le
    omega

/-- Two tasks, of which the second depends on the first. -/
def sampleTasks : List ScheduledTask := [
  { taskId := 20
    priority := .interactiveRead
    dependencies := [10]
    resources := ⟨0, 0, 16⟩
    action := fun outcome => outcome = .ok [2] },
  { taskId := 10
    priority := .benchmark
    dependencies := []
    resources := ⟨0, 0, 16⟩
    action := fun outcome => outcome = .ok [1] }]

/-- One worker and little memory. -/
def sampleConfig : SchedulerConfig where
  workers := 1
  memoryBudget := 16
  someWorkers := by decide
  someMemory := by decide

theorem executeScheduled_safe_sample :
    ∃ start, prepare sampleTasks sampleConfig false true = .ok start ∧
      ∀ events state, Run 2 sampleConfig start events state →
        Safe sampleTasks sampleConfig events state := by
  refine executeScheduled_safe rfl ?_
  simp only [sampleTasks, List.mem_cons, List.not_mem_nil, or_false,
    forall_eq_or_imp, forall_eq]
  exact ⟨⟨16, rfl, by decide⟩, 16, rfl, by decide⟩

end Pithos.Scheduler
