import Mathlib.Data.List.Nodup
import Mathlib.Data.List.Perm.Subperm
import Pithos.Engine.Scheduler.Defs
import Pithos.Library.Dependencies
import Pithos.Library.MapValues

/-!
# The check of the dependencies

The check visits a task once all its dependencies have been visited.  The counts
are those of the dependencies not yet visited, and no task becomes ready twice.
-/

namespace Pithos.Scheduler

open Fallible
open Std
open MapValues
open Dependencies

/-- A task waits for another one. -/
def DependsOn (tasks : List ScheduledTask) (one other : UInt64) : Prop :=
  ∃ task ∈ tasks, task.taskId = one ∧ other ∈ task.dependencies

/-- The dependencies of a task that have not been visited. -/
def remaining (done : List UInt64) (task : ScheduledTask) : Nat :=
  task.dependencies.countP fun dependency => decide (dependency ∉ done)

/-- The tasks have different identifiers, and depend on each other. -/
structure WellFormed (tasks : List ScheduledTask) : Prop where
  unique : (tasks.map ScheduledTask.taskId).Nodup
  distinct : ∀ task ∈ tasks, task.dependencies.Nodup
  known : ∀ task ∈ tasks, ∀ dependency ∈ task.dependencies,
    dependency ∈ tasks.map ScheduledTask.taskId

/-- The state of the check, with the tasks that it has visited, the last
first. -/
structure Visiting
    (tasks : List ScheduledTask)
    (done : List UInt64)
    (indegree : ExtTreeMap UInt64 Nat)
    (ready : List UInt64) : Prop where
  ordered : Ordered (DependsOn tasks) done
  counts : ∀ task ∈ tasks, indegree[task.taskId]? = some (remaining done task)
  satisfied : ∀ taskId ∈ ready, ∀ other, DependsOn tasks taskId other →
    other ∈ done
  known : ∀ taskId ∈ done ++ ready, taskId ∈ tasks.map ScheduledTask.taskId
  nodup : (done ++ ready).Nodup

section Check

variable
  {tasks : List ScheduledTask}
  {done ready : List UInt64}
  {indegree : ExtTreeMap UInt64 Nat}

theorem WellFormed.eq_of_taskId
    (wellFormed : WellFormed tasks)
    {one other : ScheduledTask}
    (isOne : one ∈ tasks)
    (isOther : other ∈ tasks)
    (same : one.taskId = other.taskId) :
    one = other :=
  List.inj_on_of_nodup_map wellFormed.unique isOne isOther same

theorem mem_dependentsOf
    {taskId child : UInt64} :
    child ∈ dependentsOf tasks taskId ↔ DependsOn tasks child taskId := by
  simp only [dependentsOf, List.mem_map, List.mem_filter, decide_eq_true_eq,
    DependsOn]
  constructor
  · rintro ⟨task, ⟨isTask, depends⟩, same⟩
    exact ⟨task, isTask, same, depends⟩
  · rintro ⟨task, isTask, same, depends⟩
    exact ⟨task, ⟨isTask, depends⟩, same⟩

theorem dependentsOf_nodup
    (wellFormed : WellFormed tasks)
    (taskId : UInt64) :
    (dependentsOf tasks taskId).Nodup :=
  (List.filter_sublist.map _).nodup wellFormed.unique

/-- A visit lowers the counts of the tasks that depend on the visited one. -/
theorem remaining_cons
    {task : ScheduledTask}
    (distinct : task.dependencies.Nodup)
    {taskId : UInt64}
    (isNew : taskId ∉ done) :
    remaining done task = remaining (taskId :: done) task +
      if taskId ∈ task.dependencies then 1 else 0 := by
  unfold remaining
  generalize task.dependencies = dependencies at distinct
  induction dependencies with
  | nil => simp
  | cons first rest inductionHypothesis =>
      obtain ⟨isNotRest, distinct⟩ := List.nodup_cons.mp distinct
      have before := inductionHypothesis distinct
      simp only [List.countP_cons, List.mem_cons] at before ⊢
      by_cases same : first = taskId
      · subst same
        simp only [isNotRest, if_false, Nat.add_zero] at before
        simpa [isNew] using before
      · simp only [before, same, Ne.symm same, false_or]
        omega

/-- What the counting down keeps: the tasks still to come have one dependency
more. -/
structure Releasing
    (tasks : List ScheduledTask)
    (done : List UInt64)
    (children : List UInt64)
    (indegree : ExtTreeMap UInt64 Nat)
    (ready : List UInt64) : Prop where
  counts : ∀ task ∈ tasks, indegree[task.taskId]? =
    some (remaining done task + if task.taskId ∈ children then 1 else 0)
  satisfied : ∀ taskId ∈ ready, ∀ other, DependsOn tasks taskId other →
    other ∈ done
  known : ∀ taskId ∈ done ++ ready, taskId ∈ tasks.map ScheduledTask.taskId
  nodup : (done ++ ready).Nodup
  apart : ∀ taskId ∈ done ++ ready, taskId ∉ children

/-- One task is counted down. -/
theorem Releasing.cons
    (wellFormed : WellFormed tasks)
    {child : UInt64}
    {children : List UInt64}
    (distinct : (child :: children).Nodup)
    (releasing : Releasing tasks done (child :: children) indegree ready)
    {count : Nat}
    (found : indegree[child]? = some (count + 1))
    {task : ScheduledTask}
    (isTask : task ∈ tasks)
    (isChild : task.taskId = child) :
    Releasing tasks done children (indegree.insert child count)
      (if count = 0 then ready ++ [child] else ready) := by
  obtain ⟨isNotRest, _⟩ := List.nodup_cons.mp distinct
  have isCount : remaining done task = count := by
    have isCounted := releasing.counts task isTask
    rw [isChild, found, if_pos List.mem_cons_self] at isCounted
    simpa using isCounted.symm
  have isNew : child ∉ done ++ ready := fun old =>
    releasing.apart child old List.mem_cons_self
  have counts (other : ScheduledTask) (isOther : other ∈ tasks) :
      (indegree.insert child count)[other.taskId]? =
        some (remaining done other +
          if other.taskId ∈ children then 1 else 0) := by
    rw [getElem?_insert_eq]
    split
    · rename_i same
      obtain rfl := wellFormed.eq_of_taskId isTask isOther
        (isChild.trans same)
      rw [isCount, if_neg (by rwa [isChild]), Nat.add_zero]
    · rename_i different
      rw [releasing.counts other isOther]
      simp [Ne.symm different]
  split
  · rename_i isLast
    have satisfied (other : UInt64) (depends : DependsOn tasks child other) :
        other ∈ done := by
      obtain ⟨found, isFound, same, depends⟩ := depends
      obtain rfl := wellFormed.eq_of_taskId isTask isFound
        (isChild.trans same.symm)
      rw [isLast, remaining, List.countP_eq_zero] at isCount
      simpa using isCount other depends
    refine ⟨counts, ?_, ?_, ?_, ?_⟩
    · intro taskId isReady
      rcases List.mem_append.mp isReady with isReady | isReady
      · exact releasing.satisfied taskId isReady
      · rw [List.mem_singleton.mp isReady]
        exact satisfied
    · intro taskId isKnown
      rw [← List.append_assoc, List.mem_append, List.mem_singleton] at isKnown
      rcases isKnown with isKnown | rfl
      · exact releasing.known taskId isKnown
      · exact List.mem_map.mpr ⟨task, isTask, isChild⟩
    · rw [← List.append_assoc]
      exact List.nodup_append.mpr ⟨releasing.nodup, List.nodup_singleton _,
        fun one isOne other isOther same =>
          isNew (List.mem_singleton.mp isOther ▸ same ▸ isOne)⟩
    · intro taskId isKnown
      rw [← List.append_assoc, List.mem_append, List.mem_singleton] at isKnown
      rcases isKnown with isKnown | rfl
      · exact fun later =>
          releasing.apart taskId isKnown (List.mem_cons_of_mem _ later)
      · exact isNotRest
  · exact ⟨counts, releasing.satisfied, releasing.known, releasing.nodup,
      fun taskId isKnown later =>
        releasing.apart taskId isKnown (List.mem_cons_of_mem _ later)⟩

theorem Releasing.run
    (wellFormed : WellFormed tasks)
    {children : List UInt64}
    (distinct : children.Nodup)
    (areTasks : ∀ child ∈ children, ∃ task ∈ tasks, task.taskId = child)
    (releasing : Releasing tasks done children indegree ready)
    {result : ExtTreeMap UInt64 Nat × List UInt64}
    (released : releaseDependents children indegree ready = .ok result) :
    Releasing tasks done [] result.1 result.2 := by
  induction children generalizing indegree ready with
  | nil =>
      cases released
      exact releasing
  | cons child children inductionHypothesis =>
      rw [releaseDependents] at released
      split at released
      · cases released
      · cases released
      · rename_i count found
        obtain ⟨task, isTask, isChild⟩ := areTasks child List.mem_cons_self
        exact inductionHypothesis (List.nodup_cons.mp distinct).2
          (fun other member => areTasks other (List.mem_cons_of_mem _ member))
          (releasing.cons wellFormed distinct found isTask isChild) released

/-- The visited and the ready tasks after a visit are those before it. -/
theorem Visiting.moved
    {taskId : UInt64}
    (visiting : Visiting tasks done indegree (taskId :: ready)) :
    (taskId :: done ++ ready).Nodup ∧
      ∀ other ∈ taskId :: done ++ ready, other ∈ done ++ taskId :: ready := by
  have moved : (done ++ taskId :: ready).Perm (taskId :: done ++ ready) :=
    List.perm_middle
  exact ⟨moved.nodup_iff.mp visiting.nodup,
    fun other isKnown => moved.mem_iff.mpr isKnown⟩

theorem Visiting.isNew
    {taskId : UInt64}
    (visiting : Visiting tasks done indegree (taskId :: ready)) :
    taskId ∉ done := fun old =>
  (List.nodup_cons.mp visiting.moved.1).1 (List.mem_append_left _ old)

/-- A visit begins to count down. -/
theorem Visiting.releasing
    (wellFormed : WellFormed tasks)
    {taskId : UInt64}
    (visiting : Visiting tasks done indegree (taskId :: ready)) :
    Releasing tasks (taskId :: done) (dependentsOf tasks taskId) indegree
      ready := by
  obtain ⟨nodup, moved⟩ := visiting.moved
  refine ⟨?_, ?_, ?_, nodup, ?_⟩
  · intro task isTask
    have isChild : task.taskId ∈ dependentsOf tasks taskId ↔
        taskId ∈ task.dependencies := by
      rw [mem_dependentsOf]
      constructor
      · rintro ⟨other, isOther, same, depends⟩
        rwa [← wellFormed.eq_of_taskId isOther isTask same]
      · exact fun depends => ⟨task, isTask, rfl, depends⟩
    rw [visiting.counts task isTask,
      remaining_cons (wellFormed.distinct task isTask) visiting.isNew]
    simp only [isChild]
  · intro other isReady needed depends
    exact List.mem_cons_of_mem _
      (visiting.satisfied other (List.mem_cons_of_mem _ isReady) needed depends)
  · exact fun other isKnown => visiting.known other (moved other isKnown)
  · intro other isKnown isChild
    have needs := mem_dependentsOf.mp isChild
    have old : taskId ∈ done := by
      rcases List.mem_append.mp (moved other isKnown) with old | isReady
      · exact visiting.ordered.closed old needs
      · exact visiting.satisfied other isReady taskId needs
    exact visiting.isNew old

theorem areTasks_of_dependentsOf
    {taskId child : UInt64}
    (isChild : child ∈ dependentsOf tasks taskId) :
    ∃ task ∈ tasks, task.taskId = child := by
  obtain ⟨task, isTask, same, _⟩ := mem_dependentsOf.mp isChild
  exact ⟨task, isTask, same⟩

/-- A visit. -/
theorem Visiting.visit
    (wellFormed : WellFormed tasks)
    {taskId : UInt64}
    (visiting : Visiting tasks done indegree (taskId :: ready))
    {result : ExtTreeMap UInt64 Nat × List UInt64}
    (released : releaseDependents (dependentsOf tasks taskId) indegree ready =
      .ok result) :
    Visiting tasks (taskId :: done) result.1 result.2 := by
  have after := (visiting.releasing wellFormed).run wellFormed
    (dependentsOf_nodup wellFormed taskId)
    (fun _ isChild => areTasks_of_dependentsOf isChild) released
  exact {
    ordered := .cons visiting.ordered
      (visiting.satisfied taskId List.mem_cons_self)
    counts := by simpa using after.counts
    satisfied := after.satisfied
    known := after.known
    nodup := after.nodup }

/-- Nothing is ready once all tasks have been visited. -/
theorem Visiting.ready_eq_nil
    (visiting : Visiting tasks done indegree ready)
    (all : tasks.length ≤ done.length) :
    ready = [] := by
  have few := (List.subperm_of_subset visiting.nodup
    visiting.known).length_le
  rw [List.length_append, List.length_map] at few
  exact List.eq_nil_of_length_eq_zero (by omega)

/-- A larger bound changes nothing. -/
theorem visitReady_add
    (wellFormed : WellFormed tasks)
    (more : Nat)
    {bound visited : Nat}
    (visiting : Visiting tasks done indegree ready)
    (enough : tasks.length ≤ done.length + bound) :
    visitReady (dependentsOf tasks) (bound + more) indegree ready visited =
      visitReady (dependentsOf tasks) bound indegree ready visited := by
  induction bound generalizing done indegree ready visited with
  | zero =>
      rw [visiting.ready_eq_nil enough]
      cases more <;> simp [visitReady]
  | succ bound inductionHypothesis =>
      rw [Nat.add_right_comm]
      cases ready with
      | nil => rfl
      | cons taskId ready =>
          rw [visitReady, visitReady]
          cases released : releaseDependents (dependentsOf tasks taskId)
              indegree ready with
          | error failure => rfl
          | ok result =>
              have visit := visiting.visit wellFormed released
              have rest := @inductionHypothesis _ _ _ (visited + 1) visit
                (by rw [List.length_cons]; omega)
              simp only [ok_bind, rest]

/-- The visited tasks are in order. -/
theorem visitReady_ordered
    (wellFormed : WellFormed tasks)
    {bound : Nat}
    (visiting : Visiting tasks done indegree ready)
    {visited : Nat}
    (isVisited : visitReady (dependentsOf tasks) bound indegree ready
      done.length = .ok visited) :
    ∃ order, order.length = visited ∧ Ordered (DependsOn tasks) order ∧
      order.Nodup ∧
      ∀ taskId ∈ order, taskId ∈ tasks.map ScheduledTask.taskId := by
  induction bound generalizing done indegree ready with
  | zero =>
      cases isVisited
      exact ⟨done, rfl, visiting.ordered,
        (List.nodup_append.mp visiting.nodup).1, fun taskId isDone =>
          visiting.known taskId (List.mem_append_left _ isDone)⟩
  | succ bound inductionHypothesis =>
      cases ready with
      | nil =>
          cases isVisited
          exact ⟨done, rfl, visiting.ordered,
            (List.nodup_append.mp visiting.nodup).1, fun taskId isDone =>
              visiting.known taskId (List.mem_append_left _ isDone)⟩
      | cons taskId ready =>
          simp only [visitReady, bind_eq_ok, ensure_eq_ok] at isVisited
          obtain ⟨_, _, result, released, isVisited⟩ := isVisited
          exact inductionHypothesis (visiting.visit wellFormed released)
            isVisited

theorem indegrees_getElem?
    (wellFormed : WellFormed tasks)
    {task : ScheduledTask}
    (isTask : task ∈ tasks) :
    (indegrees tasks)[task.taskId]? = some task.dependencies.length := by
  refine ExtTreeMap.getElem?_ofList_of_mem Std.compare_self ?_
    (List.mem_map_of_mem isTask)
  rw [List.pairwise_map]
  refine (List.pairwise_map.mp wellFormed.unique).imp ?_
  intro one other different same
  exact different (Std.compare_eq_iff_eq.mp same)

/-- The tasks with an entry are those of the list. -/
theorem mem_taskIds_of_indegrees
    {taskId : UInt64}
    {count : Nat}
    (found : (indegrees tasks)[taskId]? = some count) :
    taskId ∈ tasks.map ScheduledTask.taskId := by
  by_contra absent
  rw [indegrees, ExtTreeMap.getElem?_ofList_of_contains_eq_false] at found
  · cases found
  · rw [List.map_map, List.contains_eq_mem, decide_eq_false_iff_not]
    exact absent

theorem mem_initiallyReady
    {taskId : UInt64} :
    taskId ∈ initiallyReady indegree ↔ indegree[taskId]? = some 0 := by
  simp only [initiallyReady, List.mem_map, List.mem_filter, decide_eq_true_eq,
    Prod.exists]
  constructor
  · rintro ⟨found, count, ⟨isEntry, rfl⟩, rfl⟩
    exact ExtTreeMap.mem_toList_iff_getElem?_eq_some.mp isEntry
  · intro found
    exact ⟨taskId, 0,
      ⟨ExtTreeMap.mem_toList_iff_getElem?_eq_some.mpr found, rfl⟩, rfl⟩

theorem initiallyReady_nodup
    (indegree : ExtTreeMap UInt64 Nat) :
    (initiallyReady indegree).Nodup := by
  have distinct : (indegree.toList.map Prod.fst).Nodup := by
    rw [ExtTreeMap.map_fst_toList_eq_keys]
    exact ExtTreeMap.nodup_keys
  exact (List.filter_sublist.map _).nodup distinct

/-- The check begins with the tasks without dependencies. -/
theorem Visiting.start
    (wellFormed : WellFormed tasks) :
    Visiting tasks [] (indegrees tasks) (initiallyReady (indegrees tasks)) where
  ordered := .nil
  counts := by
    intro task isTask
    rw [indegrees_getElem? wellFormed isTask, remaining]
    simp
  satisfied := by
    rintro taskId isReady other ⟨task, isTask, rfl, depends⟩
    have found := indegrees_getElem? wellFormed isTask
    rw [mem_initiallyReady.mp isReady, Option.some.injEq] at found
    rw [List.eq_nil_of_length_eq_zero found.symm] at depends
    cases depends
  known := fun taskId isReady =>
    mem_taskIds_of_indegrees (mem_initiallyReady.mp isReady)
  nodup := initiallyReady_nodup _

end Check

/-- The first two checks. -/
theorem wellFormed_iff
    {tasks : List ScheduledTask} :
    WellFormed tasks ↔ (tasks.map ScheduledTask.taskId).Nodup ∧
      tasks.all (validDependencies tasks) = true := by
  simp only [List.all_eq_true, validDependencies, Bool.and_eq_true,
    decide_eq_true_eq]
  constructor
  · intro wellFormed
    exact ⟨wellFormed.unique, fun task isTask =>
      ⟨wellFormed.distinct task isTask, wellFormed.known task isTask⟩⟩
  · rintro ⟨unique, each⟩
    exact ⟨unique, fun task isTask => (each task isTask).1,
      fun task isTask => (each task isTask).2⟩

/-- Accepted tasks can be put in an order in which each comes after those that
it depends on. -/
theorem validateDag_ok
    {tasks : List ScheduledTask}
    {value : Unit}
    (accepted : validateDag tasks = .ok value) :
    WellFormed tasks ∧ ∃ order, Ordered (DependsOn tasks) order ∧
      ∀ taskId, taskId ∈ order ↔ taskId ∈ tasks.map ScheduledTask.taskId := by
  simp only [validateDag, bind_eq_ok, ensure_eq_ok] at accepted
  obtain ⟨_, unique, _, valid, visited, isVisited, all⟩ := accepted
  have wellFormed := wellFormed_iff.mpr ⟨unique, valid⟩
  obtain ⟨order, isLength, ordered, nodup, known⟩ :=
    visitReady_ordered wellFormed (.start wellFormed) isVisited
  refine ⟨wellFormed, order, ordered, fun taskId => ⟨known taskId, ?_⟩⟩
  have same : order.Perm (tasks.map ScheduledTask.taskId) := by
    refine (List.subperm_of_subset nodup known).perm_of_length_le ?_
    rw [List.length_map]
    omega
  exact same.mem_iff.mpr

/-- The bound of the check is not reached: a larger one gives the same. -/
theorem validateDag_bound
    {tasks : List ScheduledTask}
    (wellFormed : WellFormed tasks)
    (more visited : Nat) :
    visitReady (dependentsOf tasks) (tasks.length + more) (indegrees tasks)
        (initiallyReady (indegrees tasks)) visited =
      visitReady (dependentsOf tasks) tasks.length (indegrees tasks)
        (initiallyReady (indegrees tasks)) visited :=
  visitReady_add wellFormed more (.start wellFormed) (by simp)

/-! ## Cycles -/

/-- Some task waits for itself in the end. -/
def HasCycle (tasks : List ScheduledTask) : Prop :=
  ∃ taskId, Relation.TransGen (DependsOn tasks) taskId taskId

section Cycles

variable
  {tasks : List ScheduledTask}
  {done ready : List UInt64}
  {indegree : ExtTreeMap UInt64 Nat}

/-- Every task that waits for nothing has been visited or is about to be. -/
def Exhaustive
    (tasks : List ScheduledTask)
    (done waiting : List UInt64) : Prop :=
  ∀ task ∈ tasks, remaining done task = 0 → task.taskId ∈ done ++ waiting

/-- No count goes below zero, and every task whose count reaches zero becomes
ready. -/
theorem Releasing.progress
    (wellFormed : WellFormed tasks)
    {children : List UInt64}
    (distinct : children.Nodup)
    (areTasks : ∀ child ∈ children, ∃ task ∈ tasks, task.taskId = child)
    (releasing : Releasing tasks done children indegree ready)
    (exhaustive : Exhaustive tasks done (ready ++ children)) :
    ∃ result, releaseDependents children indegree ready = .ok result ∧
      Exhaustive tasks done result.2 := by
  induction children generalizing indegree ready with
  | nil => exact ⟨_, rfl, by simpa using exhaustive⟩
  | cons child children inductionHypothesis =>
      obtain ⟨task, isTask, isChild⟩ := areTasks child List.mem_cons_self
      have found : indegree[child]? = some (remaining done task + 1) := by
        rw [← isChild, releasing.counts task isTask,
          if_pos (isChild ▸ List.mem_cons_self)]
      have after := releasing.cons wellFormed distinct found isTask isChild
      rw [releaseDependents, found]
      refine inductionHypothesis (List.nodup_cons.mp distinct).2
        (fun other member => areTasks other (List.mem_cons_of_mem _ member))
        after fun other isOther none => ?_
      have listed := exhaustive other isOther none
      simp only [List.mem_append, List.mem_cons] at listed ⊢
      rcases listed with visited | isReady | isNow | isLater
      · exact Or.inl visited
      · refine Or.inr (Or.inl ?_)
        split
        · exact List.mem_append_left _ isReady
        · exact isReady
      · obtain rfl := wellFormed.eq_of_taskId isOther isTask
          (isNow.trans isChild.symm)
        rw [if_pos none]
        simp [isNow]
      · exact Or.inr (Or.inr isLater)

/-- A visit comes to an end, and misses no task that it makes ready. -/
theorem Visiting.progress
    (wellFormed : WellFormed tasks)
    {taskId : UInt64}
    (visiting : Visiting tasks done indegree (taskId :: ready))
    (exhaustive : Exhaustive tasks done (taskId :: ready)) :
    ∃ result,
      releaseDependents (dependentsOf tasks taskId) indegree ready =
        .ok result ∧
      Exhaustive tasks (taskId :: done) result.2 := by
  refine (visiting.releasing wellFormed).progress wellFormed
    (dependentsOf_nodup wellFormed taskId)
    (fun _ isChild => areTasks_of_dependentsOf isChild) ?_
  intro task isTask none
  by_cases depends : taskId ∈ task.dependencies
  · have isChild := mem_dependentsOf.mpr ⟨task, isTask, rfl, depends⟩
    exact List.mem_append_right _ (List.mem_append_right _ isChild)
  · have before := remaining_cons (wellFormed.distinct task isTask)
      visiting.isNew
    rw [none, if_neg depends] at before
    have listed := exhaustive task isTask before
    simp only [List.mem_append, List.mem_cons] at listed ⊢
    tauto

/-- The check visits every task that does not wait for others for ever. -/
theorem visitReady_exhausts
    (wellFormed : WellFormed tasks)
    (fits : tasks.length < 2 ^ 64)
    {bound : Nat}
    (visiting : Visiting tasks done indegree ready)
    (exhaustive : Exhaustive tasks done ready)
    (enough : tasks.length ≤ done.length + bound) :
    ∃ order, visitReady (dependentsOf tasks) bound indegree ready
        done.length = .ok order.length ∧
      order.Nodup ∧
      (∀ taskId ∈ order, taskId ∈ tasks.map ScheduledTask.taskId) ∧
      Exhaustive tasks order [] := by
  induction bound generalizing done indegree ready with
  | zero =>
      obtain rfl := visiting.ready_eq_nil enough
      exact ⟨done, rfl, by simpa using visiting.nodup,
        by simpa using visiting.known, exhaustive⟩
  | succ bound inductionHypothesis =>
      cases ready with
      | nil =>
          exact ⟨done, rfl, by simpa using visiting.nodup,
            by simpa using visiting.known, exhaustive⟩
      | cons taskId ready =>
          obtain ⟨result, released, exhaustiveAfter⟩ :=
            visiting.progress wellFormed exhaustive
          have few := (List.subperm_of_subset visiting.nodup
            visiting.known).length_le
          rw [List.length_append, List.length_cons, List.length_map] at few
          have rest := inductionHypothesis
            (visiting.visit wellFormed released) exhaustiveAfter
            (by rw [List.length_cons]; omega)
          rw [visitReady, ensure_of (by omega), ok_bind, released, ok_bind]
          exact rest

/-- Where some task is never visited, some tasks wait for each other. -/
theorem Exhaustive.hasCycle
    (wellFormed : WellFormed tasks)
    {order : List UInt64}
    (exhaustive : Exhaustive tasks order [])
    {task : ScheduledTask}
    (isTask : task ∈ tasks)
    (missed : task.taskId ∉ order) :
    HasCycle tasks := by
  let missing := (tasks.map ScheduledTask.taskId).filter (· ∉ order)
  have isMissing (taskId : UInt64) : taskId ∈ missing ↔
      taskId ∈ tasks.map ScheduledTask.taskId ∧ taskId ∉ order := by
    simp only [missing, List.mem_filter, decide_eq_true_eq]
  have first := (isMissing _).mpr ⟨List.mem_map_of_mem isTask, missed⟩
  refine exists_cycle (List.ne_nil_of_mem first) fun one isOne => ?_
  obtain ⟨listed, isOpen⟩ := (isMissing one).mp isOne
  obtain ⟨task, isTask, rfl⟩ := List.mem_map.mp listed
  have waits : remaining order task ≠ 0 := fun none =>
    isOpen (by simpa using exhaustive task isTask none)
  obtain ⟨other, depends, isNew⟩ := List.countP_pos_iff.mp
    (Nat.pos_of_ne_zero waits)
  exact ⟨other, (isMissing other).mpr ⟨wellFormed.known task isTask other
    depends, by simpa using isNew⟩, task, isTask, rfl, depends⟩

end Cycles

/-- What the check answers for tasks that depend on each other. -/
theorem validateDag_eq_of_wellFormed
    {tasks : List ScheduledTask}
    (wellFormed : WellFormed tasks)
    (fits : tasks.length < 2 ^ 64) :
    validateDag tasks = .ok () ∧ ¬HasCycle tasks ∨
      validateDag tasks = .error .dependencyCycle ∧ HasCycle tasks := by
  obtain ⟨unique, valid⟩ := wellFormed_iff.mp wellFormed
  have start := Visiting.start wellFormed
  have exhaustive : Exhaustive tasks [] (initiallyReady (indegrees tasks)) := by
    intro task isTask none
    refine mem_initiallyReady.mpr ?_
    rw [start.counts task isTask, none]
  obtain ⟨order, isVisited, nodup, known, exhaustiveAfter⟩ :=
    visitReady_exhausts wellFormed fits start exhaustive
      (Nat.le_add_left tasks.length _)
  have answer : validateDag tasks =
      ensure (order.length = tasks.length) .dependencyCycle := by
    rw [validateDag, ensure_of unique, ok_bind, ensure_of valid,
      ok_bind]
    simp only [List.length_nil] at isVisited
    rw [isVisited, ok_bind]
  have within := List.subperm_of_subset nodup known
  by_cases all : order.length = tasks.length
  · refine Or.inl ⟨by rw [answer, ensure_of all], ?_⟩
    rintro ⟨taskId, cycle⟩
    have accepted : validateDag tasks = .ok () := by rw [answer, ensure_of all]
    obtain ⟨_, inOrder, ordered, isOrder⟩ := validateDag_ok accepted
    refine ordered.acyclic ((isOrder taskId).mpr ?_) cycle
    obtain ⟨other, ⟨task, isTask, same, _⟩, _⟩ :=
      Relation.TransGen.head'_iff.mp cycle
    exact List.mem_map.mpr ⟨task, isTask, same⟩
  · refine Or.inr ⟨by rw [answer, ensure_of_not all], ?_⟩
    have few := within.length_le
    rw [List.length_map] at few
    by_contra acyclic
    have covers : ∀ taskId ∈ tasks.map ScheduledTask.taskId,
        taskId ∈ order := by
      intro taskId listed
      obtain ⟨task, isTask, rfl⟩ := List.mem_map.mp listed
      by_contra missed
      exact acyclic (exhaustiveAfter.hasCycle wellFormed isTask missed)
    have many := (List.subperm_of_subset wellFormed.unique covers).length_le
    rw [List.length_map] at many
    omega

/-- Tasks that wait for nothing are accepted. -/
theorem validateDag_of_independent
    {tasks : List ScheduledTask}
    (unique : (tasks.map ScheduledTask.taskId).Nodup)
    (fits : tasks.length < 2 ^ 64)
    (independent : ∀ task ∈ tasks, task.dependencies = []) :
    validateDag tasks = .ok () := by
  have wellFormed : WellFormed tasks := {
    unique := unique
    distinct := fun task isTask => by
      rw [independent task isTask]
      exact List.nodup_nil
    known := fun task isTask => by
      rw [independent task isTask]
      nofun }
  rcases validateDag_eq_of_wellFormed wellFormed fits with
    ⟨accepted, _⟩ | ⟨_, taskId, cycle⟩
  · exact accepted
  · obtain ⟨_, ⟨task, isTask, _, depends⟩, _⟩ :=
      Relation.TransGen.head'_iff.mp cycle
    rw [independent task isTask] at depends
    cases depends

/-- The check accepts exactly the tasks that are well formed and do not wait for
each other in a cycle.  Of well formed tasks it reports a cycle exactly when
there is one, and no count goes below zero. -/
theorem validateDag_decides
    {tasks : List ScheduledTask}
    (fits : tasks.length < 2 ^ 64) :
    (validateDag tasks = .ok () ↔ WellFormed tasks ∧ ¬HasCycle tasks) ∧
      (WellFormed tasks →
        (validateDag tasks = .error .dependencyCycle ↔ HasCycle tasks)) ∧
      validateDag tasks ≠ .error .integerOverflow := by
  by_cases wellFormed : WellFormed tasks
  · rcases validateDag_eq_of_wellFormed wellFormed fits with
      ⟨accepted, acyclic⟩ | ⟨refused, cycle⟩
    · rw [accepted]
      exact ⟨by simp [wellFormed, acyclic], fun _ => by simp [acyclic], nofun⟩
    · rw [refused]
      exact ⟨by simp [wellFormed, cycle], fun _ => by simp [cycle], nofun⟩
  · refine ⟨iff_of_false (fun accepted => wellFormed (validateDag_ok accepted).1)
      fun both => wellFormed both.1, fun isWellFormed =>
        absurd isWellFormed wellFormed, ?_⟩
    intro overflow
    unfold validateDag at overflow
    by_cases unique : (tasks.map ScheduledTask.taskId).Nodup
    · by_cases valid : tasks.all (validDependencies tasks) = true
      · exact wellFormed (wellFormed_iff.mpr ⟨unique, valid⟩)
      · rw [ensure_of unique, ok_bind, ensure_of_not valid] at overflow
        cases overflow
    · rw [ensure_of_not unique] at overflow
      cases overflow

/-- Two tasks that wait for each other. -/
def twoTasks : List ScheduledTask :=
  [(1, 2), (2, 1)].map fun ids => {
    taskId := ids.1
    priority := .benchmark
    dependencies := [ids.2]
    resources := {
      inputBytes := 0
      scratchBytes := 0
      outputBound := 1 }
    action := (· = .ok []) }

theorem twoTasks_refused :
    twoTasks.length < 2 ^ 64 ∧ WellFormed twoTasks ∧ HasCycle twoTasks ∧
      validateDag twoTasks = .error .dependencyCycle := by
  have fits : twoTasks.length < 2 ^ 64 := by decide
  have wellFormed : WellFormed twoTasks :=
    wellFormed_iff.mpr ⟨by decide, by decide⟩
  have one : DependsOn twoTasks 1 2 :=
    ⟨_, List.mem_cons_self, rfl, List.mem_cons_self⟩
  have other : DependsOn twoTasks 2 1 :=
    ⟨_, List.mem_cons_of_mem _ List.mem_cons_self, rfl, List.mem_cons_self⟩
  have cycle : HasCycle twoTasks :=
    ⟨1, Relation.TransGen.head one (.single other)⟩
  exact ⟨fits, wellFormed, cycle,
    ((validateDag_decides fits).2.1 wellFormed).mpr cycle⟩

end Pithos.Scheduler
