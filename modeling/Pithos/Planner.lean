import Pithos.Core
import Pithos.Library.Layout
import Pithos.Library.Runs
import Mathlib.Algebra.Order.Group.Nat
import Mathlib.Order.Bounds.Basic

/-!
# The planner

`planSolidGroups` cuts the files of an archive, in their order, into groups that
are compressed together.  A group takes files as long as it stays within the
target of the profile, so there are as few groups as that allows.
-/

namespace Pithos

open Fallible
open Machine
open Runs
open Layout

/-- One MiB. -/
def mib : UInt64 := 1024 * 1024

/-- A group of neighbouring items and their length together. -/
structure SolidGroupPlan where
  firstItem : Nat
  itemCount : Nat
  uncompressedLen : UInt64
  deriving DecidableEq, Repr

/-- The length at which a group of a profile is full. -/
def solidGroupTarget : CompressionProfile → UInt64
  | .raw => 0
  | .stream => 4 * mib
  | .random => 8 * mib
  | .balanced => 64 * mib
  | .archiveMax => 512 * mib

/-- Take the next file into the current group, or begin a group with it. -/
def planItem
    (target : UInt64)
    (index : Nat)
    (length : UInt64)
    (planning : List SolidGroupPlan × Option SolidGroupPlan) :
    Result (List SolidGroupPlan × Option SolidGroupPlan) :=
  match planning.2 with
  | some group => do
      let combined ← okOr (checkedAdd group.uncompressedLen length)
        .integerOverflow
      if combined ≤ target then
        ensure (group.itemCount + 1 < 2 ^ 64) .integerOverflow
        .ok (planning.1, some { group with
          itemCount := group.itemCount + 1
          uncompressedLen := combined })
      else .ok (planning.1 ++ [group], some ⟨index, 1, length⟩)
  | none => .ok (planning.1, some ⟨index, 1, length⟩)

/-- Every item has its own group in a raw archive; otherwise a group is filled
up to the target. -/
def planSolidGroups (profile : CompressionProfile) (lengths : List UInt64) :
    Result (List SolidGroupPlan) :=
  if profile = .raw then
    .ok (lengths.zipIdx.map fun item => ⟨item.2, 1, item.1⟩)
  else do
    let (groups, current) ←
      forEnum (planItem (solidGroupTarget profile)) 0 lengths ([], none)
    .ok (groups ++ current.toList)

/-- What a candidate adds to the archive. -/
structure CandidateCost where
  payload : UInt64
  codecDescriptor : UInt64
  groupDescriptor : UInt64
  indexDelta : UInt64
  integrity : UInt64
  padding : UInt64
  deriving DecidableEq, Repr

/-- The cost of a candidate in all. -/
def CandidateCost.total (cost : CandidateCost) : Result UInt64 :=
  [cost.payload, cost.codecDescriptor, cost.groupDescriptor, cost.indexDelta,
    cost.integrity, cost.padding].foldlM
      (fun total value => okOr (checkedAdd total value) .integerOverflow) 0

/-- A checked sum is the sum. -/
theorem foldlM_checkedAdd_eq_ok
    {values : List UInt64}
    {start sum : UInt64} :
    values.foldlM (fun total value =>
        okOr (checkedAdd total value) PithosError.integerOverflow) start =
        .ok sum ↔
      start.toNat + total UInt64.toNat values = sum.toNat := by
  induction values generalizing start with
  | nil => simp [total, UInt64.toNat_inj]
  | cons value values inductionHypothesis =>
      have whole : total UInt64.toNat (value :: values) =
          value.toNat + total UInt64.toNat values := rfl
      rw [List.foldlM_cons, bind_eq_ok, whole, ← Nat.add_assoc]
      simp only [okOr_eq_ok, checkedAdd_eq_some]
      constructor
      · rintro ⟨next, added, rest⟩
        rw [added]
        exact inductionHypothesis.mp rest
      · intro isSum
        have bound := sum.toNat_lt
        obtain ⟨next, added, value⟩ :=
          @checkedAdd_of_lt start value (by omega)
        refine ⟨next, checkedAdd_eq_some.mp added, ?_⟩
        exact inductionHypothesis.mpr (by rw [value, isSum])

/-! ## Plans of runs -/

/-- The plan of a run of files that begins at an index. -/
def runPlan (firstItem : Nat) (run : List UInt64) : SolidGroupPlan :=
  ⟨firstItem, run.length, UInt64.ofNat (total UInt64.toNat run)⟩

/-- The plans of runs that follow each other from an index. -/
def runPlans : Nat → List (List UInt64) → List SolidGroupPlan
  | _, [] => []
  | firstItem, run :: runs =>
      runPlan firstItem run :: runPlans (firstItem + run.length) runs

/-- The files of a group. -/
def SolidGroupPlan.items (plan : SolidGroupPlan) (lengths : List UInt64) :
    List UInt64 :=
  (lengths.drop plan.firstItem).take plan.itemCount

theorem runPlans_append
    (firstItem : Nat)
    (runs others : List (List UInt64)) :
    runPlans firstItem (runs ++ others) = runPlans firstItem runs ++
      runPlans (firstItem + runs.flatten.length) others := by
  induction runs generalizing firstItem with
  | nil => rfl
  | cons run runs inductionHypothesis =>
      simp only [List.cons_append, runPlans, inductionHypothesis,
        List.flatten_cons, List.length_append, Nat.add_assoc]

theorem tiles_runPlans (firstItem : Nat) (runs : List (List UInt64)) :
    Tiles firstItem ((runPlans firstItem runs).map fun plan =>
      (plan.firstItem, plan.itemCount))
      (firstItem + runs.flatten.length) := by
  induction runs generalizing firstItem with
  | nil => simp [runPlans]
  | cons run runs inductionHypothesis =>
      have rest := inductionHypothesis (firstItem + run.length)
      rw [Nat.add_assoc, ← List.length_append] at rest
      exact ⟨rfl, rest⟩

/-- A plan is that of one of the runs. -/
theorem mem_runPlans
    {firstItem : Nat}
    {runs : List (List UInt64)}
    {plan : SolidGroupPlan}
    (member : plan ∈ runPlans firstItem runs) :
    ∃ before run after, runs = before ++ run :: after ∧
      plan = runPlan (firstItem + before.flatten.length) run := by
  induction runs generalizing firstItem with
  | nil => cases member
  | cons run runs inductionHypothesis =>
      rcases List.mem_cons.mp member with rfl | member
      · exact ⟨[], run, runs, rfl, rfl⟩
      · obtain ⟨before, other, after, rfl, rfl⟩ := inductionHypothesis member
        refine ⟨run :: before, other, after, rfl, ?_⟩
        rw [List.flatten_cons, List.length_append, Nat.add_assoc]

theorem items_runPlan (before after : List (List UInt64)) (run : List UInt64) :
    (runPlan before.flatten.length run).items
      (before ++ run :: after).flatten = run := by
  simp [SolidGroupPlan.items, runPlan]

/-! ## What the loop keeps -/

/-- The files planned so far are split into closed groups and the current one.
No group can take the first file of the next one. -/
structure Planned
    (target : UInt64)
    (done : List UInt64)
    (closed : List (List UInt64))
    (current : List UInt64) : Prop where
  splits : Splits UInt64.toNat target.toNat done (closed ++ [current])
  tight : Tight UInt64.toNat target.toNat (closed ++ [current])
  fits : ∀ run ∈ closed ++ [current], total UInt64.toNat run < 2 ^ 64

/-- The state of the loop after some files. -/
def PlanReached
    (target : UInt64)
    (done : List UInt64)
    (planning : List SolidGroupPlan × Option SolidGroupPlan) : Prop :=
  done = [] ∧ planning = ([], none) ∨
    ∃ closed current, Planned target done closed current ∧
      planning = (runPlans 0 closed,
        some (runPlan closed.flatten.length current))

section Loop

variable
  {target : UInt64}
  {done : List UInt64}
  {closed : List (List UInt64)}
  {current : List UInt64}

theorem Planned.done_eq
    (planned : Planned target done closed current) :
    done = closed.flatten ++ current := by
  have flatten := planned.splits.flatten
  rw [← flatten]
  simp

theorem Planned.current_ne_nil
    (planned : Planned target done closed current) :
    current ≠ [] :=
  planned.splits.nonempty current (by simp)

theorem Planned.uncompressedLen
    (planned : Planned target done closed current) :
    (runPlan closed.flatten.length current).uncompressedLen.toNat =
      total UInt64.toNat current :=
  toNat_ofNat_of_lt (planned.fits current (by simp))

/-- Files that are packed in runs, each of a length that can be written. -/
theorem planned_of_packed
    (packed : Packed UInt64.toNat target.toNat done (closed, current))
    (fits : ∀ run ∈ closed ++ [current], total UInt64.toNat run < 2 ^ 64) :
    Planned target done closed current :=
  ⟨packed.splits, packed.tight, fits⟩

theorem Planned.packed
    (planned : Planned target done closed current) :
    Packed UInt64.toNat target.toNat done (closed, current) :=
  ⟨planned.splits, planned.tight⟩

/-- The first group. -/
theorem planned_singleton (target length : UInt64) :
    Planned target [length] [] [length] := by
  refine planned_of_packed (packed_singleton _ _ _) ?_
  simpa [total] using length.toNat_lt

/-- A file that fits goes into the current group. -/
theorem Planned.extend
    (planned : Planned target done closed current)
    {length : UInt64}
    (within : total UInt64.toNat current + length.toNat ≤ target.toNat) :
    Planned target (done ++ [length]) closed (current ++ [length]) := by
  refine planned_of_packed (planned.packed.extend within) ?_
  intro run member
  rcases List.mem_append.mp member with old | new
  · exact planned.fits run (List.mem_append_left _ old)
  · rw [List.mem_singleton.mp new, total_append, total_singleton]
    have := target.toNat_lt
    omega

/-- A file that does not fit begins a group. -/
theorem Planned.close
    (planned : Planned target done closed current)
    {length : UInt64}
    (heavy : target.toNat < total UInt64.toNat current + length.toNat) :
    Planned target (done ++ [length]) (closed ++ [current]) [length] := by
  refine planned_of_packed (planned.packed.close heavy) ?_
  intro run member
  rcases List.mem_append.mp member with old | new
  · exact planned.fits run old
  · rw [List.mem_singleton.mp new]
    simpa [total] using length.toNat_lt

end Loop

/-- One step of the loop: the file fits, or it begins a group, or the sum
overflows. -/
theorem planItem_of_planned
    {target : UInt64}
    {done : List UInt64}
    {closed : List (List UInt64)}
    {current : List UInt64}
    (planned : Planned target done closed current)
    (short : done.length + 1 < 2 ^ 64)
    (length : UInt64) :
    planItem target done.length length (runPlans 0 closed,
        some (runPlan closed.flatten.length current)) =
      if 2 ^ 64 ≤ total UInt64.toNat current + length.toNat then
        .error .integerOverflow
      else if total UInt64.toNat current + length.toNat ≤ target.toNat then
        .ok (runPlans 0 closed,
          some (runPlan closed.flatten.length (current ++ [length])))
      else
        .ok (runPlans 0 (closed ++ [current]),
          some (runPlan (closed ++ [current]).flatten.length [length])) := by
  have value := planned.uncompressedLen
  rw [planItem]
  dsimp only
  by_cases overflow : 2 ^ 64 ≤ total UInt64.toNat current + length.toNat
  · rw [if_pos overflow, checkedAdd, value, if_neg (Nat.not_lt.mpr overflow)]
    rfl
  · obtain ⟨combined, added, isSum⟩ := @checkedAdd_of_lt
      (runPlan closed.flatten.length current).uncompressedLen length
      (by rw [value]; omega)
    rw [value] at isSum
    rw [if_neg overflow, added, okOr_some, ok_bind]
    by_cases within : total UInt64.toNat current + length.toNat ≤ target.toNat
    · have fewer : current.length ≤ done.length := by
        rw [planned.done_eq, List.length_append]
        exact Nat.le_add_left _ _
      have group : runPlan closed.flatten.length (current ++ [length]) =
          { runPlan closed.flatten.length current with
            itemCount := current.length + 1
            uncompressedLen := combined } := by
        rw [runPlan, total_append, total_singleton, ← isSum,
          UInt64.ofNat_toNat, List.length_append]
        rfl
      rw [if_pos within, group, if_pos (by
        rw [UInt64.le_iff_toNat_le, isSum]
        exact within)]
      exact bind_eq_ok.mpr ⟨(), ensure_of (by
        change current.length + 1 < 2 ^ 64
        omega) _, rfl⟩
    · have plans : runPlans 0 (closed ++ [current]) =
          runPlans 0 closed ++ [runPlan closed.flatten.length current] := by
        rw [runPlans_append, Nat.zero_add]
        rfl
      have index : done.length = (closed ++ [current]).flatten.length := by
        rw [planned.done_eq]
        simp
      have single : runPlan done.length [length] =
          ⟨done.length, 1, length⟩ := by
        rw [runPlan, total_singleton, UInt64.ofNat_toNat]
        rfl
      rw [if_neg within, plans, ← index, single, if_neg (by
        rw [UInt64.le_iff_toNat_le, isSum]
        exact within)]

/-- The loop keeps its invariant. -/
theorem PlanReached.step
    {target : UInt64}
    {done : List UInt64}
    {planning next : List SolidGroupPlan × Option SolidGroupPlan}
    (reached : PlanReached target done planning)
    (short : done.length + 1 < 2 ^ 64)
    {length : UInt64}
    (stepped : planItem target done.length length planning = .ok next) :
    PlanReached target (done ++ [length]) next := by
  rcases reached with ⟨rfl, rfl⟩ | ⟨closed, current, planned, rfl⟩
  · cases stepped
    refine Or.inr ⟨[], [length], planned_singleton target length, ?_⟩
    rw [runPlan, total_singleton, UInt64.ofNat_toNat]
    rfl
  · rw [planItem_of_planned planned short] at stepped
    split at stepped
    · cases stepped
    · split at stepped
      · cases stepped
        rename_i within
        exact Or.inr ⟨closed, current ++ [length], planned.extend within, rfl⟩
      · cases stepped
        rename_i heavy
        exact Or.inr ⟨closed ++ [current], [length],
          planned.close (Nat.lt_of_not_le heavy), rfl⟩

theorem planReached_of_ok
    {target : UInt64}
    {lengths : List UInt64}
    (short : lengths.length < 2 ^ 64)
    {planning : List SolidGroupPlan × Option SolidGroupPlan}
    (planned : forEnum (planItem target) 0 lengths ([], none) =
      .ok planning) :
    PlanReached target lengths planning := by
  refine forEnum_invariant
    (fun done planning => done.length < 2 ^ 64 →
      PlanReached target done planning)
    (fun _ => Or.inl ⟨rfl, rfl⟩) ?_ planned short
  intro done length planning next reached stepped short
  rw [List.length_append, List.length_singleton] at short
  exact (reached (by omega)).step short stepped

/-! ## The plan -/

/-- The groups are the fewest that the target allows, each of neighbouring
files, and only a single file exceeds the target. -/
structure SolidPlan
    (target : UInt64)
    (lengths : List UInt64)
    (groups : List SolidGroupPlan) : Prop where
  tiles : Tiles 0 (groups.map fun group => (group.firstItem, group.itemCount))
    lengths.length
  nonempty : ∀ group ∈ groups, 0 < group.itemCount
  exact : ∀ group ∈ groups, group.uncompressedLen.toNat =
    total UInt64.toNat (group.items lengths)
  oversized : ∀ group ∈ groups, target < group.uncompressedLen →
    group.itemCount = 1
  tight : groups.IsChain fun left right =>
    ∀ length ∈ lengths[right.firstItem]?,
      target.toNat < left.uncompressedLen.toNat + length.toNat
  fewest : IsLeast
    {count | ∃ runs,
      Splits UInt64.toNat target.toNat lengths runs ∧ runs.length = count}
    groups.length

theorem length_runPlans (firstItem : Nat) (runs : List (List UInt64)) :
    (runPlans firstItem runs).length = runs.length := by
  induction runs generalizing firstItem with
  | nil => rfl
  | cons run runs inductionHypothesis =>
      rw [runPlans, List.length_cons, List.length_cons, inductionHypothesis]

/-- The plans of a tight split are tight. -/
theorem tight_runPlans
    {target : UInt64}
    {runs : List (List UInt64)}
    (tight : Tight UInt64.toNat target.toNat runs)
    (nonempty : ∀ run ∈ runs, run ≠ [])
    (fits : ∀ run ∈ runs, total UInt64.toNat run < 2 ^ 64)
    (before : List UInt64) :
    (runPlans before.length runs).IsChain fun left right =>
      ∀ length ∈ (before ++ runs.flatten)[right.firstItem]?,
        target.toNat < left.uncompressedLen.toNat + length.toNat := by
  induction runs generalizing before with
  | nil => exact List.isChain_nil
  | cons run runs inductionHypothesis =>
      have rest := inductionHypothesis tight.of_cons
        (fun run member => nonempty run (List.mem_cons_of_mem _ member))
        (fun run member => fits run (List.mem_cons_of_mem _ member))
        (before ++ run)
      rw [List.length_append, List.append_assoc] at rest
      cases runs with
      | nil => exact List.isChain_singleton _
      | cons next runs =>
          refine List.isChain_cons_cons.mpr ⟨?_, rest⟩
          intro length isFirst
          have value : (runPlan before.length run).uncompressedLen.toNat =
              total UInt64.toNat run :=
            toNat_ofNat_of_lt (fits run List.mem_cons_self)
          rw [value]
          refine (List.isChain_cons_cons.mp tight).1 length ?_
          obtain ⟨item, items, rfl⟩ := List.exists_cons_of_ne_nil
            (nonempty next (List.mem_cons_of_mem _ List.mem_cons_self))
          have index : (before ++ (run :: (item :: items) :: runs).flatten)[
              before.length + run.length]? = some item := by
            rw [List.getElem?_append_right (Nat.le_add_right _ _),
              List.flatten_cons, List.getElem?_append_right (by omega)]
            simp
          rw [runPlan, index] at isFirst
          exact isFirst

/-- A tight split makes a plan. -/
theorem solidPlan_of_runs
    {target : UInt64}
    {lengths : List UInt64}
    {runs : List (List UInt64)}
    (splits : Splits UInt64.toNat target.toNat lengths runs)
    (tight : Tight UInt64.toNat target.toNat runs)
    (fits : ∀ run ∈ runs, total UInt64.toNat run < 2 ^ 64) :
    SolidPlan target lengths (runPlans 0 runs) := by
  obtain rfl := splits.flatten
  have each {group : SolidGroupPlan} (member : group ∈ runPlans 0 runs) :
      ∃ run ∈ runs, group.itemCount = run.length ∧
        group.uncompressedLen.toNat = total UInt64.toNat run ∧
        group.items runs.flatten = run := by
    obtain ⟨before, run, after, split, rfl⟩ := mem_runPlans member
    have isRun : run ∈ runs := by simp [split]
    refine ⟨run, isRun, rfl, toNat_ofNat_of_lt (fits run isRun), ?_⟩
    rw [split, Nat.zero_add, items_runPlan]
  refine ⟨?_, ?_, ?_, ?_, ?_, ?_⟩
  · have tiles := tiles_runPlans 0 runs
    rwa [Nat.zero_add] at tiles
  · intro group member
    obtain ⟨run, isRun, count, _⟩ := each member
    rw [count]
    exact List.length_pos_iff.mpr (splits.nonempty run isRun)
  · intro group member
    obtain ⟨run, isRun, _, value, items⟩ := each member
    rw [value, items]
  · intro group member large
    obtain ⟨run, isRun, count, value, _⟩ := each member
    rw [UInt64.lt_iff_toNat_lt, value] at large
    have several := List.length_pos_iff.mpr (splits.nonempty run isRun)
    rw [count]
    rcases splits.within run isRun with single | light
    · omega
    · omega
  · exact tight_runPlans tight splits.nonempty fits []
  · rw [length_runPlans]
    refine ⟨⟨runs, splits, rfl⟩, ?_⟩
    rintro count ⟨other, otherSplits, rfl⟩
    refine tight.length_le splits.nonempty otherSplits.within ?_
    rw [otherSplits.flatten]

/-- A compressed profile plans what the loop leaves. -/
theorem planSolidGroups_of_compressed
    {profile : CompressionProfile}
    (compressed : profile ≠ .raw)
    {lengths : List UInt64}
    (short : lengths.length < 2 ^ 64)
    {groups : List SolidGroupPlan}
    (planned : planSolidGroups profile lengths = .ok groups) :
    (lengths = [] ∧ groups = []) ∨
      ∃ closed current,
        Planned (solidGroupTarget profile) lengths closed current ∧
        groups = runPlans 0 closed ++
          [runPlan closed.flatten.length current] := by
  rw [planSolidGroups, if_neg compressed, bind_eq_ok] at planned
  obtain ⟨planning, ran, finished⟩ := planned
  cases finished
  rcases planReached_of_ok short ran with
    ⟨rfl, rfl⟩ | ⟨closed, current, reached, rfl⟩
  · exact Or.inl ⟨rfl, rfl⟩
  · exact Or.inr ⟨closed, current, reached, rfl⟩

theorem solidPlan_of_ok
    {profile : CompressionProfile}
    (compressed : profile ≠ .raw)
    {lengths : List UInt64}
    (short : lengths.length < 2 ^ 64)
    {groups : List SolidGroupPlan}
    (planned : planSolidGroups profile lengths = .ok groups) :
    SolidPlan (solidGroupTarget profile) lengths groups := by
  rcases planSolidGroups_of_compressed compressed short planned with
    ⟨rfl, rfl⟩ | ⟨closed, current, reached, rfl⟩
  · exact @solidPlan_of_runs _ _ [] ⟨rfl, by simp, by simp⟩ List.isChain_nil
      (by simp)
  · have plan := solidPlan_of_runs reached.splits reached.tight reached.fits
    rwa [runPlans_append, Nat.zero_add] at plan

/-- Under every profile a group has the length of its files. -/
theorem uncompressedLen_of_planned
    {profile : CompressionProfile}
    {lengths : List UInt64}
    (short : lengths.length < 2 ^ 64)
    {groups : List SolidGroupPlan}
    (planned : planSolidGroups profile lengths = .ok groups)
    {group : SolidGroupPlan}
    (member : group ∈ groups) :
    group.uncompressedLen.toNat = total UInt64.toNat (group.items lengths) := by
  by_cases raw : profile = .raw
  · rw [planSolidGroups, if_pos raw, Except.ok.injEq] at planned
    subst planned
    obtain ⟨⟨length, index⟩, isItem, rfl⟩ := List.mem_map.mp member
    obtain ⟨below, found⟩ := List.getElem?_eq_some_iff.mp
      (List.mem_zipIdx_iff_getElem?.mp isItem)
    rw [SolidGroupPlan.items, List.drop_eq_getElem_cons below, found]
    exact (Nat.add_zero _).symm
  · exact (solidPlan_of_ok raw short planned).exact group member

/-- Where the loop fails: the sum of the current group and the next file
overflows. -/
theorem planItem_eq_error
    {target : UInt64}
    {done : List UInt64}
    {planning : List SolidGroupPlan × Option SolidGroupPlan}
    (reached : PlanReached target done planning)
    (short : done.length + 1 < 2 ^ 64)
    {length : UInt64}
    {failure : PithosError} :
    planItem target done.length length planning = .error failure ↔
      failure = .integerOverflow ∧ ∃ last ∈ planning.2,
        2 ^ 64 ≤ last.uncompressedLen.toNat + length.toNat := by
  rcases reached with ⟨rfl, rfl⟩ | ⟨closed, current, planned, rfl⟩
  · simp [planItem]
  · rw [planItem_of_planned planned short, ← planned.uncompressedLen]
    simp only [Option.mem_some_iff, exists_eq_left']
    split
    · rename_i overflow
      constructor
      · rintro ⟨⟩
        exact ⟨rfl, overflow⟩
      · rintro ⟨rfl, _⟩
        rfl
    · rename_i fits
      constructor
      · intro failed
        split at failed <;> cases failed
      · rintro ⟨_, overflow⟩
        exact absurd overflow fits

/-- The groups of a compressed profile are the fewest runs of neighbouring files
that keep every group of several files within the target of the profile, and
planning fails only where the current group and the next file together overflow.
A slice is shorter than the range of its indices. -/
theorem planSolidGroups_spec
    {profile : CompressionProfile}
    (compressed : profile ≠ .raw)
    {lengths : List UInt64}
    (short : lengths.length < 2 ^ 64) :
    (∀ groups, planSolidGroups profile lengths = .ok groups →
      SolidPlan (solidGroupTarget profile) lengths groups) ∧
    (∀ failure, planSolidGroups profile lengths = .error failure ↔
      failure = .integerOverflow ∧ ∃ before length after groups last,
        lengths = before ++ length :: after ∧
        planSolidGroups profile before = .ok (groups ++ [last]) ∧
        2 ^ 64 ≤ last.uncompressedLen.toNat + length.toNat) := by
  refine ⟨fun _ planned => solidPlan_of_ok compressed short planned, ?_⟩
  · intro failure
    constructor
    · intro failed
      rw [planSolidGroups, if_neg compressed, bind_eq_error] at failed
      rcases failed with failed | ⟨planning, ran, finished⟩
      · obtain ⟨before, length, after, planning, rfl, ran, failed⟩ :=
          forEnum_eq_error.mp failed
        rw [List.length_append, List.length_cons] at short
        rw [Nat.zero_add] at failed
        have reached := planReached_of_ok (by omega) ran
        obtain ⟨isOverflow, last, isLast, overflow⟩ :=
          (planItem_eq_error reached (by omega)).mp failed
        refine ⟨isOverflow, before, length, after, planning.1, last, rfl, ?_,
          overflow⟩
        obtain ⟨closed, current⟩ := planning
        cases isLast
        rw [planSolidGroups, if_neg compressed, ran, ok_bind]
        rfl
      · cases finished
    · rintro ⟨rfl, before, length, after, groups, last, rfl, planned, overflow⟩
      rw [planSolidGroups, if_neg compressed, bind_eq_ok] at planned
      obtain ⟨planning, ran, finished⟩ := planned
      rw [List.length_append, List.length_cons] at short
      have reached := planReached_of_ok (by omega) ran
      have isLast : last ∈ planning.2 := by
        rcases planning with ⟨closed, _ | current⟩
        · rcases reached with ⟨_, same⟩ | ⟨_, _, _, same⟩
          · cases same
            simp at finished
          · cases same
        · have same := (List.append_inj' (Except.ok.inj finished) rfl).2
          exact congrArg some (List.singleton_inj.mp same)
      rw [planSolidGroups, if_neg compressed, bind_eq_error]
      refine Or.inl (forEnum_eq_error.mpr
        ⟨before, length, after, planning, rfl, ran, ?_⟩)
      rw [Nat.zero_add]
      exact (planItem_eq_error reached (by omega)).mpr
        ⟨rfl, last, isLast, overflow⟩

/-- Five files in four groups. -/
theorem fiveFiles_planned :
    SolidPlan (solidGroupTarget .stream) [2 * mib, 2 * mib, 1, 5 * mib, 1]
      [⟨0, 2, 4 * mib⟩, ⟨2, 1, 1⟩, ⟨3, 1, 5 * mib⟩, ⟨4, 1, 1⟩] :=
  (planSolidGroups_spec (by decide) (by decide)).1 _ (by decide)

end Pithos
