import Pithos.Library.Lists
import Pithos.Engine.Scan.Defs
import Pithos.Planner
import Mathlib.Data.List.Forall2
import Mathlib.Data.List.Perm.Basic

/-!
# The budget of a scan

The budget refuses a tree exactly when it has too many nodes.  Children wait for
their turn while the entries of others are kept, but every child becomes an
entry at least, so nothing is refused early that would fit.  What a directory
charges for its children it also releases.
-/

namespace Pithos

open Fallible
open Lists
open Machine
open HostPath
open FileTree
open Attempt

/-! ## The nodes of a tree -/

/-- A node at the paths where a scan meets it. -/
structure PlacedNode where
  rootScope : Path
  source : Path
  relative : Path
  node : InputNode

mutual

/-- A node and all nodes below it. -/
def InputNode.placed (rootScope : Path) (node : InputNode)
    (source relative : Path) : List PlacedNode :=
  ⟨rootScope, source, relative, node⟩ ::
    match node with
    | .directory _ children => placedChildren rootScope children source relative
    | .file _ _ | .symlink _ _ _ _ | .other => []

/-- All nodes below a directory. -/
def placedChildren (rootScope : Path) :
    List (EntryName × InputNode) → Path → Path → List PlacedNode
  | [], _, _ => []
  | (name, node) :: children, source, relative =>
      node.placed rootScope (push source name) (push relative name) ++
        placedChildren rootScope children source relative

end

/-- The nodes of an input that are archived. -/
def ScanInput.placed (single : Bool) (input : ScanInput) : List PlacedNode :=
  match single, input.node with
  | true, .directory _ children =>
      placedChildren input.rootScope children input.path []
  | _, node =>
      node.placed input.rootScope input.path ((fileName input.path).getD [])

/-- The nodes to archive. -/
def nodesToArchive (inputs : List ScanInput) : List PlacedNode :=
  inputs.flatMap (ScanInput.placed (singleDirectory inputs))

/-- The entry stands for the node. -/
structure ScannedEntry.IsOf (entry : ScannedEntry) (placed : PlacedNode) :
    Prop where
  source : entry.source = placed.source
  archivePath : ArchivePath.fromRelative placed.relative = .ok entry.archivePath
  sortKey : entry.sortKey = entry.archivePath.sortKey
  node : match placed.node with
    | .file metadata identity =>
        entry.metadata = metadata ∧ entry.identity = identity ∧
          entry.kind = .file
    | .directory metadata _ =>
        entry.metadata = metadata ∧ entry.identity = none ∧
          entry.kind = .directory
    | .symlink metadata targetPath _ targetIsDir =>
        entry.metadata = metadata ∧ entry.identity = none ∧
          ∃ target, LinkTarget.fromRelative targetPath = .ok target ∧
            entry.kind = .symlink target targetIsDir
    | .other => False

/-- The node passes every check of the scan that is not about the budget. -/
def PlacedNode.Admissible (limits : DecodeLimits) (placed : PlacedNode) : Prop :=
  ∃ archivePath,
    ArchivePath.fromRelative placed.relative = .ok archivePath ∧
      validateArchivePath archivePath limits = .ok () ∧
        match placed.node with
        | .file _ _ | .directory _ _ => True
        | .symlink _ targetPath canonicalTarget _ =>
            ∃ target, LinkTarget.fromRelative targetPath = .ok target ∧
              target.resolvesWithin archivePath = true ∧
                startsWith canonicalTarget placed.rootScope = true
        | .other => False

theorem placed_length_pos
    (rootScope : Path)
    (node : InputNode)
    (source relative : Path) :
    0 < (node.placed rootScope source relative).length := by
  unfold InputNode.placed
  exact Nat.succ_pos _

theorem placedChildren_eq_flatMap
    (rootScope : Path)
    (children : List (EntryName × InputNode))
    (source relative : Path) :
    placedChildren rootScope children source relative =
      children.flatMap fun child =>
        child.2.placed rootScope (push source child.1)
          (push relative child.1) := by
  induction children with
  | nil => rfl
  | cons child children inductionHypothesis =>
      rw [placedChildren, List.flatMap_cons, inductionHypothesis]

theorem childScans_eq_map
    (limits : DecodeLimits)
    (rootScope : Path)
    (children : List (EntryName × InputNode)) :
    childScans limits rootScope children =
      children.map fun child =>
        (child.1, scanNode limits rootScope child.2) := by
  induction children with
  | nil => rfl
  | cons child children inductionHypothesis =>
      rw [childScans, List.map_cons, inductionHypothesis]

/-- To show something of every node, show it of a directory from its
children. -/
theorem InputNode.inductionOn
    {motive : InputNode → Prop}
    (node : InputNode)
    (file : ∀ metadata identity, motive (.file metadata identity))
    (directory : ∀ metadata children,
      (∀ child ∈ children, motive child.2) →
        motive (.directory metadata children))
    (symlink : ∀ metadata target canonical targetIsDir,
      motive (.symlink metadata target canonical targetIsDir))
    (other : motive .other) :
    motive node :=
  @InputNode.rec motive
    (fun children => ∀ child ∈ children, motive child.2)
    (fun child => motive child.2)
    file directory symlink other
    (fun _ member => absurd member List.not_mem_nil)
    (fun child children childHolds rest current member => by
      rcases List.mem_cons.mp member with rfl | member
      · exact childHolds
      · exact rest current member)
    (fun _ _ holds => holds)
    node

/-! ## What a step of the scan does -/

/-- What is held stays within the budget of bytes. -/
def ScanBudget.Within (budget : ScanBudget) : Prop :=
  budget.retainedBytes.toNat + budget.transientBytes.toNat ≤
    budget.maxBytes.toNat

/-- A release takes back no more than is charged. -/
def BudgetStep.Covered (step : BudgetStep) : Prop :=
  ∀ bytes ∈ step.released, bytes ≤ step.before.transientBytes

/-- The errors by which the budget of bytes refuses an entry. -/
def ByteBudgetHit (failure : PithosError) : Prop :=
  failure = .resourceLimit "scan memory" ∨ failure = .integerOverflow

instance (failure : PithosError) : Decidable (ByteBudgetHit failure) :=
  inferInstanceAs (Decidable (_ ∨ _))

/-- A later state of the same scan. -/
structure Scan.Extends (start final : Scan) : Prop where
  maxEntries : final.budget.maxEntries = start.budget.maxEntries
  maxBytes : final.budget.maxBytes = start.budget.maxBytes
  within : start.budget.Within → final.budget.Within
  history : ∃ steps, final.history = start.history ++ steps ∧
    (∀ step ∈ steps, step.Covered) ∧
      (start.budget.Within → ∀ step ∈ steps, step.after.Within ∧
        step.after.maxBytes = start.budget.maxBytes)

/-- The scan has kept the nodes, and what it charges for children has changed by
a number of bytes. -/
structure Scan.Visited
    (start : Scan)
    (nodes : List PlacedNode)
    (charged : Int)
    (final : Scan) : Prop extends start.Extends final where
  entries : ∃ entries order,
    final.entries = start.entries ++ entries ∧ order.Perm nodes ∧
      List.Forall₂ ScannedEntry.IsOf entries order
  retained : final.budget.retainedEntries.toNat =
    start.budget.retainedEntries.toNat + nodes.length
  fits : start.budget.retainedEntries ≤ start.budget.maxEntries →
    final.budget.retainedEntries ≤ final.budget.maxEntries
  transient : (final.budget.transientBytes.toNat : Int) =
    start.budget.transientBytes.toNat + charged

/-- The scan has been refused on its way through admissible nodes: there are too
many of them, or they take too many bytes. -/
structure Scan.Refused
    (limits : DecodeLimits)
    (start : Scan)
    (nodes : List PlacedNode)
    (failure : PithosError)
    (final : Scan) : Prop extends start.Extends final where
  failure : (∀ placed ∈ nodes, placed.Admissible limits) →
    failure = .resourceLimit "entry count" ∧
        start.budget.maxEntries.toNat <
          start.budget.retainedEntries.toNat + nodes.length ∨
      ByteBudgetHit failure

/-- A part of the scan visits the nodes or is refused. -/
def Visits
    (limits : DecodeLimits)
    (nodes : List PlacedNode)
    (charged : Int)
    (action : ScanM Unit)
    (start : Scan) : Prop :=
  Ends action start (fun _ final => start.Visited nodes charged final)
    (fun failure final => start.Refused limits nodes failure final)

theorem Scan.Extends.refl (scan : Scan) : scan.Extends scan where
  maxEntries := rfl
  maxBytes := rfl
  within := id
  history := ⟨[], by simp⟩

theorem Scan.Extends.trans
    {first second third : Scan}
    (before : first.Extends second)
    (after : second.Extends third) :
    first.Extends third where
  maxEntries := after.maxEntries.trans before.maxEntries
  maxBytes := after.maxBytes.trans before.maxBytes
  within := after.within ∘ before.within
  history := by
    obtain ⟨steps, isHistory, covered, within⟩ := before.history
    obtain ⟨laterSteps, isLater, laterCovered, laterWithin⟩ := after.history
    refine ⟨steps ++ laterSteps, ?_, ?_, ?_⟩
    · rw [isLater, isHistory, List.append_assoc]
    · intro step member
      exact (List.mem_append.mp member).elim (covered step)
        (laterCovered step)
    · intro isWithin step member
      rcases List.mem_append.mp member with member | member
      · exact within isWithin step member
      · rw [← before.maxBytes]
        exact laterWithin (before.within isWithin) step member

theorem Scan.Visited.refl (scan : Scan) : scan.Visited [] 0 scan where
  toExtends := .refl scan
  entries := ⟨[], [], by simp⟩
  retained := rfl
  fits := id
  transient := by simp

theorem Scan.Visited.trans
    {first second third : Scan}
    {nodes laterNodes : List PlacedNode}
    {charged laterCharged : Int}
    (before : first.Visited nodes charged second)
    (after : second.Visited laterNodes laterCharged third) :
    first.Visited (nodes ++ laterNodes) (charged + laterCharged) third where
  toExtends := before.toExtends.trans after.toExtends
  entries := by
    obtain ⟨entries, order, isEntries, permuted, areOf⟩ := before.entries
    obtain ⟨later, laterOrder, isLater, laterPermuted, laterAreOf⟩ :=
      after.entries
    refine ⟨entries ++ later, order ++ laterOrder, ?_,
      permuted.append laterPermuted, List.rel_append areOf laterAreOf⟩
    rw [isLater, isEntries, List.append_assoc]
  retained := by
    rw [after.retained, before.retained, List.length_append, Nat.add_assoc]
  fits := after.fits ∘ before.fits
  transient := by
    rw [after.transient, before.transient, Int.add_assoc]

/-- A refusal further on is a refusal of all. -/
theorem Scan.Visited.refused
    {limits : DecodeLimits}
    {first second third : Scan}
    {nodes laterNodes : List PlacedNode}
    {charged : Int}
    {failure : PithosError}
    (before : first.Visited nodes charged second)
    (after : second.Refused limits laterNodes failure third) :
    first.Refused limits (nodes ++ laterNodes) failure third where
  toExtends := before.toExtends.trans after.toExtends
  failure := by
    intro admissible
    refine (after.failure fun placed member =>
      admissible placed (List.mem_append_right _ member)).imp_left ?_
    rintro ⟨isCount, tooMany⟩
    refine ⟨isCount, ?_⟩
    rw [before.maxEntries, before.retained] at tooMany
    rw [List.length_append]
    omega

theorem Scan.Refused.append
    {limits : DecodeLimits}
    {start final : Scan}
    {nodes : List PlacedNode}
    {failure : PithosError}
    (refused : start.Refused limits nodes failure final)
    (laterNodes : List PlacedNode) :
    start.Refused limits (nodes ++ laterNodes) failure final where
  toExtends := refused.toExtends
  failure := by
    intro admissible
    refine (refused.failure fun placed member =>
      admissible placed (List.mem_append_left _ member)).imp_left ?_
    rintro ⟨isCount, tooMany⟩
    refine ⟨isCount, ?_⟩
    rw [List.length_append]
    omega

section Rules

variable
  {limits : DecodeLimits}
  {start : Scan}

/-- One part after the other. -/
theorem Visits.bind
    {nodes laterNodes : List PlacedNode}
    {charged laterCharged : Int}
    {action next : ScanM Unit}
    (first : Visits limits nodes charged action start)
    (second : ∀ scan, start.Visited nodes charged scan →
      Visits limits laterNodes laterCharged next scan) :
    Visits limits (nodes ++ laterNodes) (charged + laterCharged)
      (action >>= fun _ => next) start := by
  have early := first.mono (fun _ _ visited => visited) fun _ _ refused =>
    refused.append laterNodes
  refine early.bind ?_
  intro _ scan visited
  exact (second scan visited).mono (fun _ _ later => visited.trans later)
    fun _ _ refused => visited.refused refused

/-- A check that admissible nodes pass unless the budget is used up. -/
theorem visits_lift
    {Value : Type}
    {nodes : List PlacedNode}
    {charged : Int}
    {result : Result Value}
    {next : Value → ScanM Unit}
    (fails : (∀ placed ∈ nodes, placed.Admissible limits) →
      ∀ failure, result = .error failure →
        failure = .resourceLimit "entry count" ∧
            start.budget.maxEntries.toNat <
              start.budget.retainedEntries.toNat + nodes.length ∨
          ByteBudgetHit failure)
    (rest : ∀ value, result = .ok value →
      Visits limits nodes charged (next value) start) :
    Visits limits nodes charged (lift result >>= next) start := by
  refine ends_lift_bind.mpr ⟨rest, fun failure isError => ?_⟩
  exact ⟨.refl start, fun admissible => fails admissible failure isError⟩

end Rules

/-! ## The operations of the budget -/

/-- A sum of charges that does not fit fails as an overflow. -/
theorem sumCharges_error
    {charges : List UInt64}
    {failure : PithosError}
    (failed : sumCharges charges = .error failure) :
    failure = .integerOverflow := by
  unfold sumCharges at failed
  generalize (0 : UInt64) = start at failed
  induction charges generalizing start with
  | nil => cases failed
  | cons charge charges inductionHypothesis =>
      rw [List.foldlM_cons, bind_eq_error] at failed
      rcases failed with failed | ⟨total, _, failed⟩
      · exact (okOr_eq_error.mp failed).2.symm
      · exact inductionHypothesis total failed

theorem wordOfLength_error
    {length : Nat}
    {failure : PithosError}
    (failed : wordOfLength length = .error failure) :
    failure = .integerOverflow := by
  rcases bind_eq_error.mp failed with failed | ⟨_, _, failed⟩
  · exact (ensure_eq_error.mp failed).2.symm
  · cases failed

theorem linkTargetMemoryBytes_error
    {target : LinkTarget}
    {failure : PithosError}
    (failed : linkTargetMemoryBytes target = .error failure) :
    failure = .integerOverflow := by
  unfold linkTargetMemoryBytes at failed
  generalize (0 : UInt64) = start at failed
  generalize target.components = components at failed
  induction components generalizing start with
  | nil => cases failed
  | cons component components inductionHypothesis =>
      rw [List.foldlM_cons, bind_eq_error] at failed
      rcases failed with failed | ⟨total, _, failed⟩
      · rcases bind_eq_error.mp failed with failed | ⟨bytes, _, failed⟩
        · cases component with
          | parent => cases failed
          | normal component => exact wordOfLength_error failed
        · rcases bind_eq_error.mp failed with failed | ⟨_, _, failed⟩ <;>
            exact (okOr_eq_error.mp failed).2.symm
      · exact inductionHypothesis total failed

namespace ScanBudget

variable {budget next : ScanBudget} {bytes : UInt64} {failure : PithosError}

theorem ensureBytes_error
    (failed : budget.ensureBytes bytes = .error failure) :
    ByteBudgetHit failure := by
  rcases bind_eq_error.mp failed with failed | ⟨_, _, failed⟩
  · exact .inr (sumCharges_error failed)
  · exact .inl (ensure_eq_error.mp failed).2.symm

/-- What is held and what is to be held stay within the budget together. -/
theorem ensureBytes_ok
    {done : Unit}
    (checked : budget.ensureBytes bytes = .ok done) :
    budget.retainedBytes.toNat + budget.transientBytes.toNat + bytes.toNat ≤
      budget.maxBytes.toNat := by
  obtain ⟨total, isSum, within⟩ := bind_eq_ok.mp checked
  rw [sumCharges, foldlM_checkedAdd_eq_ok] at isSum
  rw [ensure_eq_ok, UInt64.le_iff_toNat_le] at within
  simp only [Runs.total, List.map_cons, List.map_nil, List.sum_cons,
    List.sum_nil, UInt64.toNat_zero] at isSum
  omega

theorem ensurePendingSlot_ok
    {pending : Nat}
    {done : Unit}
    (checked : budget.ensurePendingSlot pending = .ok done) :
    budget.retainedEntries.toNat + pending < budget.maxEntries.toNat := by
  obtain ⟨_, small, checked⟩ := bind_eq_ok.mp checked
  obtain ⟨total, added, room⟩ := bind_eq_ok.mp checked
  rw [ensure_eq_ok] at small
  rw [okOr_eq_ok, checkedAdd_eq_some, UInt64.toNat_ofNat_of_lt' small] at added
  rw [ensure_eq_ok, UInt64.lt_iff_toNat_lt] at room
  omega

/-- A child is refused when the entries left are all spoken for. -/
theorem ensurePendingSlot_error
    {pending : Nat}
    (small : budget.retainedEntries.toNat + pending < 2 ^ 64)
    (failed : budget.ensurePendingSlot pending = .error failure) :
    failure = .resourceLimit "entry count" ∧
      budget.maxEntries.toNat ≤ budget.retainedEntries.toNat + pending := by
  have word : pending < UInt64.size := by
    simp only [UInt64.size]
    omega
  have value := UInt64.toNat_ofNat_of_lt' word
  obtain ⟨total, added, isTotal⟩ := @checkedAdd_of_lt budget.retainedEntries
    (UInt64.ofNat pending) (by omega)
  rw [ensurePendingSlot, ensure_of (by omega), ok_bind, added, okOr_some,
    ok_bind, ensure_eq_error, UInt64.lt_iff_toNat_lt] at failed
  exact ⟨failed.2.symm, by omega⟩

theorem reserveTransient_error
    (failed : budget.reserveTransient bytes = .error failure) :
    ByteBudgetHit failure := by
  rcases bind_eq_error.mp failed with failed | ⟨_, _, failed⟩
  · exact ensureBytes_error failed
  · rcases bind_eq_error.mp failed with failed | ⟨_, _, failed⟩
    · exact .inr (okOr_eq_error.mp failed).2.symm
    · cases failed

theorem reserveTransient_ok
    (reserved : budget.reserveTransient bytes = .ok next) :
    next = { budget with transientBytes := next.transientBytes } ∧
      next.transientBytes.toNat =
        budget.transientBytes.toNat + bytes.toNat ∧ next.Within := by
  obtain ⟨_, checked, reserved⟩ := bind_eq_ok.mp reserved
  obtain ⟨transientBytes, added, isNext⟩ := bind_eq_ok.mp reserved
  rw [okOr_eq_ok, checkedAdd_eq_some] at added
  obtain rfl := Except.ok.inj isNext
  refine ⟨rfl, added.symm, ?_⟩
  have bound := ensureBytes_ok checked
  simp only [Within]
  omega

theorem releaseTransient_toNat (bytes : UInt64) (budget : ScanBudget) :
    (budget.releaseTransient bytes).transientBytes.toNat =
      budget.transientBytes.toNat - bytes.toNat := by
  have bound := budget.transientBytes.toNat_lt
  simp only [releaseTransient, UInt64.toNat_ofNat']
  omega

variable
  {source : Path}
  {archivePath : ArchivePath}
  {sortKey : List UInt8}
  {kindBytes : UInt64}

theorem retainEntry_error
    (failed : budget.retainEntry source archivePath sortKey kindBytes =
      .error failure) :
    failure = .resourceLimit "entry count" ∧
        budget.maxEntries.toNat < budget.retainedEntries.toNat + 1 ∨
      ByteBudgetHit failure := by
  rcases bind_eq_error.mp failed with failed | ⟨_, _, failed⟩
  · obtain ⟨full, rfl⟩ := ensure_eq_error.mp failed
    rw [UInt64.lt_iff_toNat_lt] at full
    exact .inl ⟨rfl, by omega⟩
  refine .inr ?_
  rcases bind_eq_error.mp failed with failed | ⟨_, _, failed⟩
  · exact .inr (wordOfLength_error failed)
  rcases bind_eq_error.mp failed with failed | ⟨_, _, failed⟩
  · exact .inr (sumCharges_error failed)
  rcases bind_eq_error.mp failed with failed | ⟨_, _, failed⟩
  · exact ensureBytes_error failed
  rcases bind_eq_error.mp failed with failed | ⟨_, _, failed⟩
  · exact .inr (okOr_eq_error.mp failed).2.symm
  · cases failed

theorem retainEntry_ok
    (kept : budget.retainEntry source archivePath sortKey kindBytes =
      .ok next) :
    next = { budget with
        retainedEntries := next.retainedEntries
        retainedBytes := next.retainedBytes } ∧
      next.retainedEntries.toNat = budget.retainedEntries.toNat + 1 ∧
        next.retainedEntries ≤ next.maxEntries ∧ next.Within := by
  obtain ⟨_, room, kept⟩ := bind_eq_ok.mp kept
  obtain ⟨pathLen, _, kept⟩ := bind_eq_ok.mp kept
  obtain ⟨bytes, _, kept⟩ := bind_eq_ok.mp kept
  obtain ⟨_, checked, kept⟩ := bind_eq_ok.mp kept
  obtain ⟨retainedBytes, added, isNext⟩ := bind_eq_ok.mp kept
  rw [okOr_eq_ok, checkedAdd_eq_some] at added
  rw [ensure_eq_ok, UInt64.lt_iff_toNat_lt] at room
  obtain rfl := Except.ok.inj isNext
  have bound := ensureBytes_ok checked
  have word := budget.maxEntries.toNat_lt
  have count : (budget.retainedEntries + 1).toNat =
      budget.retainedEntries.toNat + 1 := by
    rw [UInt64.toNat_add, UInt64.toNat_one, Nat.mod_eq_of_lt (by omega)]
  refine ⟨rfl, count, ?_, ?_⟩
  · rw [UInt64.le_iff_toNat_le, count]
    exact room
  · simp only [Within]
    omega

end ScanBudget

/-! ## Steps of the scan -/

section Steps

variable
  {limits : DecodeLimits}
  {start : Scan}

theorem extends_of_setBudget
    {released : Option UInt64}
    {budget : ScanBudget}
    (maxEntries : budget.maxEntries = start.budget.maxEntries)
    (maxBytes : budget.maxBytes = start.budget.maxBytes)
    (within : start.budget.Within → budget.Within)
    (covered : ∀ bytes ∈ released, bytes ≤ start.budget.transientBytes) :
    start.Extends { start with
      budget := budget
      history := start.history ++ [⟨start.budget, released, budget⟩] } where
  maxEntries := maxEntries
  maxBytes := maxBytes
  within := within
  history := by
    refine ⟨_, rfl, ?_, ?_⟩
    · intro step member
      obtain rfl := List.mem_singleton.mp member
      exact covered
    · intro isWithin step member
      obtain rfl := List.mem_singleton.mp member
      exact ⟨within isWithin, maxBytes⟩

theorem visits_reserveTransient (bytes : UInt64) :
    Visits limits [] bytes.toNat (reserveTransient bytes) start := by
  unfold reserveTransient Visits
  rw [ends_get_bind]
  refine visits_lift (fun _ _ failed =>
    .inr (ScanBudget.reserveTransient_error failed)) ?_
  intro budget reserved
  obtain ⟨isNext, transient, within⟩ := ScanBudget.reserveTransient_ok reserved
  have maxEntries : budget.maxEntries = start.budget.maxEntries := by
    rw [isNext]
  have maxBytes : budget.maxBytes = start.budget.maxBytes := by rw [isNext]
  have retained : budget.retainedEntries = start.budget.retainedEntries := by
    rw [isNext]
  exact
    { toExtends := extends_of_setBudget maxEntries maxBytes (fun _ => within)
        nofun
      entries := ⟨[], [], by simp⟩
      retained := by simp [retained]
      fits := by simp [retained, maxEntries]
      transient := by simp [transient] }

theorem visits_releaseTransient
    {bytes : UInt64}
    (covered : bytes ≤ start.budget.transientBytes) :
    Visits limits [] (-bytes.toNat) (releaseTransient bytes) start := by
  have rest := ScanBudget.releaseTransient_toNat bytes start.budget
  have value := UInt64.le_iff_toNat_le.mp covered
  exact
    { toExtends := by
        refine extends_of_setBudget rfl rfl ?_ ?_
        · intro within
          simp only [ScanBudget.Within, rest] at within ⊢
          simp only [ScanBudget.releaseTransient]
          omega
        · rintro _ ⟨⟩
          exact covered
      entries := ⟨[], [], by simp⟩
      retained := rfl
      fits := id
      transient := by
        simp only [rest]
        omega }

/-- Keeping the entry of a node. -/
theorem visits_retainEntry
    {placed : PlacedNode}
    {entry : ScannedEntry}
    {source : Path}
    {archivePath : ArchivePath}
    {sortKey : List UInt8}
    {kindBytes : UInt64}
    (isOf : entry.IsOf placed) :
    Visits limits [placed] 0
      (do
        retainEntry source archivePath sortKey kindBytes
        pushEntry entry) start := by
  unfold retainEntry Visits
  rw [bind_assoc, ends_get_bind, bind_assoc]
  refine visits_lift (fun _ _ failed =>
    ScanBudget.retainEntry_error failed) ?_
  intro budget kept
  obtain ⟨isNext, retained, fits, within⟩ := ScanBudget.retainEntry_ok kept
  have maxEntries : budget.maxEntries = start.budget.maxEntries := by
    rw [isNext]
  have maxBytes : budget.maxBytes = start.budget.maxBytes := by rw [isNext]
  have transient : budget.transientBytes = start.budget.transientBytes := by
    rw [isNext]
  have changed := @extends_of_setBudget start none budget maxEntries maxBytes
    (fun _ => within) nofun
  exact
    { toExtends := ⟨changed.maxEntries, changed.maxBytes, changed.within,
        changed.history⟩
      entries := ⟨[entry], [placed], rfl, .refl _, .cons isOf .nil⟩
      retained := retained
      fits := fun _ => fits
      transient := by simp [transient] }

/-- The bytes charged for children. -/
def pendingCharges (children : List PendingChild) : Nat :=
  (children.map fun child => child.memoryCharge.toNat).sum

/-- The child waits for the entry of a listing. -/
structure PendingChild.Awaits
    (directory : Path)
    (child : PendingChild)
    (entry : EntryName × NodeScan) : Prop where
  path : child.path = push directory entry.1
  scan : child.scan = entry.2

/-- Listing a directory charges every child.  It is refused only when there are
more children than entries left. -/
theorem ends_listChildren
    {directory : Path}
    {entries : List (EntryName × NodeScan)}
    {done : List PendingChild}
    (room : done = [] ∨
      start.budget.retainedEntries.toNat + done.length ≤
        start.budget.maxEntries.toNat) :
    Ends (listChildren directory entries done) start
      (fun children final => ∃ listed, children = done ++ listed ∧
        List.Forall₂ (PendingChild.Awaits directory) listed entries ∧
          start.Visited [] (pendingCharges listed) final)
      (fun failure final => start.Extends final ∧
        (failure = .resourceLimit "entry count" ∧
            start.budget.maxEntries.toNat <
              start.budget.retainedEntries.toNat +
                (done.length + entries.length) ∨
          ByteBudgetHit failure)) := by
  induction entries generalizing done start with
  | nil =>
      rw [listChildren, ends_pure]
      exact ⟨[], by simp, .nil, .refl start⟩
  | cons entry entries inductionHypothesis =>
      have word := start.budget.maxEntries.toNat_lt
      have small : start.budget.retainedEntries.toNat + done.length <
          2 ^ 64 := by
        rcases room with rfl | room
        · exact start.budget.retainedEntries.toNat_lt
        · omega
      have named := fileName_push entry.1.property.toIsNormal directory
      rw [listChildren, ensurePendingSlot, bind_assoc, ends_get_bind]
      refine ends_lift_bind.mpr ⟨fun _ slot => ?_, fun failure failed => ?_⟩
      swap
      · obtain ⟨isCount, full⟩ :=
          ScanBudget.ensurePendingSlot_error small failed
        refine ⟨.refl start, .inl ⟨isCount, ?_⟩⟩
        simp only [List.length_cons]
        omega
      have free := ScanBudget.ensurePendingSlot_ok slot
      have parsed : ArchivePath.fromRelative entry.1 =
          .ok ⟨[PathComponent.fromOsStr entry.1]⟩ :=
        ArchivePath.fromRelative_of_components (List.cons_ne_nil _ [])
          (components_name entry.1.property.toIsNormal)
      simp only [named, okOr_some, ends_lift_ok_bind]
      rw [parsed, ends_lift_ok_bind]
      refine ends_lift_bind.mpr ⟨fun pathLen _ => ?_, fun failure failed =>
        ⟨.refl start, .inr (.inr (wordOfLength_error failed))⟩⟩
      refine ends_lift_bind.mpr ⟨fun charge _ => ?_, fun failure failed =>
        ⟨.refl start, .inr (.inr (sumCharges_error failed))⟩⟩
      refine ((@visits_reserveTransient .default start charge).mono
        (fun _ _ visited => visited) fun failure final refused =>
          ⟨refused.toExtends, ?_⟩).bind ?_
      · intro _ scan visited
        have stillRoom : scan.budget.retainedEntries.toNat + (done.length + 1) ≤
            scan.budget.maxEntries.toNat := by
          rw [visited.retained, visited.maxEntries]
          simp only [List.length_nil]
          omega
        refine (inductionHypothesis (.inr (by
          simpa using stillRoom))).mono ?_ ?_
        · rintro children final ⟨listed, rfl, awaits, later⟩
          refine ⟨_ :: listed, List.append_assoc _ _ _,
            .cons ⟨rfl, rfl⟩ awaits, ?_⟩
          simpa [pendingCharges] using visited.trans later
        · rintro failure final ⟨extended, refused⟩
          refine ⟨visited.toExtends.trans extended, refused.imp_left ?_⟩
          rintro ⟨isCount, tooMany⟩
          refine ⟨isCount, ?_⟩
          rw [visited.retained, visited.maxEntries] at tooMany
          simp only [List.length_append, List.length_nil,
            List.length_cons] at tooMany ⊢
          omega
      · refine (refused.failure (by rintro _ ⟨⟩)).imp_left fun tooMany =>
          ⟨tooMany.1, ?_⟩
        exact tooMany.2.trans_le (Nat.add_le_add_left (Nat.zero_le _) _)

/-- Scanning the children that wait gives back what was charged for them. -/
theorem visits_scanPending
    {archivePrefix : Path}
    {children : List PendingChild}
    {nodes : List (List PlacedNode)}
    (scans : List.Forall₂ (fun child below =>
      ∃ name, fileName child.path = some name ∧
        ∀ scan, Visits limits below 0
          (child.scan child.path (push archivePrefix name)) scan)
      children nodes)
    (covered : pendingCharges children ≤
      start.budget.transientBytes.toNat) :
    Visits limits nodes.flatten (-pendingCharges children)
      (scanPending archivePrefix children) start := by
  induction scans generalizing start with
  | nil => exact Scan.Visited.refl start
  | @cons child below children nodes first rest inductionHypothesis =>
      obtain ⟨name, named, visits⟩ := first
      have charges : pendingCharges (child :: children) =
          child.memoryCharge.toNat + pendingCharges children := rfl
      have later (scan : Scan) (visited : start.Visited below 0 scan) :
          Visits limits nodes.flatten
            (-child.memoryCharge.toNat + -pendingCharges children)
            (releaseTransient child.memoryCharge >>= fun _ =>
              scanPending archivePrefix children) scan := by
        have same := visited.transient
        refine (visits_releaseTransient
          (UInt64.le_iff_toNat_le.mpr (by omega))).bind fun last freed => ?_
        have left := freed.transient
        exact inductionHypothesis (by omega)
      have total : (0 : Int) +
          (-child.memoryCharge.toNat + -pendingCharges children) =
            -pendingCharges (child :: children) := by
        rw [charges]
        omega
      rw [scanPending, named, okOr_some, List.flatten_cons, ← total]
      exact (visits start).bind later

theorem Visits.perm
    {nodes permuted : List PlacedNode}
    {charged : Int}
    {action : ScanM Unit}
    (visits : Visits limits nodes charged action start)
    (isPerm : nodes.Perm permuted) :
    Visits limits permuted charged action start := by
  refine Ends.mono visits (fun _ final visited => ?_)
    fun failure final refused => ?_
  · obtain ⟨entries, order, isEntries, isOrder, areOf⟩ := visited.entries
    exact { visited with
      entries := ⟨entries, order, isEntries, isOrder.trans isPerm, areOf⟩
      retained := by rw [visited.retained, isPerm.length_eq] }
  · exact { refused with
      failure := fun admissible => by
        rw [← isPerm.length_eq]
        exact refused.failure fun placed member =>
          admissible placed (isPerm.mem_iff.mp member) }

/-- Scanning a listed directory visits what is below its entries and leaves the
transient bytes as they were. -/
theorem visits_scanListing
    {directory archivePrefix : Path}
    {entries : List (EntryName × NodeScan)}
    {nodes : List (List PlacedNode)}
    (scans : List.Forall₂ (fun entry below =>
      0 < below.length ∧
        ∀ scan, Visits limits below 0
          (entry.2 (push directory entry.1) (push archivePrefix entry.1)) scan)
      entries nodes) :
    Visits limits nodes.flatten 0
      (scanListing directory archivePrefix entries) start := by
  have enough : entries.length ≤ nodes.flatten.length := by
    induction scans with
    | nil => exact Nat.zero_le _
    | cons first _ inductionHypothesis =>
        rw [List.flatten_cons, List.length_append, List.length_cons]
        have := first.1
        omega
  refine Ends.bind ((ends_listChildren (.inl rfl)).mono
    (fun children scan listed => listed) fun failure final refused =>
      ⟨refused.1, fun _ => refused.2.imp_left fun tooMany =>
        ⟨tooMany.1, tooMany.2.trans_le (by
          simp only [List.length_nil]
          omega)⟩⟩) ?_
  rintro children scan ⟨listed, isListed, awaits, visited⟩
  obtain rfl : children = listed := isListed
  have pending := forall₂_trans awaits scans fun child entry below waits scan =>
    show ∃ name, fileName child.path = some name ∧
        ∀ scan, Visits limits below 0
          (child.scan child.path (push archivePrefix name)) scan by
      rw [waits.path, waits.scan]
      exact ⟨entry.1, fileName_push entry.1.property.toIsNormal directory,
        scan.2⟩
  have isPerm := List.perm_insertionSort
    (fun left right : PendingChild => left.sortKey ≤ right.sortKey) children
  obtain ⟨sortedNodes, sorted, nodesPerm⟩ :=
    List.perm_comp_forall₂ isPerm pending
  have sameCharges : pendingCharges (children.insertionSort fun left right =>
      left.sortKey ≤ right.sortKey) = pendingCharges children :=
    (isPerm.map _).sum_eq
  have charged := visited.transient
  have scanned := @visits_scanPending limits scan archivePrefix _ _ sorted
    (by omega)
  have whole : (pendingCharges children : Int) +
      -pendingCharges (children.insertionSort fun left right =>
        left.sortKey ≤ right.sortKey) = 0 := by omega
  refine Ends.mono (scanned.perm nodesPerm.flatten) (fun _ final later => ?_)
    fun failure final refused => visited.refused refused
  exact whole ▸ visited.trans later

/-- The checks on the path of a node come first. -/
theorem visits_checked
    {placed : PlacedNode}
    {below : List PlacedNode}
    {charged : Int}
    {next : ArchivePath → ScanM Unit}
    (rest : ∀ archivePath,
      ArchivePath.fromRelative placed.relative = .ok archivePath →
        Visits limits (placed :: below) charged (next archivePath) start) :
    Visits limits (placed :: below) charged
      (do
        let archivePath ← lift (ArchivePath.fromRelative placed.relative)
        lift (validateArchivePath archivePath limits)
        next archivePath) start := by
  refine visits_lift (fun admissible failure failed => ?_)
    fun archivePath parsed => visits_lift (fun admissible failure failed => ?_)
      fun _ _ => rest archivePath parsed
  · obtain ⟨_, isPath, _⟩ := admissible placed List.mem_cons_self
    rw [isPath] at failed
    cases failed
  · obtain ⟨_, isPath, valid, _⟩ := admissible placed List.mem_cons_self
    obtain rfl := Except.ok.inj (parsed.symm.trans isPath)
    rw [valid] at failed
    cases failed

theorem visits_childScans
    {rootScope : Path}
    {children : List (EntryName × InputNode)}
    (visits : ∀ child ∈ children, ∀ source relative scan,
      Visits limits (child.2.placed rootScope source relative) 0
        (scanNode limits rootScope child.2 source relative) scan)
    (directory archivePrefix : Path) :
    Visits limits (placedChildren rootScope children directory archivePrefix) 0
      (scanListing directory archivePrefix
        (childScans limits rootScope children)) start := by
  rw [placedChildren_eq_flatMap, childScans_eq_map, List.flatMap_def]
  refine visits_scanListing ?_
  rw [List.forall₂_map_left_iff, List.forall₂_map_right_iff, List.forall₂_same]
  exact fun child member => ⟨placed_length_pos _ _ _ _, visits child member _ _⟩

/-- Scanning a node visits it and all nodes below it. -/
theorem visits_scanNode
    (limits : DecodeLimits)
    (rootScope : Path)
    (node : InputNode)
    (source relative : Path)
    (start : Scan) :
    Visits limits (node.placed rootScope source relative) 0
      (scanNode limits rootScope node source relative) start := by
  induction node using InputNode.inductionOn generalizing source relative
    start with
  | file metadata identity =>
      unfold InputNode.placed scanNode
      refine @visits_checked limits start ⟨rootScope, source, relative, _⟩ _ _
        _ fun archivePath parsed => ?_
      exact visits_retainEntry ⟨rfl, parsed, rfl, rfl, rfl, rfl⟩
  | directory metadata children inductionHypothesis =>
      unfold InputNode.placed scanNode
      refine @visits_checked limits start ⟨rootScope, source, relative, _⟩ _ _
        _ fun archivePath parsed => ?_
      have kept := @visits_retainEntry limits start
        ⟨rootScope, source, relative, .directory metadata children⟩
        ⟨source, archivePath, archivePath.sortKey, metadata, none, .directory⟩
        source archivePath archivePath.sortKey 0
        ⟨rfl, parsed, rfl, rfl, rfl, rfl⟩
      have whole := kept.bind fun scan _ =>
        @visits_childScans limits scan _ _ inductionHypothesis source relative
      rw [bind_assoc] at whole
      exact whole
  | symlink metadata targetPath canonicalTarget targetIsDir =>
      unfold InputNode.placed scanNode
      refine @visits_checked limits start ⟨rootScope, source, relative, _⟩ _ _
        _ fun archivePath parsed => ?_
      have admitted (admissible : ∀ placed ∈
            [(⟨rootScope, source, relative, .symlink metadata targetPath
              canonicalTarget targetIsDir⟩ : PlacedNode)],
          placed.Admissible limits) :
          ∃ target, LinkTarget.fromRelative targetPath = .ok target ∧
            target.resolvesWithin archivePath = true ∧
              startsWith canonicalTarget rootScope = true := by
        obtain ⟨_, isPath, _, target⟩ := admissible _ List.mem_cons_self
        obtain rfl := Except.ok.inj (parsed.symm.trans isPath)
        exact target
      refine visits_lift (fun admissible failure failed => ?_)
        fun target isTarget => ?_
      · obtain ⟨_, isTarget, _⟩ := admitted admissible
        rw [isTarget] at failed
        cases failed
      refine visits_lift (fun admissible failure failed => ?_) fun _ _ => ?_
      · obtain ⟨_, isAdmitted, within, _⟩ := admitted admissible
        obtain rfl := Except.ok.inj (isTarget.symm.trans isAdmitted)
        exact absurd within (ensure_eq_error.mp failed).1
      refine visits_lift (fun admissible failure failed => ?_) fun _ _ => ?_
      · obtain ⟨_, _, _, inScope⟩ := admitted admissible
        exact absurd inScope (ensure_eq_error.mp failed).1
      refine visits_lift (fun _ failure failed =>
        .inr (.inr (linkTargetMemoryBytes_error failed))) fun kindBytes _ => ?_
      exact visits_retainEntry
        ⟨rfl, parsed, rfl, rfl, rfl, target, isTarget, rfl⟩
  | other =>
      unfold InputNode.placed scanNode
      refine @visits_checked limits start ⟨rootScope, source, relative, _⟩ _ _
        _ fun archivePath parsed => ?_
      have checked : Ends (lift (.error .unsupportedFileType) : ScanM Unit)
          start (fun _ final => start.Visited [⟨rootScope, source, relative,
            .other⟩] 0 final) fun failure final =>
              start.Refused limits [⟨rootScope, source, relative, .other⟩]
                failure final := by
        refine (ends_lift _).mpr ⟨nofun, ?_⟩
        rintro _ ⟨⟩
        refine ⟨.refl start, fun admissible => ?_⟩
        obtain ⟨_, _, _, impossible⟩ := admissible _ List.mem_cons_self
        exact impossible.elim
      exact checked

end Steps

/-! ## Whole scans -/

section Inputs

variable
  {limits : DecodeLimits}
  {start : Scan}

/-- Scanning an input visits its nodes. -/
theorem visits_scanInput (single : Bool) (input : ScanInput) :
    Visits limits (input.placed single) 0 (scanInput limits single input)
      start := by
  have named :
      Visits limits
        (input.node.placed input.rootScope input.path
          ((fileName input.path).getD [])) 0
        (do
          let name ← lift (okOr (fileName input.path) .unsafePath)
          scanNode limits input.rootScope input.node input.path name) start := by
    cases isName : fileName input.path with
    | none =>
        refine visits_lift (fun admissible _ _ => ?_) nofun
        obtain ⟨_, isPath, _⟩ := admissible
          ⟨input.rootScope, input.path, [], input.node⟩ (by
            unfold InputNode.placed
            exact List.mem_cons_self)
        cases isPath
    | some name => exact visits_scanNode limits input.rootScope _ _ _ start
  obtain ⟨path, node, canonical, canonicalParent⟩ := input
  cases single with
  | false => cases node <;> exact named
  | true =>
      cases node with
      | directory metadata children =>
          exact visits_childScans (fun child _ source relative scan =>
            visits_scanNode limits _ child.2 source relative scan) path []
      | file metadata identity => exact named
      | symlink metadata target canonical targetIsDir => exact named
      | other => exact named

theorem visits_forM (single : Bool) (inputs : List ScanInput) :
    Visits limits (inputs.flatMap (ScanInput.placed single)) 0
      (inputs.forM (scanInput limits single)) start := by
  induction inputs generalizing start with
  | nil => exact Scan.Visited.refl start
  | cons input inputs inductionHypothesis =>
      rw [List.flatMap_cons]
      exact (visits_scanInput single input).bind fun _ _ => inductionHypothesis

/-- There are at least as many nodes as inputs, unless the only input is an
empty directory. -/
theorem length_le_nodesToArchive
    {inputs : List ScanInput}
    (tooMany : limits.maxEntries.toNat < inputs.length)
    (positive : 1 ≤ limits.maxEntries) :
    inputs.length ≤ (nodesToArchive inputs).length := by
  rw [UInt64.le_iff_toNat_le, UInt64.toNat_one] at positive
  have notSingle : singleDirectory inputs = false := by
    unfold singleDirectory
    split
    · simp only [List.length_singleton] at tooMany
      omega
    · rfl
  unfold nodesToArchive
  rw [notSingle]
  clear notSingle tooMany
  induction inputs with
  | nil => exact Nat.zero_le _
  | cons input inputs inductionHypothesis =>
      have some : 0 < (input.placed false).length :=
        placed_length_pos input.rootScope input.node input.path _
      rw [List.flatMap_cons, List.length_append, List.length_cons]
      omega

/-- What a scan ends in. -/
theorem ends_scanSorted
    {inputs : List ScanInput}
    (positive : 1 ≤ limits.maxEntries) :
    Ends (scanSorted inputs limits) (Scan.start limits)
      (fun entries final =>
        (Scan.start limits).Visited (nodesToArchive inputs) 0 final ∧
          entries = final.entries.insertionSort (fun left right =>
            left.sortKey ≤ right.sortKey) ∧
          entries.IsChain fun left right => left.sortKey ≠ right.sortKey)
      (fun failure final => (Scan.start limits).Extends final ∧
        ((∀ placed ∈ nodesToArchive inputs, placed.Admissible limits) →
          failure = .invalidMetadata "duplicate input path" ∧
              (Scan.start limits).Visited (nodesToArchive inputs) 0 final ∨
            failure = .resourceLimit "entry count" ∧
                limits.maxEntries.toNat < (nodesToArchive inputs).length ∨
              ByteBudgetHit failure)) := by
  refine ends_lift_bind.mpr ⟨fun _ few => ?_, fun failure failed => ?_⟩
  swap
  · obtain ⟨tooMany, rfl⟩ := ensure_eq_error.mp failed
    refine ⟨.refl _, fun _ => .inr (.inl ⟨rfl, ?_⟩)⟩
    have := @length_le_nodesToArchive limits inputs (by omega) positive
    omega
  refine (visits_forM (singleDirectory inputs) inputs).mono
    (fun _ _ visited => visited) (fun failure final refused =>
      ⟨refused.toExtends, fun admissible => .inr (?_)⟩) |>.bind ?_
  · intro _ final visited
    rw [ends_get_bind]
    refine ends_lift_bind.mpr ⟨fun _ distinct => ?_, fun failure failed => ?_⟩
    · exact ⟨visited, rfl, ensure_eq_ok.mp distinct⟩
    · exact ⟨visited.toExtends, fun _ =>
        .inl ⟨(ensure_eq_error.mp failed).2.symm, visited⟩⟩
  · refine (refused.failure admissible).imp_left fun tooMany =>
      ⟨tooMany.1, ?_⟩
    have count := tooMany.2
    rwa [show (Scan.start limits).budget.retainedEntries.toNat = 0 from rfl,
      Nat.zero_add] at count

end Inputs

/-- The state in which a scan ends. -/
def Scan.last {Value : Type} : EStateM.Result PithosError Scan Value → Scan
  | .ok _ final => final
  | .error _ final => final

/-- The error of a scan that fails. -/
def Scan.failure {Value : Type} :
    EStateM.Result PithosError Scan Value → Option PithosError
  | .ok _ _ => none
  | .error failure _ => some failure

theorem pairwise_lt_insertionSort
    {entries : List ScannedEntry}
    (distinct : (entries.insertionSort fun left right =>
      left.sortKey ≤ right.sortKey).IsChain fun left right =>
        left.sortKey ≠ right.sortKey) :
    (entries.insertionSort fun left right =>
      left.sortKey ≤ right.sortKey).Pairwise fun left right =>
        left.sortKey < right.sortKey := by
  have total : Std.Total fun left right : ScannedEntry =>
      left.sortKey ≤ right.sortKey :=
    ⟨fun left right => List.le_total left.sortKey right.sortKey⟩
  have transitive : IsTrans ScannedEntry fun left right =>
      left.sortKey ≤ right.sortKey :=
    ⟨fun _ _ _ before after => List.le_trans before after⟩
  refine pairwise_of_isChain ?_ ?_ (List.pairwise_insertionSort _ entries)
    distinct
  · exact fun first second third => List.lt_trans
  · exact fun left right below apart =>
      List.not_le.mp fun above => apart (List.le_antisymm below above)

/-- A scan of admissible nodes is refused for their number exactly when there
are too many, and its budget of bytes is kept at every step. -/
theorem scanInputs_budget
    (inputs : List ScanInput)
    (limits : DecodeLimits)
    (positive : 1 ≤ limits.maxEntries)
    (admissible : ∀ placed ∈ nodesToArchive inputs,
      placed.Admissible limits) :
    ((∀ failure ∈ Scan.failure (scanInputs inputs limits),
        ¬ByteBudgetHit failure) →
      (Scan.failure (scanInputs inputs limits) =
          some (.resourceLimit "entry count") ↔
        limits.maxEntries.toNat < (nodesToArchive inputs).length)) ∧
    (∀ step ∈ (Scan.last (scanInputs inputs limits)).history,
      step.after.retainedBytes.toNat + step.after.transientBytes.toNat ≤
          limits.maxMetadataBytes.toNat ∧
        ∀ bytes ∈ step.released, bytes ≤ step.before.transientBytes) ∧
    (∀ rootScope children directory archivePrefix start final,
      scanDirectoryChildren limits rootScope children directory archivePrefix
          start = .ok () final →
        final.budget.transientBytes = start.budget.transientBytes) ∧
    ∀ entries final, scanInputs inputs limits = .ok entries final →
      final.budget.transientBytes = 0 ∧
        (∃ order, order.Perm (nodesToArchive inputs) ∧
          List.Forall₂ ScannedEntry.IsOf entries order) ∧
        entries.Pairwise fun left right => left.sortKey < right.sortKey := by
  have ends := @ends_scanSorted limits inputs positive
  have fits {final : Scan}
      (visited : (Scan.start limits).Visited (nodesToArchive inputs) 0 final) :
      ¬limits.maxEntries.toNat < (nodesToArchive inputs).length := by
    have room := visited.fits UInt64.zero_le
    have count := visited.retained
    rw [UInt64.le_iff_toNat_le, visited.maxEntries] at room
    simp only [Scan.start, ScanBudget.new, UInt64.toNat_zero] at room count
    omega
  have extended :
      (Scan.start limits).Extends (Scan.last (scanInputs inputs limits)) := by
    cases ran : scanInputs inputs limits with
    | ok entries final => exact (ends.of_ok ran).1.toExtends
    | error failure final => exact (ends.of_error ran).1
  refine ⟨fun roomy => ?_, ?_, ?_, ?_⟩
  · cases ran : scanInputs inputs limits with
    | ok entries final =>
        have visited := (ends.of_ok ran).1
        exact ⟨nofun, fun tooMany => absurd tooMany (fits visited)⟩
    | error failure final =>
        rcases (ends.of_error ran).2 admissible with
          ⟨rfl, visited⟩ | ⟨rfl, tooMany⟩ | hit
        · exact ⟨nofun, fun tooMany => absurd tooMany (fits visited)⟩
        · exact ⟨fun _ => tooMany, fun _ => rfl⟩
        · rw [ran] at roomy
          exact absurd hit (roomy failure rfl)
  · obtain ⟨steps, isHistory, covered, within⟩ := extended.history
    rw [isHistory]
    intro step member
    have isWithin := within (Nat.zero_le _) step member
    refine ⟨?_, covered step member⟩
    have bound := isWithin.1
    rwa [ScanBudget.Within, isWithin.2] at bound
  · intro rootScope children directory archivePrefix start final ran
    have visits := @visits_childScans limits start rootScope children
      (fun child _ source relative scan =>
        visits_scanNode limits _ child.2 source relative scan)
      directory archivePrefix
    have same := (visits.of_ok ran).transient
    rw [← UInt64.toNat_inj]
    omega
  · intro entries final ran
    obtain ⟨visited, rfl, distinct⟩ := ends.of_ok ran
    obtain ⟨kept, order, isKept, isOrder, areOf⟩ := visited.entries
    have isAll : final.entries = kept := isKept
    have isPerm := List.perm_insertionSort
      (fun left right : ScannedEntry => left.sortKey ≤ right.sortKey)
      final.entries
    refine ⟨?_, ?_, pairwise_lt_insertionSort distinct⟩
    · have none := visited.transient
      simp only [Scan.start, ScanBudget.new, UInt64.toNat_zero] at none
      rw [← UInt64.toNat_inj, UInt64.toNat_zero]
      omega
    · rw [← isAll] at areOf
      obtain ⟨sorted, areSorted, sortedPerm⟩ :=
        List.perm_comp_forall₂ isPerm areOf
      exact ⟨sorted, sortedPerm.trans isOrder, areSorted⟩

/-- The name of one lowercase letter. -/
def letterName (letter : UInt8) (isLetter : 97 ≤ letter) : EntryName :=
  ⟨[letter], by
    have different (byte : UInt8) (smaller : byte < 97) : letter ≠ byte := by
      rintro rfl
      exact absurd isLetter (UInt8.not_le.mpr smaller)
    exact
      { isPiece := ⟨List.cons_ne_nil _ _, by
          simpa using (different separator (by decide)).symm, by
          simpa [currentName] using different 46 (by decide)⟩
        notParent := by simp [parentName]
        noNul := by simpa using (different 0 (by decide)).symm }⟩

/-- A directory `x` with a file and a directory that holds another file. -/
def nestedInput : ScanInput where
  path := [120]
  node := .directory ⟨0, 0⟩
    [(letterName 98 (by decide), .directory ⟨0, 0⟩
      [(letterName 99 (by decide), .file ⟨0, 0⟩ none)]),
     (letterName 97 (by decide), .file ⟨0, 0⟩ none)]
  canonical := [47, 120]
  canonicalParent := [47]

/-- The three nodes of the example do not fit two entries. -/
theorem nestedInput_refused :
    Scan.failure (scanInputs [nestedInput]
      { DecodeLimits.default with maxEntries := 2 }) =
        some (.resourceLimit "entry count") := by
  refine ((scanInputs_budget [nestedInput]
    { DecodeLimits.default with maxEntries := 2 } (by decide) ?_).1
      (by decide)).mpr (by decide)
  intro placed member
  have nodes : nodesToArchive [nestedInput] =
      [⟨[47, 120], [120, 47, 98], [98], .directory ⟨0, 0⟩
        [(letterName 99 (by decide), .file ⟨0, 0⟩ none)]⟩,
       ⟨[47, 120], [120, 47, 98, 47, 99], [98, 47, 99], .file ⟨0, 0⟩ none⟩,
       ⟨[47, 120], [120, 47, 97], [97], .file ⟨0, 0⟩ none⟩] := rfl
  simp only [nodes, List.mem_cons, List.not_mem_nil, or_false] at member
  rcases member with rfl | rfl | rfl
  · exact ⟨⟨[⟨.utf8, [98]⟩]⟩, rfl, rfl, trivial⟩
  · exact ⟨⟨[⟨.utf8, [98]⟩, ⟨.utf8, [99]⟩]⟩, rfl, rfl, trivial⟩
  · exact ⟨⟨[⟨.utf8, [97]⟩]⟩, rfl, rfl, trivial⟩

end Pithos
