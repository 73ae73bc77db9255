import Pithos.Engine.Scan.Entries

/-!
# The order of a listing

A host lists the children of a directory in any order.  The scan finds the same
entries and keeps the same budget whatever that order is, and it fails for one
order only when it fails for every other.
-/

namespace Pithos

open Fallible
open Lists
open Machine
open HostPath
open FileTree
open Attempt

/-! ## Trees with sorted listings -/

mutual

/-- The tree with every listing in the order of the names. -/
def InputNode.sorted : InputNode → InputNode
  | .directory metadata children => .directory metadata (sortedListing children)
  | .file metadata identity => .file metadata identity
  | .symlink metadata target canonical targetIsDir =>
      .symlink metadata target canonical targetIsDir
  | .other => .other

/-- A listing in the order of the names. -/
def sortedListing : List (EntryName × InputNode) → List (EntryName × InputNode)
  | [] => []
  | (name, node) :: children =>
      (sortedListing children).orderedInsert
        (fun left right => left.1.1 ≤ right.1.1) (name, node.sorted)

end

mutual

/-- No directory lists a name twice. -/
def InputNode.NamesDistinct : InputNode → Prop
  | .directory _ children =>
      (children.map Prod.fst).Nodup ∧ childrenDistinct children
  | .file _ _ | .symlink _ _ _ _ | .other => True

/-- No directory among some children lists a name twice. -/
def childrenDistinct : List (EntryName × InputNode) → Prop
  | [] => True
  | (_, node) :: children => node.NamesDistinct ∧ childrenDistinct children

end

/-- The input with every listing in the order of the names. -/
def ScanInput.sorted (input : ScanInput) : ScanInput :=
  { input with node := input.node.sorted }

theorem sortedListing_eq (children : List (EntryName × InputNode)) :
    sortedListing children =
      (children.map fun child => (child.1, child.2.sorted)).insertionSort
        fun left right => left.1.1 ≤ right.1.1 := by
  induction children with
  | nil => rfl
  | cons child children inductionHypothesis =>
      rw [sortedListing, inductionHypothesis]
      rfl

theorem childrenDistinct_iff (children : List (EntryName × InputNode)) :
    childrenDistinct children ↔
      ∀ child ∈ children, child.2.NamesDistinct := by
  induction children with
  | nil => simp [childrenDistinct]
  | cons child children inductionHypothesis =>
      rw [childrenDistinct, inductionHypothesis, List.forall_mem_cons]

@[simp] theorem isDir_sorted (node : InputNode) :
    node.sorted.isDir = node.isDir := by
  cases node <;> simp [InputNode.sorted, InputNode.isDir]

/-! ## Scans that agree -/

/-- Two scans that have found and charged the same. -/
structure Scan.Same (scan other : Scan) : Prop where
  entries : scan.entries = other.entries
  budget : scan.budget = other.budget

theorem Scan.Same.refl (scan : Scan) : scan.Same scan := ⟨rfl, rfl⟩

theorem Scan.Same.symm {scan other : Scan} (same : scan.Same other) :
    other.Same scan :=
  ⟨same.entries.symm, same.budget.symm⟩

theorem Scan.Same.trans
    {first second third : Scan}
    (before : first.Same second)
    (after : second.Same third) :
    first.Same third :=
  ⟨before.entries.trans after.entries, before.budget.trans after.budget⟩

/-- Two ways to scan a node that agree, wherever the node stands. -/
def NodeScan.Agrees (scan other : NodeScan) : Prop :=
  ∀ source relative start otherStart, start.Same otherStart →
    Agree Eq Scan.Same (scan source relative start)
      (other source relative otherStart)

section Steps

variable {start otherStart : Scan}

/-- A change of the budget depends on the budget only. -/
theorem agree_changeBudget
    (same : start.Same otherStart)
    (released : Option UInt64)
    (change : ScanBudget → Result ScanBudget) :
    Agree Eq Scan.Same
      ((do
        let budget ← lift (change (← get).budget)
        setBudget released budget : ScanM Unit) start)
      ((do
        let budget ← lift (change (← get).budget)
        setBudget released budget : ScanM Unit) otherStart) := by
  change Agree Eq Scan.Same
    ((lift (change start.budget) >>= setBudget released : ScanM Unit) start)
    ((lift (change otherStart.budget) >>= setBudget released : ScanM Unit)
      otherStart)
  rw [same.budget]
  exact agree_lift_bind fun budget _ => ⟨rfl, same.entries, rfl⟩

theorem agree_releaseTransient
    (same : start.Same otherStart)
    (bytes : UInt64) :
    Agree Eq Scan.Same (releaseTransient bytes start)
      (releaseTransient bytes otherStart) :=
  agree_changeBudget same (some bytes) fun budget =>
    .ok (budget.releaseTransient bytes)

theorem agree_retainEntry
    (same : start.Same otherStart)
    (source : Path)
    (archivePath : ArchivePath)
    (sortKey : List UInt8)
    (kindBytes : UInt64) :
    Agree Eq Scan.Same
      (retainEntry source archivePath sortKey kindBytes start)
      (retainEntry source archivePath sortKey kindBytes otherStart) :=
  agree_changeBudget same none
    (ScanBudget.retainEntry source archivePath sortKey kindBytes)

theorem agree_pushEntry
    (same : start.Same otherStart)
    (entry : ScannedEntry) :
    Agree Eq Scan.Same (pushEntry entry start) (pushEntry entry otherStart) :=
  ⟨rfl, congrArg (· ++ [entry]) same.entries, same.budget⟩

end Steps

/-! ## The same children in another order -/

/-- The key of a child with a name. -/
def nameKey (name : EntryName) : List UInt8 :=
  ArchivePath.sortKey ⟨[PathComponent.fromOsStr name]⟩

theorem nameKey_injective : Function.Injective nameKey := by
  intro first second same
  have bytes := congrArg (List.drop 9) same
  have tail (name : EntryName) : (nameKey name).drop 9 = name.1 := by
    simp only [nameKey, ArchivePath.sortKey, List.flatMap_cons,
      List.flatMap_nil, List.append_nil, bytes_fromOsStr]
    rw [List.drop_succ_cons, List.drop_left' (Machine.length_le64 _)]
  rw [tail, tail] at bytes
  exact Subtype.ext bytes

/-- The child of a listing, before it is charged. -/
def pendingChild (directory : Path) (entry : EntryName × NodeScan) :
    Result PendingChild := do
  let pathLen ← encodedPathLen (push directory entry.1)
  let memoryCharge ← sumCharges [pendingChildMemoryOverhead, pathLen,
    UInt64.ofNat (nameKey entry.1).length]
  .ok ⟨push directory entry.1, nameKey entry.1, memoryCharge, entry.2⟩

/-- List one more child and charge it. -/
def listChild
    (directory : Path)
    (entry : EntryName × NodeScan)
    (pending : Nat) : ScanM PendingChild := do
  ensurePendingSlot pending
  let child ← lift (pendingChild directory entry)
  reserveTransient child.memoryCharge
  pure child

/-- A listing goes on with what is left of it. -/
theorem listChildren_cons
    (directory : Path)
    (entry : EntryName × NodeScan)
    (entries : List (EntryName × NodeScan))
    (done : List PendingChild) :
    listChildren directory (entry :: entries) done =
      (listChild directory entry done.length >>= fun child =>
        listChildren directory entries (done ++ [child])) := by
  have parsed : ArchivePath.fromRelative entry.1 =
      .ok ⟨[PathComponent.fromOsStr entry.1]⟩ :=
    ArchivePath.fromRelative_of_components (List.cons_ne_nil _ [])
      (components_name entry.1.property.toIsNormal)
  have named := fileName_push entry.1.property.toIsNormal directory
  rw [listChildren]
  simp only [named, okOr_some, lift_ok_bind, listChild, pendingChild,
    lift_bind_bind, bind_assoc, pure_bind]
  rw [parsed]
  rfl

/-- There is room for one more child. -/
def ScanBudget.Admits (budget : ScanBudget) (pending : Nat) (bytes : UInt64) :
    Prop :=
  budget.retainedEntries.toNat + pending < budget.maxEntries.toNat ∧
    budget.retainedBytes.toNat + budget.transientBytes.toNat + bytes.toNat ≤
      budget.maxBytes.toNat

/-- The scan after a charge. -/
def Scan.charge (bytes : UInt64) (scan : Scan) : Scan :=
  let budget := { scan.budget with
    transientBytes := scan.budget.transientBytes + bytes }
  { scan with
    budget := budget
    history := scan.history ++ [⟨scan.budget, none, budget⟩] }

section Order

variable
  {directory : Path}
  {start otherStart : Scan}

theorem ensurePendingSlot_eq_ok
    {budget : ScanBudget}
    {pending : Nat} :
    budget.ensurePendingSlot pending = .ok () ↔
      budget.retainedEntries.toNat + pending < budget.maxEntries.toNat := by
  refine ⟨ScanBudget.ensurePendingSlot_ok, fun room => ?_⟩
  have word := budget.maxEntries.toNat_lt
  cases checked : budget.ensurePendingSlot pending with
  | ok done => rfl
  | error failure =>
      have full := (ScanBudget.ensurePendingSlot_error (by omega) checked).2
      omega

theorem reserveTransient_eq_ok
    {budget next : ScanBudget}
    {bytes : UInt64} :
    budget.reserveTransient bytes = .ok next ↔
      budget.retainedBytes.toNat + budget.transientBytes.toNat + bytes.toNat ≤
          budget.maxBytes.toNat ∧
        next = { budget with transientBytes := budget.transientBytes + bytes } := by
  have word := budget.maxBytes.toNat_lt
  constructor
  · intro reserved
    obtain ⟨_, checked, reserved⟩ := bind_eq_ok.mp reserved
    obtain ⟨transientBytes, added, isNext⟩ := bind_eq_ok.mp reserved
    obtain rfl := checkedAdd_eq_some_add (okOr_eq_ok.mp added)
    exact ⟨ScanBudget.ensureBytes_ok checked, (Except.ok.inj isNext).symm⟩
  · rintro ⟨room, rfl⟩
    have value := @toNat_ofNat_of_lt (budget.retainedBytes.toNat +
      budget.transientBytes.toNat + bytes.toNat) (by omega)
    have checked : budget.ensureBytes bytes = .ok () := by
      refine bind_eq_ok.mpr ⟨UInt64.ofNat (budget.retainedBytes.toNat +
        budget.transientBytes.toNat + bytes.toNat), ?_, ?_⟩
      · rw [sumCharges, foldlM_checkedAdd_eq_ok, value]
        simp only [Runs.total, List.map_cons, List.map_nil, List.sum_cons,
          List.sum_nil, UInt64.toNat_zero]
        omega
      · rw [ensure_eq_ok, UInt64.le_iff_toNat_le, value]
        exact room
    obtain ⟨total, added, _⟩ :=
      @checkedAdd_of_lt budget.transientBytes bytes (by omega)
    obtain rfl := checkedAdd_eq_some_add added
    rw [ScanBudget.reserveTransient, checked, ok_bind, added]
    rfl

/-- When one more child can be listed. -/
theorem listChild_eq_ok
    {entry : EntryName × NodeScan}
    {pending : Nat}
    {child : PendingChild}
    {final : Scan} :
    listChild directory entry pending start = .ok child final ↔
      pendingChild directory entry = .ok child ∧
        start.budget.Admits pending child.memoryCharge ∧
        final = start.charge child.memoryCharge := by
  have slot {scan : Scan} : ensurePendingSlot pending start = .ok () scan ↔
      start.budget.retainedEntries.toNat + pending <
          start.budget.maxEntries.toNat ∧ scan = start := by
    change lift (start.budget.ensurePendingSlot pending) start = _ ↔ _
    rw [lift_eq_ok, ensurePendingSlot_eq_ok]
  have reserve {bytes : UInt64} {scan : Scan} :
      reserveTransient bytes start = .ok () scan ↔
        start.budget.retainedBytes.toNat + start.budget.transientBytes.toNat +
            bytes.toNat ≤ start.budget.maxBytes.toNat ∧
          scan = start.charge bytes := by
    change (lift (start.budget.reserveTransient bytes) >>= setBudget none)
      start = _ ↔ _
    simp only [run_bind_eq_ok, lift_eq_ok, reserveTransient_eq_ok]
    constructor
    · rintro ⟨_, _, ⟨⟨room, rfl⟩, rfl⟩, ran⟩
      cases ran
      exact ⟨room, rfl⟩
    · rintro ⟨room, rfl⟩
      exact ⟨_, _, ⟨⟨room, rfl⟩, rfl⟩, rfl⟩
  unfold listChild
  simp only [run_bind_eq_ok, lift_eq_ok]
  constructor
  · rintro ⟨_, _, slotFree, _, _, ⟨isChild, rfl⟩, _, _, reserved, ran⟩
    obtain ⟨free, rfl⟩ := slot.mp slotFree
    obtain ⟨room, rfl⟩ := reserve.mp reserved
    cases ran
    exact ⟨isChild, ⟨free, room⟩, rfl⟩
  · rintro ⟨isChild, ⟨free, room⟩, rfl⟩
    exact ⟨(), start, slot.mpr ⟨free, rfl⟩, child, start, ⟨isChild, rfl⟩, (),
      _, reserve.mpr ⟨room, rfl⟩, rfl⟩

theorem Scan.Same.charge
    (same : start.Same otherStart)
    (bytes : UInt64) :
    (start.charge bytes).Same (otherStart.charge bytes) where
  entries := same.entries
  budget := by
    change ({ start.budget with
      transientBytes := start.budget.transientBytes + bytes } : ScanBudget) = _
    rw [same.budget]
    rfl

theorem agree_listChild
    (same : start.Same otherStart)
    (entry : EntryName × NodeScan)
    (pending : Nat) :
    Agree Eq Scan.Same (listChild directory entry pending start)
      (listChild directory entry pending otherStart) := by
  refine agree_of_ok ?_ ?_
  · intro child final ran
    obtain ⟨isChild, admitted, rfl⟩ := listChild_eq_ok.mp ran
    rw [same.budget] at admitted
    exact ⟨child, _, listChild_eq_ok.mpr ⟨isChild, admitted, rfl⟩, rfl,
      same.charge _⟩
  · intro child final ran
    obtain ⟨isChild, admitted, rfl⟩ := listChild_eq_ok.mp ran
    rw [← same.budget] at admitted
    exact ⟨child, _, listChild_eq_ok.mpr ⟨isChild, admitted, rfl⟩⟩

/-- Two children can be charged in either order. -/
theorem agree_listTwo
    (same : start.Same otherStart)
    (first second : EntryName × NodeScan)
    (pending : Nat) :
    Agree (fun children others => children.1 = others.2 ∧
        children.2 = others.1) Scan.Same
      ((do
        let left ← listChild directory first pending
        let right ← listChild directory second (pending + 1)
        pure (left, right) : ScanM (PendingChild × PendingChild)) start)
      ((do
        let left ← listChild directory second pending
        let right ← listChild directory first (pending + 1)
        pure (left, right) : ScanM (PendingChild × PendingChild))
          otherStart) := by
  have swap {first second : EntryName × NodeScan} {start otherStart : Scan}
      (same : start.Same otherStart) {children : PendingChild × PendingChild}
      {final : Scan}
      (ran : (do
        let left ← listChild directory first pending
        let right ← listChild directory second (pending + 1)
        pure (left, right) : ScanM (PendingChild × PendingChild)) start =
          .ok children final) :
      ∃ otherFinal, (do
        let left ← listChild directory second pending
        let right ← listChild directory first (pending + 1)
        pure (left, right) : ScanM (PendingChild × PendingChild)) otherStart =
          .ok (children.2, children.1) otherFinal ∧ final.Same otherFinal := by
    simp only [run_bind_eq_ok, listChild_eq_ok] at ran ⊢
    obtain ⟨left, _, ⟨isLeft, admitted, rfl⟩, right, _,
      ⟨isRight, admittedToo, rfl⟩, finished⟩ := ran
    cases finished
    have word := start.budget.maxBytes.toNat_lt
    have sum (bytes : UInt64)
        (fits : start.budget.retainedBytes.toNat +
          start.budget.transientBytes.toNat + bytes.toNat ≤
            start.budget.maxBytes.toNat) :
        (start.budget.transientBytes + bytes).toNat =
          start.budget.transientBytes.toNat + bytes.toNat := by
      rw [UInt64.toNat_add, Nat.mod_eq_of_lt (by omega)]
    obtain ⟨slot, room⟩ := admitted
    obtain ⟨slotToo, roomToo⟩ := admittedToo
    simp only [Scan.charge, sum left.memoryCharge room] at slotToo roomToo
    have roomRight : start.budget.retainedBytes.toNat +
        start.budget.transientBytes.toNat + right.memoryCharge.toNat ≤
          start.budget.maxBytes.toNat := by omega
    refine ⟨(otherStart.charge right.memoryCharge).charge left.memoryCharge,
      ⟨right, _, ⟨isRight, ?_, rfl⟩, left, _, ⟨isLeft, ?_, rfl⟩, rfl⟩, ?_⟩
    · rw [← same.budget]
      exact ⟨slot, roomRight⟩
    · simp only [ScanBudget.Admits, Scan.charge, ← same.budget,
        sum right.memoryCharge roomRight]
      omega
    · refine ⟨same.entries, ?_⟩
      simp only [Scan.charge, ← same.budget, UInt64.add_assoc,
        UInt64.add_comm left.memoryCharge]
  refine agree_of_ok ?_ ?_
  · intro children final ran
    obtain ⟨otherFinal, isOther, sameFinal⟩ := swap same ran
    exact ⟨_, otherFinal, isOther, ⟨rfl, rfl⟩, sameFinal⟩
  · intro children final ran
    obtain ⟨otherFinal, isOther, _⟩ := swap same.symm ran
    exact ⟨_, otherFinal, isOther⟩

/-- The children listed before do not matter for the next ones. -/
theorem agree_listChildren_done
    {entries : List (EntryName × NodeScan)}
    {done others : List PendingChild}
    (permuted : done.Perm others)
    (same : start.Same otherStart) :
    Agree List.Perm Scan.Same (listChildren directory entries done start)
      (listChildren directory entries others otherStart) := by
  induction entries generalizing done others start otherStart with
  | nil => exact ⟨permuted, same⟩
  | cons entry entries inductionHypothesis =>
      rw [listChildren_cons, listChildren_cons, permuted.length_eq]
      refine (agree_listChild same entry _).bind ?_
      rintro child _ scan otherScan rfl sameLater
      exact inductionHypothesis (permuted.append_right [child]) sameLater

/-- A permuted listing has the same children. -/
theorem agree_listChildren
    {entries permuted : List (EntryName × NodeScan)}
    (isPerm : entries.Perm permuted)
    {done others : List PendingChild}
    (donePerm : done.Perm others)
    (same : start.Same otherStart) :
    Agree List.Perm Scan.Same (listChildren directory entries done start)
      (listChildren directory permuted others otherStart) := by
  induction isPerm generalizing done others start otherStart with
  | nil => exact agree_listChildren_done donePerm same
  | cons entry _ inductionHypothesis =>
      rw [listChildren_cons, listChildren_cons, donePerm.length_eq]
      refine (agree_listChild same entry _).bind ?_
      rintro child _ scan otherScan rfl sameLater
      exact inductionHypothesis (donePerm.append_right [child]) sameLater
  | swap first second entries =>
      have two (first second : EntryName × NodeScan)
          (done : List PendingChild) :
          listChildren directory (first :: second :: entries) done =
            ((do
              let left ← listChild directory first done.length
              let right ← listChild directory second (done.length + 1)
              pure (left, right) : ScanM (PendingChild × PendingChild)) >>=
              fun children => listChildren directory entries
                (done ++ [children.1, children.2])) := by
        simp only [listChildren_cons, bind_assoc, pure_bind,
          List.length_append, List.length_singleton, List.append_assoc,
          List.singleton_append]
      rw [two, two, donePerm.length_eq]
      refine (agree_listTwo same second first _).bind ?_
      rintro ⟨left, right⟩ ⟨_, _⟩ scan otherScan ⟨rfl, rfl⟩ sameLater
      refine agree_listChildren_done (donePerm.append ?_) sameLater
      exact List.Perm.swap _ _ _
  | trans _ _ firstHypothesis secondHypothesis =>
      refine ((firstHypothesis donePerm same).trans
        (secondHypothesis (List.Perm.refl others) (.refl otherStart))
        Scan.Same.trans).mono ?_
      rintro children last ⟨middle, before, after⟩
      exact before.trans after

/-- The children that are listed are those of the entries. -/
theorem listed_of_ok
    {entries : List (EntryName × NodeScan)}
    {done children : List PendingChild}
    {final : Scan}
    (ran : listChildren directory entries done start = .ok children final) :
    children.map PendingChild.sortKey =
      done.map PendingChild.sortKey ++
        entries.map fun entry => nameKey entry.1 := by
  induction entries generalizing done start with
  | nil =>
      cases ran
      simp
  | cons entry entries inductionHypothesis =>
      rw [listChildren_cons, run_bind_eq_ok] at ran
      obtain ⟨child, _, listed, ran⟩ := ran
      obtain ⟨isChild, _, _⟩ := listChild_eq_ok.mp listed
      have key : child.sortKey = nameKey entry.1 := by
        simp only [pendingChild, bind_eq_ok, Except.ok.injEq] at isChild
        obtain ⟨_, _, _, _, rfl⟩ := isChild
        rfl
      rw [inductionHypothesis ran, List.map_append, List.map_singleton, key,
        List.append_assoc]
      rfl

end Order

/-! ## Whole trees -/

/-- Two children that are scanned alike. -/
structure PendingChild.Agrees (child other : PendingChild) : Prop where
  path : child.path = other.path
  sortKey : child.sortKey = other.sortKey
  memoryCharge : child.memoryCharge = other.memoryCharge
  scan : NodeScan.Agrees child.scan other.scan

/-- Two entries of a listing that are scanned alike. -/
def EntriesAgree (entry other : EntryName × NodeScan) : Prop :=
  entry.1 = other.1 ∧ NodeScan.Agrees entry.2 other.2

section Trees

variable
  {directory : Path}
  {start otherStart : Scan}

theorem agree_listChild_scans
    (same : start.Same otherStart)
    {entry other : EntryName × NodeScan}
    (alike : EntriesAgree entry other)
    (pending : Nat) :
    Agree PendingChild.Agrees Scan.Same
      (listChild directory entry pending start)
      (listChild directory other pending otherStart) := by
  obtain ⟨name, scan⟩ := entry
  obtain ⟨otherName, otherScan⟩ := other
  obtain ⟨rfl, scans⟩ := alike
  have pure : ∀ {child scan}, pendingChild directory (name, scan) = .ok child →
      child.scan = scan ∧ ∀ otherScan,
        pendingChild directory (name, otherScan) =
          .ok { child with scan := otherScan } := by
    intro child scan isChild
    simp only [pendingChild, bind_eq_ok, Except.ok.injEq] at isChild ⊢
    obtain ⟨pathLen, isLen, charge, isCharge, rfl⟩ := isChild
    exact ⟨rfl, fun _ => ⟨pathLen, isLen, charge, isCharge, rfl⟩⟩
  refine agree_of_ok ?_ ?_
  · intro child final ran
    obtain ⟨isChild, admitted, rfl⟩ := listChild_eq_ok.mp ran
    obtain ⟨rfl, others⟩ := pure isChild
    rw [same.budget] at admitted
    exact ⟨_, _, listChild_eq_ok.mpr ⟨others otherScan, admitted, rfl⟩,
      ⟨rfl, rfl, rfl, scans⟩, same.charge _⟩
  · intro child final ran
    obtain ⟨isChild, admitted, rfl⟩ := listChild_eq_ok.mp ran
    obtain ⟨_, others⟩ := pure isChild
    rw [← same.budget] at admitted
    exact ⟨_, _, listChild_eq_ok.mpr ⟨others scan, admitted, rfl⟩⟩

theorem agree_listChildren_scans
    {entries others : List (EntryName × NodeScan)}
    (alike : List.Forall₂ EntriesAgree entries others)
    {done otherDone : List PendingChild}
    (doneAlike : List.Forall₂ PendingChild.Agrees done otherDone)
    (same : start.Same otherStart) :
    Agree (List.Forall₂ PendingChild.Agrees) Scan.Same
      (listChildren directory entries done start)
      (listChildren directory others otherDone otherStart) := by
  induction alike generalizing done otherDone start otherStart with
  | nil => exact ⟨doneAlike, same⟩
  | cons first _ inductionHypothesis =>
      rw [listChildren_cons, listChildren_cons, doneAlike.length_eq]
      refine (agree_listChild_scans same first _).bind ?_
      intro child other scan otherScan childAlike sameLater
      exact inductionHypothesis (List.rel_append doneAlike
        (.cons childAlike .nil)) sameLater

theorem agree_scanPending
    {archivePrefix : Path}
    {children others : List PendingChild}
    (alike : List.Forall₂ PendingChild.Agrees children others)
    (same : start.Same otherStart) :
    Agree Eq Scan.Same (scanPending archivePrefix children start)
      (scanPending archivePrefix others otherStart) := by
  induction alike generalizing start otherStart with
  | nil => exact ⟨rfl, same⟩
  | @cons child other _ _ childAlike _ inductionHypothesis =>
      rw [scanPending, scanPending, childAlike.path, childAlike.memoryCharge]
      refine agree_lift_bind fun name _ => ?_
      refine (childAlike.scan _ _ _ _ same).bind ?_
      rintro _ _ scan otherScan rfl sameLater
      refine (agree_releaseTransient sameLater _).bind ?_
      rintro _ _ last otherLast rfl sameLast
      exact inductionHypothesis sameLast

/-- Permuted children with distinct keys have one sorted order. -/
theorem insertionSort_eq_of_perm
    {children others : List PendingChild}
    (permuted : children.Perm others)
    (distinct : (children.map PendingChild.sortKey).Nodup) :
    (children.insertionSort fun left right => left.sortKey ≤ right.sortKey) =
      others.insertionSort fun left right => left.sortKey ≤ right.sortKey := by
  have total : Std.Total fun left right : PendingChild =>
      left.sortKey ≤ right.sortKey :=
    ⟨fun left right => List.le_total left.sortKey right.sortKey⟩
  have transitive : IsTrans PendingChild fun left right =>
      left.sortKey ≤ right.sortKey :=
    ⟨fun _ _ _ before after => List.le_trans before after⟩
  have sorted := List.perm_insertionSort
    (fun left right : PendingChild => left.sortKey ≤ right.sortKey) children
  have otherSorted := List.perm_insertionSort
    (fun left right : PendingChild => left.sortKey ≤ right.sortKey) others
  refine List.Perm.eq_of_pairwise ?_ (List.pairwise_insertionSort _ children)
    (List.pairwise_insertionSort _ others)
    ((sorted.trans permuted).trans otherSorted.symm)
  intro left right isLeft isRight below above
  exact List.inj_on_of_nodup_map distinct (sorted.mem_iff.mp isLeft)
    (permuted.mem_iff.mpr (otherSorted.mem_iff.mp isRight))
    (List.le_antisymm below above)

/-- A permuted listing with scans that agree is scanned alike. -/
theorem agree_scanListing
    {archivePrefix : Path}
    {entries middle others : List (EntryName × NodeScan)}
    (permuted : entries.Perm middle)
    (alike : List.Forall₂ EntriesAgree middle others)
    (distinct : (entries.map Prod.fst).Nodup)
    (same : start.Same otherStart) :
    Agree Eq Scan.Same (scanListing directory archivePrefix entries start)
      (scanListing directory archivePrefix others otherStart) := by
  have keys (children : List PendingChild) (final : Scan)
      (ran : listChildren directory entries [] start = .ok children final) :
      (children.map PendingChild.sortKey).Nodup := by
    rw [listed_of_ok ran, List.map_nil, List.nil_append]
    have keys := distinct.map nameKey_injective
    rwa [List.map_map] at keys
  have listed := @agree_listChildren directory _ _ _ _ permuted _ _
    (List.Perm.refl []) same
  refine (((listed.trans (agree_listChildren_scans alike .nil
    (.refl otherStart)) Scan.Same.trans).of_ok keys).bind ?_)
  rintro children last scan otherScan ⟨⟨middle, isPerm, areAlike⟩, keys⟩
    sameLater
  refine agree_scanPending ?_ sameLater
  rw [insertionSort_eq_of_perm isPerm keys]
  refine forall₂_insertionSort ?_ areAlike
  intro left other right otherRight leftAlike rightAlike
  rw [leftAlike.sortKey, rightAlike.sortKey]

/-- The children of a directory are scanned alike when their listing is
sorted. -/
theorem agree_childScans
    {limits : DecodeLimits}
    {rootScope archivePrefix : Path}
    {children : List (EntryName × InputNode)}
    (distinct : (children.map Prod.fst).Nodup)
    (alike : ∀ child ∈ children, NodeScan.Agrees
      (scanNode limits rootScope child.2)
      (scanNode limits rootScope child.2.sorted))
    (same : start.Same otherStart) :
    Agree Eq Scan.Same
      (scanListing directory archivePrefix
        (childScans limits rootScope children) start)
      (scanListing directory archivePrefix
        (childScans limits rootScope (sortedListing children)) otherStart) := by
  rw [childScans_eq_map, childScans_eq_map, sortedListing_eq]
  have isPerm := (List.perm_insertionSort
    (fun left right : EntryName × InputNode => left.1.1 ≤ right.1.1)
    (children.map fun child => (child.1, child.2.sorted))).map
      fun child => (child.1, scanNode limits rootScope child.2)
  have inOrder : List.Forall₂ (fun other entry => EntriesAgree entry other)
      ((children.map fun child => (child.1, child.2.sorted)).map
        fun child => (child.1, scanNode limits rootScope child.2))
      (children.map fun child =>
        (child.1, scanNode limits rootScope child.2)) := by
    rw [List.map_map, List.forall₂_map_left_iff, List.forall₂_map_right_iff,
      List.forall₂_same]
    exact fun child member => ⟨rfl, alike child member⟩
  obtain ⟨middle, areAlike, permuted⟩ := List.perm_comp_forall₂ isPerm inOrder
  refine agree_scanListing permuted.symm areAlike.flip ?_ same
  rwa [List.map_map]

/-- A tree is scanned alike when its listings are sorted. -/
theorem agree_scanNode
    (limits : DecodeLimits)
    (rootScope : Path)
    (node : InputNode)
    (distinct : node.NamesDistinct) :
    NodeScan.Agrees (scanNode limits rootScope node)
      (scanNode limits rootScope node.sorted) := by
  induction node using InputNode.inductionOn with
  | file metadata identity =>
      intro source relative start otherStart same
      unfold InputNode.sorted scanNode
      refine agree_lift_bind fun archivePath _ => agree_lift_bind fun _ _ => ?_
      refine (agree_retainEntry same _ _ _ _).bind ?_
      rintro _ _ scan otherScan rfl sameLater
      exact agree_pushEntry sameLater _
  | directory metadata children inductionHypothesis =>
      intro source relative start otherStart same
      rw [InputNode.NamesDistinct, childrenDistinct_iff] at distinct
      unfold InputNode.sorted scanNode
      refine agree_lift_bind fun archivePath _ => agree_lift_bind fun _ _ => ?_
      refine (agree_retainEntry same _ _ _ _).bind ?_
      rintro _ _ scan otherScan rfl sameLater
      refine (agree_pushEntry sameLater _).bind ?_
      rintro _ _ last otherLast rfl sameLast
      exact agree_childScans distinct.1 (fun child member =>
        inductionHypothesis child member (distinct.2 child member)) sameLast
  | symlink metadata targetPath canonicalTarget targetIsDir =>
      intro source relative start otherStart same
      unfold InputNode.sorted scanNode
      refine agree_lift_bind fun archivePath _ => agree_lift_bind fun _ _ =>
        agree_lift_bind fun target _ => agree_lift_bind fun _ _ =>
          agree_lift_bind fun _ _ => agree_lift_bind fun kindBytes _ => ?_
      refine (agree_retainEntry same _ _ _ _).bind ?_
      rintro _ _ scan otherScan rfl sameLater
      exact agree_pushEntry sameLater _
  | other =>
      intro source relative start otherStart same
      unfold InputNode.sorted scanNode
      exact agree_lift_bind fun archivePath _ => agree_lift_bind fun _ _ =>
        agree_lift _ same

/-- An input is scanned alike when its listings are sorted. -/
theorem agree_scanInput
    (limits : DecodeLimits)
    (single : Bool)
    (input : ScanInput)
    (distinct : input.node.NamesDistinct)
    (same : start.Same otherStart) :
    Agree Eq Scan.Same (scanInput limits single input start)
      (scanInput limits single input.sorted otherStart) := by
  have named : Agree Eq Scan.Same
      ((do
        let name ← lift (okOr (fileName input.path) .unsafePath)
        scanNode limits input.rootScope input.node input.path name :
          ScanM Unit) start)
      ((do
        let name ← lift (okOr (fileName input.path) .unsafePath)
        scanNode limits input.rootScope input.node.sorted input.path name :
          ScanM Unit) otherStart) :=
    agree_lift_bind fun name _ =>
      agree_scanNode limits _ input.node distinct _ _ _ _ same
  obtain ⟨path, node, canonical, canonicalParent⟩ := input
  cases single with
  | false => cases node <;> exact named
  | true =>
      cases node with
      | file metadata identity => exact named
      | symlink metadata target canonical targetIsDir => exact named
      | other => exact named
      | directory metadata children =>
          rw [InputNode.NamesDistinct, childrenDistinct_iff] at distinct
          exact agree_childScans distinct.1 (fun child member =>
            agree_scanNode limits _ child.2 (distinct.2 child member)) same

theorem agree_scanInputs_forM
    (limits : DecodeLimits)
    (single : Bool)
    {inputs : List ScanInput}
    (distinct : ∀ input ∈ inputs, input.node.NamesDistinct)
    (same : start.Same otherStart) :
    Agree Eq Scan.Same (inputs.forM (scanInput limits single) start)
      ((inputs.map ScanInput.sorted).forM (scanInput limits single)
        otherStart) := by
  induction inputs generalizing start otherStart with
  | nil => exact ⟨rfl, same⟩
  | cons input inputs inductionHypothesis =>
      refine (agree_scanInput limits single input
        (distinct input List.mem_cons_self) same).bind ?_
      rintro _ _ scan otherScan rfl sameLater
      exact inductionHypothesis (fun other member =>
        distinct other (List.mem_cons_of_mem _ member)) sameLater

theorem singleDirectory_sorted (inputs : List ScanInput) :
    singleDirectory (inputs.map ScanInput.sorted) = singleDirectory inputs := by
  rcases inputs with _ | ⟨input, _ | _⟩
  · rfl
  · exact isDir_sorted input.node
  · rfl

/-- The inputs are scanned alike when their listings are sorted. -/
theorem agree_scanInputs_sorted
    (limits : DecodeLimits)
    {inputs : List ScanInput}
    (distinct : ∀ input ∈ inputs, input.node.NamesDistinct) :
    Agree Eq Scan.Same (scanInputs inputs limits)
      (scanInputs (inputs.map ScanInput.sorted) limits) := by
  unfold scanInputs scanSorted
  rw [List.length_map, singleDirectory_sorted]
  refine agree_lift_bind fun _ _ => ?_
  refine (agree_scanInputs_forM limits _ distinct (.refl _)).bind ?_
  rintro _ _ scan otherScan rfl same
  change Agree Eq Scan.Same
    ((lift (ensure ((scan.entries.insertionSort fun left right =>
      left.sortKey ≤ right.sortKey).IsChain fun left right =>
        left.sortKey ≠ right.sortKey) (.invalidMetadata "duplicate input path"))
      >>= fun _ => pure (scan.entries.insertionSort fun left right =>
        left.sortKey ≤ right.sortKey) : ScanM (List ScannedEntry)) scan) _
  rw [same.entries]
  exact agree_lift_bind fun _ _ => ⟨rfl, same⟩

end Trees

/-- Two lists of inputs that differ only in the order in which their directories
are listed are scanned alike: both scans find the same entries and charge the
same, or both fail. -/
theorem scanInputs_listing_independent
    (limits : DecodeLimits)
    {inputs others : List ScanInput}
    (relisted : inputs.map ScanInput.sorted = others.map ScanInput.sorted)
    (distinct : ∀ input ∈ inputs, input.node.NamesDistinct)
    (otherDistinct : ∀ input ∈ others, input.node.NamesDistinct) :
    Agree Eq Scan.Same (scanInputs inputs limits)
      (scanInputs others limits) := by
  have first := agree_scanInputs_sorted limits distinct
  have second := (agree_scanInputs_sorted limits otherDistinct).symm
    Scan.Same.symm
  rw [relisted] at first
  refine (first.trans second Scan.Same.trans).mono ?_
  rintro entries _ ⟨_, rfl, rfl⟩
  rfl

theorem isLetter (position : Fin 26) :
    (97 : UInt8) ≤ UInt8.ofNat (97 + position.val) := by
  revert position
  decide

/-- The directory `x` again, listed the other way round. -/
def relistedInput : ScanInput :=
  { nestedInput with
    node := .directory ⟨0, 0⟩
      [(letterName 97 (isLetter 0), .file ⟨0, 0⟩ none),
       (letterName 98 (isLetter 1), .directory ⟨0, 0⟩
        [(letterName 99 (isLetter 2), .file ⟨0, 0⟩ none)])] }

theorem sorted_nestedInput : nestedInput.sorted = relistedInput := by
  simp only [ScanInput.sorted, nestedInput, relistedInput, InputNode.sorted,
    sortedListing, letterName, List.orderedInsert]
  rw [if_neg (by decide)]

theorem sorted_relistedInput : relistedInput.sorted = relistedInput := by
  simp only [ScanInput.sorted, nestedInput, relistedInput, InputNode.sorted,
    sortedListing, letterName, List.orderedInsert]
  rw [if_pos (by decide)]

theorem relistedInput_sorted :
    [nestedInput].map ScanInput.sorted =
      [relistedInput].map ScanInput.sorted := by
  rw [List.map_singleton, List.map_singleton, sorted_nestedInput,
    sorted_relistedInput]

theorem nestedInput_namesDistinct :
    ∀ input ∈ [nestedInput], input.node.NamesDistinct := by
  intro input member
  obtain rfl := List.mem_singleton.mp member
  simp [nestedInput, InputNode.NamesDistinct, childrenDistinct, letterName]

theorem relistedInput_namesDistinct :
    ∀ input ∈ [relistedInput], input.node.NamesDistinct := by
  intro input member
  obtain rfl := List.mem_singleton.mp member
  simp [nestedInput, relistedInput, InputNode.NamesDistinct, childrenDistinct,
    letterName]

-- Elaboration would run both scans to look for a binder under `Agree`.
attribute [local irreducible] Agree in
theorem relistedInput_scanned_alike :
    Agree Eq Scan.Same (scanInputs [nestedInput] .default)
      (scanInputs [relistedInput] .default) :=
  scanInputs_listing_independent .default relistedInput_sorted
    nestedInput_namesDistinct relistedInput_namesDistinct

end Pithos
