import Pithos.Library.DiskNames

/-!
# Actions that only add

Making directories and links, wherever the paths lead, never changes what
already stands on the disk.
-/

namespace FileTree

open HostPath
open Fallible

namespace Disk

/-- Whatever stood on a disk still stands there. -/
structure Kept (disk after : Disk) : Prop where
  look : ∀ location label, disk.look location = some label →
    after.look location = some label
  inodes : ∀ (index : Nat) (inode : Inode),
    disk.inodes[index]? = some inode → after.inodes[index]? = some inode

theorem Kept.refl (disk : Disk) : Kept disk disk :=
  ⟨fun _ _ => id, fun _ _ => id⟩

theorem Kept.trans
    {first second third : Disk}
    (before : Kept first second)
    (after : Kept second third) :
    Kept first third :=
  ⟨fun location label found => after.look location label
      (before.look location label found),
    fun index inode found => after.inodes index inode
      (before.inodes index inode found)⟩

theorem Kept.length_le
    {disk after : Disk}
    (kept : Kept disk after) :
    disk.inodes.length ≤ after.inodes.length := by
  cases last : disk.inodes.length with
  | zero => exact Nat.zero_le _
  | succ index =>
      have present : disk.inodes[index]? = some disk.inodes[index] :=
        List.getElem?_eq_getElem _
      exact (List.getElem?_eq_some_iff.mp (kept.inodes _ _ present)).1

/-- Changing a file that did not stand before. -/
theorem Kept.modify
    {disk after : Disk}
    (kept : Kept disk after)
    {fresh : Nat}
    (isFresh : disk.inodes.length ≤ fresh)
    (change : Inode → Inode) :
    Kept disk { after with inodes := after.inodes.modify fresh change } := by
  refine ⟨kept.look, fun index inode found => ?_⟩
  have within := (List.getElem?_eq_some_iff.mp found).1
  dsimp only
  rw [List.getElem?_modify_ne _ _ (by omega)]
  exact kept.inodes _ _ found

/-- Above a directory that is kept there are no links. -/
theorem Kept.linkFree
    {disk after : Disk}
    (kept : Kept disk after)
    {names : List Name}
    {metadata : Metadata}
    (isDirectory : disk.look names = some (.directory metadata)) :
    LinkFree after.root names := by
  intro done isPrefix other target isLink
  have found := kept.look _ _ isDirectory
  by_cases same : done = names
  · subst same
    rw [Disk.look, isLink] at found
    cases found
  · obtain ⟨_, above⟩ := directory_of_isPrefix found isPrefix same
    rw [Disk.look, isLink] at above
    cases above

/-- An action that only adds, also when it fails. -/
def Keeps {Failure Value : Type} (action : StateAction Disk Failure Value) : Prop :=
  ∀ disk, Kept disk (action disk).2

section Rules

variable {Failure Value Next Item : Type}

theorem keeps_pure (value : Value) :
    Keeps (pure value : StateAction Disk Failure Value) :=
  fun disk => Kept.refl disk

theorem keeps_lift (result : Except Failure Value) :
    Keeps (StateAction.lift result) :=
  fun disk => Kept.refl disk

theorem keeps_inspect (read : Disk → Except Failure Value) :
    Keeps (StateAction.inspect read) :=
  fun disk => Kept.refl disk

theorem keeps_attempt
    {change : Disk → Except Failure (Value × Disk)}
    (keeps : ∀ disk value after, change disk = .ok (value, after) →
      Kept disk after) :
    Keeps (StateAction.attempt change) := by
  intro disk
  unfold StateAction.attempt
  cases changed : change disk with
  | ok result => exact keeps disk result.1 result.2 changed
  | error failure => exact Kept.refl disk

theorem Keeps.bind
    {action : StateAction Disk Failure Value}
    {next : Value → StateAction Disk Failure Next}
    (first : Keeps action)
    (rest : ∀ value, Keeps (next value)) :
    Keeps (action >>= next) := by
  intro disk
  have before := first disk
  match ran : action disk with
  | (.ok value, after) =>
      rw [ran] at before
      rw [StateAction.bind_of_ok ran]
      exact before.trans (rest value after)
  | (.error failure, after) =>
      rw [ran] at before
      rw [StateAction.bind_of_error ran]
      exact before

theorem Keeps.mapError
    {Other : Type}
    {rename : Failure → Other}
    {action : StateAction Disk Failure Value}
    (keeps : Keeps action) :
    Keeps (StateAction.mapError rename action) := by
  intro disk
  have kept := keeps disk
  unfold StateAction.mapError
  match ran : action disk with
  | (.ok value, after) =>
      rw [ran] at kept
      exact kept
  | (.error failure, after) =>
      rw [ran] at kept
      exact kept

theorem keeps_forEach
    {body : Item → StateAction Disk Failure Unit}
    {items : List Item}
    (keeps : ∀ item ∈ items, Keeps (body item)) :
    Keeps (StateAction.forEach body items) := by
  induction items with
  | nil => exact keeps_pure ()
  | cons item items inductionHypothesis =>
      exact (keeps item (by simp)).bind fun _ =>
        inductionHypothesis fun other member => keeps other (by simp [member])

theorem Keeps.orElse
    {action : StateAction Disk IoErrorKind Unit}
    {handler : IoErrorKind → StateAction Disk IoErrorKind Unit}
    (first : Keeps action)
    (second : ∀ failure, Keeps (handler failure)) :
    Keeps (Disk.orElse action handler) := by
  intro disk
  have before := first disk
  unfold Disk.orElse
  match ran : action disk with
  | (.ok value, after) =>
      rw [ran] at before
      exact before
  | (.error failure, after) =>
      rw [ran] at before
      exact before.trans (second failure after)

end Rules

theorem kept_of_addAt
    {disk after : Disk}
    {path : List Component}
    {added : Node}
    (placed : disk.addAt path added = .ok after) :
    Kept disk after := by
  simp only [addAt, bind_eq_ok, okOr_eq_ok, add_eq_some] at placed
  obtain ⟨location, _, inserted, inodes⟩ := placed
  refine ⟨?_, fun index inode found => by rw [inodes, found]⟩
  intro asked label found
  rw [Disk.look, look_insert inserted, if_neg]
  · exact found
  · intro isPrefix
    rcases List.eq_nil_or_concat location with rfl | ⟨parent, name, rfl⟩
    · cases disk.root <;> simp [Node.insert] at inserted
    · rw [List.concat_eq_append] at inserted isPrefix
      have free := (insert_isSome_iff.mp (by rw [inserted]; rfl)).2
      have absent := look_eq_none_of_isPrefix free isPrefix
      rw [Disk.look, absent] at found
      cases found

theorem keeps_mkdir (path : List Component) : Keeps (mkdir path) := by
  refine keeps_attempt ?_
  intro disk value after changed
  simp only [bind_eq_ok, Except.ok.injEq, Prod.mk.injEq, true_and] at changed
  obtain ⟨_, placed, rfl⟩ := changed
  exact kept_of_addAt placed

theorem keeps_symlink (target : Path) (path : List Component) :
    Keeps (symlink target path) := by
  refine keeps_attempt ?_
  intro disk value after changed
  simp only [bind_eq_ok, Except.ok.injEq, Prod.mk.injEq, true_and] at changed
  obtain ⟨_, _, _, _, _, placed, rfl⟩ := changed
  exact kept_of_addAt placed

theorem keeps_createDirAll (path : List Component) :
    Keeps (createDirAll path) := by
  have checks (path : List Component) (failure : IoErrorKind) :
      Keeps (unlessDir path failure) :=
    keeps_inspect _
  have upTo (count : Nat) : Keeps (createDirAllUpTo path count) := by
    induction count with
    | zero => exact keeps_pure ()
    | succ count inductionHypothesis =>
        refine (keeps_mkdir _).orElse fun failure => ?_
        split
        · exact inductionHypothesis.bind fun _ =>
            (keeps_mkdir _).orElse fun _ => checks _ _
        · exact checks _ _
  exact upTo path.length

end Disk

end FileTree
