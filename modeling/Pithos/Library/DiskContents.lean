import Pithos.Library.DiskFaults
import Pithos.Library.Lists

/-!
# Contents of files

Most operations on a disk leave the contents of all files alone and give names
only to files that have one already.  Such operations keep whatever is known
about the contents of the files that have names.  `Released` is such a fact: the
files of an earlier disk have kept their contents, and every other file that has
a name holds contents of a given kind.
-/

namespace FileTree

open HostPath
open Fallible
open Lists

namespace Disk

open StateAction (Respects respects_attempt)

/-- The contents of all files. -/
def contents (disk : Disk) : List (List UInt8) :=
  disk.inodes.map Inode.content

/-- All files have kept their contents, and only files that had a name have
one. -/
structure Rearranged (disk after : Disk) : Prop where
  contents : after.contents = disk.contents
  named : ∀ location inode, after.look location = some (.file inode) →
    ∃ earlier, disk.look earlier = some (.file inode)

instance : Std.Refl Rearranged :=
  ⟨fun _ => ⟨rfl, fun location _ found => ⟨location, found⟩⟩⟩

instance : IsTrans Disk Rearranged where
  trans _ _ _ before after :=
    ⟨after.contents.trans before.contents, fun location inode found => by
      obtain ⟨earlier, isEarlier⟩ := after.named location inode found
      exact before.named earlier inode isEarlier⟩

/-- What stands after something was added. -/
theorem look_of_addAt
    {disk after : Disk}
    {path : List Component}
    {added : Node}
    (placed : disk.addAt path added = .ok after)
    {location : Location}
    {label : Label}
    (found : after.look location = some label) :
    disk.look location = some label ∨ ∃ below, FileTree.look added below =
      some label := by
  simp only [addAt, bind_eq_ok, okOr_eq_ok, add_eq_some] at placed
  obtain ⟨target, _, inserted, _⟩ := placed
  rw [Disk.look, look_insert inserted] at found
  split at found
  · exact .inr ⟨_, found⟩
  · exact .inl found

theorem inodes_of_addAt
    {disk after : Disk}
    {path : List Component}
    {added : Node}
    (placed : disk.addAt path added = .ok after) :
    after.inodes = disk.inodes := by
  simp only [addAt, bind_eq_ok, okOr_eq_ok, add_eq_some] at placed
  obtain ⟨_, _, _, inodes⟩ := placed
  exact inodes

/-- The only label below a leaf is its own. -/
theorem look_leaf
    {leaf : Node}
    (isLeaf : leaf.IsLeaf)
    {below : Location}
    {label : Label}
    (found : FileTree.look leaf below = some label) :
    label = leaf.label := by
  cases below with
  | nil =>
      rw [FileTree.look, Node.get_nil] at found
      exact (Option.some.inj found).symm
  | cons name rest =>
      rw [FileTree.look, isLeaf] at found
      cases found

/-- Adding a leaf that is not a new name of a nameless file. -/
theorem rearranged_of_addAt
    {disk after : Disk}
    {path : List Component}
    {added : Node}
    (isLeaf : added.IsLeaf)
    (isNamed : ∀ inode, added.label = .file inode →
      ∃ earlier, disk.look earlier = some (.file inode))
    (placed : disk.addAt path added = .ok after) :
    Rearranged disk after where
  contents := by rw [contents, contents, inodes_of_addAt placed]
  named := by
    intro location inode found
    rcases look_of_addAt placed found with present | ⟨below, isBelow⟩
    · exact ⟨location, present⟩
    · exact isNamed inode (look_leaf isLeaf isBelow).symm

theorem respects_mkdir (path : List Component) :
    Respects Rearranged (mkdir path) := by
  refine respects_attempt fun disk value after changed => ?_
  simp only [bind_eq_ok, Except.ok.injEq, Prod.mk.injEq, true_and] at changed
  obtain ⟨_, placed, rfl⟩ := changed
  exact rearranged_of_addAt (Node.isLeaf_directory _) nofun placed

theorem respects_symlink (target : Path) (path : List Component) :
    Respects Rearranged (symlink target path) := by
  refine respects_attempt fun disk value after changed => ?_
  simp only [bind_eq_ok, Except.ok.injEq, Prod.mk.injEq, true_and] at changed
  obtain ⟨_, _, _, _, _, placed, rfl⟩ := changed
  refine rearranged_of_addAt (Node.isLeaf_symlink _ _) ?_ placed
  intro inode same
  cases same

theorem respects_hardLink (source path : List Component) :
    Respects Rearranged (hardLink source path) := by
  refine respects_attempt fun disk value after changed => ?_
  simp only [bind_eq_ok] at changed
  obtain ⟨location, _, changed⟩ := changed
  split at changed
  · rename_i inode found
    simp only [bind_eq_ok, Except.ok.injEq, Prod.mk.injEq,
      true_and] at changed
    obtain ⟨_, placed, rfl⟩ := changed
    refine rearranged_of_addAt (Node.isLeaf_file inode) ?_ placed
    intro other same
    cases same
    exact ⟨location, found⟩
  · simp only [bind_eq_ok, Except.ok.injEq, Prod.mk.injEq,
      true_and] at changed
    obtain ⟨_, placed, rfl⟩ := changed
    exact rearranged_of_addAt (Node.isLeaf_symlink _ _) nofun placed
  · cases changed
  · cases changed

theorem respects_setPermissions (path : List Component) (mode : UInt32) :
    Respects Rearranged (setPermissions path mode) := by
  refine respects_attempt fun disk value after changed => ?_
  simp only [bind_eq_ok] at changed
  obtain ⟨location, _, changed⟩ := changed
  split at changed
  · rename_i inode found
    cases changed
    refine ⟨?_, fun other index isFile => ⟨other, isFile⟩⟩
    simp only [contents]
    refine List.ext_getElem? fun index => ?_
    rw [List.getElem?_map, List.getElem?_map, List.getElem?_modify]
    cases disk.inodes[index]? with
    | none => rfl
    | some present =>
        by_cases same : inode = index <;> simp [same, Inode.setMode]
  · cases changed
  · cases changed
  · cases changed

theorem rearranged_of_remove
    {disk after : Disk}
    {location : Location}
    (removed : disk.remove location = some after) :
    Rearranged disk after := by
  obtain ⟨isRemoved, inodes⟩ := remove_eq_some.mp removed
  refine ⟨by rw [contents, contents, inodes], fun asked inode found => ?_⟩
  rw [Disk.look, look_remove isRemoved] at found
  split at found
  · cases found
  · exact ⟨asked, found⟩

theorem respects_removeDirAll (path : List Component) :
    Respects Rearranged (removeDirAll path) := by
  refine respects_attempt fun disk value after changed => ?_
  simp only [bind_eq_ok, okOr_eq_ok, Except.ok.injEq, Prod.mk.injEq,
    true_and] at changed
  obtain ⟨_, _, _, removed, rfl⟩ := changed
  exact rearranged_of_remove removed

/-- A moved node keeps the names below it. -/
theorem rearranged_of_moveTo
    {disk after : Disk}
    {source destination : Location}
    (moved : disk.moveTo source destination = .ok after) :
    Rearranged disk after := by
  simp only [moveTo, bind_eq_ok, okOr_eq_ok] at moved
  obtain ⟨node, isNode, moved⟩ := moved
  split at moved
  · cases moved
    exact Std.Refl.refl _
  · simp only [bind_eq_ok, okOr_eq_ok, ensure_eq_ok, exists_const] at moved
    obtain ⟨_, cleared, removed, freed, madeRoom, added⟩ := moved
    have first := rearranged_of_remove removed
    have second : Rearranged cleared freed := by
      unfold makeRoom at madeRoom
      split at madeRoom
      · cases madeRoom
        exact Std.Refl.refl _
      · split at madeRoom
        · exact rearranged_of_remove (okOr_eq_ok.mp madeRoom)
        · cases madeRoom
    have before : Rearranged disk freed := IsTrans.trans _ _ _ first second
    obtain ⟨inserted, inodes⟩ := add_eq_some.mp added
    refine ⟨by rw [← before.contents, contents, contents, inodes], ?_⟩
    intro location inode found
    rw [Disk.look, look_insert inserted] at found
    split at found
    · refine ⟨source ++ location.drop destination.length, ?_⟩
      rw [Disk.look, look_append, isNode]
      exact found
    · exact before.named location inode found

theorem respects_rename (source path : List Component) :
    Respects Rearranged (rename source path) := by
  refine respects_attempt fun disk value after changed => ?_
  simp only [bind_eq_ok, Except.ok.injEq, Prod.mk.injEq, true_and] at changed
  obtain ⟨_, _, _, _, _, moved, rfl⟩ := changed
  exact rearranged_of_moveTo moved

/-! ## Files that hold contents of a kind -/

/-- Every name of a file is the name of a file on the disk. -/
def Stored (disk : Disk) : Prop :=
  ∀ location inode, disk.look location = some (.file inode) →
    inode < disk.inodes.length

/-- The files of an earlier disk have kept their contents, and every other file
that has a name holds contents of a kind. -/
structure Released
    (start : Disk)
    (holds : List UInt8 → Prop)
    (disk : Disk) : Prop where
  kept : start.contents <+: disk.contents
  named : ∀ location inode, disk.look location = some (.file inode) →
    inode < start.inodes.length ∨
      ∃ content, disk.contents[inode]? = some content ∧ holds content

/-- A new file without a name holds contents. -/
structure Spooled
    (start : Disk)
    (holds : List UInt8 → Prop)
    (spool : Nat)
    (content : List UInt8)
    (disk : Disk) : Prop extends Released start holds disk where
  fresh : start.inodes.length ≤ spool
  nameless : ∀ location, disk.look location ≠ some (.file spool)
  content : disk.contents[spool]? = some content

/-- A new file with a name is empty. -/
structure Opened
    (start : Disk)
    (holds : List UInt8 → Prop)
    (file : Nat)
    (disk : Disk) : Prop extends Released start holds disk where
  fresh : start.inodes.length ≤ file
  empty : disk.contents[file]? = some []

section Released

variable
  {start disk after : Disk}
  {holds : List UInt8 → Prop}
  {spool : Nat}
  {content : List UInt8}

theorem Stored.released (stored : Stored start) : Released start holds start :=
  ⟨List.prefix_refl _, fun location inode found =>
    .inl (stored location inode found)⟩

theorem Released.rearranged
    (released : Released start holds disk)
    (rearranged : Rearranged disk after) :
    Released start holds after := by
  refine ⟨rearranged.contents ▸ released.kept, ?_⟩
  intro location inode found
  obtain ⟨earlier, isEarlier⟩ := rearranged.named location inode found
  rw [rearranged.contents]
  exact released.named earlier inode isEarlier

theorem Spooled.rearranged
    (spooled : Spooled start holds spool content disk)
    (rearranged : Rearranged disk after) :
    Spooled start holds spool content after where
  toReleased := spooled.toReleased.rearranged rearranged
  fresh := spooled.fresh
  nameless := by
    intro location found
    obtain ⟨earlier, isEarlier⟩ := rearranged.named location spool found
    exact spooled.nameless earlier isEarlier
  content := rearranged.contents ▸ spooled.content

theorem Released.length_le
    (released : Released start holds disk) :
    start.inodes.length ≤ disk.inodes.length := by
  have lengths := released.kept.length_le
  simpa only [contents, List.length_map] using lengths

/-- A file of the disk has contents. -/
theorem Released.contents_isSome
    (released : Released start holds disk)
    {location : Location}
    {inode : Nat}
    (found : disk.look location = some (.file inode)) :
    inode < disk.inodes.length := by
  rcases released.named location inode found with old | ⟨content, isContent, _⟩
  · exact Nat.lt_of_lt_of_le old released.length_le
  · have within := (List.getElem?_eq_some_iff.mp isContent).1
    simpa only [contents, List.length_map] using within

/-- A new spool is empty. -/
theorem Released.createSpool
    (released : Released start holds disk)
    (created : createSpool disk = (.ok spool, after)) :
    Spooled start holds spool [] after := by
  cases created
  have isContents : contents { disk with
      inodes := disk.inodes ++ [⟨newFile, []⟩] } = disk.contents ++ [[]] := by
    simp [contents]
  refine ⟨⟨?_, ?_⟩, released.length_le, ?_, ?_⟩
  · rw [isContents]
    exact released.kept.trans (List.prefix_append _ _)
  · intro location inode found
    refine (released.named location inode found).imp_right ?_
    rintro ⟨content, isContent, isHeld⟩
    refine ⟨content, ?_, isHeld⟩
    rw [isContents, List.getElem?_append_left
      (List.getElem?_eq_some_iff.mp isContent).1, isContent]
  · intro location found
    exact Nat.lt_irrefl _ (released.contents_isSome found)
  · rw [isContents, List.getElem?_append_right (by simp [contents])]
    simp [contents]

theorem contents_writeAll (inode : Nat) (bytes : List UInt8) (disk : Disk) :
    contents (writeAll inode bytes disk).2 =
      disk.contents.modify inode fun content => content ++ bytes := by
  refine List.ext_getElem? fun index => ?_
  simp only [writeAll, StateAction.attempt, contents, List.getElem?_map,
    List.getElem?_modify]
  cases disk.inodes[index]? with
  | none => rfl
  | some present =>
      by_cases same : inode = index <;> simp [same, Inode.append]

/-- What is written to a spool is not released yet. -/
theorem Spooled.writeAll
    (spooled : Spooled start holds spool content disk)
    (bytes : List UInt8) :
    Spooled start holds spool (content ++ bytes)
      (writeAll spool bytes disk).2 := by
  have isContents := contents_writeAll spool bytes disk
  refine ⟨⟨?_, ?_⟩, spooled.fresh, spooled.nameless, ?_⟩
  · rw [isContents]
    exact prefix_modify spooled.kept (by
      simpa only [contents, List.length_map] using spooled.fresh)
  · intro location inode found
    have different : spool ≠ inode := by
      rintro rfl
      exact spooled.nameless location found
    rw [isContents, List.getElem?_modify_ne _ _ different]
    exact spooled.named location inode found
  · rw [isContents, List.getElem?_modify_eq, spooled.content]
    rfl

/-- A spool with contents of the kind may be given a name. -/
theorem Spooled.publish
    (spooled : Spooled start holds spool content disk)
    {path : List Component}
    (isHeld : holds content)
    (published : publish spool path disk = (.ok (), after)) :
    Released start holds after := by
  simp only [Disk.publish, StateAction.attempt_eq_ok, bind_eq_ok,
    Except.ok.injEq, Prod.mk.injEq, true_and] at published
  obtain ⟨_, placed, rfl⟩ := published
  have isContents (after : Disk) (same : after.inodes = disk.inodes) :
      after.contents = disk.contents := by rw [contents, contents, same]
  refine ⟨?_, fun location inode found => ?_⟩
  · rw [isContents _ (inodes_of_addAt placed)]
    exact spooled.kept
  · rw [isContents _ (inodes_of_addAt placed)]
    rcases look_of_addAt placed found with present | ⟨below, isBelow⟩
    · exact spooled.named location inode present
    · cases look_leaf (Node.isLeaf_file spool) isBelow
      exact .inr ⟨content, spooled.content, isHeld⟩

theorem Released.createNew
    (released : Released start holds disk)
    {path : List Component}
    {file : Nat}
    (emptyHeld : holds [])
    (created : createNew path disk = (.ok file, after)) :
    Opened start holds file after := by
  simp only [Disk.createNew, StateAction.attempt_eq_ok, bind_eq_ok,
    Except.ok.injEq, Prod.mk.injEq] at created
  obtain ⟨changed, placed, rfl, rfl⟩ := created
  have same := inodes_of_addAt placed
  have isContents : contents { changed with
      inodes := changed.inodes ++ [⟨newFile, []⟩] } = disk.contents ++ [[]] := by
    simp [contents, same]
  have isEmpty : (disk.contents ++ [[]])[disk.inodes.length]? = some [] := by
    rw [List.getElem?_append_right (by simp [contents])]
    simp [contents]
  refine ⟨⟨?_, ?_⟩, released.length_le, ?_⟩
  · rw [isContents]
    exact released.kept.trans (List.prefix_append _ _)
  · intro location inode found
    rw [isContents]
    rcases look_of_addAt placed found with present | ⟨below, isBelow⟩
    · refine (released.named location inode present).imp_right ?_
      rintro ⟨content, isContent, isHeld⟩
      refine ⟨content, ?_, isHeld⟩
      rw [List.getElem?_append_left
        (List.getElem?_eq_some_iff.mp isContent).1, isContent]
    · cases look_leaf (Node.isLeaf_file _) isBelow
      exact .inr ⟨[], isEmpty, emptyHeld⟩
  · rw [isContents, isEmpty]

theorem Opened.rearranged
    {file : Nat}
    (opened : Opened start holds file disk)
    (rearranged : Rearranged disk after) :
    Opened start holds file after where
  toReleased := opened.toReleased.rearranged rearranged
  fresh := opened.fresh
  empty := rearranged.contents ▸ opened.empty

/-- Contents of the kind may be written to a new file. -/
theorem Opened.writeAll
    {file : Nat}
    (opened : Opened start holds file disk)
    {bytes : List UInt8}
    (isHeld : holds bytes) :
    Released start holds (writeAll file bytes disk).2 := by
  have isContents := contents_writeAll file bytes disk
  refine ⟨?_, ?_⟩
  · rw [isContents]
    exact prefix_modify opened.kept (by
      simpa only [contents, List.length_map] using opened.fresh)
  · intro location inode found
    rw [isContents]
    by_cases same : file = inode
    · subst same
      refine .inr ⟨bytes, ?_, isHeld⟩
      rw [List.getElem?_modify_eq, opened.empty]
      rfl
    · rw [List.getElem?_modify_ne _ _ same]
      exact opened.named location inode found

end Released

end Disk

/-! ## With faults -/

namespace FaultyDisk

open StateAction (Respects)

/-- A relation between the disks. -/
def OnDisk
    (related : Disk → Disk → Prop)
    (before after : FaultyDisk) : Prop :=
  related before.disk after.disk

variable {related : Disk → Disk → Prop}

instance [Std.Refl related] : Std.Refl (OnDisk related) :=
  ⟨fun faulty => Std.Refl.refl faulty.disk⟩

instance [IsTrans Disk related] : IsTrans FaultyDisk (OnDisk related) where
  trans first second third before after :=
    @IsTrans.trans Disk related _ first.disk second.disk third.disk before after

theorem respects_exposed
    {Value : Type}
    [Std.Refl related]
    {path : List Component}
    {operation : StateAction Disk IoErrorKind Value}
    (respects : Respects related operation) :
    Respects (OnDisk related) (exposed path operation) := by
  intro faulty
  unfold exposed
  cases faulty.faults.head?.join with
  | some failure => exact Std.Refl.refl faulty.disk
  | none => exact respects faulty.disk

theorem respects_orElse
    [IsTrans Disk related]
    {action : StateAction FaultyDisk IoErrorKind Unit}
    {handler : IoErrorKind → StateAction FaultyDisk IoErrorKind Unit}
    (first : Respects (OnDisk related) action)
    (second : ∀ failure, Respects (OnDisk related) (handler failure)) :
    Respects (OnDisk related) (orElse action handler) := by
  intro faulty
  have before := first faulty
  unfold orElse
  match ran : action faulty with
  | (.ok value, after) =>
      rw [ran] at before
      exact before
  | (.error failure, after) =>
      rw [ran] at before
      exact IsTrans.trans _ _ _ before (second failure after)

theorem respects_createDirAll (path : List Component) :
    Respects (OnDisk Disk.Rearranged) (createDirAll path) := by
  have made (path : List Component) :
      Respects (OnDisk Disk.Rearranged) (mkdir path) :=
    respects_exposed (Disk.respects_mkdir path)
  have checks (path : List Component) (failure : IoErrorKind) :
      Respects (OnDisk Disk.Rearranged) (unlessDir path failure) :=
    (respects_exposed (StateAction.respects_inspect _)).mapError
  have upTo (count : Nat) :
      Respects (OnDisk Disk.Rearranged) (createDirAllUpTo path count) := by
    induction count with
    | zero => exact StateAction.respects_pure ()
    | succ count inductionHypothesis =>
        refine respects_orElse (made _) fun failure => ?_
        split
        · exact inductionHypothesis.bind fun _ =>
            respects_orElse (made _) fun _ => checks _ _
        · exact checks _ _
  exact upTo path.length

end FaultyDisk

end FileTree
