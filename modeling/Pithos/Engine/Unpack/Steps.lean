import Pithos.Engine.Unpack.Staged

/-!
# Creating one entry

Each step of unpacking, from a staging directory that holds exactly the entries
created so far: it adds the entry, or it fails, and then the entries cannot all
be restored.  No step touches anything outside the staging directory.  A link
may only stand below an entry that is created later when both are links and the
entry is the link itself, so no step walks through a link.
-/

namespace Pithos

open Fallible
open FileTree
open HostPath
open Disk

/-- The links created before an entry are not on the way to it. -/
def LinksBefore (done : List EntryRecord) (entry : EntryRecord) : Prop :=
  ∀ link ∈ done, link.isOf .symlink →
    entry.isOf .symlink ∧ (link.names <+: entry.names →
      link.names = entry.names)

/-- A failed step: nothing changed outside, and the entries so far cannot all be
restored. -/
def StepFailed
    (start : Disk)
    (staging : Location)
    (done : List EntryRecord)
    (entry : EntryRecord)
    (_failure : PithosError)
    (disk : Disk) : Prop :=
  SameOutside staging start disk ∧ ¬Restorable (done ++ [entry])

theorem join_joinPieces
    {entry : EntryRecord}
    (staging : Location)
    (hostable : entry.path.Hostable) :
    join staging (joinPieces entry.names) =
      (staging ++ entry.names).map .normal := by
  rw [join, absolute, hostable.lookupComponents_joinPieces, ← List.map_append]

section Obstacles

variable
  {contents : EntryRecord → List UInt8}
  {entries done : List EntryRecord}
  {start disk after : Disk}
  {staging : Location}
  {entry : EntryRecord}

/-- A prefix of a path below the staging directory is above it or below it. -/
theorem prefix_cases
    {names location : Location}
    (isPrefix : location <+: staging ++ names) :
    location <+: staging ∧ location ≠ staging ∨
      ∃ relative, relative <+: names ∧ location = staging ++ relative := by
  rcases List.prefix_or_prefix_of_prefix isPrefix
    (List.prefix_append staging names) with above | below
  · by_cases same : location = staging
    · exact Or.inr ⟨[], List.nil_prefix, by simp [same]⟩
    · exact Or.inl ⟨above, same⟩
  · obtain ⟨relative, rfl⟩ := below
    exact Or.inr ⟨relative, by simpa using isPrefix, rfl⟩

theorem not_restorable_of_nul
    {names : List Name}
    (stagingNoNul : NoNul staging)
    (isPrefix : names <+: entry.names)
    (hasNul : ¬NoNul (staging ++ names)) :
    ¬Restorable (done ++ [entry]) := by
  intro restorable
  apply hasNul
  have noNul := (restorable.spellable entry (by simp)).names.take isPrefix
  intro name member
  rcases List.mem_append.mp member with inStaging | inNames
  · exact stagingNoNul name inStaging
  · exact noNul name inNames

/-- Above the staging directory there are directories. -/
theorem Staged.above
    (staged : Staged contents entries start staging done disk)
    {location : Location}
    (isPrefix : location <+: staging)
    (different : location ≠ staging) :
    ∃ metadata, disk.look location = some (.directory metadata) := by
  obtain ⟨metadata, found⟩ := staged.root
  exact directory_of_isPrefix found isPrefix different

theorem Staged.not_restorable_of_blocked
    (staged : Staged contents entries start staging done disk)
    {names : List Name}
    (isPrefix : names <+: entry.names)
    (blocked : ¬disk.Unblocked (staging ++ names)) :
    ¬Restorable (done ++ [entry]) := by
  intro restorable
  apply blocked
  intro location below inode isFile
  rcases prefix_cases below with ⟨above, different⟩ | ⟨relative, inside, rfl⟩
  · obtain ⟨_, isDirectory⟩ := staged.above above different
    rw [isFile] at isDirectory
    cases isDirectory
  · obtain ⟨earlier, member, sameNames, isMatch⟩ :=
      staged.nodes relative _ isFile rfl
    have notDirectory : earlier.isOf .directory = false := by
      cases isDirectory : earlier.isOf .directory with
      | false => rfl
      | true =>
          have := isMatch.isDirectory_iff.mpr isDirectory
          cases this
    have compatible := (restorable_concat.mp restorable).2.2 earlier member
    apply compatible.1 notDirectory
    rw [sameNames]
    exact inside.trans isPrefix

theorem Staged.not_restorable_of_occupied
    (staged : Staged contents entries start staging done disk)
    (nonempty : entry.names ≠ [])
    (notDirectory : entry.isOf .directory = false)
    (occupied : (disk.look (staging ++ entry.names)).isSome) :
    ¬Restorable (done ++ [entry]) := by
  intro restorable
  have compatible := (restorable_concat.mp restorable).2.2
  obtain ⟨label, found⟩ := Option.isSome_iff_exists.mp occupied
  cases isDirectory : label.isDirectory with
  | true =>
      have implied : Implied done entry.names := by
        rw [← staged.directories]
        cases label with
        | directory metadata => exact ⟨metadata, found⟩
        | file inode => cases isDirectory
        | symlink metadata target => cases isDirectory
      rcases implied with empty | ⟨earlier, member, isPrefix, _⟩
      · exact nonempty empty
      · exact (compatible earlier member).2 notDirectory isPrefix
  | false =>
      obtain ⟨earlier, member, sameNames, isMatch⟩ :=
        staged.nodes _ label found isDirectory
      have earlierKind : earlier.isOf .directory = false := by
        cases kind : earlier.isOf .directory with
        | false => rfl
        | true =>
            rw [isMatch.isDirectory_iff.mpr kind] at isDirectory
            cases isDirectory
      apply (compatible earlier member).1 earlierKind
      exact sameNames ▸ List.prefix_refl _

/-- The way to an entry has no links. -/
theorem Staged.linkFree
    (staged : Staged contents entries start staging done disk)
    (linksBefore : LinksBefore done entry)
    {names : List Name}
    (isPrefix : names <+: entry.names)
    (stops : names ≠ entry.names ∨ entry.isOf .symlink = false) :
    LinkFree disk.root (staging ++ names) := by
  intro location below metadata target isLink
  rcases prefix_cases below with ⟨above, different⟩ | ⟨relative, inside, rfl⟩
  · obtain ⟨_, isDirectory⟩ := staged.above above different
    rw [Disk.look, isLink] at isDirectory
    cases isDirectory
  · obtain ⟨link, member, sameNames, isMatch⟩ :=
      staged.nodes relative _ isLink rfl
    have linkKind := isMatch.isSymlink_iff.mp rfl
    obtain ⟨entryKind, onlySelf⟩ := linksBefore link member linkKind
    rcases stops with shorter | notLink
    · have self := onlySelf (by rw [sameNames]; exact inside.trans isPrefix)
      rw [sameNames] at self
      subst self
      exact shorter (isPrefix.eq_of_length_le inside.length_le)
    · rw [notLink] at entryKind
      cases entryKind

/-- Directories made below the staging directory change nothing outside. -/
theorem Staged.outside_of_directoriesAdded
    (staged : Staged contents entries start staging done disk)
    {names : List Name}
    (added : DirectoriesAdded disk (staging ++ names) after) :
    SameOutside staging disk after := by
  intro location isOutside
  rw [added.look, if_neg]
  rintro ⟨isPrefix, absent⟩
  rcases prefix_cases isPrefix with ⟨above, different⟩ | ⟨relative, _, rfl⟩
  · obtain ⟨_, isDirectory⟩ := staged.above above different
    rw [absent] at isDirectory
    cases isDirectory
  · exact isOutside (List.prefix_append _ _)

/-- An unblocked way without links has only directories. -/
theorem directory_of_unblocked
    {names : List Name}
    (linkFree : LinkFree disk.root (staging ++ names))
    (unblocked : disk.Unblocked (staging ++ names))
    {relative : Location}
    (isPrefix : relative <+: names)
    {label : Label}
    (found : disk.look (staging ++ relative) = some label) :
    label.isDirectory := by
  have below : staging ++ relative <+: staging ++ names := by simpa using isPrefix
  cases label with
  | directory metadata => rfl
  | file inode => exact absurd found (unblocked _ below inode)
  | symlink metadata target =>
      exact absurd found (linkFree _ below metadata target)

end Obstacles

/-! ## Directories -/

section Directories

variable
  {contents : EntryRecord → List UInt8}
  {entries done : List EntryRecord}
  {start : Disk}
  {staging : Location}
  {entry : EntryRecord}

/-- Creating a directory entry. -/
theorem unpackDirectory_step
    (stagingNoNul : NoNul staging)
    (hostable : entry.path.Hostable)
    (linksBefore : LinksBefore done entry)
    (isDirectory : entry.kind = .directory) :
    StateAction.Triple (Staged contents entries start staging done)
      (unpackDirectory staging entry)
      (fun _ => Staged contents entries start staging (done ++ [entry]))
      (StepFailed start staging done entry) := by
  have kind : entry.isOf .directory := by
    simp [EntryRecord.isOf, isDirectory, archiveEntryKind]
  have notLink : entry.isOf .symlink = false := by
    simp [EntryRecord.isOf, isDirectory, archiveEntryKind]
  have notFile : entry.isOf .file = false := by
    simp [EntryRecord.isOf, isDirectory, archiveEntryKind]
  unfold unpackDirectory
  rw [hostable.toPathBuf_eq, StateAction.lift_ok_bind,
    join_joinPieces staging hostable]
  refine StateAction.Triple.mapError ?_
  intro disk staged
  have linkFree := staged.linkFree linksBefore (List.prefix_refl _)
    (Or.inr notLink)
  have outcome := createDirAll_outcome linkFree
  generalize createDirAll ((staging ++ entry.names).map .normal) disk = result
    at outcome
  cases outcome with
  | failed failure obstacle =>
      refine ⟨staged.outside, ?_⟩
      rcases obstacle with hasNul | blocked
      · exact not_restorable_of_nul stagingNoNul (List.prefix_refl _) hasNul
      · exact staged.not_restorable_of_blocked (List.prefix_refl _) blocked
  | made after noNul unblocked added =>
      have directory {relative : Location} {label : Label}
          (isPrefix : relative <+: entry.names)
          (found : disk.look (staging ++ relative) = some label) :
          label.isDirectory :=
        directory_of_unblocked linkFree unblocked isPrefix found
      have clear : Clear staging disk entry :=
        ⟨fun relative isPrefix _ label found => directory isPrefix found,
          fun label found => ⟨directory (List.prefix_refl _) found, kind⟩⟩
      have spellable : Spellable entry := by
        refine ⟨fun name member => noNul name (by simp [member]), ?_⟩
        intro target targetIsDir isLink
        rw [isDirectory] at isLink
        cases isLink
      obtain ⟨metadata, found⟩ : ∃ metadata,
          after.look (staging ++ entry.names) = some (.directory metadata) := by
        rw [added.look]
        cases found : disk.look (staging ++ entry.names) with
        | none => exact ⟨newDirectory, by simp⟩
        | some label =>
            have isDirectory := directory (List.prefix_refl _) found
            cases label with
            | directory metadata => exact ⟨metadata, by simp⟩
            | file inode => cases isDirectory
            | symlink metadata target => cases isDirectory
      have isMatch : Matches entry (.directory metadata) := by
        simp [Matches, isDirectory, Label.isDirectory]
      refine staged.grow clear spellable isMatch ⟨?_, ?_, ?_⟩ ?_ ?_
      · exact staged.outside_of_directoriesAdded added
      · intro relative
        by_cases same : relative = entry.names
        · subst same
          rw [if_pos rfl, found]
        · rw [if_neg same, added.look]
          simp
      · intro index inode present
        rw [added.inodes, present]
      · intro isFile
        rw [notFile] at isFile
        cases isFile
      · intro targetEntryId target isHardlink
        rw [isDirectory] at isHardlink
        cases isHardlink

end Directories

/-! ## Leaves -/

/-- The disk when the directories above an entry have been made. -/
structure Parented
    (contents : EntryRecord → List UInt8)
    (entries : List EntryRecord)
    (start : Disk)
    (staging : Location)
    (done : List EntryRecord)
    (parent : List Name)
    (before disk : Disk) : Prop where
  staged : Staged contents entries start staging done before
  linkFree : LinkFree before.root (staging ++ parent)
  unblocked : before.Unblocked (staging ++ parent)
  added : DirectoriesAdded before (staging ++ parent) disk

section Leaves

variable
  {contents : EntryRecord → List UInt8}
  {entries done : List EntryRecord}
  {start before disk after : Disk}
  {staging : Location}
  {entry : EntryRecord}
  {parent : List Name}
  {last : Name}

theorem Parented.outside
    (parented : Parented contents entries start staging done parent before
      disk) :
    SameOutside staging start disk := by
  intro location isOutside
  rw [parented.staged.outside_of_directoriesAdded parented.added location
    isOutside]
  exact parented.staged.outside location isOutside

theorem Parented.isDirectory
    (parented : Parented contents entries start staging done parent before
      disk) :
    ∃ metadata, disk.look (staging ++ parent) =
      some (.directory metadata) := by
  rw [parented.added.look]
  cases found : before.look (staging ++ parent) with
  | none => exact ⟨newDirectory, by simp⟩
  | some label =>
      have isDirectory := directory_of_unblocked parented.linkFree
        parented.unblocked (List.prefix_refl _) found
      cases label with
      | directory metadata => exact ⟨metadata, by simp⟩
      | file inode => cases isDirectory
      | symlink metadata target => cases isDirectory

theorem Parented.linkFreeAfter
    (parented : Parented contents entries start staging done parent before
      disk) :
    LinkFree disk.root (staging ++ parent) := by
  refine linkFree_of_look parented.linkFree ?_
  intro location _ metadata target found
  rw [parented.added.look] at found
  split at found
  · cases found
  · exact found

/-- The parents of an entry are no part of the entry itself. -/
theorem Parented.look_self
    (parented : Parented contents entries start staging done parent before
      disk) :
    disk.look (staging ++ (parent ++ [last])) =
      before.look (staging ++ (parent ++ [last])) := by
  rw [parented.added.look, if_neg]
  rintro ⟨isPrefix, _⟩
  have := isPrefix.length_le
  simp only [List.length_append, List.length_singleton] at this
  omega

/-- The directories above an entry are made, or the entries cannot be
restored. -/
theorem createParents_step
    (stagingNoNul : NoNul staging)
    (linksBefore : LinksBefore done entry)
    (split : entry.names = parent ++ [last]) :
    StateAction.Triple (Staged contents entries start staging done)
      (createParents ((staging ++ entry.names).map .normal))
      (fun _ disk => ∃ before,
        Parented contents entries start staging done parent before disk)
      (StepFailed start staging done entry) := by
  have isPrefix : parent <+: entry.names := by rw [split]; simp
  have shorter : parent ≠ entry.names := by rw [split]; simp
  have path : ((staging ++ entry.names).map Component.normal).dropLast =
      (staging ++ parent).map .normal := by
    rw [← List.map_dropLast, split, ← List.append_assoc,
      List.dropLast_concat]
  unfold createParents
  rw [path]
  refine StateAction.Triple.mapError ?_
  intro disk staged
  have linkFree := staged.linkFree linksBefore isPrefix (Or.inl shorter)
  have outcome := createDirAll_outcome linkFree
  generalize createDirAll ((staging ++ parent).map .normal) disk = result
    at outcome
  cases outcome with
  | made after noNul unblocked added =>
      exact ⟨disk, staged, linkFree, unblocked, added⟩
  | failed failure obstacle =>
      refine ⟨staged.outside, ?_⟩
      rcases obstacle with hasNul | blocked
      · exact not_restorable_of_nul stagingNoNul isPrefix hasNul
      · exact staged.not_restorable_of_blocked isPrefix blocked

/-- Adding the node of an entry below its parents succeeds, or the entries
cannot be restored. -/
theorem Parented.addAt
    (parented : Parented contents entries start staging done parent before
      disk)
    (stagingNoNul : NoNul staging)
    (split : entry.names = parent ++ [last])
    (notDirectory : entry.isOf .directory = false)
    {added : Node}
    (leaf : added.IsLeaf) :
    (∃ after, disk.addAt ((staging ++ entry.names).map .normal) added =
        .ok after ∧
        after.inodes = before.inodes ∧ NoNul entry.names ∧
        Clear staging before entry ∧
        LeafAdded disk (staging ++ entry.names) added.label after) ∨
      ∃ failure,
        disk.addAt ((staging ++ entry.names).map .normal) added =
          .error failure ∧ ¬Restorable (done ++ [entry]) := by
  obtain ⟨metadata, isDirectory⟩ := parented.isDirectory
  have nonempty : entry.names ≠ [] := by rw [split]; simp
  have occupied (isSome : (disk.look (staging ++ entry.names)).isSome) :
      ¬Restorable (done ++ [entry]) := by
    refine parented.staged.not_restorable_of_occupied nonempty notDirectory ?_
    rw [split] at isSome ⊢
    rwa [← parented.look_self]
  rcases @addAt_cases disk added leaf (staging ++ parent) last
    parented.linkFreeAfter with
    ⟨after, _, placed, noNul, _, inodes, labels⟩ | ⟨_, _, absent, _⟩ |
    ⟨failure, _, failed, obstacle⟩
  · rw [List.append_assoc, ← split] at placed noNul labels
    refine Or.inl ⟨after, placed, inodes.trans parented.added.inodes,
      fun name member => noNul name (by simp [member]), ⟨?_, ?_⟩, labels⟩
    · intro relative isPrefix different label found
      refine directory_of_unblocked parented.linkFree parented.unblocked ?_
        found
      rw [split, List.prefix_concat_iff] at isPrefix
      rw [split] at different
      exact isPrefix.resolve_left different
    · intro label found
      have free := labels.free
      rw [split] at free found
      rw [parented.look_self, found] at free
      cases free
  · rw [absent] at isDirectory
    cases isDirectory
  · rw [List.append_assoc, ← split] at failed obstacle
    refine Or.inr ⟨failure, failed, ?_⟩
    rcases obstacle with isSome | blocked | hasNul
    · exact occupied isSome
    · exact absurd (unblocked_of_directory isDirectory) blocked
    · exact not_restorable_of_nul stagingNoNul (List.prefix_refl _) hasNul

/-- The node of an entry and its parents make the tree grow.  Files may have
been written meanwhile. -/
theorem Parented.grown
    (parented : Parented contents entries start staging done parent before
      disk)
    (split : entry.names = parent ++ [last])
    {label : Label}
    {final : Disk}
    (labels : LeafAdded disk (staging ++ entry.names) label after)
    (sameLabels : ∀ location, final.look location = after.look location)
    (inodes : ∀ (index : Nat) (inode : Inode),
      before.inodes[index]? = some inode →
      final.inodes[index]? = some inode) :
    Grown staging before entry.names label final := by
  refine ⟨?_, ?_, inodes⟩
  · intro location isOutside
    rw [sameLabels, labels.look, if_neg]
    · exact parented.staged.outside_of_directoriesAdded parented.added location
        isOutside
    · rintro rfl
      exact isOutside (List.prefix_append _ _)
  · intro relative
    rw [sameLabels, labels.look]
    by_cases same : relative = entry.names
    · subst same
      simp
    · have different : staging ++ relative ≠ staging ++ entry.names := by
        simpa using same
      rw [if_neg different, if_neg same, parented.added.look]
      have isPrefix : staging ++ relative <+: staging ++ parent ↔
          relative <+: entry.names := by
        rw [split] at same ⊢
        rw [List.prefix_concat_iff, List.prefix_append_right_inj]
        simp [same]
      simp only [isPrefix]

/-- The way to a new node has no links, unless the node is one. -/
theorem Grown.linkFree
    {label : Label}
    (staged : Staged contents entries start staging done before)
    (clear : Clear staging before entry)
    (grown : Grown staging before entry.names label after)
    (notLink : label.isSymlink = false) :
    LinkFree after.root (staging ++ entry.names) := by
  intro location below metadata target isLink
  have found : after.look location = some (.symlink metadata target) := isLink
  rcases prefix_cases below with ⟨above, different⟩ | ⟨relative, inside, rfl⟩
  · have isOutside : ¬staging <+: location := fun isPrefix =>
      different (above.eq_of_length_le isPrefix.length_le)
    obtain ⟨_, isDirectory⟩ := staged.above above different
    rw [grown.outside location isOutside, isDirectory] at found
    cases found
  · rw [grown.look] at found
    split at found
    · cases found
      cases notLink
    · rename_i different
      split at found
      · cases found
      · have isDirectory := clear.above relative inside different _ found
        cases isDirectory

end Leaves

/-! ## Files -/

section Files

variable
  {contents : EntryRecord → List UInt8}
  {entries done : List EntryRecord}
  {start before disk after : Disk}
  {staging : Location}
  {entry : EntryRecord}
  {parent : List Name}
  {last : Name}

/-- The disk when the file of an entry has been created, with its inode. -/
structure FileCreated
    (contents : EntryRecord → List UInt8)
    (entries : List EntryRecord)
    (start : Disk)
    (staging : Location)
    (done : List EntryRecord)
    (entry : EntryRecord)
    (data : Inode)
    (inode : Nat)
    (disk : Disk) : Prop where
  created : ∃ before,
    Staged contents entries start staging done before ∧
    Clear staging before entry ∧ NoNul entry.names ∧
    Grown staging before entry.names (.file inode) disk ∧
    inode = before.inodes.length ∧ disk.inodes = before.inodes ++ [data]

theorem createNew_step
    (stagingNoNul : NoNul staging)
    (split : entry.names = parent ++ [last])
    (notDirectory : entry.isOf .directory = false) :
    StateAction.Triple
      (fun disk => ∃ before,
        Parented contents entries start staging done parent before disk)
      (io (createNew ((staging ++ entry.names).map .normal)))
      (FileCreated contents entries start staging done entry ⟨newFile, []⟩)
      (StepFailed start staging done entry) := by
  refine StateAction.Triple.mapError ?_
  rintro disk ⟨before, parented⟩
  rcases parented.addAt stagingNoNul split notDirectory
    (Node.isLeaf_file disk.inodes.length) with
    ⟨after, placed, inodes, noNul, clear, labels⟩ |
    ⟨failure, failed, notRestorable⟩
  · have ran : createNew ((staging ++ entry.names).map .normal) disk =
        (.ok disk.inodes.length, { after with
          inodes := after.inodes ++ [⟨newFile, []⟩] }) :=
      StateAction.attempt_of_ok (by rw [placed, ok_bind])
    rw [ran]
    refine ⟨before, parented.staged, clear, noNul, ?_, ?_, ?_⟩
    · refine parented.grown split labels (fun _ => rfl) ?_
      intro index inode present
      rw [inodes]
      exact getElem?_append_of_some _ present
    · rw [parented.added.inodes]
    · rw [inodes]
  · have ran : createNew ((staging ++ entry.names).map .normal) disk =
        (.error failure, disk) :=
      StateAction.attempt_of_error (by rw [failed, error_bind])
    rw [ran]
    exact ⟨parented.outside, notRestorable⟩

/-- Changing the new file's inode keeps what was created. -/
theorem FileCreated.modify
    {data : Inode}
    {inode : Nat}
    (created : FileCreated contents entries start staging done entry data inode
      disk)
    (change : Inode → Inode)
    (sameRoot : after.root = disk.root)
    (sameInodes : after.inodes = disk.inodes.modify inode change) :
    FileCreated contents entries start staging done entry (change data) inode
      after := by
  obtain ⟨before, staged, clear, noNul, grown, rfl, inodes⟩ := created
  have modified : after.inodes = before.inodes ++ [change data] := by
    rw [sameInodes, inodes, modify_last]
  have labels (location : Location) : after.look location =
      disk.look location := by
    rw [Disk.look, sameRoot, Disk.look]
  refine ⟨before, staged, clear, noNul, ⟨?_, ?_, ?_⟩, rfl, modified⟩
  · intro location isOutside
    rw [labels, grown.outside location isOutside]
  · intro relative
    rw [labels, grown.look]
  · intro index present found
    rw [modified]
    exact getElem?_append_of_some _ found

theorem writeAll_step
    (inode : Nat)
    (bytes : List UInt8) :
    StateAction.Triple
      (FileCreated contents entries start staging done entry ⟨newFile, []⟩
        inode)
      (io (writeAll inode bytes))
      (fun _ => FileCreated contents entries start staging done entry
        ⟨newFile, bytes⟩ inode)
      (StepFailed start staging done entry) := by
  refine StateAction.Triple.mapError ?_
  intro disk created
  exact created.modify (Inode.append bytes) rfl rfl

theorem setPermissions_step
    (stagingNoNul : NoNul staging)
    (isFile : entry.isOf .file)
    (inode : Nat) :
    StateAction.Triple
      (FileCreated contents entries start staging done entry
        ⟨newFile, contents entry⟩ inode)
      (io (setPermissions ((staging ++ entry.names).map .normal) entry.mode))
      (fun _ => Staged contents entries start staging (done ++ [entry]))
      (StepFailed start staging done entry) := by
  refine StateAction.Triple.mapError ?_
  intro disk fileCreated
  obtain ⟨before, staged, clear, noNul, grown, sameInode, inodes⟩ :=
    fileCreated.created
  have linkFree := Grown.linkFree staged clear grown rfl
  have found : disk.look (staging ++ entry.names) = some (.file inode) :=
    grown.look_self
  have resolved : disk.resolve ((staging ++ entry.names).map .normal) =
      .ok (staging ++ entry.names) := by
    rw [resolve_eq_ok linkFree]
    refine ⟨?_, by simp [found], rfl⟩
    intro name member
    rcases List.mem_append.mp member with inStaging | inNames
    · exact stagingNoNul name inStaging
    · exact noNul name inNames
  have ran : setPermissions ((staging ++ entry.names).map .normal) entry.mode
      disk = (.ok (), { disk with
        inodes := disk.inodes.modify inode (Inode.setMode entry.mode) }) :=
    StateAction.attempt_of_ok (by rw [resolved, ok_bind, found])
  rw [ran]
  have finished : FileCreated contents entries start staging done entry
      ⟨withMode entry.mode newFile, contents entry⟩ inode { disk with
        inodes := disk.inodes.modify inode (Inode.setMode entry.mode) } :=
    fileCreated.modify (Inode.setMode entry.mode) rfl rfl
  obtain ⟨before, staged, clear, noNul, grown, rfl, inodes⟩ := finished
  have isMatch : Matches entry (.file before.inodes.length) := by
    unfold EntryRecord.isOf archiveEntryKind at isFile
    unfold Matches
    cases kind : entry.kind <;> simp_all
  refine staged.grow clear ⟨noNul, ?_⟩ isMatch grown ?_ ?_
  · intro target targetIsDir isLink
    simp [EntryRecord.isOf, archiveEntryKind, isLink] at isFile
  · intro _
    refine ⟨_, rfl, Nat.le_refl _, ?_⟩
    rw [inodes]
    simp
  · intro targetEntryId target isHardlink
    simp [EntryRecord.isOf, archiveEntryKind, isHardlink] at isFile

/-- Creating a file entry whose bytes can be read. -/
theorem unpackFile_step
    {backends : Backends}
    {file : List UInt8}
    {limits : DecodeLimits}
    {parsed : ParsedArchive}
    {groupId : UInt64}
    {group : GroupTableRecord}
    {restore : RestoreMapRecord}
    {decoded : List UInt8}
    (stagingNoNul : NoNul staging)
    (hostable : entry.path.Hostable)
    (linksBefore : LinksBefore done entry)
    (groupFound : groupById parsed.groups groupId = some group)
    (read : FileRead backends file limits parsed entry groupId group restore
      decoded (contents entry)) :
    StateAction.Triple (Staged contents entries start staging done)
      (unpackFile backends file limits parsed staging entry groupId)
      (fun _ => Staged contents entries start staging (done ++ [entry]))
      (StepFailed start staging done entry) := by
  have isFile : entry.isOf .file := by
    simp [EntryRecord.isOf, read.isFile, archiveEntryKind]
  have notDirectory : entry.isOf .directory = false := by
    simp [EntryRecord.isOf, read.isFile, archiveEntryKind]
  obtain ⟨parent, last, split⟩ :
      ∃ parent last, entry.names = parent ++ [last] :=
    ⟨_, _, (List.dropLast_append_getLast hostable.names_ne_nil).symm⟩
  unfold unpackFile
  simp only [groupFound, okOr_some, StateAction.lift_ok_bind, read.restoreFound,
    hostable.toPathBuf_eq, join_joinPieces staging hostable, read.decodes,
    read.sliced, ensure_of read.hash]
  refine StateAction.Triple.bind
    (createParents_step stagingNoNul linksBefore split) fun _ => ?_
  refine StateAction.Triple.bind
    (createNew_step stagingNoNul split notDirectory) fun inode => ?_
  refine StateAction.Triple.bind (writeAll_step inode (contents entry)) fun _ => ?_
  exact setPermissions_step stagingNoNul isFile inode

end Files

/-! ## Hardlinks -/

section Links

variable
  {contents : EntryRecord → List UInt8}
  {entries done : List EntryRecord}
  {start before disk after : Disk}
  {staging : Location}
  {entry : EntryRecord}
  {parent : List Name}
  {last : Name}

/-- The file that a hardlink names is found. -/
theorem Parented.resolveLast_file
    (parented : Parented contents entries start staging done parent before
      disk)
    (stagingNoNul : NoNul staging)
    {target : EntryRecord}
    (hostable : target.path.Hostable)
    (member : target ∈ done)
    {inode : Nat}
    (found : before.look (staging ++ target.names) = some (.file inode)) :
    disk.resolveLast ((staging ++ target.names).map .normal) =
        .ok (staging ++ target.names) ∧
      disk.look (staging ++ target.names) = some (.file inode) := by
  have kept : disk.look (staging ++ target.names) = some (.file inode) := by
    rw [parented.added.look, found]
    simp
  obtain ⟨above, name, split⟩ :
      ∃ above name, target.names = above ++ [name] :=
    ⟨_, _, (List.dropLast_append_getLast hostable.names_ne_nil).symm⟩
  have noNul : NoNul (staging ++ target.names) := by
    intro name member
    rcases List.mem_append.mp member with inStaging | inNames
    · exact stagingNoNul name inStaging
    · exact (parented.staged.restorable.spellable target ‹_›).names name inNames
  rw [split, ← List.append_assoc] at kept noNul ⊢
  have directories {location : Location}
      (isPrefix : location <+: staging ++ above) :
      ∃ metadata, disk.look location = some (.directory metadata) := by
    refine directory_of_isPrefix kept (isPrefix.trans (by simp)) ?_
    rintro rfl
    have := isPrefix.length_le
    simp only [List.length_append, List.length_singleton] at this
    omega
  refine ⟨?_, kept⟩
  rw [resolveLast_eq_ok]
  · exact ⟨noNul, directories (List.prefix_refl _), rfl⟩
  · intro location isPrefix metadata linkTarget isLink
    obtain ⟨_, isDirectory⟩ := directories isPrefix
    rw [Disk.look, isLink] at isDirectory
    cases isDirectory

/-- Creating a hardlink entry to a file that was created before. -/
theorem unpackHardlink_step
    {parsed : ParsedArchive}
    {targetEntryId : UInt64}
    {target : EntryRecord}
    (stagingNoNul : NoNul staging)
    (hostable : entry.path.Hostable)
    (linksBefore : LinksBefore done entry)
    (isHardlink : entry.kind = .hardlink targetEntryId)
    (targetFound : parsed.entries[targetEntryId.toNat]? = some target)
    (targetHostable : target.path.Hostable)
    (targetFile : target.isOf .file)
    (targetDone : target ∈ done) :
    StateAction.Triple (Staged contents parsed.entries start staging done)
      (unpackHardlink parsed staging entry targetEntryId)
      (fun _ => Staged contents parsed.entries start staging (done ++ [entry]))
      (StepFailed start staging done entry) := by
  have notDirectory : entry.isOf .directory = false := by
    simp [EntryRecord.isOf, isHardlink, archiveEntryKind]
  obtain ⟨parent, last, split⟩ :
      ∃ parent last, entry.names = parent ++ [last] :=
    ⟨_, _, (List.dropLast_append_getLast hostable.names_ne_nil).symm⟩
  unfold unpackHardlink
  simp only [targetFound, okOr_some, StateAction.lift_ok_bind,
    hostable.toPathBuf_eq, targetHostable.toPathBuf_eq,
    join_joinPieces staging hostable, join_joinPieces staging targetHostable]
  refine StateAction.Triple.bind
    (createParents_step stagingNoNul linksBefore split) fun _ => ?_
  refine StateAction.Triple.mapError ?_
  rintro disk ⟨before, parented⟩
  obtain ⟨inode, fileFound, _⟩ :=
    parented.staged.files target targetDone targetFile
  obtain ⟨resolved, found⟩ := parented.resolveLast_file stagingNoNul
    targetHostable targetDone fileFound
  rcases parented.addAt stagingNoNul split notDirectory
    (Node.isLeaf_file inode) with
    ⟨after, placed, inodes, noNul, clear, labels⟩ |
    ⟨failure, failed, notRestorable⟩
  · have ran : hardLink ((staging ++ target.names).map .normal)
        ((staging ++ entry.names).map .normal) disk = (.ok (), after) := by
      refine StateAction.attempt_of_ok ?_
      rw [resolved, ok_bind, found]
      simp only [placed, ok_bind]
    rw [ran]
    refine parented.staged.grow clear ⟨noNul, ?_⟩ ?_
      (parented.grown split labels (fun _ => rfl) ?_) ?_ ?_
    · intro linkTarget targetIsDir isLink
      rw [isHardlink] at isLink
      cases isLink
    · simp [Matches, isHardlink, Node.label]
    · intro index present isPresent
      rw [inodes, isPresent]
    · intro isFile
      simp [EntryRecord.isOf, isHardlink, archiveEntryKind] at isFile
    · intro otherId other otherHardlink otherFound
      rw [isHardlink] at otherHardlink
      cases otherHardlink
      rw [targetFound] at otherFound
      cases otherFound
      exact fileFound
  · have ran : hardLink ((staging ++ target.names).map .normal)
        ((staging ++ entry.names).map .normal) disk =
          (.error failure, disk) := by
      refine StateAction.attempt_of_error ?_
      rw [resolved, ok_bind, found]
      simp only [failed, error_bind]
    rw [ran]
    exact ⟨parented.outside, notRestorable⟩

/-! ## Symbolic links -/

theorem nul_mem_joinPieces
    {pieces : List Name} :
    nul ∉ joinPieces pieces ↔ NoNul pieces := by
  rw [mem_joinPieces (by decide)]
  simp [NoNul]

/-- The link of an entry is made below its parents, or the entries cannot be
restored: the kernel refuses a link whose name or target it cannot spell. -/
theorem Parented.symlink
    (parented : Parented contents entries start staging done parent before
      disk)
    {target : LinkTarget}
    {targetIsDir : Bool}
    (stagingNoNul : NoNul staging)
    (split : entry.names = parent ++ [last])
    (isLink : entry.kind = .symlink target targetIsDir)
    (targetHostable : target.Hostable) :
    (∃ after, Disk.symlink (joinPieces target.pieces)
          ((staging ++ entry.names).map .normal) disk = (.ok (), after) ∧
        after.inodes = before.inodes ∧ Spellable entry ∧
        Clear staging before entry ∧
        LeafAdded disk (staging ++ entry.names)
          (.symlink newFile (joinPieces target.pieces)) after) ∨
      ∃ failure, Disk.symlink (joinPieces target.pieces)
          ((staging ++ entry.names).map .normal) disk =
            (.error failure, disk) ∧ ¬Restorable (done ++ [entry]) := by
  have notDirectory : entry.isOf .directory = false := by
    simp [EntryRecord.isOf, isLink, archiveEntryKind]
  by_cases noNul : nul ∉ joinPieces target.pieces ∧
      hasNul ((staging ++ entry.names).map .normal) = false
  · by_cases nonempty : joinPieces target.pieces ≠ []
    · rcases parented.addAt stagingNoNul split notDirectory
        (Node.isLeaf_symlink newFile (joinPieces target.pieces)) with
        ⟨after, placed, inodes, namesNoNul, clear, labels⟩ |
        ⟨failure, failed, notRestorable⟩
      · refine Or.inl ⟨after, StateAction.attempt_of_ok ?_, inodes,
          ⟨namesNoNul, ?_⟩, clear, labels⟩
        · rw [ensure_of noNul, ok_bind, ensure_of nonempty, ok_bind, placed,
            ok_bind]
        · intro other otherIsDir otherLink
          rw [isLink] at otherLink
          cases otherLink
          refine ⟨?_, nul_mem_joinPieces.mp noNul.1⟩
          intro empty
          simp [LinkTarget.pieces, empty, joinPieces] at nonempty
      · refine Or.inr ⟨failure, StateAction.attempt_of_error ?_, notRestorable⟩
        rw [ensure_of noNul, ok_bind, ensure_of nonempty, ok_bind, failed,
          error_bind]
    · refine Or.inr ⟨.notFound, StateAction.attempt_of_error ?_, ?_⟩
      · rw [ensure_of noNul, ok_bind, ensure_of_not nonempty, error_bind]
      · intro restorable
        apply nonempty
        have spellable := restorable.spellable entry (by simp)
        refine joinPieces_ne_nil ?_ targetHostable.isPiece
        simpa [LinkTarget.pieces] using (spellable.target _ _ isLink).1
  · refine Or.inr ⟨.invalidInput, StateAction.attempt_of_error ?_, ?_⟩
    · rw [ensure_of_not noNul, error_bind]
    · intro restorable
      apply noNul
      have spellable := restorable.spellable entry (by simp)
      refine ⟨nul_mem_joinPieces.mpr (spellable.target _ _ isLink).2, ?_⟩
      rw [hasNul_eq_false_iff]
      intro name member
      rcases List.mem_append.mp member with inStaging | inNames
      · exact stagingNoNul name inStaging
      · exact spellable.names name inNames

/-- Creating a symbolic link entry. -/
theorem unpackSymlink_step
    {target : LinkTarget}
    {targetIsDir : Bool}
    (stagingNoNul : NoNul staging)
    (hostable : entry.path.Hostable)
    (linksBefore : LinksBefore done entry)
    (isLink : entry.kind = .symlink target targetIsDir)
    (within : target.resolvesWithin entry.path)
    (targetHostable : target.Hostable) :
    StateAction.Triple (Staged contents entries start staging done)
      (unpackSymlink staging entry target)
      (fun _ => Staged contents entries start staging (done ++ [entry]))
      (StepFailed start staging done entry) := by
  have spelled : target.toPathBuf = .ok (joinPieces target.pieces) :=
    LinkTarget.toPathBuf_eq_ok.mpr ⟨targetHostable, rfl⟩
  obtain ⟨parent, last, split⟩ :
      ∃ parent last, entry.names = parent ++ [last] :=
    ⟨_, _, (List.dropLast_append_getLast hostable.names_ne_nil).symm⟩
  unfold unpackSymlink
  simp only [ensure_of within, StateAction.lift_ok_bind, hostable.toPathBuf_eq,
    spelled, join_joinPieces staging hostable]
  refine StateAction.Triple.bind
    (createParents_step stagingNoNul linksBefore split) fun _ => ?_
  refine StateAction.Triple.mapError ?_
  rintro disk ⟨before, parented⟩
  rcases parented.symlink stagingNoNul split isLink targetHostable with
    ⟨after, ran, inodes, spellable, clear, labels⟩ |
    ⟨failure, failed, notRestorable⟩
  · rw [ran]
    refine parented.staged.grow clear spellable ?_
      (parented.grown split labels (fun _ => rfl) ?_) ?_ ?_
    · simp [Matches, isLink]
    · intro index present isPresent
      rw [inodes, isPresent]
    · intro isFile
      simp [EntryRecord.isOf, isLink, archiveEntryKind] at isFile
    · intro targetEntryId other isHardlink
      rw [isLink] at isHardlink
      cases isHardlink
  · rw [failed]
    exact ⟨parented.outside, notRestorable⟩

end Links

end Pithos
