import Pithos.Engine.Unpack.Defs

/-!
# The tree in the staging directory

`Staged` says exactly what stands in the staging directory after some entries
were created: a directory wherever an entry calls for one, and one node for
each other entry.  Creating one more entry either keeps it or fails because the
entries so far cannot all be restored.
-/

namespace Pithos

open Fallible
open FileTree
open HostPath
open Disk

/-- The names of an entry's host path. -/
abbrev EntryRecord.names (entry : EntryRecord) : List Name :=
  entry.path.names

/-! ## Which entries can be restored together -/

/-- Two entries that can stand in one tree: nothing stands at or below an entry
that is not a directory. -/
def Compatible (first second : EntryRecord) : Prop :=
  (first.isOf .directory = false → ¬first.names <+: second.names) ∧
    (second.isOf .directory = false → ¬second.names <+: first.names)

instance (first second : EntryRecord) : Decidable (Compatible first second) :=
  inferInstanceAs (Decidable (_ ∧ _))

theorem Compatible.symm
    {first second : EntryRecord}
    (compatible : Compatible first second) :
    Compatible second first :=
  And.symm compatible

/-- The names of an entry, and of its link target, that can be handed to the
kernel. -/
structure Spellable (entry : EntryRecord) : Prop where
  names : NoNul entry.names
  target : ∀ target targetIsDir, entry.kind = .symlink target targetIsDir →
    target.components ≠ [] ∧ NoNul target.pieces

/-- The entries can all be created in one tree. -/
structure Restorable (entries : List EntryRecord) : Prop where
  spellable : ∀ entry ∈ entries, Spellable entry
  compatible : entries.Pairwise Compatible

instance (names : List Name) : Decidable (NoNul names) :=
  inferInstanceAs (Decidable (∀ name ∈ names, nul ∉ name))

instance (entry : EntryRecord) : Decidable (Spellable entry) :=
  match kind : entry.kind with
  | .symlink target _ =>
      decidable_of_iff (NoNul entry.names ∧ target.components ≠ [] ∧
        NoNul target.pieces) (by
        constructor
        · rintro ⟨names, spellable⟩
          refine ⟨names, fun other _ isLink => ?_⟩
          rw [kind] at isLink
          cases isLink
          exact spellable
        · intro spellable
          exact ⟨spellable.names, spellable.target _ _ kind⟩)
  | .file _ | .directory | .hardlink _ =>
      decidable_of_iff (NoNul entry.names) (by
        constructor
        · intro names
          exact ⟨names, fun _ _ isLink => by simp [kind] at isLink⟩
        · exact Spellable.names)

instance (entries : List EntryRecord) : Decidable (Restorable entries) :=
  decidable_of_iff ((∀ entry ∈ entries, Spellable entry) ∧
      entries.Pairwise Compatible)
    ⟨fun ⟨spellable, compatible⟩ => ⟨spellable, compatible⟩,
      fun restorable => ⟨restorable.spellable, restorable.compatible⟩⟩

theorem Restorable.perm
    {first second : List EntryRecord}
    (permuted : first.Perm second) :
    Restorable first ↔ Restorable second := by
  have compatible := permuted.pairwise_iff (R := Compatible) Compatible.symm
  constructor
  · intro restorable
    exact ⟨fun entry member => restorable.spellable entry
      (permuted.mem_iff.mpr member), compatible.mp restorable.compatible⟩
  · intro restorable
    exact ⟨fun entry member => restorable.spellable entry
      (permuted.mem_iff.mp member), compatible.mpr restorable.compatible⟩

theorem restorable_concat
    {done : List EntryRecord}
    {entry : EntryRecord} :
    Restorable (done ++ [entry]) ↔
      Restorable done ∧ Spellable entry ∧
        ∀ earlier ∈ done, Compatible earlier entry := by
  constructor
  · intro restorable
    obtain ⟨front, _, apart⟩ := List.pairwise_append.mp restorable.compatible
    exact ⟨⟨fun earlier member => restorable.spellable earlier (by simp [member]),
      front⟩, restorable.spellable entry (by simp),
      fun earlier member => apart earlier member entry (by simp)⟩
  · rintro ⟨restorable, spellable, apart⟩
    refine ⟨?_, List.pairwise_append.mpr ⟨restorable.compatible,
      List.pairwise_singleton _ _, ?_⟩⟩
    · intro member isMember
      rcases List.mem_append.mp isMember with earlier | last
      · exact restorable.spellable member earlier
      · cases List.mem_singleton.mp last
        exact spellable
    · intro earlier member last isLast
      cases List.mem_singleton.mp isLast
      exact apart earlier member

theorem Restorable.of_append
    {done rest : List EntryRecord}
    (restorable : Restorable (done ++ rest)) :
    Restorable done :=
  ⟨fun entry member => restorable.spellable entry (by simp [member]),
    (List.pairwise_append.mp restorable.compatible).1⟩

/-! ## The tree of some entries -/

/-- The locations where some entries call for a directory. -/
def Implied (done : List EntryRecord) (relative : Location) : Prop :=
  relative = [] ∨ ∃ entry ∈ done, relative <+: entry.names ∧
    (relative = entry.names → entry.isOf .directory)

/-- The label that an entry calls for. -/
def Matches (entry : EntryRecord) (label : Label) : Prop :=
  match entry.kind with
  | .directory => label.isDirectory
  | .file _ | .hardlink _ => ∃ inode, label = .file inode
  | .symlink target _ => label = .symlink newFile (joinPieces target.pieces)

theorem Matches.isDirectory_iff
    {entry : EntryRecord}
    {label : Label}
    (isMatch : Matches entry label) :
    label.isDirectory ↔ entry.isOf .directory := by
  unfold Matches at isMatch
  unfold EntryRecord.isOf archiveEntryKind
  cases kind : entry.kind with
  | directory => simp_all
  | file groupId =>
      rw [kind] at isMatch
      obtain ⟨_, rfl⟩ := isMatch
      simp [Label.isDirectory]
  | hardlink targetEntryId =>
      rw [kind] at isMatch
      obtain ⟨_, rfl⟩ := isMatch
      simp [Label.isDirectory]
  | symlink target targetIsDir =>
      rw [kind] at isMatch
      subst isMatch
      simp [Label.isDirectory]

theorem Matches.isSymlink_iff
    {entry : EntryRecord}
    {label : Label}
    (isMatch : Matches entry label) :
    label.isSymlink ↔ entry.isOf .symlink := by
  unfold Matches at isMatch
  unfold EntryRecord.isOf archiveEntryKind
  cases kind : entry.kind with
  | directory =>
      rw [kind] at isMatch
      cases label <;> simp_all [Label.isDirectory, Label.isSymlink]
  | file groupId =>
      rw [kind] at isMatch
      obtain ⟨_, rfl⟩ := isMatch
      simp [Label.isSymlink]
  | hardlink targetEntryId =>
      rw [kind] at isMatch
      obtain ⟨_, rfl⟩ := isMatch
      simp [Label.isSymlink]
  | symlink target targetIsDir =>
      rw [kind] at isMatch
      subst isMatch
      simp [Label.isSymlink]

/-- Nothing changed outside a directory. -/
def SameOutside (directory : Location) (start disk : Disk) : Prop :=
  ∀ location, ¬directory <+: location →
    disk.look location = start.look location

/-- The staging directory after some entries were created.  `contents` gives the
bytes of the file entries. -/
structure Staged
    (contents : EntryRecord → List UInt8)
    (entries : List EntryRecord)
    (start : Disk)
    (staging : Location)
    (done : List EntryRecord)
    (disk : Disk) : Prop where
  outside : SameOutside staging start disk
  directories : ∀ relative,
    (∃ metadata, disk.look (staging ++ relative) =
      some (.directory metadata)) ↔ Implied done relative
  present : ∀ entry ∈ done, ∃ label,
    disk.look (staging ++ entry.names) = some label ∧ Matches entry label
  nodes : ∀ relative label, disk.look (staging ++ relative) = some label →
    label.isDirectory = false →
    ∃ entry ∈ done, entry.names = relative ∧ Matches entry label
  files : ∀ entry ∈ done, entry.isOf .file → ∃ inode,
    disk.look (staging ++ entry.names) = some (.file inode) ∧
      disk.inodes[inode]? = some ⟨withMode entry.mode newFile, contents entry⟩
  fileInodes : ∀ first ∈ done, ∀ second ∈ done, first.isOf .file →
    second.isOf .file →
    disk.look (staging ++ first.names) = disk.look (staging ++ second.names) →
    first = second
  hardlinks : ∀ entry ∈ done, ∀ targetEntryId target,
    entry.kind = .hardlink targetEntryId →
    entries[targetEntryId.toNat]? = some target →
    disk.look (staging ++ entry.names) = disk.look (staging ++ target.names)
  restorable : Restorable done

/-! ## One more entry -/

/-- A disk on which a node, and the directories above it, were added in the
staging directory. -/
structure Grown
    (staging : Location)
    (disk : Disk)
    (names : List Name)
    (label : Label)
    (after : Disk) : Prop where
  outside : SameOutside staging disk after
  look : ∀ relative, after.look (staging ++ relative) =
    if relative = names then some label
    else if relative <+: names ∧ disk.look (staging ++ relative) = none then
      some (.directory newDirectory)
    else disk.look (staging ++ relative)
  inodes : ∀ (index : Nat) (inode : Inode),
    disk.inodes[index]? = some inode →
    after.inodes[index]? = some inode

/-- The way to an entry is clear: above it stand directories or nothing, and at
it nothing, or a directory when the entry is one. -/
structure Clear
    (staging : Location)
    (disk : Disk)
    (entry : EntryRecord) : Prop where
  above : ∀ relative, relative <+: entry.names → relative ≠ entry.names →
    ∀ label, disk.look (staging ++ relative) = some label →
      label.isDirectory
  here : ∀ label, disk.look (staging ++ entry.names) = some label →
    label.isDirectory ∧ entry.isOf .directory

section Step

variable
  {contents : EntryRecord → List UInt8}
  {entries done : List EntryRecord}
  {start disk after : Disk}
  {staging : Location}
  {entry : EntryRecord}
  {label : Label}

theorem Grown.look_of_some
    (grown : Grown staging disk entry.names label after)
    {relative : Location}
    {present : Label}
    (different : relative ≠ entry.names)
    (found : disk.look (staging ++ relative) = some present) :
    after.look (staging ++ relative) = some present := by
  rw [grown.look, if_neg different, if_neg, found]
  simp [found]

/-- The label at an entry, when it was there before or is the new one. -/
theorem Grown.look_self (grown : Grown staging disk entry.names label after) :
    after.look (staging ++ entry.names) = some label := by
  rw [grown.look, if_pos rfl]

theorem Staged.root
    (staged : Staged contents entries start staging done disk) :
    ∃ metadata, disk.look staging = some (.directory metadata) := by
  have implied := (staged.directories []).mpr (Or.inl rfl)
  simpa using implied

/-- An entry of the tree stops every entry that is not compatible with it. -/
theorem Staged.compatible
    (staged : Staged contents entries start staging done disk)
    (clear : Clear staging disk entry)
    {earlier : EntryRecord}
    (member : earlier ∈ done) :
    Compatible earlier entry := by
  obtain ⟨label, found, isMatch⟩ := staged.present earlier member
  constructor
  · intro notDirectory isPrefix
    have isFalse : ¬label.isDirectory := by
      rw [isMatch.isDirectory_iff, notDirectory]
      simp
    by_cases same : earlier.names = entry.names
    · rw [same] at found
      exact isFalse (clear.here label found).1
    · exact isFalse (clear.above _ isPrefix same label found)
  · intro notDirectory isPrefix
    obtain ⟨below, split⟩ := isPrefix
    have some : (disk.look (staging ++ entry.names ++ below)).isSome := by
      rw [List.append_assoc, split, found]
      rfl
    have here : (disk.look (staging ++ entry.names)).isSome := by
      cases absent : disk.look (staging ++ entry.names) with
      | none =>
          have gone : disk.look (staging ++ entry.names ++ below) = none :=
            look_eq_none_of_isPrefix absent (List.prefix_append _ _)
          rw [gone] at some
          cases some
      | some present => rfl
    obtain ⟨present, foundHere⟩ := Option.isSome_iff_exists.mp here
    have isDirectory := (clear.here present foundHere).2
    rw [notDirectory] at isDirectory
    cases isDirectory

/-- Where a new node may stand, no earlier entry stands unless both are
directories. -/
theorem Staged.names_ne
    (staged : Staged contents entries start staging done disk)
    (clear : Clear staging disk entry)
    {earlier : EntryRecord}
    (member : earlier ∈ done)
    (notDirectory : earlier.isOf .directory = false) :
    earlier.names ≠ entry.names := by
  intro same
  refine (staged.compatible clear member).1 notDirectory ?_
  exact same ▸ List.prefix_refl _

theorem implied_concat
    {relative : Location} :
    Implied (done ++ [entry]) relative ↔
      Implied done relative ∨ relative <+: entry.names ∧
        (relative = entry.names → entry.isOf .directory) := by
  unfold Implied
  constructor
  · rintro (rfl | ⟨present, member, isPrefix, atEnd⟩)
    · exact Or.inl (Or.inl rfl)
    · rcases List.mem_append.mp member with earlier | last
      · exact Or.inl (Or.inr ⟨present, earlier, isPrefix, atEnd⟩)
      · cases List.mem_singleton.mp last
        exact Or.inr ⟨isPrefix, atEnd⟩
  · rintro ((rfl | ⟨present, member, isPrefix, atEnd⟩) | ⟨isPrefix, atEnd⟩)
    · exact Or.inl rfl
    · exact Or.inr ⟨present, by simp [member], isPrefix, atEnd⟩
    · exact Or.inr ⟨entry, by simp, isPrefix, atEnd⟩

private theorem grow_directories
    (staged : Staged contents entries start staging done disk)
    (clear : Clear staging disk entry)
    (isMatch : Matches entry label)
    (grown : Grown staging disk entry.names label after)
    (relative : Location) :
    (∃ metadata, after.look (staging ++ relative) =
      some (.directory metadata)) ↔ Implied (done ++ [entry]) relative := by
  rw [implied_concat, ← staged.directories, grown.look]
  by_cases same : relative = entry.names
  · subst same
    rw [if_pos rfl]
    have kind := isMatch.isDirectory_iff
    constructor
    · rintro ⟨metadata, isLabel⟩
      cases isLabel
      exact Or.inr ⟨List.prefix_refl _, fun _ => kind.mp rfl⟩
    · intro called
      have isDirectory : entry.isOf .directory := by
        rcases called with ⟨metadata, found⟩ | ⟨_, atEnd⟩
        · exact (clear.here _ found).2
        · exact atEnd rfl
      have := kind.mpr isDirectory
      cases label <;> simp_all [Label.isDirectory]
  · rw [if_neg same]
    constructor
    · rintro ⟨metadata, found⟩
      split at found
      · rename_i added
        exact Or.inr ⟨added.1, fun equal => absurd equal same⟩
      · exact Or.inl ⟨metadata, found⟩
    · rintro (⟨metadata, found⟩ | ⟨isPrefix, _⟩)
      · exact ⟨metadata, by simp [found]⟩
      · cases found : disk.look (staging ++ relative) with
        | none => exact ⟨newDirectory, by simp [isPrefix]⟩
        | some present =>
            have isDirectory := clear.above relative isPrefix same present found
            cases present with
            | directory metadata => exact ⟨metadata, by simp⟩
            | file inode => cases isDirectory
            | symlink metadata target => cases isDirectory

private theorem grow_present
    (staged : Staged contents entries start staging done disk)
    (clear : Clear staging disk entry)
    (isMatch : Matches entry label)
    (grown : Grown staging disk entry.names label after)
    {present : EntryRecord}
    (member : present ∈ done ++ [entry]) :
    ∃ label, after.look (staging ++ present.names) = some label ∧
      Matches present label := by
  rcases List.mem_append.mp member with earlier | last
  · obtain ⟨old, found, oldMatches⟩ := staged.present present earlier
    by_cases same : present.names = entry.names
    · rw [same] at found ⊢
      obtain ⟨isDirectory, entryDirectory⟩ := clear.here old found
      refine ⟨label, grown.look_self, ?_⟩
      have presentDirectory := oldMatches.isDirectory_iff.mp isDirectory
      have labelDirectory := isMatch.isDirectory_iff.mpr entryDirectory
      unfold EntryRecord.isOf archiveEntryKind at presentDirectory
      unfold Matches
      cases kind : present.kind <;> simp_all
    · exact ⟨old, grown.look_of_some same found, oldMatches⟩
  · cases List.mem_singleton.mp last
    exact ⟨label, grown.look_self, isMatch⟩

private theorem grow_nodes
    (staged : Staged contents entries start staging done disk)
    (isMatch : Matches entry label)
    (grown : Grown staging disk entry.names label after)
    {relative : Location}
    {found : Label}
    (isFound : after.look (staging ++ relative) = some found)
    (notDirectory : found.isDirectory = false) :
    ∃ present ∈ done ++ [entry], present.names = relative ∧
      Matches present found := by
  rw [grown.look] at isFound
  split at isFound
  · rename_i same
    cases isFound
    exact ⟨entry, by simp, same.symm, isMatch⟩
  · split at isFound
    · cases isFound
      cases notDirectory
    · obtain ⟨present, member, names, presentMatches⟩ :=
        staged.nodes relative found isFound notDirectory
      exact ⟨present, by simp [member], names, presentMatches⟩

/-- The tree grows by one entry.  A file entry brings a new inode with its
contents; a hardlink entry has the label of its target. -/
theorem Staged.grow
    (staged : Staged contents entries start staging done disk)
    (clear : Clear staging disk entry)
    (spellable : Spellable entry)
    (isMatch : Matches entry label)
    (grown : Grown staging disk entry.names label after)
    (newContents : entry.isOf .file → ∃ inode, label = .file inode ∧
      disk.inodes.length ≤ inode ∧ after.inodes[inode]? =
        some ⟨withMode entry.mode newFile, contents entry⟩)
    (linked : ∀ targetEntryId target, entry.kind = .hardlink targetEntryId →
      entries[targetEntryId.toNat]? = some target →
      disk.look (staging ++ target.names) = some label) :
    Staged contents entries start staging (done ++ [entry]) after := by
  have notDirectory {present : EntryRecord} (isFile : present.isOf .file) :
      present.isOf .directory = false := by
    unfold EntryRecord.isOf at isFile ⊢
    simp_all
  have kept {present : EntryRecord} (member : present ∈ done)
      (isFile : present.isOf .file) :
      after.look (staging ++ present.names) =
        disk.look (staging ++ present.names) := by
    obtain ⟨inode, found, _⟩ := staged.files present member isFile
    rw [grown.look_of_some
      (staged.names_ne clear member (notDirectory isFile)) found, found]
  refine {
    outside := fun location isOutside =>
      (grown.outside location isOutside).trans
        (staged.outside location isOutside)
    directories := grow_directories staged clear isMatch grown
    present := fun _ member => grow_present staged clear isMatch grown member
    nodes := fun _ _ found isFalse =>
      grow_nodes staged isMatch grown found isFalse
    files := ?_
    fileInodes := ?_
    hardlinks := ?_
    restorable := restorable_concat.mpr ⟨staged.restorable, spellable,
      fun _ member => staged.compatible clear member⟩ }
  · intro present member isFile
    rcases List.mem_append.mp member with earlier | last
    · obtain ⟨inode, found, content⟩ := staged.files present earlier isFile
      exact ⟨inode, by rw [kept earlier isFile, found],
        grown.inodes inode _ content⟩
    · cases List.mem_singleton.mp last
      obtain ⟨inode, rfl, _, content⟩ := newContents isFile
      exact ⟨inode, grown.look_self, content⟩
  · -- A new file has an inode beyond all those of earlier files.
    have fresh {present : EntryRecord} (member : present ∈ done)
        (presentFile : present.isOf .file) (isFile : entry.isOf .file) :
        after.look (staging ++ present.names) ≠
          after.look (staging ++ entry.names) := by
      obtain ⟨inode, rfl, beyond, _⟩ := newContents isFile
      obtain ⟨old, found, content⟩ := staged.files present member presentFile
      have bound := (List.getElem?_eq_some_iff.mp content).1
      rw [kept member presentFile, found, grown.look_self]
      intro same
      cases same
      omega
    intro first firstMember second secondMember firstFile secondFile same
    rcases List.mem_append.mp firstMember with firstEarlier | firstLast
    · rcases List.mem_append.mp secondMember with secondEarlier | secondLast
      · rw [kept firstEarlier firstFile, kept secondEarlier secondFile] at same
        exact staged.fileInodes first firstEarlier second secondEarlier
          firstFile secondFile same
      · cases List.mem_singleton.mp secondLast
        exact absurd same (fresh firstEarlier firstFile secondFile)
    · cases List.mem_singleton.mp firstLast
      rcases List.mem_append.mp secondMember with secondEarlier | secondLast
      · exact absurd same.symm (fresh secondEarlier secondFile firstFile)
      · exact (List.mem_singleton.mp secondLast).symm
  · intro present member targetEntryId target isHardlink found
    rcases List.mem_append.mp member with earlier | last
    · have same := staged.hardlinks present earlier targetEntryId target
        isHardlink found
      obtain ⟨old, oldFound, oldMatches⟩ := staged.present present earlier
      have notDirectory : present.isOf .directory = false := by
        simp [EntryRecord.isOf, isHardlink, archiveEntryKind]
      have oldFile : old.isDirectory = false := by
        cases isDirectory : old.isDirectory with
        | false => rfl
        | true =>
            rw [oldMatches.isDirectory_iff, notDirectory] at isDirectory
            cases isDirectory
      have targetFound : disk.look (staging ++ target.names) = some old := by
        rw [← same, oldFound]
      have targetDifferent : target.names ≠ entry.names := by
        intro equal
        rw [equal] at targetFound
        have := (clear.here old targetFound).1
        rw [oldFile] at this
        cases this
      rw [grown.look_of_some (staged.names_ne clear earlier notDirectory)
        oldFound, grown.look_of_some targetDifferent targetFound]
    · cases List.mem_singleton.mp last
      have targetFound := linked targetEntryId target isHardlink found
      have targetDifferent : target.names ≠ entry.names := by
        intro equal
        rw [equal] at targetFound
        have := (clear.here label targetFound).2
        simp [EntryRecord.isOf, isHardlink, archiveEntryKind] at this
      rw [grown.look_self, grown.look_of_some targetDifferent targetFound]

end Step

end Pithos
