import Pithos.Library.Disk

/-!
# Operations on paths of names

What the operations do on a path of plain names that meets no symbolic link:
the path stands for the location with the same names, an operation fails only
because of a file on the way, a missing parent, a node in its place or a NUL
byte, and a successful one changes the labels of the locations it creates.
-/

namespace FileTree

open HostPath
open Fallible

namespace Disk

/-- Names that can be handed to the kernel. -/
def NoNul (names : List Name) : Prop :=
  ∀ name ∈ names, nul ∉ name

/-- No regular file on the way to a location or at it. -/
def Unblocked (disk : Disk) (names : List Name) : Prop :=
  ∀ done, done <+: names → ∀ inode, disk.look done ≠ some (.file inode)

theorem hasNul_eq_false_iff
    {names : List Name} :
    hasNul (names.map .normal) = false ↔ NoNul names := by
  simp [hasNul, NoNul, List.any_eq_false]

theorem NoNul.take
    {names : List Name}
    (noNul : NoNul names)
    {done : List Name}
    (isPrefix : done <+: names) :
    NoNul done :=
  fun name member => noNul name (isPrefix.subset member)

theorem LinkFree.take
    {root : Node}
    {names done : List Name}
    (linkFree : LinkFree root names)
    (isPrefix : done <+: names) :
    LinkFree root done :=
  fun shorter shorterPrefix => linkFree shorter (shorterPrefix.trans isPrefix)

theorem Unblocked.take
    {disk : Disk}
    {names done : List Name}
    (unblocked : disk.Unblocked names)
    (isPrefix : done <+: names) :
    disk.Unblocked done :=
  fun shorter shorterPrefix => unblocked shorter (shorterPrefix.trans isPrefix)

/-- Above an existing node there are directories. -/
theorem directory_of_isPrefix
    {disk : Disk}
    {names done : List Name}
    {label : Label}
    (present : disk.look names = some label)
    (isPrefix : done <+: names)
    (different : done ≠ names) :
    ∃ metadata, disk.look done = some (.directory metadata) := by
  obtain ⟨below, rfl⟩ := isPrefix
  refine isDirectory_of_look ?_ (by
    rw [Disk.look] at present
    rw [present]
    rfl)
  rintro rfl
  simp at different

/-- A path of names to a directory is not blocked. -/
theorem unblocked_of_directory
    {disk : Disk}
    {names : List Name}
    {metadata : Metadata}
    (present : disk.look names = some (.directory metadata)) :
    disk.Unblocked names := by
  intro done isPrefix inode isFile
  by_cases same : done = names
  · subst same
    simp [present] at isFile
  · obtain ⟨_, isDirectory⟩ := directory_of_isPrefix present isPrefix same
    simp [isDirectory] at isFile

/-! ## Resolving -/

section Resolving

variable {disk : Disk} {names parent : List Name} {name : Name}

theorem namesWalk
    (linkFree : LinkFree disk.root names) :
    NamesWalk disk.root names
      (walk disk.look linkBudget [] (names.map .normal)) :=
  FileTree.namesWalk disk.look_root linkFree

theorem resolve_eq_ok
    (linkFree : LinkFree disk.root names)
    {location : Location} :
    disk.resolve (names.map .normal) = .ok location ↔
      NoNul names ∧ (disk.look names).isSome ∧ location = names := by
  simp only [resolve, bind_eq_ok, ensure_eq_ok, hasNul_eq_false_iff,
    exists_const]
  refine and_congr_right fun _ => ?_
  have outcome := namesWalk linkFree
  generalize walk disk.look linkBudget [] (names.map .normal) = result
    at outcome
  cases outcome with
  | found label present =>
      have isSome : (disk.look names).isSome := by
        rw [Disk.look, present]
        rfl
      simp [isSome, eq_comm]
  | missing absent _ =>
      have isNone : disk.look names = none := absent
      simp [isNone]
  | blocked done inode isPrefix different isFile =>
      simp only [reduceCtorEq, false_iff]
      rintro ⟨isSome, _⟩
      obtain ⟨label, present⟩ := Option.isSome_iff_exists.mp isSome
      obtain ⟨_, isDirectory⟩ := directory_of_isPrefix present isPrefix
        different
      rw [Disk.look, isFile] at isDirectory
      cases isDirectory

theorem isDir_iff
    (linkFree : LinkFree disk.root names) :
    disk.isDir (names.map .normal) ↔
      NoNul names ∧
        ∃ metadata, disk.look names = some (.directory metadata) := by
  unfold isDir
  constructor
  · intro isDir
    split at isDir
    · rename_i location resolved
      obtain ⟨noNul, _, rfl⟩ := (resolve_eq_ok linkFree).mp resolved
      refine ⟨noNul, ?_⟩
      cases found : disk.look location with
      | none => simp [found] at isDir
      | some label => cases label <;> simp_all [Label.isDirectory]
    · cases isDir
  · rintro ⟨noNul, metadata, found⟩
    have resolved := (resolve_eq_ok linkFree).mpr
      ⟨noNul, by simp [found], rfl⟩
    simp [resolved, found, Label.isDirectory]

/-- The outcomes of resolving a path up to its last name. -/
inductive LastOutcome (disk : Disk) (parent : List Name) (name : Name) :
    Except IoErrorKind Location → Prop
  | parentFound (metadata : Metadata)
      (noNul : NoNul (parent ++ [name]))
      (isDirectory : disk.look parent = some (.directory metadata)) :
      LastOutcome disk parent name (.ok (parent ++ [name]))
  | parentMissing
      (noNul : NoNul (parent ++ [name]))
      (absent : disk.look parent = none)
      (unblocked : disk.Unblocked parent) :
      LastOutcome disk parent name (.error .notFound)
  | blocked (failure : IoErrorKind)
      (otherFailure : failure ≠ .notFound)
      (obstacle : ¬NoNul (parent ++ [name]) ∨ ¬disk.Unblocked parent) :
      LastOutcome disk parent name (.error failure)

theorem resolveLast_outcome
    (linkFree : LinkFree disk.root parent) :
    LastOutcome disk parent name
      (disk.resolveLast ((parent ++ [name]).map .normal)) := by
  have last : ((parent ++ [name]).map Component.normal).getLast? =
      some (.normal name) := by simp
  have front : ((parent ++ [name]).map Component.normal).dropLast =
      parent.map .normal := by simp
  unfold resolveLast
  rw [last, front]
  by_cases noNul : NoNul (parent ++ [name])
  · rw [ensure_of (hasNul_eq_false_iff.mpr noNul), ok_bind]
    have outcome := namesWalk linkFree
    generalize walk disk.look linkBudget [] (parent.map .normal) = result
      at outcome
    cases outcome with
    | found label present =>
        have found : disk.look parent = some label := present
        cases label with
        | directory metadata =>
            simpa [found, Label.isDirectory, ensure_of] using
              LastOutcome.parentFound metadata noNul found
        | file inode =>
            simp only [ok_bind, found, Option.any_some, Label.isDirectory,
              Bool.false_eq_true, not_false_eq_true, ensure_of_not,
              error_bind]
            refine .blocked _ (by simp) (Or.inr ?_)
            intro unblocked
            exact unblocked parent (List.prefix_refl _) inode found
        | symlink metadata target =>
            exact absurd present
              (linkFree parent (List.prefix_refl _) metadata target)
    | missing absent notBlocked =>
        simpa using LastOutcome.parentMissing noNul absent notBlocked
    | blocked done inode isPrefix different isFile =>
        refine .blocked _ (by simp) (Or.inr ?_)
        intro unblocked
        exact unblocked done isPrefix inode isFile
  · have failed : ¬hasNul ((parent ++ [name]).map .normal) = false :=
      fun none => noNul (hasNul_eq_false_iff.mp none)
    rw [ensure_of_not failed, error_bind]
    exact .blocked _ (by simp) (Or.inl noNul)

@[simp] theorem resolveNoFollow_concat :
    disk.resolveNoFollow ((parent ++ [name]).map .normal) =
      disk.resolveLast ((parent ++ [name]).map .normal) := by
  have last : ((parent ++ [name]).map Component.normal).getLast? =
      some (.normal name) := by simp
  rw [resolveNoFollow, last]

theorem resolveLast_eq_ok
    (linkFree : LinkFree disk.root parent)
    {location : Location} :
    disk.resolveLast ((parent ++ [name]).map .normal) = .ok location ↔
      NoNul (parent ++ [name]) ∧
        (∃ metadata, disk.look parent = some (.directory metadata)) ∧
        location = parent ++ [name] := by
  have outcome := @resolveLast_outcome disk parent name linkFree
  generalize disk.resolveLast ((parent ++ [name]).map .normal) = result
    at outcome
  cases outcome with
  | parentFound metadata noNul isDirectory =>
      simp [noNul, isDirectory, eq_comm]
  | parentMissing noNul absent unblocked => simp [absent]
  | blocked failure otherFailure obstacle =>
      simp only [reduceCtorEq, false_iff]
      rintro ⟨noNul, ⟨metadata, isDirectory⟩, _⟩
      rcases obstacle with hasNul | blocked
      · exact hasNul noNul
      · exact blocked (unblocked_of_directory isDirectory)

end Resolving

/-! ## Tables of inodes -/

theorem getElem?_append_of_some
    {inodes : List Inode}
    {index : Nat}
    {inode : Inode}
    (added : List Inode)
    (found : inodes[index]? = some inode) :
    (inodes ++ added)[index]? = some inode := by
  have bound := (List.getElem?_eq_some_iff.mp found).1
  rw [List.getElem?_append_left bound, found]

theorem modify_last
    (inodes : List Inode)
    (last : Inode)
    (change : Inode → Inode) :
    (inodes ++ [last]).modify inodes.length change =
      inodes ++ [change last] := by
  induction inodes with
  | nil => rfl
  | cons first rest inductionHypothesis =>
      simpa using inductionHypothesis

/-! ## Adding nodes -/

/-- A disk with one more leaf. -/
structure LeafAdded
    (disk : Disk)
    (location : Location)
    (label : Label)
    (after : Disk) : Prop where
  free : disk.look location = none
  look : ∀ asked, after.look asked =
    if asked = location then some label else disk.look asked

theorem add_leaf
    {disk : Disk}
    {added : Node}
    (leaf : added.IsLeaf)
    {parent : Location}
    {name : Name}
    {metadata : Metadata}
    (isDirectory : disk.look parent = some (.directory metadata))
    (free : disk.look (parent ++ [name]) = none) :
    ∃ after, disk.add added (parent ++ [name]) = some after ∧
      after.inodes = disk.inodes ∧
      LeafAdded disk (parent ++ [name]) added.label after := by
  have possible := (@insert_isSome_iff added disk.root parent name).mpr
    ⟨⟨metadata, isDirectory⟩, free⟩
  obtain ⟨root, inserted⟩ := Option.isSome_iff_exists.mp possible
  refine ⟨⟨root, disk.inodes,
    isDirectory_of_insert disk.rootIsDirectory inserted⟩,
    add_eq_some.mpr ⟨inserted, rfl⟩, rfl, free, ?_⟩
  exact look_insert_leaf leaf inserted

theorem add_eq_none
    {disk : Disk}
    {added : Node}
    {parent : Location}
    {name : Name}
    (occupied : (disk.look (parent ++ [name])).isSome) :
    disk.add added (parent ++ [name]) = none := by
  cases placed : disk.add added (parent ++ [name]) with
  | none => rfl
  | some after =>
      have inserted := (add_eq_some.mp placed).1
      have free := (insert_isSome_iff.mp (by rw [inserted]; rfl)).2
      rw [Disk.look, free] at occupied
      cases occupied

/-- What adding a leaf does on a path of names. -/
theorem addAt_cases
    {disk : Disk}
    {added : Node}
    (leaf : added.IsLeaf)
    {parent : List Name}
    {name : Name}
    (linkFree : LinkFree disk.root parent) :
    (∃ after metadata,
        disk.addAt ((parent ++ [name]).map .normal) added = .ok after ∧
        NoNul (parent ++ [name]) ∧
        disk.look parent = some (.directory metadata) ∧
        after.inodes = disk.inodes ∧
        LeafAdded disk (parent ++ [name]) added.label after) ∨
      (disk.addAt ((parent ++ [name]).map .normal) added =
          .error .notFound ∧
        NoNul (parent ++ [name]) ∧ disk.look parent = none ∧
        disk.Unblocked parent) ∨
      ∃ failure, failure ≠ .notFound ∧
        disk.addAt ((parent ++ [name]).map .normal) added = .error failure ∧
        ((disk.look (parent ++ [name])).isSome ∨ ¬disk.Unblocked parent ∨
          ¬NoNul (parent ++ [name])) := by
  have outcome := @resolveLast_outcome disk parent name linkFree
  unfold addAt
  generalize disk.resolveLast ((parent ++ [name]).map .normal) = result
    at outcome
  cases outcome with
  | parentFound metadata noNul isDirectory =>
      rw [ok_bind]
      cases found : disk.look (parent ++ [name]) with
      | none =>
          obtain ⟨after, placed, inodes, labels⟩ :=
            add_leaf leaf isDirectory found
          exact Or.inl ⟨after, metadata, by rw [placed, okOr_some], noNul,
            isDirectory, inodes, labels⟩
      | some label =>
          have occupied := @add_eq_none disk added parent name (by simp [found])
          exact Or.inr (Or.inr ⟨.alreadyExists, by simp,
            by rw [occupied, okOr_none], Or.inl rfl⟩)
  | parentMissing noNul absent unblocked =>
      exact Or.inr (Or.inl ⟨rfl, noNul, absent, unblocked⟩)
  | blocked failure otherFailure obstacle =>
      refine Or.inr (Or.inr ⟨failure, otherFailure, rfl, Or.inr ?_⟩)
      exact obstacle.symm

/-- A leaf can be added at a free path below a directory. -/
theorem addAt_of_free
    {disk : Disk}
    {added : Node}
    (leaf : added.IsLeaf)
    {parent : List Name}
    {name : Name}
    (linkFree : LinkFree disk.root parent)
    (noNul : NoNul (parent ++ [name]))
    {metadata : Metadata}
    (isDirectory : disk.look parent = some (.directory metadata))
    (free : disk.look (parent ++ [name]) = none) :
    ∃ after, disk.addAt ((parent ++ [name]).map .normal) added = .ok after ∧
      after.inodes = disk.inodes ∧
      LeafAdded disk (parent ++ [name]) added.label after := by
  rcases @addAt_cases disk added leaf parent name linkFree with
    ⟨after, _, placed, _, _, inodes, labels⟩ | ⟨_, _, absent, _⟩ |
    ⟨failure, _, _, occupied | blocked | hasNul⟩
  · exact ⟨after, placed, inodes, labels⟩
  · simp [absent] at isDirectory
  · simp [free] at occupied
  · exact absurd (unblocked_of_directory isDirectory) blocked
  · exact absurd noNul hasNul

/-! ## Directories -/

/-- A disk with the missing directories of a path. -/
structure DirectoriesAdded
    (disk : Disk)
    (names : List Name)
    (after : Disk) : Prop where
  inodes : after.inodes = disk.inodes
  look : ∀ asked, after.look asked =
    if asked <+: names ∧ disk.look asked = none then
      some (.directory newDirectory)
    else disk.look asked

/-- The outcomes of making directories along a path of names. -/
inductive CreateOutcome (disk : Disk) (names : List Name) :
    Except IoErrorKind Unit × Disk → Prop
  | made (after : Disk)
      (noNul : NoNul names)
      (unblocked : disk.Unblocked names)
      (added : DirectoriesAdded disk names after) :
      CreateOutcome disk names (.ok (), after)
  | failed (failure : IoErrorKind)
      (obstacle : ¬NoNul names ∨ ¬disk.Unblocked names) :
      CreateOutcome disk names (.error failure, disk)

theorem linkFree_of_look
    {disk after : Disk}
    {names : List Name}
    (linkFree : LinkFree disk.root names)
    (unchanged : ∀ done, done <+: names → ∀ metadata target,
      after.look done = some (.symlink metadata target) →
      disk.look done = some (.symlink metadata target)) :
    LinkFree after.root names := by
  intro done isPrefix metadata target found
  exact linkFree done isPrefix metadata target
    (unchanged done isPrefix metadata target found)

theorem directoriesAdded_self
    {disk : Disk}
    {names : List Name}
    {metadata : Metadata}
    (present : disk.look names = some (.directory metadata)) :
    DirectoriesAdded disk names disk := by
  refine ⟨rfl, fun asked => ?_⟩
  rw [if_neg]
  rintro ⟨isPrefix, absent⟩
  by_cases same : asked = names
  · subst same
    simp [absent] at present
  · obtain ⟨_, isDirectory⟩ := directory_of_isPrefix present isPrefix same
    simp [absent] at isDirectory

theorem directoriesAdded_concat
    {disk middle after : Disk}
    {parent : List Name}
    {name : Name}
    (parents : DirectoriesAdded disk parent middle)
    (free : disk.look (parent ++ [name]) = none)
    (inodes : after.inodes = middle.inodes)
    (added : LeafAdded middle (parent ++ [name])
      (.directory newDirectory) after) :
    DirectoriesAdded disk (parent ++ [name]) after := by
  refine ⟨inodes.trans parents.inodes, fun asked => ?_⟩
  rw [added.look, parents.look]
  by_cases same : asked = parent ++ [name]
  · subst same
    simp [free]
  · simp only [List.prefix_concat_iff, same, false_or, if_false]

private theorem unlessDir_outcome
    {disk : Disk}
    {names : List Name}
    (linkFree : LinkFree disk.root names)
    (failure : IoErrorKind)
    (obstacle : (∃ metadata, disk.look names = some (.directory metadata)) ∨
      ¬disk.Unblocked names ∨ ¬NoNul names) :
    CreateOutcome disk names
      (unlessDir (names.map .normal) failure disk) := by
  have ran : unlessDir (names.map .normal) failure disk =
      (if disk.isDir (names.map .normal) then .ok () else .error failure,
        disk) := rfl
  rw [ran]
  cases isDir : disk.isDir (names.map .normal) with
  | true =>
      obtain ⟨noNul, metadata, found⟩ := (isDir_iff linkFree).mp isDir
      exact .made disk noNul (unblocked_of_directory found)
        (directoriesAdded_self found)
  | false =>
      refine .failed failure ?_
      by_cases noNul : NoNul names
      · rcases obstacle with ⟨metadata, found⟩ | blocked | hasNul
        · have := (isDir_iff linkFree).mpr ⟨noNul, metadata, found⟩
          simp [isDir] at this
        · exact Or.inr blocked
        · exact absurd noNul hasNul
      · exact Or.inl noNul

/-- What making one directory does on a path of names. -/
theorem mkdir_cases
    {disk : Disk}
    {parent : List Name}
    {name : Name}
    (linkFree : LinkFree disk.root (parent ++ [name])) :
    (∃ after metadata,
        mkdir ((parent ++ [name]).map .normal) disk = (.ok (), after) ∧
        NoNul (parent ++ [name]) ∧
        disk.look parent = some (.directory metadata) ∧
        after.inodes = disk.inodes ∧
        LeafAdded disk (parent ++ [name]) (.directory newDirectory) after) ∨
      (mkdir ((parent ++ [name]).map .normal) disk =
          (.error .notFound, disk) ∧
        NoNul (parent ++ [name]) ∧ disk.look parent = none ∧
        disk.Unblocked parent) ∨
      ∃ failure, failure ≠ .notFound ∧
        mkdir ((parent ++ [name]).map .normal) disk =
          (.error failure, disk) ∧
        ((∃ metadata, disk.look (parent ++ [name]) =
            some (.directory metadata)) ∨
          ¬disk.Unblocked (parent ++ [name]) ∨
          ¬NoNul (parent ++ [name])) := by
  have isPrefix : parent <+: parent ++ [name] := List.prefix_append _ _
  rcases @addAt_cases disk _ (Node.isLeaf_directory newDirectory) parent name
    (LinkFree.take linkFree isPrefix) with
    ⟨after, metadata, placed, noNul, isDirectory, inodes, labels⟩ |
    ⟨failed, noNul, absent, unblocked⟩ | ⟨failure, other, failed, obstacle⟩
  · refine Or.inl ⟨after, metadata, StateAction.attempt_of_ok ?_, noNul, isDirectory,
      inodes, labels⟩
    rw [placed, ok_bind]
  · refine Or.inr (Or.inl ⟨StateAction.attempt_of_error ?_, noNul, absent,
      unblocked⟩)
    rw [failed, error_bind]
  · refine Or.inr (Or.inr ⟨failure, other, StateAction.attempt_of_error ?_, ?_⟩)
    · rw [failed, error_bind]
    · rcases obstacle with occupied | blocked | hasNul
      · obtain ⟨label, found⟩ := Option.isSome_iff_exists.mp occupied
        cases label with
        | directory metadata => exact Or.inl ⟨metadata, found⟩
        | file inode =>
            refine Or.inr (Or.inl ?_)
            intro unblocked
            exact unblocked _ (List.prefix_refl _) inode found
        | symlink metadata target =>
            exact absurd found
              (linkFree _ (List.prefix_refl _) metadata target)
      · exact Or.inr (Or.inl fun unblocked =>
          blocked (unblocked.take isPrefix))
      · exact Or.inr (Or.inr hasNul)

section CreateDirAll

variable {path : List Component} {count : Nat} {disk after : Disk}

theorem orElse_of_ok
    {action : StateAction Disk IoErrorKind Unit}
    {handler : IoErrorKind → StateAction Disk IoErrorKind Unit}
    (ran : action disk = (.ok (), after)) :
    orElse action handler disk = (.ok (), after) := by
  simp only [orElse, ran]

theorem orElse_of_error
    {action : StateAction Disk IoErrorKind Unit}
    {handler : IoErrorKind → StateAction Disk IoErrorKind Unit}
    {failure : IoErrorKind}
    (ran : action disk = (.error failure, after)) :
    orElse action handler disk = handler failure after := by
  simp only [orElse, ran]

theorem createDirAllUpTo_of_ok
    (ran : mkdir (path.take (count + 1)) disk = (.ok (), after)) :
    createDirAllUpTo path (count + 1) disk = (.ok (), after) :=
  orElse_of_ok ran

theorem createDirAllUpTo_of_error
    {failure : IoErrorKind}
    (other : failure ≠ .notFound)
    (ran : mkdir (path.take (count + 1)) disk = (.error failure, disk)) :
    createDirAllUpTo path (count + 1) disk =
      unlessDir (path.take (count + 1)) failure disk := by
  rw [createDirAllUpTo, orElse_of_error ran, if_neg other]

theorem createDirAllUpTo_of_missing
    {final : Disk}
    (ran : mkdir (path.take (count + 1)) disk = (.error .notFound, disk))
    (parents : createDirAllUpTo path count disk = (.ok (), after))
    (last : mkdir (path.take (count + 1)) after = (.ok (), final)) :
    createDirAllUpTo path (count + 1) disk = (.ok (), final) := by
  rw [createDirAllUpTo, orElse_of_error ran, if_pos rfl,
    StateAction.bind_of_ok parents]
  exact orElse_of_ok last

end CreateDirAll

/-- Once the parents are made, the last directory can be made too. -/
private theorem createDirAll_parents_made
    {disk middle : Disk}
    {parent : List Name}
    {name : Name}
    (linkFree : LinkFree disk.root (parent ++ [name]))
    (noNul : NoNul (parent ++ [name]))
    (absent : disk.look parent = none)
    (parents : DirectoriesAdded disk parent middle) :
    ∃ final, mkdir ((parent ++ [name]).map .normal) middle = (.ok (), final) ∧
      DirectoriesAdded disk (parent ++ [name]) final := by
  have free : disk.look (parent ++ [name]) = none :=
    look_eq_none_of_isPrefix absent (List.prefix_append _ _)
  have isDirectory : middle.look parent = some (.directory newDirectory) := by
    rw [parents.look, if_pos ⟨List.prefix_refl _, absent⟩]
  have middleFree : LinkFree middle.root (parent ++ [name]) := by
    refine linkFree_of_look linkFree fun done _ metadata target found => ?_
    rw [parents.look] at found
    split at found
    · cases found
    · exact found
  rcases mkdir_cases middleFree with
    ⟨final, _, ran, _, _, inodes, added⟩ | ⟨_, _, missing, _⟩ |
    ⟨failure, _, _, ⟨metadata, found⟩ | blocked | hasNul⟩
  · exact ⟨final, ran, directoriesAdded_concat parents free inodes added⟩
  · simp [isDirectory] at missing
  · rw [parents.look, if_neg] at found
    · simp [free] at found
    · rintro ⟨isPrefix, _⟩
      have := isPrefix.length_le
      rw [List.length_append, List.length_singleton] at this
      omega
  · refine absurd ?_ blocked
    intro done isPrefix inode isFile
    rw [List.prefix_concat_iff] at isPrefix
    rcases isPrefix with rfl | shorter
    · rw [parents.look, free] at isFile
      split at isFile <;> cases isFile
    · exact unblocked_of_directory isDirectory done shorter inode isFile
  · exact absurd noNul hasNul

/-- Making the directories along a path of names succeeds unless a file or a NUL
byte is in the way, and adds exactly the missing ones. -/
theorem createDirAll_outcome
    {disk : Disk}
    {names : List Name}
    (linkFree : LinkFree disk.root names) :
    CreateOutcome disk names (createDirAll (names.map .normal) disk) := by
  have upTo (front back : List Name) (linkFree : LinkFree disk.root front) :
      CreateOutcome disk front
        (createDirAllUpTo ((front ++ back).map .normal) front.length disk) := by
    induction front using List.reverseRecOn generalizing back with
    | nil =>
        obtain ⟨metadata, found⟩ := disk.look_root
        exact .made disk (by simp [NoNul]) (unblocked_of_directory found)
          (directoriesAdded_self found)
    | append_singleton parent name inductionHypothesis =>
        have isPrefix : parent <+: parent ++ [name] := List.prefix_append _ _
        have taken : ((parent ++ [name] ++ back).map Component.normal).take
            (parent.length + 1) = (parent ++ [name]).map .normal := by
          rw [← List.map_take, List.take_left' (by simp)]
        have count : (parent ++ [name]).length = parent.length + 1 := by simp
        rw [count]
        rcases mkdir_cases linkFree with
          ⟨after, metadata, ran, noNul, isDirectory, inodes, added⟩ |
          ⟨ran, noNul, absent, unblocked⟩ |
          ⟨failure, other, ran, obstacle⟩
        · rw [createDirAllUpTo_of_ok (by rw [taken]; exact ran)]
          refine .made after noNul ?_ ?_
          · intro done donePrefix inode isFile
            rw [List.prefix_concat_iff] at donePrefix
            rcases donePrefix with rfl | shorter
            · simp [added.free] at isFile
            · exact unblocked_of_directory isDirectory done shorter inode isFile
          · exact directoriesAdded_concat (directoriesAdded_self isDirectory)
              added.free inodes added
        · have parents := inductionHypothesis ([name] ++ back)
            (LinkFree.take linkFree isPrefix)
          rw [← List.append_assoc] at parents
          generalize parentsRan : createDirAllUpTo
            ((parent ++ [name] ++ back).map .normal) parent.length disk =
              result at parents
          cases parents with
          | made middle _ _ added =>
              obtain ⟨final, last, allAdded⟩ :=
                createDirAll_parents_made linkFree noNul absent added
              rw [createDirAllUpTo_of_missing (by rw [taken]; exact ran)
                parentsRan (by rw [taken]; exact last)]
              refine .made final noNul ?_ allAdded
              intro done donePrefix inode isFile
              rw [List.prefix_concat_iff] at donePrefix
              rcases donePrefix with rfl | shorter
              · have free : disk.look (parent ++ [name]) = none :=
                  look_eq_none_of_isPrefix absent isPrefix
                simp [free] at isFile
              · exact unblocked done shorter inode isFile
          | failed failure obstacle =>
              rcases obstacle with hasNul | blocked
              · exact absurd (noNul.take isPrefix) hasNul
              · exact absurd unblocked blocked
        · rw [createDirAllUpTo_of_error other (by rw [taken]; exact ran), taken]
          exact unlessDir_outcome linkFree failure obstacle
  have whole := upTo names [] linkFree
  rwa [List.append_nil, ← List.length_map Component.normal] at whole

/-! ## Renaming -/

/-- A disk on which a node was moved to a free location. -/
structure Moved
    (disk : Disk)
    (source destination : Location)
    (after : Disk) : Prop where
  inodes : after.inodes = disk.inodes
  arrived : ∀ relative,
    after.look (destination ++ relative) = disk.look (source ++ relative)
  gone : ∀ relative, after.look (source ++ relative) = none
  kept : ∀ location, ¬source <+: location → ¬destination <+: location →
    after.look location = disk.look location

theorem not_isPrefix_sibling
    {parent : Location}
    {first second : Name}
    (different : first ≠ second)
    (rest : Location) :
    ¬parent ++ [first] <+: parent ++ [second] ++ rest := by
  simpa using different

theorem makeRoom_eq_ok
    {disk freed : Disk}
    {moved : Node}
    {destination : Location}
    (ran : disk.makeRoom moved destination = .ok freed) :
    freed.inodes = disk.inodes ∧ ∀ location, ¬destination <+: location →
      freed.look location = disk.look location := by
  unfold makeRoom at ran
  split at ran
  · cases ran
    exact ⟨rfl, fun _ _ => rfl⟩
  · split at ran
    · rw [okOr_eq_ok, remove_eq_some] at ran
      refine ⟨ran.2, fun location outside => ?_⟩
      rw [Disk.look, look_remove ran.1, if_neg outside]
      rfl
    · cases ran

/-- What a successful move to a sibling does. -/
theorem moved_of_moveTo
    {disk after : Disk}
    {parent : Location}
    {source destination : Name}
    (different : source ≠ destination)
    (ran : disk.moveTo (parent ++ [source]) (parent ++ [destination]) =
      .ok after) :
    Moved disk (parent ++ [source]) (parent ++ [destination]) after := by
  have unequal : ¬parent ++ [source] = parent ++ [destination] := by
    simpa using different
  have notAbove := @not_isPrefix_sibling parent destination source
    different.symm
  have notBelow := @not_isPrefix_sibling parent source destination different
  simp only [moveTo, if_neg unequal, bind_eq_ok, okOr_eq_ok, ensure_eq_ok,
    exists_const] at ran
  obtain ⟨moved, found, _, cleared, removed, freed, isFreed, placed⟩ := ran
  obtain ⟨removedRoot, clearedInodes⟩ := remove_eq_some.mp removed
  obtain ⟨inserted, placedInodes⟩ := add_eq_some.mp placed
  have clearedLook (location : Location) : cleared.look location =
      if parent ++ [source] <+: location then none else disk.look location :=
    look_remove removedRoot location
  obtain ⟨freedInodes, freedLook⟩ := makeRoom_eq_ok isFreed
  have finalLook := look_insert inserted
  refine ⟨by rw [placedInodes, freedInodes, clearedInodes], ?_, ?_, ?_⟩
  · intro relative
    rw [Disk.look, finalLook, if_pos (List.prefix_append _ _), List.drop_left,
      Disk.look, look_append, found]
    rfl
  · intro relative
    rw [Disk.look, finalLook, if_neg (notAbove relative)]
    have := freedLook _ (notAbove relative)
    rw [clearedLook, if_pos (List.prefix_append _ _)] at this
    exact this
  · intro location notSource notDestination
    rw [Disk.look, finalLook, if_neg notDestination]
    have := freedLook _ notDestination
    rwa [clearedLook, if_neg notSource] at this

/-- A node can be renamed to a free name in the same directory. -/
theorem moveTo_sibling
    {disk : Disk}
    {parent : Location}
    {source destination : Name}
    (different : source ≠ destination)
    (present : (disk.look (parent ++ [source])).isSome)
    (free : disk.look (parent ++ [destination]) = none) :
    ∃ after, disk.moveTo (parent ++ [source]) (parent ++ [destination]) =
      .ok after := by
  obtain ⟨moved, found⟩ : ∃ moved,
      disk.root.get (parent ++ [source]) = some moved := by
    simpa [Disk.look, FileTree.look, Option.isSome_iff_exists] using present
  have parentDirectory : ∃ metadata,
      disk.look parent = some (.directory metadata) := by
    obtain ⟨label, isLabel⟩ := Option.isSome_iff_exists.mp present
    exact directory_of_isPrefix isLabel (List.prefix_append _ _) (by simp)
  have unequal : ¬parent ++ [source] = parent ++ [destination] := by
    simpa using different
  have notBelow := @not_isPrefix_sibling parent source destination different []
  rw [List.append_nil] at notBelow
  obtain ⟨clearedRoot, removed⟩ := Option.isSome_iff_exists.mp
    (remove_isSome_iff.mpr ⟨by simp, present⟩)
  have clearedLook := look_remove removed
  obtain ⟨cleared, isCleared, sameRoot⟩ : ∃ cleared : Disk,
      disk.remove (parent ++ [source]) = some cleared ∧
        cleared.root = clearedRoot :=
    ⟨⟨clearedRoot, disk.inodes,
      isDirectory_of_remove disk.rootIsDirectory removed⟩,
      remove_eq_some.mpr ⟨removed, rfl⟩, rfl⟩
  subst sameRoot
  have stillFree : FileTree.look cleared.root (parent ++ [destination]) =
      none := by
    rw [clearedLook, if_neg notBelow]
    exact free
  have possible := (@insert_isSome_iff moved cleared.root parent
    destination).mpr ⟨by
      rw [clearedLook, if_neg]
      · exact parentDirectory
      · intro isPrefix
        have := isPrefix.length_le
        rw [List.length_append, List.length_singleton] at this
        omega, stillFree⟩
  obtain ⟨finalRoot, inserted⟩ := Option.isSome_iff_exists.mp possible
  have absent : cleared.root.get (parent ++ [destination]) = none := by
    simpa [FileTree.look] using stillFree
  obtain ⟨after, placed⟩ : ∃ after,
      cleared.add moved (parent ++ [destination]) = some after :=
    ⟨⟨finalRoot, cleared.inodes,
      isDirectory_of_insert cleared.rootIsDirectory inserted⟩,
      add_eq_some.mpr ⟨inserted, rfl⟩⟩
  exact ⟨after, by simp only [moveTo, makeRoom, found, okOr_some, ok_bind,
    if_neg unequal, ensure_of notBelow, isCleared, absent, placed]⟩

theorem rename_sibling
    {disk : Disk}
    {parent : List Name}
    {source destination : Name}
    (linkFree : LinkFree disk.root parent)
    (sourceNoNul : NoNul (parent ++ [source]))
    (destinationNoNul : NoNul (parent ++ [destination]))
    (different : source ≠ destination)
    (present : (disk.look (parent ++ [source])).isSome)
    (free : disk.look (parent ++ [destination]) = none) :
    ∃ after,
      rename ((parent ++ [source]).map .normal)
        ((parent ++ [destination]).map .normal) disk = (.ok (), after) ∧
      Moved disk (parent ++ [source]) (parent ++ [destination]) after := by
  have isDirectory : ∃ metadata,
      disk.look parent = some (.directory metadata) := by
    obtain ⟨label, isLabel⟩ := Option.isSome_iff_exists.mp present
    exact directory_of_isPrefix isLabel (List.prefix_append _ _) (by simp)
  obtain ⟨after, ran⟩ := moveTo_sibling different present free
  refine ⟨after, StateAction.attempt_of_ok ?_, moved_of_moveTo different ran⟩
  rw [(resolveLast_eq_ok linkFree).mpr ⟨sourceNoNul, isDirectory, rfl⟩,
    ok_bind,
    (resolveLast_eq_ok linkFree).mpr ⟨destinationNoNul, isDirectory, rfl⟩,
    ok_bind, ran, ok_bind]

/-- Taking away a directory that is not there changes nothing. -/
theorem removeDirAll_missing
    {disk : Disk}
    {parent : List Name}
    {name : Name}
    (linkFree : LinkFree disk.root parent)
    (free : disk.look (parent ++ [name]) = none) :
    (removeDirAll ((parent ++ [name]).map .normal) disk).2 = disk := by
  have failed : ∃ failure, (do
      let location ← disk.resolveLast ((parent ++ [name]).map .normal)
      let changed ← okOr (disk.remove location) IoErrorKind.notFound
      Except.ok ((), changed)) = .error failure := by
    cases resolved : disk.resolveLast ((parent ++ [name]).map .normal) with
    | error failure => exact ⟨failure, rfl⟩
    | ok location =>
        obtain ⟨_, _, rfl⟩ := (resolveLast_eq_ok linkFree).mp resolved
        have absent : disk.remove (parent ++ [name]) = none := by
          cases removed : disk.remove (parent ++ [name]) with
          | none => rfl
          | some changed =>
              have isSome := (remove_isSome_iff.mp (by
                rw [(remove_eq_some.mp removed).1]
                rfl)).2
              rw [Disk.look] at free
              rw [free] at isSome
              cases isSome
        exact ⟨.notFound, by rw [ok_bind, absent, okOr_none, error_bind]⟩
  obtain ⟨failure, isError⟩ := failed
  rw [removeDirAll, StateAction.attempt_of_error isError]

/-- Taking away a directory makes nothing. -/
theorem look_removeDirAll_eq_none
    {disk : Disk}
    {path : List Component}
    {location : Location}
    (free : disk.look location = none) :
    (removeDirAll path disk).2.look location = none := by
  match removing : removeDirAll path disk with
  | (.error failure, after) =>
      rw [StateAction.eq_of_attempt_eq_error removing]
      exact free
  | (.ok _, after) =>
      simp only [removeDirAll, StateAction.attempt_eq_ok, bind_eq_ok,
        okOr_eq_ok, Except.ok.injEq, Prod.mk.injEq, true_and] at removing
      obtain ⟨place, _, changed, removed, rfl⟩ := removing
      rw [look, look_remove (remove_eq_some.mp removed).1]
      split
      · rfl
      · exact free

end Disk

end FileTree
