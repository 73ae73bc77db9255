import Pithos.Library.DiskGrowth
import Pithos.Library.Reach

/-!
# Paths that lead through links

What making directories and links does on a path of names that may pass through
symbolic links.  The first names of the path lead to a directory, and where the
next name is free the rest is made, wherever the links have led to.  Whether a
path comes to a free place depends only on the shape of the tree, and so does
the shape of the tree with the new link in it.
-/

namespace FileTree

open HostPath
open Fallible

/-- A label of a shape. -/
def Shape.label : Shape → Label
  | directory => .directory newDirectory
  | file => .file 0
  | symlink target => .symlink newFile target

@[simp] theorem Shape.shape_label (shape : Shape) :
    shape.label.shape = shape := by
  cases shape <;> rfl

section Congruence

variable {read other : Location → Option Label}

private theorem walkToLink_congr
    (sameShapes : ∀ place, (read place).map Label.shape =
      (other place).map Label.shape)
    {jump otherJump : Location → List Component → Except IoErrorKind Location}
    (sameJumps : ∀ location rest, jump location rest = otherJump location rest)
    (location : Location)
    (rest : List Component) :
    walkToLink read jump location rest =
      walkToLink other otherJump location rest := by
  induction rest generalizing location with
  | nil => rfl
  | cons component rest inductionHypothesis =>
      cases component with
      | rootDir | curDir | parentDir => exact inductionHypothesis _
      | normal name =>
          have same := sameShapes (location ++ [name])
          simp only [walkToLink]
          cases found : read (location ++ [name]) with
          | none =>
              rw [found, Option.map_none, eq_comm, Option.map_eq_none_iff] at same
              rw [same]
          | some label =>
              rw [found, Option.map_some, eq_comm, Option.map_eq_some_iff] at same
              obtain ⟨otherLabel, otherFound, sameShape⟩ := same
              rw [otherFound]
              cases label <;> cases otherLabel <;> cases sameShape
              · exact inductionHypothesis _
              · rfl
              · simp only [sameJumps]

/-- A walk depends only on the shapes of the labels. -/
theorem walk_congr
    (sameShapes : ∀ place, (read place).map Label.shape =
      (other place).map Label.shape)
    (budget : Nat)
    (location : Location)
    (rest : List Component) :
    walk read budget location rest = walk other budget location rest := by
  induction budget generalizing location rest with
  | zero => exact walkToLink_congr sameShapes (fun _ _ => rfl) location rest
  | succ budget inductionHypothesis =>
      exact walkToLink_congr sameShapes inductionHypothesis location rest

end Congruence

/-! ## Where a path leads to -/

/-- Where a path of names ends in a tree, all links followed. -/
def follow (tree : Location → Option Shape) (names : List Name) :
    Except IoErrorKind Location :=
  walk (fun place => (tree place).map Shape.label) linkBudget []
    (names.map .normal)

/-- A path of names leads to a directory. -/
structure Leads
    (tree : Location → Option Shape)
    (names : List Name)
    (location : Location) : Prop where
  follows : follow tree names = .ok location
  isDirectory : tree location = some .directory

/-- A path of names comes to a free place: its first names lead to a directory in
which the next name is free, and the place is the rest of the path from there. -/
def ComesFree
    (tree : Location → Option Shape)
    (names : List Name)
    (place : Location) : Prop :=
  ∃ done name rest location, names = done ++ name :: rest ∧
    Leads tree done location ∧ tree (location ++ [name]) = none ∧
    place = location ++ name :: rest

/-- A tree with one more node, and with the missing directories above it. -/
def plant
    (tree : Location → Option Shape)
    (place : Location)
    (shape : Shape)
    (asked : Location) : Option Shape :=
  if asked = place then some shape
  else if asked <+: place ∧ tree asked = none then some .directory
  else tree asked

/-- A directory without anything in it. -/
def Hollow (tree : Location → Option Shape) (location : Location) : Prop :=
  tree location = some .directory ∧ ∀ name, tree (location ++ [name]) = none

section Following

variable
  {tree : Location → Option Shape}
  {names done rest parent : List Name}
  {name : Name}
  {location place front : Location}

theorem Leads.unique
    {other : Location}
    (leads : Leads tree names location)
    (otherLeads : Leads tree names other) :
    location = other :=
  Except.ok.inj (leads.follows.symm.trans otherLeads.follows)

/-- The first names of a path that leads somewhere lead somewhere. -/
theorem follow_prefix
    (follows : follow tree (done ++ rest) = .ok location) :
    ∃ middle, follow tree done = .ok middle := by
  unfold follow at follows
  rw [List.map_append] at follows
  exact walk_prefix follows

/-- A path is lost where its next name is free. -/
theorem Leads.lost
    (leads : Leads tree done location)
    (free : tree (location ++ [name]) = none) :
    follow tree (done ++ name :: rest) = .error .notFound := by
  obtain ⟨left, goesOn⟩ := @walk_append
    (fun place => (tree place).map Shape.label) location
    ((name :: rest).map .normal)
    ⟨newDirectory, by rw [leads.isDirectory]; rfl⟩ _ _ _ leads.follows
  unfold follow
  rw [List.map_append, goesOn, List.map_cons, walk_missing (by rw [free]; rfl)]

theorem ComesFree.lost
    (comes : ComesFree tree names place) :
    follow tree names = .error .notFound := by
  obtain ⟨done, name, rest, location, rfl, leads, free, _⟩ := comes
  exact leads.lost free

/-- A path comes to one place at most. -/
theorem ComesFree.unique
    {other : Location}
    (comes : ComesFree tree names place)
    (otherComes : ComesFree tree names other) :
    place = other := by
  obtain ⟨done, name, rest, location, rfl, leads, free, rfl⟩ := comes
  obtain ⟨otherDone, otherName, otherRest, otherLocation, sameNames, otherLeads,
    otherFree, rfl⟩ := otherComes
  -- The shorter of the two beginnings ends at a free name, so the longer one
  -- cannot lead anywhere.
  rcases List.append_eq_append_iff.mp sameNames with
    ⟨between, rfl, isRest⟩ | ⟨between, rfl, isRest⟩
  · cases between with
    | nil =>
        rw [List.append_nil] at otherLeads
        cases leads.unique otherLeads
        rw [List.nil_append] at isRest
        rw [isRest]
    | cons next between =>
        cases isRest
        cases otherLeads.follows.symm.trans (leads.lost free)
  · cases between with
    | nil =>
        rw [List.append_nil] at leads
        cases leads.unique otherLeads
        rw [List.nil_append] at isRest
        rw [isRest]
    | cons next between =>
        cases isRest
        cases leads.follows.symm.trans (otherLeads.lost otherFree)

/-- A path comes to a free place at its last name or before. -/
theorem comesFree_concat :
    ComesFree tree (parent ++ [name]) place ↔
      (∃ location, Leads tree parent location ∧
        tree (location ++ [name]) = none ∧ place = location ++ [name]) ∨
      ∃ front, ComesFree tree parent front ∧ place = front ++ [name] := by
  constructor
  · rintro ⟨done, first, rest, location, split, leads, free, rfl⟩
    rcases List.eq_nil_or_concat rest with rfl | ⟨shorter, last, rfl⟩
    · obtain ⟨rfl, isName⟩ := List.append_inj' split rfl
      cases isName
      exact Or.inl ⟨location, leads, free, rfl⟩
    · rw [List.concat_eq_append, ← List.cons_append, ← List.append_assoc]
        at split
      obtain ⟨rfl, isName⟩ := List.append_inj' split rfl
      cases isName
      refine Or.inr ⟨location ++ first :: shorter,
        ⟨done, first, shorter, location, rfl, leads, free, rfl⟩, ?_⟩
      simp
  · rintro (⟨location, leads, free, rfl⟩ | ⟨front, comes, rfl⟩)
    · exact ⟨parent, name, [], location, rfl, leads, free, rfl⟩
    · obtain ⟨done, first, rest, location, rfl, leads, free, rfl⟩ := comes
      exact ⟨done, first, rest ++ [name], location, by simp, leads, free,
        by simp⟩

/-- Planting a link leaves no directory without anything in it. -/
theorem hollow_of_plant
    {target : Path}
    (hollow : Hollow (plant tree place (.symlink target)) location) :
    Hollow tree location := by
  obtain ⟨isDirectory, empty⟩ := hollow
  have below {name : Name} (free :
      plant tree place (.symlink target) (location ++ [name]) = none) :
      location ++ [name] ≠ place ∧ ¬location ++ [name] <+: place ∧
        tree (location ++ [name]) = none := by
    unfold plant at free
    split at free
    · cases free
    · rename_i different
      split at free
      · cases free
      · rename_i notMade
        exact ⟨different, fun isPrefix => notMade ⟨isPrefix, free⟩, free⟩
  refine ⟨?_, fun name => (below (empty name)).2.2⟩
  unfold plant at isDirectory
  split at isDirectory
  · cases isDirectory
  · rename_i different
    split at isDirectory
    · rename_i made
      obtain ⟨tail, rfl⟩ := made.1
      cases tail with
      | nil => simp at different
      | cons next tail =>
          refine absurd ?_ (below (empty next)).2.1
          exact ⟨tail, by simp⟩
    · exact isDirectory

end Following

namespace Disk

section Paths

variable
  {disk after : Disk}
  {names parent : List Name}
  {name : Name}
  {location place : Location}

theorem shape_eq_directory :
    disk.shape location = some .directory ↔
      ∃ metadata, disk.look location = some (.directory metadata) := by
  unfold shape
  cases disk.look location with
  | none => simp
  | some label => cases label <;> simp [Label.shape]

theorem shape_eq_none :
    disk.shape location = none ↔ disk.look location = none := by
  rw [shape, Option.map_eq_none_iff]

theorem walk_eq_follow (names : List Name) :
    walk disk.look linkBudget [] (names.map .normal) =
      follow disk.shape names := by
  refine walk_congr (fun place => ?_) _ _ _
  unfold shape
  cases disk.look place <;> simp

theorem isDir_iff_leads :
    disk.isDir (names.map .normal) ↔
      NoNul names ∧ ∃ location, Leads disk.shape names location := by
  unfold isDir resolve
  rw [walk_eq_follow]
  by_cases noNul : NoNul names
  · rw [ensure_of (hasNul_eq_false_iff.mpr noNul), ok_bind]
    cases followed : follow disk.shape names with
    | error failure =>
        simp only [Bool.false_eq_true, false_iff]
        rintro ⟨_, location, leads⟩
        cases followed.symm.trans leads.follows
    | ok location =>
        constructor
        · intro isDirectory
          refine ⟨noNul, location, followed, ?_⟩
          rw [shape_eq_directory]
          cases found : disk.look location with
          | none => simp [found] at isDirectory
          | some label => cases label <;> simp_all [Label.isDirectory]
        · rintro ⟨_, other, leads⟩
          cases followed.symm.trans leads.follows
          obtain ⟨metadata, found⟩ := shape_eq_directory.mp leads.isDirectory
          simp [found, Label.isDirectory]
  · rw [ensure_of_not (fun none => noNul (hasNul_eq_false_iff.mp none)),
      error_bind]
    simp [noNul]

/-- The outcomes of adding a leaf at the end of a path. -/
inductive LeafOutcome
    (disk : Disk)
    (parent : List Name)
    (name : Name)
    (label : Label) : Except IoErrorKind Disk → Prop
  | placed (location : Location) (after : Disk)
      (noNul : NoNul (parent ++ [name]))
      (leads : Leads disk.shape parent location)
      (inodes : after.inodes = disk.inodes)
      (added : LeafAdded disk (location ++ [name]) label after) :
      LeafOutcome disk parent name label (.ok after)
  | lost
      (noNul : NoNul (parent ++ [name]))
      (missing : follow disk.shape parent = .error .notFound) :
      LeafOutcome disk parent name label (.error .notFound)
  | refused (failure : IoErrorKind)
      (otherFailure : failure ≠ .notFound)
      (obstacle : ¬NoNul (parent ++ [name]) ∨
        follow disk.shape parent ≠ .error .notFound ∧
          ∀ location, Leads disk.shape parent location →
            disk.shape (location ++ [name]) ≠ none) :
      LeafOutcome disk parent name label (.error failure)

theorem addAt_outcome
    {added : Node}
    (leaf : added.IsLeaf) :
    LeafOutcome disk parent name added.label
      (disk.addAt ((parent ++ [name]).map .normal) added) := by
  have last : ((parent ++ [name]).map Component.normal).getLast? =
      some (.normal name) := by simp
  have front : ((parent ++ [name]).map Component.normal).dropLast =
      parent.map .normal := by simp
  unfold addAt resolveLast
  rw [last, front, walk_eq_follow]
  by_cases noNul : NoNul (parent ++ [name])
  · rw [ensure_of (hasNul_eq_false_iff.mpr noNul), ok_bind]
    cases followed : follow disk.shape parent with
    | error failure =>
        simp only [error_bind]
        by_cases isLost : failure = .notFound
        · subst isLost
          exact .lost noNul followed
        · refine .refused failure isLost (Or.inr ⟨?_, ?_⟩)
          · rw [followed]
            simpa using isLost
          · intro location leads
            cases followed.symm.trans leads.follows
    | ok location =>
        simp only [ok_bind]
        cases found : disk.look location with
        | none =>
            refine .refused .notADirectory (by simp) (Or.inr ⟨by simp [followed],
              fun other leads => ?_⟩)
            cases followed.symm.trans leads.follows
            obtain ⟨metadata, isDirectory⟩ :=
              shape_eq_directory.mp leads.isDirectory
            cases found.symm.trans isDirectory
        | some label =>
            cases label with
            | directory metadata =>
                have leads : Leads disk.shape parent location :=
                  ⟨followed, shape_eq_directory.mpr ⟨metadata, found⟩⟩
                simp only [Option.any_some, Label.isDirectory, ensure_of,
                  ok_bind]
                cases there : disk.look (location ++ [name]) with
                | none =>
                    obtain ⟨after, isAfter, inodes, labels⟩ :=
                      add_leaf leaf found there
                    rw [isAfter, okOr_some]
                    exact .placed location after noNul leads inodes labels
                | some label =>
                    rw [add_eq_none (by rw [there]; rfl), okOr_none]
                    refine .refused .alreadyExists (by simp) (Or.inr
                      ⟨by simp [followed], fun other otherLeads => ?_⟩)
                    cases leads.unique otherLeads
                    rw [Ne, shape_eq_none, there]
                    simp
            | file inode | symlink metadata target =>
                refine .refused .notADirectory (by simp) (Or.inr
                  ⟨by simp [followed], fun other leads => ?_⟩)
                cases followed.symm.trans leads.follows
                obtain ⟨metadata, isDirectory⟩ :=
                  shape_eq_directory.mp leads.isDirectory
                cases found.symm.trans isDirectory
  · rw [ensure_of_not (fun none => noNul (hasNul_eq_false_iff.mp none))]
    exact .refused .invalidInput (by simp) (Or.inl noNul)

/-! ## Making directories -/

/-- The outcomes of making directories along a path that may lead through
links. -/
inductive MakeOutcome (disk : Disk) (names : List Name) :
    Except IoErrorKind Unit × Disk → Prop
  | present (location : Location)
      (noNul : NoNul names)
      (leads : Leads disk.shape names location) :
      MakeOutcome disk names (.ok (), disk)
  | made (place : Location) (after : Disk)
      (noNul : NoNul names)
      (comes : ComesFree disk.shape names place)
      (added : DirectoriesAdded disk place after) :
      MakeOutcome disk names (.ok (), after)
  | refused (failure : IoErrorKind)
      (obstacle : ¬NoNul names ∨
        (∀ location, ¬Leads disk.shape names location) ∧
          ∀ place, ¬ComesFree disk.shape names place) :
      MakeOutcome disk names (.error failure, disk)

/-- Once the directories are made, the path leads to the last of them. -/
theorem leads_of_directoriesAdded
    (comes : ComesFree disk.shape names place)
    (added : DirectoriesAdded disk place after) :
    Leads after.shape names place := by
  obtain ⟨done, name, rest, location, rfl, leads, free, rfl⟩ := comes
  obtain ⟨metadata, isDirectory⟩ := shape_eq_directory.mp leads.isDirectory
  have grows (asked : Location) (label : Label)
      (found : disk.look asked = some label) :
      after.look asked = some label := by
    rw [added.look, if_neg (by simp [found]), found]
  have arrives : walk after.look linkBudget [] (done.map .normal) =
      .ok location := by
    refine walk_mono grows ?_
    rw [walk_eq_follow]
    exact leads.follows
  have made (below : List Name) (isPrefix : below <+: name :: rest)
      (nonempty : below ≠ []) :
      ∃ metadata, after.look (location ++ below) =
        some (.directory metadata) := by
    have absent : disk.look (location ++ below) = none := by
      obtain ⟨first, tail, rfl⟩ := List.exists_cons_of_ne_nil nonempty
      cases (List.cons_prefix_cons.mp isPrefix).1
      refine look_eq_none_of_isPrefix (shape_eq_none.mp free) ?_
      exact ⟨tail, by simp⟩
    exact ⟨newDirectory, by
      rw [added.look, if_pos ⟨by simpa using isPrefix, absent⟩]⟩
  obtain ⟨left, goesOn⟩ := @walk_append after.look location
    ((name :: rest).map .normal) ⟨metadata, grows _ _ isDirectory⟩ _ _ _ arrives
  refine ⟨?_, shape_eq_directory.mpr (made _ (List.prefix_refl _) (by simp))⟩
  have ends := @walk_directories after.look left location (name :: rest) [] made
  rw [List.append_nil, walk_nil] at ends
  rw [← walk_eq_follow, List.map_append, goesOn, ends]

/-- The place that a path comes to has nothing at it or below it. -/
theorem look_eq_none_of_comesFree
    (comes : ComesFree disk.shape names place)
    {below : Location} :
    disk.look (place ++ below) = none := by
  obtain ⟨done, name, rest, location, rfl, leads, free, rfl⟩ := comes
  refine look_eq_none_of_isPrefix (shape_eq_none.mp free) ?_
  exact ⟨rest ++ below, by simp⟩

private theorem unlessDir_makes
    (failure : IoErrorKind)
    (obstacle : ¬NoNul names ∨ ∀ place, ¬ComesFree disk.shape names place) :
    MakeOutcome disk names (unlessDir (names.map .normal) failure disk) := by
  have ran : unlessDir (names.map .normal) failure disk =
      (if disk.isDir (names.map .normal) then .ok () else .error failure,
        disk) := rfl
  rw [ran]
  by_cases isDir : disk.isDir (names.map .normal)
  · rw [if_pos isDir]
    obtain ⟨noNul, location, leads⟩ := isDir_iff_leads.mp isDir
    exact .present location noNul leads
  · rw [if_neg isDir]
    refine .refused failure ?_
    by_cases noNul : NoNul names
    · refine Or.inr ⟨fun location leads => ?_, ?_⟩
      · exact isDir (isDir_iff_leads.mpr ⟨noNul, location, leads⟩)
      · exact obstacle.resolve_left (not_not_intro noNul)
    · exact Or.inl noNul

/-- Once the directories are made, one more can be made below the last. -/
private theorem mkdir_below
    (noNul : NoNul (parent ++ [name]))
    (comes : ComesFree disk.shape parent place)
    (added : DirectoriesAdded disk place after) :
    ∃ final, mkdir ((parent ++ [name]).map .normal) after = (.ok (), final) ∧
      DirectoriesAdded disk (place ++ [name]) final := by
  have leads := leads_of_directoriesAdded comes added
  have free : disk.look (place ++ [name]) = none := look_eq_none_of_comesFree comes
  have outcome := @addAt_outcome after parent name _
    (Node.isLeaf_directory newDirectory)
  generalize placing : after.addAt ((parent ++ [name]).map .normal)
    (.directory newDirectory []) = result at outcome
  cases outcome with
  | placed location final _ otherLeads inodes leaf =>
      cases leads.unique otherLeads
      refine ⟨final, StateAction.attempt_of_ok (by rw [placing, ok_bind]), ?_⟩
      exact directoriesAdded_concat added free inodes leaf
  | lost _ missing => cases missing.symm.trans leads.follows
  | refused failure _ obstacle =>
      rcases obstacle with hasNul | ⟨_, occupied⟩
      · exact absurd noNul hasNul
      · refine absurd ?_ (occupied place leads)
        rw [shape_eq_none, added.look, if_neg, free]
        rintro ⟨isPrefix, _⟩
        have := isPrefix.length_le
        rw [List.length_append, List.length_singleton] at this
        omega

/-- What making directories does, wherever the path leads. -/
theorem createDirAll_makes (disk : Disk) (names : List Name) :
    MakeOutcome disk names (createDirAll (names.map .normal) disk) := by
  have upTo (front back : List Name) :
      MakeOutcome disk front
        (createDirAllUpTo ((front ++ back).map .normal) front.length disk) := by
    induction front using List.reverseRecOn generalizing back with
    | nil =>
        obtain ⟨metadata, found⟩ := disk.look_root
        refine .present [] (by simp [NoNul]) ⟨rfl, ?_⟩
        exact shape_eq_directory.mpr ⟨metadata, found⟩
    | append_singleton parent name inductionHypothesis =>
        have taken : ((parent ++ [name] ++ back).map Component.normal).take
            (parent.length + 1) = (parent ++ [name]).map .normal := by
          rw [← List.map_take, List.take_left' (by simp)]
        have count : (parent ++ [name]).length = parent.length + 1 := by simp
        rw [count]
        have outcome := @addAt_outcome disk parent name _
          (Node.isLeaf_directory newDirectory)
        generalize placing : disk.addAt ((parent ++ [name]).map .normal)
          (.directory newDirectory []) = result at outcome
        cases outcome with
        | placed location after noNul leads inodes added =>
            obtain ⟨metadata, found⟩ :=
              shape_eq_directory.mp leads.isDirectory
            rw [createDirAllUpTo_of_ok (by
              rw [taken]
              exact StateAction.attempt_of_ok (by rw [placing, ok_bind]))]
            refine .made (location ++ [name]) after noNul ?_ ?_
            · exact comesFree_concat.mpr (Or.inl ⟨location, leads,
                shape_eq_none.mpr added.free, rfl⟩)
            · exact directoriesAdded_concat (directoriesAdded_self found)
                added.free inodes added
        | lost noNul missing =>
            have ran : mkdir ((parent ++ [name]).map .normal) disk =
                (.error .notFound, disk) :=
              StateAction.attempt_of_error (by rw [placing, error_bind])
            have parents := inductionHypothesis ([name] ++ back)
            rw [← List.append_assoc] at parents
            generalize parentsRan : createDirAllUpTo
              ((parent ++ [name] ++ back).map .normal) parent.length disk =
                result at parents
            cases parents with
            | present location _ leads =>
                cases missing.symm.trans leads.follows
            | made front middle _ comes added =>
                obtain ⟨final, last, allAdded⟩ :=
                  mkdir_below noNul comes added
                rw [createDirAllUpTo_of_missing (by rw [taken]; exact ran)
                  parentsRan (by rw [taken]; exact last)]
                exact .made (front ++ [name]) final noNul
                  (comesFree_concat.mpr (Or.inr ⟨front, comes, rfl⟩)) allAdded
            | refused failure obstacle =>
                rw [createDirAllUpTo, orElse_of_error (by rw [taken]; exact ran),
                  if_pos rfl, StateAction.bind_of_error parentsRan]
                refine .refused failure (Or.inr ⟨fun location leads => ?_, ?_⟩)
                · obtain ⟨middle, follows⟩ := follow_prefix leads.follows
                  cases missing.symm.trans follows
                · intro place comes
                  have parentNoNul := noNul.take (List.prefix_append _ [name])
                  have stuck := obstacle.resolve_left
                    (not_not_intro parentNoNul)
                  rcases comesFree_concat.mp comes with
                    ⟨location, leads, _⟩ | ⟨front, parentComes, _⟩
                  · exact stuck.1 location leads
                  · exact stuck.2 front parentComes
        | refused failure other obstacle =>
            rw [createDirAllUpTo_of_error other (by
              rw [taken]
              exact StateAction.attempt_of_error (by
                rw [placing, error_bind])), taken]
            refine unlessDir_makes failure (obstacle.imp_right ?_)
            rintro ⟨notLost, occupied⟩ place comes
            rcases comesFree_concat.mp comes with
              ⟨location, leads, free, _⟩ | ⟨front, parentComes, _⟩
            · exact occupied location leads free
            · exact notLost parentComes.lost
  have whole := upTo names []
  rwa [List.append_nil, ← List.length_map Component.normal] at whole

/-! ## Making links -/

theorem symlink_eq_ok
    {target : Path} :
    symlink target (names.map .normal) disk = (.ok (), after) ↔
      (nul ∉ target ∧ NoNul names) ∧ target ≠ [] ∧
        disk.addAt (names.map .normal) (.symlink newFile target) =
          .ok after := by
  simp only [symlink, StateAction.attempt_eq_ok, bind_eq_ok, ensure_eq_ok,
    exists_const, Except.ok.injEq, Prod.mk.injEq, true_and,
    hasNul_eq_false_iff]
  simp

/-- The shape of a disk on which the directories above a link, and the link, were
added. -/
theorem shape_eq_plant
    {middle : Disk}
    {metadata : Metadata}
    {target : Path}
    (parents : DirectoriesAdded disk location middle)
    (leaf : LeafAdded middle (location ++ [name]) (.symlink metadata target)
      after) :
    after.shape = plant disk.shape (location ++ [name]) (.symlink target) := by
  funext asked
  unfold plant
  simp only [shape, leaf.look, Option.map_eq_none_iff]
  by_cases isPlace : asked = location ++ [name]
  · simp [isPlace, Label.shape]
  · simp only [parents.look, List.prefix_concat_iff, isPlace, false_or,
      if_false]
    by_cases added : asked <+: location ∧ disk.look asked = none
    · rw [if_pos added, if_pos added]
      rfl
    · rw [if_neg added, if_neg added]

/-- A link that was made, and the directories above it, stand where its path
comes to a free place. -/
theorem shape_of_makeLink
    {middle : Disk}
    {target : Path}
    (parents : createDirAll (parent.map .normal) disk = (.ok (), middle))
    (linked : symlink target ((parent ++ [name]).map .normal) middle =
      (.ok (), after)) :
    (nul ∉ target ∧ NoNul (parent ++ [name])) ∧ target ≠ [] ∧
      ∃ place, ComesFree disk.shape (parent ++ [name]) place ∧
        after.shape = plant disk.shape place (.symlink target) := by
  obtain ⟨noNul, nonempty, placing⟩ := symlink_eq_ok.mp linked
  refine ⟨noNul, nonempty, ?_⟩
  have outcome := @addAt_outcome middle parent name _
    (Node.isLeaf_symlink newFile target)
  rw [placing] at outcome
  cases outcome with
  | placed location _ _ leads _ leaf =>
      have making := createDirAll_makes disk parent
      rw [parents] at making
      cases making with
      | present other _ otherLeads =>
          refine ⟨location ++ [name], comesFree_concat.mpr (Or.inl ⟨location,
            leads, shape_eq_none.mpr leaf.free, rfl⟩), ?_⟩
          obtain ⟨metadata, isDirectory⟩ :=
            shape_eq_directory.mp leads.isDirectory
          have unchanged := directoriesAdded_self isDirectory
          exact shape_eq_plant unchanged leaf
      | made front _ _ comes added =>
          cases leads.unique (leads_of_directoriesAdded comes added)
          refine ⟨location ++ [name], comesFree_concat.mpr (Or.inr ⟨location,
            comes, rfl⟩), shape_eq_plant added leaf⟩

theorem makeLink_of_comesFree
    {target : Path}
    (noNul : NoNul (parent ++ [name]))
    (targetNoNul : nul ∉ target)
    (nonempty : target ≠ [])
    (comes : ComesFree disk.shape (parent ++ [name]) place) :
    ∃ middle after, createDirAll (parent.map .normal) disk =
        (.ok (), middle) ∧
      symlink target ((parent ++ [name]).map .normal) middle =
        (.ok (), after) := by
  have parentNoNul := noNul.take (List.prefix_append parent [name])
  have making := createDirAll_makes disk parent
  generalize createDirAll (parent.map .normal) disk = result at making
  -- The path of the parent leads somewhere in the end, and there the name is
  -- free.
  have finish {middle : Disk} {location : Location}
      (leads : Leads middle.shape parent location)
      (free : middle.shape (location ++ [name]) = none) :
      ∃ after, symlink target ((parent ++ [name]).map .normal) middle =
        (.ok (), after) := by
    have outcome := @addAt_outcome middle parent name _
      (Node.isLeaf_symlink newFile target)
    generalize placing : middle.addAt ((parent ++ [name]).map .normal)
      (.symlink newFile target) = result at outcome
    cases outcome with
    | placed _ after _ _ _ _ =>
        exact ⟨after, symlink_eq_ok.mpr ⟨⟨targetNoNul, noNul⟩, nonempty,
          placing⟩⟩
    | lost _ missing => cases missing.symm.trans leads.follows
    | refused failure _ obstacle =>
        rcases obstacle with hasNul | ⟨_, occupied⟩
        · exact absurd noNul hasNul
        · exact absurd free (occupied location leads)
  cases making with
  | present location _ leads =>
      rcases comesFree_concat.mp comes with
        ⟨other, otherLeads, free, _⟩ | ⟨front, parentComes, _⟩
      · cases leads.unique otherLeads
        obtain ⟨after, ran⟩ := finish leads free
        exact ⟨disk, after, rfl, ran⟩
      · cases parentComes.lost.symm.trans leads.follows
  | made front middle _ parentComes added =>
      have leads := leads_of_directoriesAdded parentComes added
      have free : middle.shape (front ++ [name]) = none := by
        rw [shape_eq_none, added.look, if_neg]
        · exact look_eq_none_of_comesFree parentComes
        · rintro ⟨isPrefix, _⟩
          have := isPrefix.length_le
          rw [List.length_append, List.length_singleton] at this
          omega
      obtain ⟨after, ran⟩ := finish leads free
      exact ⟨middle, after, rfl, ran⟩
  | refused failure obstacle =>
      have stuck := obstacle.resolve_left (not_not_intro parentNoNul)
      rcases comesFree_concat.mp comes with
        ⟨location, leads, _⟩ | ⟨front, parentComes, _⟩
      · exact absurd leads (stuck.1 location)
      · exact absurd parentComes (stuck.2 front)

end Paths

/-! ## Renaming -/

theorem hollow_of_isEmptyDirectory
    {disk : Disk}
    {location : Location}
    {present : Node}
    (found : disk.root.get location = some present)
    (isEmpty : isEmptyDirectory present) :
    Hollow disk.shape location := by
  cases present with
  | directory metadata children =>
      have noChildren : children = [] := by
        simpa [isEmptyDirectory] using isEmpty
      refine ⟨shape_eq_directory.mpr ⟨metadata, ?_⟩, fun name => ?_⟩
      · rw [look, FileTree.look, found]
        rfl
      · rw [shape_eq_none, look, look_append, found, noChildren]
        rfl
  | file inode => cases isEmpty
  | symlink metadata target => cases isEmpty

/-- A rename to a sibling succeeds only where nothing stands but an empty
directory. -/
theorem free_or_hollow_of_rename
    {disk after : Disk}
    {parent : List Name}
    {source destination : Name}
    (linkFree : LinkFree disk.root parent)
    (different : source ≠ destination)
    (ran : rename ((parent ++ [source]).map .normal)
      ((parent ++ [destination]).map .normal) disk = (.ok (), after)) :
    disk.shape (parent ++ [destination]) = none ∨
      Hollow disk.shape (parent ++ [destination]) := by
  have unequal : ¬parent ++ [source] = parent ++ [destination] := by
    simpa using different
  simp only [rename, StateAction.attempt_eq_ok, bind_eq_ok,
    resolveLast_eq_ok linkFree, Except.ok.injEq, Prod.mk.injEq, true_and]
    at ran
  obtain ⟨_, ⟨_, _, rfl⟩, _, ⟨_, _, rfl⟩, _, moved, rfl⟩ := ran
  simp only [moveTo, if_neg unequal, bind_eq_ok, okOr_eq_ok, ensure_eq_ok,
    exists_const] at moved
  obtain ⟨node, _, _, cleared, removed, freed, isFreed, _⟩ := moved
  obtain ⟨removedRoot, _⟩ := remove_eq_some.mp removed
  have same (below : Location) :
      cleared.shape (parent ++ [destination] ++ below) =
        disk.shape (parent ++ [destination] ++ below) := by
    rw [shape, look, look_remove removedRoot,
      if_neg (not_isPrefix_sibling different below)]
    rfl
  unfold makeRoom at isFreed
  split at isFreed
  · rename_i absent
    refine Or.inl ?_
    rw [← List.append_nil (parent ++ [destination]), ← same,
      List.append_nil, shape_eq_none, look, FileTree.look, absent]
    rfl
  · rename_i present found
    split at isFreed
    · rename_i isRoom
      rw [Bool.and_eq_true] at isRoom
      obtain ⟨isDirectory, empty⟩ :=
        hollow_of_isEmptyDirectory found isRoom.1
      refine Or.inr ⟨?_, fun name => ?_⟩
      · have root := same []
        rw [List.append_nil] at root
        rw [← root, isDirectory]
      · rw [← same, empty]
    · cases isFreed

end Disk

end FileTree
