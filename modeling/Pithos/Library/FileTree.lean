import Pithos.Library.HostPath

/-!
# File trees

A file tree is a directory whose children are directories, regular files and
symbolic links.  A regular file is a reference into a table of inodes, so that
two names can stand for one file.  A location is the list of names from the
root of the tree to a node.

Path lookup walks a list of components: it follows symbolic links, up to a
budget, and takes `..` to the directory that physically contains the current
one.
-/

namespace FileTree

open HostPath

/-- What went wrong in an operation on files. -/
inductive IoErrorKind
  | notFound
  | alreadyExists
  | notADirectory
  | isADirectory
  | filesystemLoop
  | invalidInput
  | permissionDenied
  | unexpectedEof
  | interrupted
  deriving DecidableEq, Repr

/-- Where a node stands: the names from the root. -/
abbrev Location := List Name

/-- The attributes of a node that are read. -/
structure Metadata where
  mode : UInt32
  modifiedNs : Int64
  deriving DecidableEq

/-- A node of a tree. -/
inductive Node
  | directory (metadata : Metadata) (children : List (Name × Node))
  | file (inode : Nat)
  | symlink (metadata : Metadata) (target : Path)

namespace Node

/-- Whether a node is a directory. -/
def isDirectory : Node → Bool
  | directory _ _ => true
  | file _ | symlink _ _ => false

/-- Whether a node is a symbolic link. -/
def isSymlink : Node → Bool
  | symlink _ _ => true
  | directory _ _ | file _ => false

/-- The node at a location below a node. -/
def get : Node → Location → Option Node
  | node, [] => some node
  | directory _ children, name :: rest =>
      (children.lookup name).bind fun child => get child rest
  | file _, _ :: _ => none
  | symlink _ _, _ :: _ => none

/-- Replace the child of a name. -/
def setChild (name : Name) (child : Node) (children : List (Name × Node)) :
    List (Name × Node) :=
  children.map fun present =>
    if present.1 = name then (present.1, child) else present

/-- Add a node at a free location whose parent is a directory. -/
def insert (added : Node) : Location → Node → Option Node
  | [name], directory metadata children =>
      match children.lookup name with
      | some _ => none
      | none => some (directory metadata (children ++ [(name, added)]))
  | name :: rest, directory metadata children =>
      (children.lookup name).bind fun child =>
        (insert added rest child).map fun changed =>
          directory metadata (setChild name changed children)
  | _, _ => none

/-- Take away the node at a location. -/
def remove : Location → Node → Option Node
  | [name], directory metadata children =>
      if (children.lookup name).isSome then
        some (directory metadata (children.filter fun child =>
          child.1 ≠ name))
      else none
  | name :: rest, directory metadata children =>
      (children.lookup name).bind fun child =>
        (remove rest child).map fun changed =>
          directory metadata (setChild name changed children)
  | _, _ => none

@[simp] theorem get_nil (node : Node) : node.get [] = some node := by
  cases node <;> rfl

theorem get_cons
    (node : Node)
    (name : Name)
    (rest : Location) :
    node.get (name :: rest) = (node.get [name]).bind fun child =>
      child.get rest := by
  cases node with
  | directory metadata children =>
      simp only [get]
      cases children.lookup name with
      | none => rfl
      | some child => simp
  | file inode => rfl
  | symlink metadata target => rfl

/-- Looking up in two steps. -/
theorem get_append
    (node : Node)
    (first second : Location) :
    node.get (first ++ second) = (node.get first).bind fun child =>
      child.get second := by
  induction first generalizing node with
  | nil => simp
  | cons name rest inductionHypothesis =>
      rw [List.cons_append, get_cons, get_cons node name rest]
      cases node.get [name] with
      | none => rfl
      | some child => exact inductionHypothesis child

theorem lookup_setChild
    (name other : Name)
    (child : Node)
    (children : List (Name × Node)) :
    (setChild name child children).lookup other =
      if other = name then (children.lookup name).map fun _ => child
      else children.lookup other := by
  induction children with
  | nil => simp [setChild]
  | cons first rest inductionHypothesis =>
      obtain ⟨firstName, firstNode⟩ := first
      simp only [setChild, List.map_cons] at inductionHypothesis ⊢
      by_cases same : firstName = name
      · subst same
        by_cases asked : other = firstName
        · simp [asked]
        · simp [asked, List.lookup_cons, beq_false_of_ne asked,
            inductionHypothesis]
      · by_cases asked : other = firstName
        · subst asked
          simp [same]
        · simp only [same, if_false, List.lookup_cons,
            beq_false_of_ne asked, inductionHypothesis]
          by_cases target : other = name
          · subst target
            simp [beq_false_of_ne asked]
          · simp [target]

end Node

/-! ## Labels -/

/-- What stands at a location, without what is below it. -/
inductive Label
  | directory (metadata : Metadata)
  | file (inode : Nat)
  | symlink (metadata : Metadata) (target : Path)
  deriving DecidableEq

/-- The label of a node. -/
def Node.label : Node → Label
  | directory metadata _ => .directory metadata
  | file inode => .file inode
  | symlink metadata target => .symlink metadata target

/-- Whether a label is a directory. -/
def Label.isDirectory : Label → Bool
  | directory _ => true
  | file _ | symlink _ _ => false

/-- Whether a label is a symbolic link. -/
def Label.isSymlink : Label → Bool
  | symlink _ _ => true
  | directory _ | file _ => false

/-- The label at a location. -/
def look (root : Node) (location : Location) : Option Label :=
  (root.get location).map Node.label

theorem look_append
    (root : Node)
    (first second : Location) :
    look root (first ++ second) =
      (root.get first).bind fun child => look child second := by
  unfold look
  rw [Node.get_append]
  cases root.get first <;> rfl

/-- Only directories have nodes below them. -/
theorem isDirectory_of_look
    {root : Node}
    {location below : Location}
    (nonempty : below ≠ [])
    (found : (look root (location ++ below)).isSome) :
    ∃ metadata, look root location = some (.directory metadata) := by
  rw [look_append] at found
  cases present : root.get location with
  | none => simp [present] at found
  | some parent =>
      obtain ⟨name, rest, rfl⟩ := List.exists_cons_of_ne_nil nonempty
      cases parent with
      | directory metadata children =>
          exact ⟨metadata, by simp [look, present, Node.label]⟩
      | file inode => simp [present, look, Node.get] at found
      | symlink metadata target => simp [present, look, Node.get] at found

/-- There is nothing below a free location. -/
theorem look_eq_none_of_isPrefix
    {root : Node}
    {location below : Location}
    (free : look root location = none)
    (isBelow : location <+: below) :
    look root below = none := by
  obtain ⟨rest, rfl⟩ := isBelow
  have absent : root.get location = none := by simpa [look] using free
  rw [look_append, absent]
  rfl

/-- The labels after a node was added. -/
theorem look_insert
    {added root changed : Node}
    {location : Location}
    (inserted : Node.insert added location root = some changed)
    (asked : Location) :
    look changed asked =
      if location <+: asked then look added (asked.drop location.length)
      else look root asked := by
  induction location generalizing root changed asked with
  | nil => cases root <;> simp [Node.insert] at inserted
  | cons name rest inductionHypothesis =>
      cases root with
      | file inode => cases rest <;> simp [Node.insert] at inserted
      | symlink metadata target => cases rest <;> simp [Node.insert] at inserted
      | directory metadata children =>
          cases asked with
          | nil =>
              cases rest with
              | nil =>
                  simp only [Node.insert] at inserted
                  split at inserted
                  · cases inserted
                  · cases inserted
                    simp [look, Node.label]
              | cons second rest =>
                  simp only [Node.insert, Option.bind_eq_some_iff,
                    Option.map_eq_some_iff] at inserted
                  obtain ⟨_, _, _, _, rfl⟩ := inserted
                  simp [look, Node.label]
          | cons first below =>
              cases rest with
              | nil =>
                  simp only [Node.insert] at inserted
                  split at inserted
                  · cases inserted
                  · rename_i free
                    cases inserted
                    by_cases same : first = name
                    · subst same
                      simp [look, Node.get, List.lookup_append, free]
                    · simp [look, Node.get, List.lookup_append,
                        List.lookup_cons, beq_false_of_ne same, Ne.symm same]
              | cons second rest =>
                  simp only [Node.insert, Option.bind_eq_some_iff,
                    Option.map_eq_some_iff] at inserted
                  obtain ⟨child, found, changedChild, insertedChild, rfl⟩ :=
                    inserted
                  by_cases same : first = name
                  · subst same
                    have step := inductionHypothesis insertedChild below
                    simpa [look, Node.get, Node.lookup_setChild, found,
                      List.cons_prefix_cons] using step
                  · simp [look, Node.get, Node.lookup_setChild, same,
                      List.cons_prefix_cons, Ne.symm same]

/-- A node can be added where its parent is a directory and nothing stands. -/
theorem insert_isSome_iff
    {added root : Node}
    {parent : Location}
    {name : Name} :
    (Node.insert added (parent ++ [name]) root).isSome ↔
      (∃ metadata, look root parent = some (.directory metadata)) ∧
        look root (parent ++ [name]) = none := by
  induction parent generalizing root with
  | nil =>
      cases root with
      | directory metadata children =>
          simp only [List.nil_append, Node.insert]
          cases found : children.lookup name <;>
            simp [look, Node.label, Node.get, found]
      | file inode => simp [Node.insert, look, Node.label]
      | symlink metadata target => simp [Node.insert, look, Node.label]
  | cons first rest inductionHypothesis =>
      obtain ⟨second, more, isCons⟩ :
          ∃ second more, rest ++ [name] = second :: more :=
        List.exists_cons_of_ne_nil (by simp)
      cases root with
      | directory metadata children =>
          have step : Node.insert added (first :: rest ++ [name])
              (.directory metadata children) =
                (children.lookup first).bind fun child =>
                  (Node.insert added (rest ++ [name]) child).map
                    fun changed => .directory metadata
                      (Node.setChild first changed children) := by
            rw [List.cons_append, isCons]
            rfl
          rw [step]
          cases found : children.lookup first with
          | none => simp [look, Node.get, found]
          | some child =>
              rw [Option.bind_some, Option.isSome_map, inductionHypothesis]
              simp [look, Node.get, found]
      | file inode =>
          rw [List.cons_append, isCons]
          simp [Node.insert, look, Node.get]
      | symlink metadata target =>
          rw [List.cons_append, isCons]
          simp [Node.insert, look, Node.get]

/-- A node without anything below it. -/
def Node.IsLeaf (node : Node) : Prop :=
  ∀ name rest, node.get (name :: rest) = none

theorem Node.isLeaf_directory (metadata : Metadata) :
    (Node.directory metadata []).IsLeaf := by
  intro name rest
  simp [Node.get]

theorem Node.isLeaf_file (inode : Nat) : (Node.file inode).IsLeaf :=
  fun _ _ => rfl

theorem Node.isLeaf_symlink (metadata : Metadata) (target : Path) :
    (Node.symlink metadata target).IsLeaf :=
  fun _ _ => rfl

/-- Adding a leaf changes the label of one location. -/
theorem look_insert_leaf
    {added root changed : Node}
    {parent : Location}
    {name : Name}
    (leaf : added.IsLeaf)
    (inserted : Node.insert added (parent ++ [name]) root = some changed)
    (asked : Location) :
    look changed asked =
      if asked = parent ++ [name] then some added.label
      else look root asked := by
  have free := (insert_isSome_iff.mp
    (Option.isSome_iff_exists.mpr ⟨changed, inserted⟩)).2
  rw [look_insert inserted]
  by_cases isBelow : parent ++ [name] <+: asked
  · rw [if_pos isBelow]
    have absent := look_eq_none_of_isPrefix free isBelow
    obtain ⟨rest, rfl⟩ := isBelow
    rw [List.drop_left]
    cases rest with
    | nil => simp [look]
    | cons first rest =>
        have different : parent ++ [name] ++ first :: rest ≠
            parent ++ [name] := by simp
        rw [if_neg different, absent, look, leaf]
        rfl
  · have different : asked ≠ parent ++ [name] := by
      rintro rfl
      exact isBelow (List.prefix_refl _)
    rw [if_neg isBelow, if_neg different]

theorem lookup_filter_ne
    (name other : Name)
    (children : List (Name × Node)) :
    (children.filter fun child => child.1 ≠ name).lookup other =
      if other = name then none else children.lookup other := by
  induction children with
  | nil => simp
  | cons first rest inductionHypothesis =>
      obtain ⟨firstName, firstNode⟩ := first
      by_cases same : firstName = name
      · subst same
        by_cases asked : other = firstName
        · simpa [asked] using inductionHypothesis
        · simpa [asked, List.lookup_cons, beq_false_of_ne asked] using
            inductionHypothesis
      · simp only [ne_eq, same, not_false_eq_true, decide_true,
          List.filter_cons_of_pos, List.lookup_cons]
        by_cases asked : other = firstName
        · subst asked
          simp [same]
        · simpa [beq_false_of_ne asked] using inductionHypothesis

/-- The labels after a node was taken away. -/
theorem look_remove
    {root changed : Node}
    {location : Location}
    (removed : Node.remove location root = some changed)
    (asked : Location) :
    look changed asked =
      if location <+: asked then none else look root asked := by
  induction location generalizing root changed asked with
  | nil => cases root <;> simp [Node.remove] at removed
  | cons name rest inductionHypothesis =>
      cases root with
      | file inode => cases rest <;> simp [Node.remove] at removed
      | symlink metadata target => cases rest <;> simp [Node.remove] at removed
      | directory metadata children =>
          cases rest with
          | nil =>
              simp only [Node.remove] at removed
              split at removed
              · cases removed
                cases asked with
                | nil => simp [look, Node.label]
                | cons first below =>
                    by_cases same : first = name
                    · subst same
                      simp only [look, Node.get, lookup_filter_ne]
                      simp
                    · simp only [look, Node.get, lookup_filter_ne]
                      simp [same, Ne.symm same]
              · cases removed
          | cons second rest =>
              simp only [Node.remove, Option.bind_eq_some_iff,
                Option.map_eq_some_iff] at removed
              obtain ⟨child, found, changedChild, removedChild, rfl⟩ := removed
              cases asked with
              | nil => simp [look, Node.label]
              | cons first below =>
                  by_cases same : first = name
                  · subst same
                    have step := inductionHypothesis removedChild below
                    simpa [look, Node.get, Node.lookup_setChild, found,
                      List.cons_prefix_cons] using step
                  · simp [look, Node.get, Node.lookup_setChild, same,
                      List.cons_prefix_cons, Ne.symm same]

theorem remove_isSome_iff
    {root : Node}
    {location : Location} :
    (Node.remove location root).isSome ↔
      location ≠ [] ∧ (look root location).isSome := by
  induction location generalizing root with
  | nil => cases root <;> simp [Node.remove]
  | cons name rest inductionHypothesis =>
      cases root with
      | file inode => cases rest <;> simp [Node.remove, look, Node.get]
      | symlink metadata target =>
          cases rest <;> simp [Node.remove, look, Node.get]
      | directory metadata children =>
          cases found : children.lookup name with
          | none => cases rest <;> simp [Node.remove, look, Node.get, found]
          | some child =>
              cases rest with
              | nil => simp [Node.remove, look, Node.get, found]
              | cons second rest =>
                  have step := @inductionHypothesis child
                  simp only [Node.remove, found, Option.bind_some,
                    Option.isSome_map]
                  rw [step]
                  simp [look, Node.get, found]

end FileTree
