import Pithos.Library.DiskNames
import Pithos.Library.PathText

/-!
# Looking at files

The files that a process sees: a disk, a working directory and the longest path
that the kernel takes.  The functions here only look: they follow all links, or
all but the last, and give the absolute path of what they find.
-/

namespace FileTree

open HostPath
open Fallible

/-- All names in a tree are names that the kernel allows. -/
def Named (root : Node) : Prop :=
  ∀ location, (look root location).isSome → ∀ name ∈ location, IsEntry name

theorem named_directory
    (metadata : Metadata)
    {children : List (Name × Node)}
    (named : ∀ child ∈ children, IsEntry child.1 ∧ Named child.2) :
    Named (.directory metadata children) := by
  intro location found name member
  cases location with
  | nil => cases member
  | cons first rest =>
      cases isChild : children.lookup first with
      | none => simp [look, Node.get, isChild] at found
      | some child =>
          have isMember : (first, child) ∈ children := by
            obtain ⟨before, after, rfl, _⟩ :=
              List.lookup_eq_some_iff.mp isChild
            simp
          obtain ⟨isEntry, below⟩ := named (first, child) isMember
          rcases List.mem_cons.mp member with rfl | member
          · exact isEntry
          · refine below rest ?_ name member
            simpa [look, Node.get, isChild] using found

theorem named_of_isLeaf
    {root : Node}
    (leaf : root.IsLeaf) :
    Named root := by
  intro location found name member
  cases location with
  | nil => cases member
  | cons first rest =>
      rw [look, leaf] at found
      cases found

/-- The files that a process sees.  Directories have entries with the names that
the kernel allows. -/
structure HostFiles where
  disk : Disk
  workingDirectory : Location
  longestPath : Nat
  named : Named disk.root
  isDirectory : ∃ metadata,
    disk.look workingDirectory = some (.directory metadata)

namespace HostFiles

/-- What stands at a location. -/
def look (files : HostFiles) (location : Location) : Option Label :=
  files.disk.look location

/-- A path that can be handed to the kernel: not too long, without a NUL byte
and not empty. -/
def vet (files : HostFiles) (path : Path) : Except IoErrorKind Unit := do
  ensure (path.length ≤ files.longestPath) .invalidInput
  ensure (0 ∉ path) .invalidInput
  ensure (path ≠ []) .notFound

/-- Only the empty path is reported missing before any lookup. -/
theorem vet_ne_notFound
    {files : HostFiles}
    {path : Path}
    (nonempty : path ≠ []) :
    files.vet path ≠ .error .notFound := by
  rw [vet, ensure_of nonempty]
  unfold ensure
  split
  · split <;> exact nofun
  · exact nofun

/-- A path with a NUL byte is refused as such. -/
theorem vet_of_nul
    {files : HostFiles}
    {path : Path}
    (hasNul : 0 ∈ path) :
    files.vet path = .error .invalidInput := by
  rw [vet, ensure_of_not (not_not.mpr hasNul)]
  unfold ensure
  split <;> rfl

/-- Walk from the working directory. -/
def walk (files : HostFiles) (path : List Component) :
    Except IoErrorKind Location :=
  FileTree.walk files.look linkBudget files.workingDirectory path

/-- Where a path leads, all links followed. -/
def lookup (files : HostFiles) (path : Path) : Except IoErrorKind Location := do
  files.vet path
  files.walk (lookupComponents path)

/-- Where a path leads, a link as its last name not followed. -/
def lookupNoFollow (files : HostFiles) (path : Path) :
    Except IoErrorKind Location := do
  files.vet path
  match (lookupComponents path).getLast? with
  | some (.normal name) => do
      let parent ← files.walk (lookupComponents path).dropLast
      ensure ((files.look parent).any Label.isDirectory) .notADirectory
      .ok (parent ++ [name])
  | some .rootDir | some .curDir | some .parentDir | none =>
      files.walk (lookupComponents path)

/-- What stands at a path, a link as its last name not followed. -/
def symlinkMetadata (files : HostFiles) (path : Path) :
    Except IoErrorKind Label := do
  let location ← files.lookupNoFollow path
  okOr (files.look location) .notFound

/-- The absolute path without links of what a path leads to. -/
def canonicalize (files : HostFiles) (path : Path) :
    Except IoErrorKind Path := do
  let location ← files.lookup path
  ensure ((absolutePath location).length ≤ files.longestPath) .invalidInput
  .ok (absolutePath location)

/-! ## Walks -/

section Walks

variable {files : HostFiles}

theorem look_root (files : HostFiles) :
    ∃ metadata, files.look [] = some (.directory metadata) :=
  files.disk.look_root

/-- Above a node there are directories. -/
theorem directory_above
    {location done : Location}
    {label : Label}
    (present : files.look location = some label)
    (isPrefix : done <+: location)
    (different : done ≠ location) :
    ∃ metadata, files.look done = some (.directory metadata) :=
  Disk.directory_of_isPrefix present isPrefix different

/-- A node that is no link. -/
def Solid (files : HostFiles) (location : Location) : Prop :=
  ∃ label, files.look location = some label ∧ label.isSymlink = false

theorem Solid.entries
    {location : Location}
    (solid : files.Solid location) :
    ∀ name ∈ location, IsEntry name := by
  obtain ⟨label, present, _⟩ := solid
  refine files.named location ?_
  change FileTree.look files.disk.root location = some label at present
  rw [present]
  rfl

theorem solid_of_directory
    {location : Location}
    {metadata : Metadata}
    (present : files.look location = some (.directory metadata)) :
    files.Solid location :=
  ⟨_, present, rfl⟩

/-- No link stands on the way to a node that is none. -/
theorem Solid.linkFree
    {location : Location}
    (solid : files.Solid location) :
    LinkFree files.disk.root location := by
  obtain ⟨label, present, notLink⟩ := solid
  intro done isPrefix metadata target isLink
  by_cases same : done = location
  · subst same
    have isSame := present.symm.trans isLink
    cases isSame
    cases notLink
  · obtain ⟨above, isDirectory⟩ := directory_above present isPrefix same
    have isSame := isDirectory.symm.trans isLink
    cases isSame

private theorem walkToLink_solid
    {jump : Location → List Component → Except IoErrorKind Location}
    (jumps : ∀ start rest final,
      (∃ metadata, files.look start = some (.directory metadata)) →
      jump start rest = .ok final → files.Solid final)
    {start final : Location}
    {rest : List Component}
    (isDirectory : ∃ metadata, files.look start = some (.directory metadata))
    (walked : walkToLink files.look jump start rest = .ok final) :
    files.Solid final := by
  induction rest generalizing start with
  | nil =>
      cases walked
      obtain ⟨metadata, present⟩ := isDirectory
      exact solid_of_directory present
  | cons component rest inductionHypothesis =>
      cases component with
      | rootDir => exact inductionHypothesis files.look_root walked
      | curDir => exact inductionHypothesis isDirectory walked
      | parentDir =>
          refine inductionHypothesis ?_ walked
          by_cases isRoot : start = []
          · subst isRoot
            exact files.look_root
          · obtain ⟨metadata, present⟩ := isDirectory
            refine directory_above present (List.dropLast_prefix start) ?_
            intro same
            have shorter := congrArg List.length same
            have positive := List.length_pos_iff.mpr isRoot
            rw [List.length_dropLast] at shorter
            omega
      | normal name =>
          simp only [walkToLink] at walked
          split at walked
          · cases walked
          · rename_i metadata found
            exact inductionHypothesis ⟨metadata, found⟩ walked
          · rename_i inode found
            split at walked
            · cases walked
              exact ⟨_, found, rfl⟩
            · cases walked
          · split at walked
            · cases walked
            · exact jumps _ _ _ isDirectory walked

/-- A walk from a directory ends at a node that is no link. -/
theorem walk_solid
    {budget : Nat}
    {start final : Location}
    {rest : List Component}
    (isDirectory : ∃ metadata, files.look start = some (.directory metadata))
    (walked : FileTree.walk files.look budget start rest = .ok final) :
    files.Solid final := by
  induction budget generalizing start rest final with
  | zero =>
      refine walkToLink_solid ?_ isDirectory walked
      intro start rest final isDirectory failed
      cases failed
  | succ budget inductionHypothesis =>
      refine walkToLink_solid ?_ isDirectory walked
      intro start rest final isDirectory walked
      exact inductionHypothesis isDirectory walked

/-- A path leads to a node that is no link. -/
theorem lookup_solid
    {path : Path}
    {location : Location}
    (found : files.lookup path = .ok location) :
    files.Solid location := by
  simp only [lookup, bind_eq_ok] at found
  obtain ⟨_, _, walked⟩ := found
  exact walk_solid files.isDirectory walked

/-- A walk from the root along the names of an absolute path. -/
theorem walk_absolute
    (names : List Name) :
    files.walk (.rootDir :: names.map .normal) =
      FileTree.walk files.look linkBudget [] (names.map .normal) := rfl

/-- Walking to a node that is no link. -/
theorem walk_names
    {location : Location}
    (solid : files.Solid location) :
    files.walk (.rootDir :: location.map .normal) = .ok location := by
  rw [walk_absolute]
  have outcome := @namesWalk files.disk.root linkBudget location files.look_root
    solid.linkFree
  obtain ⟨label, present, _⟩ := solid
  change FileTree.look files.disk.root location = some label at present
  change FileTree.walk (FileTree.look files.disk.root) linkBudget []
    (location.map .normal) = .ok location
  generalize FileTree.walk (FileTree.look files.disk.root) linkBudget []
    (location.map .normal) = result at outcome
  cases outcome with
  | found => rfl
  | missing absent => simp [present] at absent
  | blocked done inode isPrefix different isFile =>
      obtain ⟨metadata, isDirectory⟩ :=
        @directory_above files _ _ _ present isPrefix different
      change FileTree.look files.disk.root done = _ at isDirectory
      rw [isFile] at isDirectory
      cases isDirectory

/-- A walk to an entry of a directory. -/
theorem walk_entry
    {parent : Location}
    {rest : List Component}
    {name : Name}
    (isDirectory : ∃ metadata, files.look parent = some (.directory metadata))
    (walked : files.walk rest = .ok parent) :
    (∀ label, files.look (parent ++ [name]) = some label →
      label.isSymlink = false →
      files.walk (rest ++ [.normal name]) = .ok (parent ++ [name])) := by
  intro label present notLink
  obtain ⟨left, same⟩ := @walk_append files.look parent [.normal name]
    isDirectory _ _ _ walked
  rw [walk, same]
  cases label with
  | directory metadata =>
      cases left <;> simp [FileTree.walk, walkToLink, present]
  | file inode => rw [walk_file present, if_pos rfl]
  | symlink metadata target => cases notLink

end Walks

/-! ## Absolute paths -/

section Absolute

variable {files : HostFiles}

/-- A path at which no link stands leads to what stands there. -/
theorem lookup_of_symlinkMetadata
    {path : Path}
    {label : Label}
    (stands : files.symlinkMetadata path = .ok label)
    (notLink : label.isSymlink = false) :
    ∃ location, files.lookup path = .ok location ∧
      files.look location = some label := by
  simp only [symlinkMetadata, lookupNoFollow, bind_eq_ok, okOr_eq_ok] at stands
  obtain ⟨location, ⟨_, admitted, found⟩, present⟩ := stands
  rw [lookup, admitted, ok_bind]
  split at found
  · rename_i name isLast
    simp only [bind_eq_ok, ensure_eq_ok, exists_const, Except.ok.injEq] at found
    obtain ⟨parent, walked, isDirectory, rfl⟩ := found
    have isParent : ∃ metadata,
        files.look parent = some (.directory metadata) := by
      rw [Option.any_eq_true] at isDirectory
      obtain ⟨label, present, isDirectory⟩ := isDirectory
      cases label with
      | directory metadata => exact ⟨metadata, present⟩
      | file inode => cases isDirectory
      | symlink metadata target => cases isDirectory
    have whole : lookupComponents path =
        (lookupComponents path).dropLast ++ [.normal name] :=
      (List.dropLast_append_getLast? _ isLast).symm
    rw [whole]
    exact ⟨_, walk_entry isParent walked label present notLink, present⟩
  all_goals exact ⟨location, found, present⟩

theorem nul_not_mem_absolutePath
    {names : List Name}
    (entries : ∀ name ∈ names, IsEntry name) :
    0 ∉ absolutePath names := by
  intro member
  rcases List.mem_cons.mp member with isSeparator | member
  · cases isSeparator
  · rw [mem_joinPieces (by decide)] at member
    obtain ⟨name, isName, isNul⟩ := member
    exact (entries name isName).noNul isNul

theorem vet_absolute
    {names : List Name}
    (entries : ∀ name ∈ names, IsEntry name)
    (short : (absolutePath names).length ≤ files.longestPath) :
    files.vet (absolutePath names) = .ok () := by
  rw [vet, ensure_of short, ok_bind,
    ensure_of (nul_not_mem_absolutePath entries), ok_bind]
  exact ensure_of (List.cons_ne_nil _ _) _

/-- A walk of the text of an absolute path. -/
theorem walk_lookupComponents
    {names : List Name}
    (entries : ∀ name ∈ names, IsEntry name) :
    files.walk (lookupComponents (absolutePath names)) =
      files.walk (.rootDir :: names.map .normal) := by
  by_cases nonempty : names = []
  · subst nonempty
    rfl
  · rw [lookupComponents_absolutePath nonempty
      fun name member => (entries name member).isPiece,
      map_nameComponent fun entry member => (entries entry member).toIsNormal]

/-- The absolute path of a node that is no link leads there. -/
theorem lookup_absolute
    {location : Location}
    (solid : files.Solid location)
    (short : (absolutePath location).length ≤ files.longestPath) :
    files.lookup (absolutePath location) = .ok location := by
  rw [lookup, vet_absolute solid.entries short, ok_bind,
    walk_lookupComponents solid.entries, walk_names solid]

theorem canonicalize_eq_ok
    {path result : Path} :
    files.canonicalize path = .ok result ↔
      ∃ location, files.lookup path = .ok location ∧
        result = absolutePath location ∧
        result.length ≤ files.longestPath := by
  simp only [canonicalize, bind_eq_ok, ensure_eq_ok, exists_const,
    Except.ok.injEq]
  constructor
  · rintro ⟨location, found, short, rfl⟩
    exact ⟨location, found, rfl, short⟩
  · rintro ⟨location, found, rfl, short⟩
    exact ⟨location, found, short, rfl⟩

/-- The absolute path of a node that is no link is canonical. -/
theorem canonicalize_absolute
    {location : Location}
    (solid : files.Solid location)
    (short : (absolutePath location).length ≤ files.longestPath) :
    files.canonicalize (absolutePath location) = .ok (absolutePath location) :=
  canonicalize_eq_ok.mpr ⟨location, lookup_absolute solid short, rfl, short⟩

/-- What stands at the absolute path of an entry of a directory. -/
theorem symlinkMetadata_entry
    {location : Location}
    {name : Name}
    {metadata : Metadata}
    (isDirectory : files.look location = some (.directory metadata))
    (entries : ∀ entry ∈ location ++ [name], IsEntry entry)
    (short : (absolutePath (location ++ [name])).length ≤ files.longestPath) :
    files.symlinkMetadata (absolutePath (location ++ [name])) =
      okOr (files.look (location ++ [name])) .notFound := by
  have components := lookupComponents_absolutePath
    (show location ++ [name] ≠ [] by simp)
    fun entry member => (entries entry member).isPiece
  rw [map_nameComponent fun entry member => (entries entry member).toIsNormal,
    List.map_append, List.map_singleton,
    ← List.cons_append] at components
  have isParent : (files.look location).any Label.isDirectory := by
    rw [isDirectory]
    rfl
  rw [symlinkMetadata, lookupNoFollow, vet_absolute entries short, ok_bind,
    components, List.getLast?_concat, List.dropLast_concat,
    walk_names (solid_of_directory isDirectory)]
  simp only [ok_bind, ensure_of isParent]

/-- What stands at the absolute path of a node. -/
theorem symlinkMetadata_absolute
    {location : Location}
    {label : Label}
    (present : files.look location = some label)
    (entries : ∀ entry ∈ location, IsEntry entry)
    (short : (absolutePath location).length ≤ files.longestPath) :
    files.symlinkMetadata (absolutePath location) = .ok label := by
  rcases List.eq_nil_or_concat location with rfl | ⟨above, name, rfl⟩
  · rw [symlinkMetadata, lookupNoFollow, vet_absolute entries short]
    change okOr (files.look []) IoErrorKind.notFound = _
    rw [present, okOr_some]
  · rw [List.concat_eq_append] at present entries short ⊢
    obtain ⟨metadata, isDirectory⟩ := directory_above present
      (List.prefix_append above [name]) (by simp)
    rw [symlinkMetadata_entry isDirectory entries short, present, okOr_some]

/-- The absolute path of names without links among them leads to them or
nowhere. -/
theorem lookup_linkFree
    {names : List Name}
    (entries : ∀ name ∈ names, IsEntry name)
    (linkFree : LinkFree files.disk.root names)
    {location : Location}
    (found : files.lookup (absolutePath names) = .ok location) :
    location = names := by
  simp only [lookup, bind_eq_ok, walk_lookupComponents entries,
    walk_absolute] at found
  obtain ⟨_, _, walked⟩ := found
  have outcome := @namesWalk files.disk.root linkBudget names files.look_root
    linkFree
  change FileTree.walk (FileTree.look files.disk.root) linkBudget []
    (names.map .normal) = .ok location at walked
  rw [walked] at outcome
  cases outcome with
  | found => rfl

/-- What the metadata of a missing path says, when neither a link nor a file is
in the way. -/
theorem symlinkMetadata_missing
    {parent : List Name}
    {name : Name}
    (entries : ∀ entry ∈ parent ++ [name], IsEntry entry)
    (linkFree : LinkFree files.disk.root parent)
    (unblocked : files.disk.Unblocked parent)
    (absent : files.look (parent ++ [name]) = none)
    (short : (absolutePath (parent ++ [name])).length ≤ files.longestPath) :
    files.symlinkMetadata (absolutePath (parent ++ [name])) =
      .error .notFound := by
  have components := lookupComponents_absolutePath
    (show parent ++ [name] ≠ [] by simp)
    fun entry member => (entries entry member).isPiece
  rw [map_nameComponent fun entry member => (entries entry member).toIsNormal,
    List.map_append, List.map_singleton, ← List.cons_append] at components
  rw [symlinkMetadata, lookupNoFollow, vet_absolute entries short, ok_bind,
    components, List.getLast?_concat, List.dropLast_concat, walk_absolute]
  have outcome := @namesWalk files.disk.root linkBudget parent files.look_root
    linkFree
  change NamesWalk _ _ (FileTree.walk files.look linkBudget []
    (parent.map .normal)) at outcome
  generalize FileTree.walk files.look linkBudget [] (parent.map .normal) =
    result at outcome
  cases outcome with
  | found label present =>
      change files.look parent = some label at present
      have isDirectory : (files.look parent).any Label.isDirectory := by
        rw [present]
        cases label with
        | directory metadata => rfl
        | file inode =>
            exact absurd present (unblocked parent List.prefix_rfl inode)
        | symlink metadata target =>
            exact absurd present
              (linkFree parent List.prefix_rfl metadata target)
      simp only [ok_bind, ensure_of isDirectory, absent, okOr_none]
  | missing => rfl
  | blocked done inode isPrefix different isFile =>
      exact absurd isFile (unblocked done isPrefix inode)

end Absolute

end HostFiles

end FileTree
