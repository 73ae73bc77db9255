import Pithos.Library.Action
import Pithos.Library.Fallible
import Pithos.Library.PathLookup

/-!
# Operations on files

A disk is a file tree with its table of inodes.  The operations take absolute
paths, given by their components, resolve them as the kernel does, and either
change the disk as a whole or fail and leave it as it is.  `createDirAll` makes
several such steps.  For paths of plain names that meet no symbolic link each
operation has a lemma saying exactly when it succeeds and what it changes.
-/

namespace FileTree

open HostPath
open Fallible

/-- A regular file. -/
structure Inode where
  metadata : Metadata
  content : List UInt8
  deriving DecidableEq

/-- A file tree with its files. -/
structure Disk where
  root : Node
  inodes : List Inode
  rootIsDirectory : root.isDirectory = true

/-- The bits of a mode that say that a node is a regular file. -/
def regularFileBits : UInt32 := 0o100000

/-- The bits of a mode that `chmod` sets. -/
def permissionBits : UInt32 := 0o7777

/-- The attributes of a directory just made. -/
def newDirectory : Metadata where
  mode := 0o40755
  modifiedNs := 0

/-- The attributes of a file or link just made. -/
def newFile : Metadata where
  mode := 0o100644
  modifiedNs := 0

/-- The attributes of a regular file after `chmod`. -/
def withMode (mode : UInt32) (metadata : Metadata) : Metadata :=
  { metadata with mode := regularFileBits ||| (mode &&& permissionBits) }

/-- A file with more bytes at its end. -/
def Inode.append (bytes : List UInt8) (inode : Inode) : Inode :=
  { inode with content := inode.content ++ bytes }

/-- A file with another mode. -/
def Inode.setMode (mode : UInt32) (inode : Inode) : Inode :=
  { inode with metadata := withMode mode inode.metadata }

theorem isDirectory_of_insert
    {added root changed : Node}
    {location : Location}
    (isDirectory : root.isDirectory = true)
    (inserted : Node.insert added location root = some changed) :
    changed.isDirectory = true := by
  cases root with
  | directory metadata children =>
      match location with
      | [] => simp [Node.insert] at inserted
      | [name] =>
          simp only [Node.insert] at inserted
          split at inserted <;> cases inserted
          rfl
      | name :: second :: rest =>
          simp only [Node.insert, Option.bind_eq_some_iff,
            Option.map_eq_some_iff] at inserted
          obtain ⟨_, _, _, _, rfl⟩ := inserted
          rfl
  | file inode => cases isDirectory
  | symlink metadata target => cases isDirectory

theorem isDirectory_of_remove
    {root changed : Node}
    {location : Location}
    (isDirectory : root.isDirectory = true)
    (removed : Node.remove location root = some changed) :
    changed.isDirectory = true := by
  cases root with
  | directory metadata children =>
      match location with
      | [] => simp [Node.remove] at removed
      | [name] =>
          simp only [Node.remove] at removed
          split at removed <;> cases removed
          rfl
      | name :: second :: rest =>
          simp only [Node.remove, Option.bind_eq_some_iff,
            Option.map_eq_some_iff] at removed
          obtain ⟨_, _, _, _, rfl⟩ := removed
          rfl
  | file inode => cases isDirectory
  | symlink metadata target => cases isDirectory

namespace Disk

/-- What stands at a location. -/
def look (disk : Disk) (location : Location) : Option Label :=
  FileTree.look disk.root location

theorem look_root (disk : Disk) :
    ∃ metadata, disk.look [] = some (.directory metadata) := by
  obtain ⟨root, inodes, isDirectory⟩ := disk
  cases root with
  | directory metadata children => exact ⟨metadata, rfl⟩
  | file inode => cases isDirectory
  | symlink metadata target => cases isDirectory

/-- Add a node at a free location. -/
def add (disk : Disk) (added : Node) (location : Location) : Option Disk :=
  match inserted : Node.insert added location disk.root with
  | none => none
  | some root => some {
      root := root
      inodes := disk.inodes
      rootIsDirectory :=
        isDirectory_of_insert disk.rootIsDirectory inserted }

/-- Take a node away. -/
def remove (disk : Disk) (location : Location) : Option Disk :=
  match removed : Node.remove location disk.root with
  | none => none
  | some root => some {
      root := root
      inodes := disk.inodes
      rootIsDirectory :=
        isDirectory_of_remove disk.rootIsDirectory removed }

theorem add_eq_some
    {disk changed : Disk}
    {added : Node}
    {location : Location} :
    disk.add added location = some changed ↔
      Node.insert added location disk.root = some changed.root ∧
        changed.inodes = disk.inodes := by
  obtain ⟨root, inodes, isDirectory⟩ := changed
  unfold add
  split
  · rename_i failed
    simp [failed]
  · rename_i inserted
    simp [inserted, eq_comm]

theorem remove_eq_some
    {disk changed : Disk}
    {location : Location} :
    disk.remove location = some changed ↔
      Node.remove location disk.root = some changed.root ∧
        changed.inodes = disk.inodes := by
  obtain ⟨root, inodes, isDirectory⟩ := changed
  unfold remove
  split
  · rename_i failed
    simp [failed]
  · rename_i removed
    simp [removed, eq_comm]

/-! ## Resolving paths -/

/-- The byte that no path may hold. -/
def nul : UInt8 := 0

/-- Whether a path holds a NUL byte. -/
def hasNul (path : List Component) : Bool :=
  path.any fun component =>
    match component with
    | .normal name => name.contains nul
    | .rootDir | .curDir | .parentDir => false

/-- Where a path ends, all links followed. -/
def resolve (disk : Disk) (path : List Component) :
    Except IoErrorKind Location := do
  ensure (hasNul path = false) .invalidInput
  walk disk.look linkBudget [] path

/-- Where the last name of a path stands, links followed only on the way to
it. -/
def resolveLast (disk : Disk) (path : List Component) :
    Except IoErrorKind Location := do
  ensure (hasNul path = false) .invalidInput
  match path.getLast? with
  | some (.normal name) => do
      let parent ← walk disk.look linkBudget [] path.dropLast
      ensure ((disk.look parent).any Label.isDirectory) .notADirectory
      .ok (parent ++ [name])
  | some .curDir | some .parentDir => do
      let parent ← walk disk.look linkBudget [] path.dropLast
      ensure ((disk.look parent).any Label.isDirectory) .notADirectory
      .error .alreadyExists
  | some .rootDir | none => .error .alreadyExists

/-- Whether a path leads to a directory. -/
def isDir (disk : Disk) (path : List Component) : Bool :=
  match disk.resolve path with
  | .ok location => (disk.look location).any Label.isDirectory
  | .error _ => false

/-- Where a path ends, a link as its last name not followed. -/
def resolveNoFollow (disk : Disk) (path : List Component) :
    Except IoErrorKind Location :=
  match path.getLast? with
  | some (.normal _) => disk.resolveLast path
  | some .rootDir | some .curDir | some .parentDir | none => disk.resolve path

/-- What stands at a path, a link as its last name not followed. -/
def symlinkMetadata (disk : Disk) (path : List Component) :
    Except IoErrorKind Label := do
  let location ← disk.resolveNoFollow path
  okOr (disk.look location) .notFound

/-- Add a node at a path. -/
def addAt (disk : Disk) (path : List Component) (added : Node) :
    Except IoErrorKind Disk := do
  let location ← disk.resolveLast path
  okOr (disk.add added location) .alreadyExists

/-! ## Operations -/

/-- Make a directory. -/
def mkdir (path : List Component) : StateAction Disk IoErrorKind Unit :=
  StateAction.attempt fun disk => do
    let changed ← disk.addAt path (.directory newDirectory [])
    .ok ((), changed)

/-- Keep a failure unless the path is a directory. -/
def unlessDir (path : List Component) (failure : IoErrorKind) :
    StateAction Disk IoErrorKind Unit :=
  StateAction.inspect fun disk =>
    if disk.isDir path then .ok () else .error failure

/-- Run an action and then, when it fails, another. -/
def orElse
    (action : StateAction Disk IoErrorKind Unit)
    (handler : IoErrorKind → StateAction Disk IoErrorKind Unit) :
    StateAction Disk IoErrorKind Unit :=
  fun disk =>
    match action disk with
    | (.ok value, after) => (.ok value, after)
    | (.error failure, after) => handler failure after

/-- Make the directories of the first names of a path. -/
def createDirAllUpTo (path : List Component) :
    Nat → StateAction Disk IoErrorKind Unit
  | 0 => pure ()
  | count + 1 =>
      orElse (mkdir (path.take (count + 1))) fun failure =>
        if failure = .notFound then do
          createDirAllUpTo path count
          orElse (mkdir (path.take (count + 1)))
            (unlessDir (path.take (count + 1)))
        else unlessDir (path.take (count + 1)) failure

/-- Make a directory and all its parents that are missing. -/
def createDirAll (path : List Component) : StateAction Disk IoErrorKind Unit :=
  createDirAllUpTo path path.length

/-- Make a new empty file, and give its inode. -/
def createNew (path : List Component) : StateAction Disk IoErrorKind Nat :=
  StateAction.attempt fun disk => do
    let changed ← disk.addAt path (.file disk.inodes.length)
    .ok (disk.inodes.length, { changed with
      inodes := changed.inodes ++ [⟨newFile, []⟩] })

/-- Make a new empty file that has no name yet, and give its inode. -/
def createSpool : StateAction Disk IoErrorKind Nat :=
  StateAction.attempt fun disk =>
    .ok (disk.inodes.length, { disk with
      inodes := disk.inodes ++ [⟨newFile, []⟩] })

/-- Give a file without a name its name. -/
def publish (inode : Nat) (path : List Component) :
    StateAction Disk IoErrorKind Unit :=
  StateAction.attempt fun disk => do
    let changed ← disk.addAt path (.file inode)
    .ok ((), changed)

/-- Write to the end of a file. -/
def writeAll (inode : Nat) (bytes : List UInt8) :
    StateAction Disk IoErrorKind Unit :=
  StateAction.attempt fun disk =>
    .ok ((), { disk with
      inodes := disk.inodes.modify inode (Inode.append bytes) })

/-- Set the mode of a file.  Only regular files are given modes. -/
def setPermissions (path : List Component) (mode : UInt32) :
    StateAction Disk IoErrorKind Unit :=
  StateAction.attempt fun disk => do
    let location ← disk.resolve path
    match disk.look location with
    | some (.file inode) =>
        .ok ((), { disk with
          inodes := disk.inodes.modify inode (Inode.setMode mode) })
    | some (.directory _) => .error .isADirectory
    | some (.symlink _ _) | none => .error .notFound

/-- Give a file a second name.  A link as source is not followed. -/
def hardLink (source path : List Component) : StateAction Disk IoErrorKind Unit :=
  StateAction.attempt fun disk => do
    let location ← disk.resolveLast source
    match disk.look location with
    | some (.file inode) => do
        let changed ← disk.addAt path (.file inode)
        .ok ((), changed)
    | some (.symlink metadata target) => do
        let changed ← disk.addAt path (.symlink metadata target)
        .ok ((), changed)
    | some (.directory _) => .error .permissionDenied
    | none => .error .notFound

/-- Make a symbolic link. -/
def symlink (target : Path) (path : List Component) :
    StateAction Disk IoErrorKind Unit :=
  StateAction.attempt fun disk => do
    ensure (nul ∉ target ∧ hasNul path = false) .invalidInput
    ensure (target ≠ []) .notFound
    let changed ← disk.addAt path (.symlink newFile target)
    .ok ((), changed)

/-- Whether a node is a directory without children. -/
def isEmptyDirectory : Node → Bool
  | .directory _ children => children.isEmpty
  | .file _ | .symlink _ _ => false

/-- Make room for a node: it may replace only an empty directory, and only when
it is a directory itself. -/
def makeRoom (disk : Disk) (moved : Node) (destination : Location) :
    Except IoErrorKind Disk :=
  match disk.root.get destination with
  | none => .ok disk
  | some present =>
      if isEmptyDirectory present && moved.isDirectory then
        okOr (disk.remove destination) .notFound
      else .error .alreadyExists

/-- Move a node to a location, where only an empty directory may stand. -/
def moveTo (disk : Disk) (source destination : Location) :
    Except IoErrorKind Disk := do
  let moved ← okOr (disk.root.get source) .notFound
  if source = destination then .ok disk
  else do
    ensure (¬source <+: destination) .invalidInput
    let cleared ← okOr (disk.remove source) .notFound
    let freed ← cleared.makeRoom moved destination
    okOr (freed.add moved destination) .notADirectory

/-- Rename a path. -/
def rename (source path : List Component) : StateAction Disk IoErrorKind Unit :=
  StateAction.attempt fun disk => do
    let sourceLocation ← disk.resolveLast source
    let destination ← disk.resolveLast path
    let changed ← disk.moveTo sourceLocation destination
    .ok ((), changed)

/-- Take away a directory with everything in it, when it is there. -/
def removeDirAll (path : List Component) : StateAction Disk IoErrorKind Unit :=
  StateAction.attempt fun disk => do
    let location ← disk.resolveLast path
    let changed ← okOr (disk.remove location) .notFound
    .ok ((), changed)

end Disk

end FileTree
