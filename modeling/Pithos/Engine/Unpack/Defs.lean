import Pithos.Engine.Read
import Pithos.Library.DiskNames

/-!
# Unpacking

`unpack` verifies an archive, makes a staging directory beside the destination,
creates the entries in it (directories, then files, hardlinks and symbolic
links), renames it to the destination and synchronises the directory that it was
renamed in.  The destination is given by its physical location.  The name of the
staging directory is chosen by the temporary-file crate and is a parameter here.
-/

namespace Pithos

open Fallible
open FileTree
open HostPath

/-- An action of the engine on a disk. -/
abbrev Engine := StateAction Disk PithosError

/-- An operation on files, as an action of the engine. -/
def io {Value : Type} (operation : StateAction Disk IoErrorKind Value) :
    Engine Value :=
  StateAction.mapError PithosError.io operation

/-- The absolute path of a location. -/
def absolute (location : Location) : List Component :=
  location.map .normal

/-- A relative host path below a location. -/
def join (base : Location) (relative : Path) : List Component :=
  absolute base ++ lookupComponents relative

/-- Whether something stands at a path. -/
def pathEntryExists (path : List Component) : Engine Bool :=
  StateAction.inspect fun disk =>
    match disk.symlinkMetadata path with
    | .ok _ => .ok true
    | .error .notFound => .ok false
    | .error failure => .error (.io failure)

/-- The group with an id, by a map in which later records replace earlier
ones. -/
def groupById (groups : List GroupTableRecord) (groupId : UInt64) :
    Option GroupTableRecord :=
  groups.reverse.find? fun record => record.group.groupId = groupId

/-! ## Entries -/

/-- Make the directories above a path. -/
def createParents (destination : List Component) : Engine Unit :=
  io (Disk.createDirAll destination.dropLast)

/-- Create a directory entry. -/
def unpackDirectory (staging : Location) (entry : EntryRecord) :
    Engine Unit := do
  let relative ← StateAction.lift entry.path.toPathBuf
  io (Disk.createDirAll (join staging relative))

/-- Create a file entry, check its hash and set its mode. -/
def unpackFile
    (backends : Backends)
    (file : List UInt8)
    (limits : DecodeLimits)
    (parsed : ParsedArchive)
    (staging : Location)
    (entry : EntryRecord)
    (groupId : UInt64) : Engine Unit := do
  let group ← StateAction.lift (okOr (groupById parsed.groups groupId)
    (.invalidMetadata "grupo ausente"))
  let restore ← StateAction.lift (restoreForEntry parsed.restoreMap entry.entryId)
  let relative ← StateAction.lift entry.path.toPathBuf
  createParents (join staging relative)
  let inode ← io (Disk.createNew (join staging relative))
  let decoded ← StateAction.lift
    (decodeGroup backends file group parsed.codecRegistry limits)
  let bytes ← StateAction.lift (restoredSlice decoded restore 0 restore.length)
  io (Disk.writeAll inode bytes)
  StateAction.lift (ensure (backends.digests.blake3 bytes = entry.blake3)
    .hashMismatch)
  io (Disk.setPermissions (join staging relative) entry.mode)

/-- Create a hardlink entry. -/
def unpackHardlink
    (parsed : ParsedArchive)
    (staging : Location)
    (entry : EntryRecord)
    (targetEntryId : UInt64) : Engine Unit := do
  let target ← StateAction.lift (okOr parsed.entries[targetEntryId.toNat]?
    (.invalidMetadata "hardlink inválido"))
  let relative ← StateAction.lift entry.path.toPathBuf
  createParents (join staging relative)
  let source ← StateAction.lift target.path.toPathBuf
  io (Disk.hardLink (join staging source) (join staging relative))

/-- Create a symbolic link entry. -/
def unpackSymlink
    (staging : Location)
    (entry : EntryRecord)
    (target : LinkTarget) : Engine Unit := do
  StateAction.lift (ensure (target.resolvesWithin entry.path) .unsafeSymlink)
  let relative ← StateAction.lift entry.path.toPathBuf
  createParents (join staging relative)
  let spelled ← StateAction.lift target.toPathBuf
  io (Disk.symlink spelled (join staging relative))

/-- Create an entry, whatever it is. -/
def unpackEntry
    (backends : Backends)
    (file : List UInt8)
    (limits : DecodeLimits)
    (parsed : ParsedArchive)
    (staging : Location)
    (entry : EntryRecord) : Engine Unit :=
  match entry.kind with
  | .directory => unpackDirectory staging entry
  | .file groupId =>
      unpackFile backends file limits parsed staging entry groupId
  | .hardlink targetEntryId =>
      unpackHardlink parsed staging entry targetEntryId
  | .symlink target _ => unpackSymlink staging entry target

/-- Whether an entry is of a kind. -/
def EntryRecord.isOf (kind : ArchiveEntryKind) (entry : EntryRecord) : Bool :=
  archiveEntryKind entry.kind = kind

/-- Create all entries, one kind after the other. -/
def populate
    (backends : Backends)
    (file : List UInt8)
    (limits : DecodeLimits)
    (parsed : ParsedArchive)
    (staging : Location) : Engine Unit := do
  StateAction.forEach (unpackEntry backends file limits parsed staging)
    (parsed.entries.filter (EntryRecord.isOf .directory))
  StateAction.forEach (unpackEntry backends file limits parsed staging)
    (parsed.entries.filter (EntryRecord.isOf .file))
  StateAction.forEach (unpackEntry backends file limits parsed staging)
    (parsed.entries.filter (EntryRecord.isOf .hardlink))
  StateAction.forEach (unpackEntry backends file limits parsed staging)
    (parsed.entries.filter (EntryRecord.isOf .symlink))

/-! ## The transaction -/

/-- Where an archive is unpacked to.  A destination that is given by its name
alone is `bare`: it stands in the working directory, which is `outputParent`, and
the path of its parent is empty. -/
structure UnpackRequest where
  outputParent : Location
  outputName : Name
  stagingName : Name
  bare : Bool

namespace UnpackRequest

/-- The destination. -/
def outputDir (request : UnpackRequest) : Location :=
  request.outputParent ++ [request.outputName]

/-- The staging directory beside the destination. -/
def staging (request : UnpackRequest) : Location :=
  request.outputParent ++ [request.stagingName]

end UnpackRequest

/-- Make the parent of the destination.  An empty path has nothing to make. -/
def createOutputParent (request : UnpackRequest) : Engine Unit :=
  if request.bare then pure ()
  else io (Disk.createDirAll (absolute request.outputParent))

/-- Verify the archive and make the staging directory. -/
def prepareStaging
    (backends : Backends)
    (file : List UInt8)
    (limits : DecodeLimits)
    (maxTempBytes : UInt64)
    (request : UnpackRequest) : Engine ParsedArchive := do
  let present ← pathEntryExists (absolute request.outputDir)
  StateAction.lift (ensure (present = false) .outputExists)
  let parsed ← StateAction.lift (verifyOpenFile backends file limits)
  StateAction.lift (ensure (parsed.report.originalBytes ≤ maxTempBytes)
    (.resourceLimit "unpack temporary bytes"))
  createOutputParent request
  io (Disk.mkdir (absolute request.staging))
  pure parsed

/-- Open the parent of the destination.  There is nothing at an empty path. -/
def openParent (request : UnpackRequest) :
    StateAction Disk IoErrorKind Unit :=
  StateAction.inspect fun disk =>
    if request.bare then .error .notFound
    else (disk.resolve (absolute request.outputParent)).map fun _ => ()

/-- Synchronise the parent of the destination.  Without faults nothing is left to
do when it has been opened. -/
def syncParent (request : UnpackRequest) : Engine Unit :=
  io (openParent request)

/-- Unpack an archive.  The staging directory is taken away at the end, when it
is still there. -/
def unpack
    (backends : Backends)
    (file : List UInt8)
    (limits : DecodeLimits)
    (maxTempBytes : UInt64)
    (request : UnpackRequest) : Engine Unit := do
  let parsed ← prepareStaging backends file limits maxTempBytes request
  StateAction.cleanupAfter
    (do
      populate backends file limits parsed request.staging
      io (Disk.rename (absolute request.staging)
        (absolute request.outputDir))
      syncParent request)
    (io (Disk.removeDirAll (absolute request.staging)))

end Pithos
