import Pithos.Engine.Confinement
import Pithos.Engine.Read
import Pithos.Engine.Unpack.Run

/-!
# Operations that hand out bytes, with all that can stop them

Four operations hand out the bytes of entries: two write to a stream, `extract`
publishes one file and `unpack` a whole tree.  Here each of them can be stopped
by a fault or a cancellation at every step, also after the publication; only the
stream itself does not fail.  When nothing stops them they are the undisturbed
operations.
-/

namespace Pithos

open Fallible
open Machine
open FileTree
open HostPath
open Disk
open FaultyDisk

/-! ## Streams -/

/-- A stream, and what stops the operations on the way to it. -/
structure Streaming where
  output : List UInt8
  stops : List (Option PithosError)

/-- An action that may be stopped and writes to a stream. -/
abbrev FaultyWriter := StateAction Streaming PithosError

/-- A place where a cancellation or a fault of the archive can stop the
action. -/
def stop : FaultyWriter Unit := fun streaming =>
  match streaming.stops.head?.join with
  | some failure =>
      (.error failure, { streaming with stops := streaming.stops.tail })
  | none => (.ok (), { streaming with stops := streaming.stops.tail })

/-- Write bytes to the stream. -/
def deliver (bytes : List UInt8) : FaultyWriter Unit := fun streaming =>
  (.ok (), { streaming with output := streaming.output ++ bytes })

/-- Stream one file entry. -/
def extractToWriterFaulty
    (backends : Backends)
    (file : List UInt8)
    (limits : DecodeLimits)
    (entry : Path) : FaultyWriter ExtractReport := do
  stop
  let selector ← StateAction.lift (ArchivePath.fromRelative entry)
  stop
  stop
  let parsed ← StateAction.lift (readCatalog backends file limits)
  let selected ← StateAction.lift (selectEntry parsed.entries selector)
  let source ← StateAction.lift (fileSourceEntry selected parsed.entries)
  let groupId ← StateAction.lift (okOr source.kind.groupId?
    (.invalidMetadata "stdout requires a file entry"))
  let group ← StateAction.lift (okOr parsed.groups[groupId.toNat]?
    (.invalidMetadata "entry group"))
  let restore ← StateAction.lift (restoreForEntry parsed.restoreMap source.entryId)
  stop
  let decoded ← StateAction.lift
    (decodeGroup backends file group parsed.codecRegistry limits)
  let bytes ← StateAction.lift (restoredSlice decoded restore 0 restore.length)
  deliver bytes
  StateAction.lift (ensure (backends.digests.blake3 bytes = source.blake3)
    .hashMismatch)
  pure (extractReport selected source.size)

/-- Stream a range of one file entry. -/
def readRangeFaulty
    (backends : Backends)
    (file : List UInt8)
    (limits : DecodeLimits)
    (entry : Path)
    (offset length : UInt64) : FaultyWriter ReadRangeReport := do
  stop
  StateAction.lift (ensure (length ≤ limits.maxGroupOutput)
    (.resourceLimit "range output"))
  let selector ← StateAction.lift (ArchivePath.fromRelative entry)
  stop
  stop
  let parsed ← StateAction.lift (readCatalog backends file limits)
  let selected ← StateAction.lift (selectEntry parsed.entries selector)
  let source ← StateAction.lift (fileSourceEntry selected parsed.entries)
  let finish ← StateAction.lift (okOr (checkedAdd offset length) .integerOverflow)
  StateAction.lift (ensure (finish ≤ source.size) .invalidRange)
  let groupId ← StateAction.lift (okOr source.kind.groupId?
    (.invalidMetadata "range requires a file entry"))
  let group ← StateAction.lift (okOr parsed.groups[groupId.toNat]?
    (.invalidMetadata "entry group"))
  let restore ← StateAction.lift (restoreForEntry parsed.restoreMap source.entryId)
  stop
  let decoded ← StateAction.lift
    (decodeGroup backends file group parsed.codecRegistry limits)
  let entryBytes ← StateAction.lift
    (restoredSlice decoded restore 0 restore.length)
  StateAction.lift (ensure (backends.digests.blake3 entryBytes = source.blake3)
    .hashMismatch)
  let rangeBytes ← StateAction.lift (restoredSlice decoded restore offset length)
  deliver rangeBytes
  let path ← StateAction.lift selected.path.toPathBuf
  pure {
    path := path
    offset := offset
    length := length
    entrySize := source.size
    blake3 := backends.digests.blake3 rangeBytes }

/-! ## Extraction -/

/-- Publish a spool and make it durable. -/
def atomicCommitDurable (spool : Nat) (targetPath : List Component) :
    FaultyEngine Unit := do
  atomicCommitFaulty spool targetPath
  touch
  touch

/-- Publish a file until its mode is set, and make it durable on the way. -/
def durable : Publication where
  commit := atomicCommitDurable
  applyMode := fun path mode =>
    faultyIo (exposed path (setPermissions path mode))

/-- Extract one entry. -/
def extractDurable
    (backends : Backends)
    (file : List UInt8)
    (limits : DecodeLimits)
    (maxOutputBytes maxTempBytes : UInt64)
    (outputDir : List Component)
    (requested : Path) : FaultyEngine ExtractReport :=
  extractWith durable backends file limits maxOutputBytes maxTempBytes outputDir
    requested

/-! ## Unpacking -/

/-- Make the directories above a path. -/
def createParentsFaulty (destination : List Component) : FaultyEngine Unit :=
  faultyIo (FaultyDisk.createDirAll destination.dropLast)

/-- Create a directory entry. -/
def unpackDirectoryFaulty (staging : Location) (entry : EntryRecord) :
    FaultyEngine Unit := do
  let relative ← StateAction.lift entry.path.toPathBuf
  faultyIo (FaultyDisk.createDirAll (join staging relative))

/-- Create a file entry, check its hash and set its mode. -/
def unpackFileFaulty
    (backends : Backends)
    (file : List UInt8)
    (limits : DecodeLimits)
    (parsed : ParsedArchive)
    (staging : Location)
    (entry : EntryRecord)
    (groupId : UInt64) : FaultyEngine Unit := do
  let group ← StateAction.lift (okOr (groupById parsed.groups groupId)
    (.invalidMetadata "grupo ausente"))
  let restore ← StateAction.lift (restoreForEntry parsed.restoreMap entry.entryId)
  let relative ← StateAction.lift entry.path.toPathBuf
  createParentsFaulty (join staging relative)
  let inode ← faultyIo (exposed (join staging relative)
    (Disk.createNew (join staging relative)))
  touch
  checkpoint
  let decoded ← StateAction.lift
    (decodeGroup backends file group parsed.codecRegistry limits)
  let bytes ← StateAction.lift (restoredSlice decoded restore 0 restore.length)
  faultyIo (exposed [] (Disk.writeAll inode bytes))
  StateAction.lift (ensure (backends.digests.blake3 bytes = entry.blake3)
    .hashMismatch)
  touch
  faultyIo (exposed (join staging relative)
    (Disk.setPermissions (join staging relative) entry.mode))

/-- Create a hardlink entry. -/
def unpackHardlinkFaulty
    (parsed : ParsedArchive)
    (staging : Location)
    (entry : EntryRecord)
    (targetEntryId : UInt64) : FaultyEngine Unit := do
  let target ← StateAction.lift (okOr parsed.entries[targetEntryId.toNat]?
    (.invalidMetadata "hardlink inválido"))
  let relative ← StateAction.lift entry.path.toPathBuf
  createParentsFaulty (join staging relative)
  let source ← StateAction.lift target.path.toPathBuf
  faultyIo (exposed (join staging relative)
    (Disk.hardLink (join staging source) (join staging relative)))

/-- Create a symbolic link entry. -/
def unpackSymlinkFaulty
    (staging : Location)
    (entry : EntryRecord)
    (target : LinkTarget) : FaultyEngine Unit := do
  StateAction.lift (ensure (target.resolvesWithin entry.path) .unsafeSymlink)
  let relative ← StateAction.lift entry.path.toPathBuf
  createParentsFaulty (join staging relative)
  let spelled ← StateAction.lift target.toPathBuf
  faultyIo (exposed (join staging relative)
    (Disk.symlink spelled (join staging relative)))

/-- Create an entry, whatever it is. -/
def unpackEntryFaulty
    (backends : Backends)
    (file : List UInt8)
    (limits : DecodeLimits)
    (parsed : ParsedArchive)
    (staging : Location)
    (entry : EntryRecord) : FaultyEngine Unit := do
  checkpoint
  match entry.kind with
  | .directory => unpackDirectoryFaulty staging entry
  | .file groupId =>
      unpackFileFaulty backends file limits parsed staging entry groupId
  | .hardlink targetEntryId =>
      unpackHardlinkFaulty parsed staging entry targetEntryId
  | .symlink target _ => unpackSymlinkFaulty staging entry target

/-- Create all entries, one kind after the other. -/
def populateFaulty
    (backends : Backends)
    (file : List UInt8)
    (limits : DecodeLimits)
    (parsed : ParsedArchive)
    (staging : Location) : FaultyEngine Unit := do
  StateAction.forEach (unpackEntryFaulty backends file limits parsed staging)
    (parsed.entries.filter (EntryRecord.isOf .directory))
  StateAction.forEach (unpackEntryFaulty backends file limits parsed staging)
    (parsed.entries.filter (EntryRecord.isOf .file))
  StateAction.forEach (unpackEntryFaulty backends file limits parsed staging)
    (parsed.entries.filter (EntryRecord.isOf .hardlink))
  StateAction.forEach (unpackEntryFaulty backends file limits parsed staging)
    (parsed.entries.filter (EntryRecord.isOf .symlink))

/-- Make the parent of the destination.  An empty path has nothing to make. -/
def createOutputParentFaulty (request : UnpackRequest) : FaultyEngine Unit :=
  if request.bare then pure ()
  else faultyIo (FaultyDisk.createDirAll (absolute request.outputParent))

/-- Open the parent of the destination and synchronise it. -/
def syncParentFaulty (request : UnpackRequest) : FaultyEngine Unit := do
  faultyIo (exposed (absolute request.outputParent) (openParent request))
  touch

/-- Unpack an archive.  The staging directory is taken away at the end, when it
is still there. -/
def unpackFaulty
    (backends : Backends)
    (file : List UInt8)
    (limits : DecodeLimits)
    (maxTempBytes : UInt64)
    (request : UnpackRequest) : FaultyEngine Unit := do
  checkpoint
  refuseExistingFaulty (absolute request.outputDir)
  touch
  touch
  checkpoint
  let parsed ← StateAction.lift (verifyOpenFile backends file limits)
  StateAction.lift (ensure (parsed.report.originalBytes ≤ maxTempBytes)
    (.resourceLimit "unpack temporary bytes"))
  createOutputParentFaulty request
  faultyIo (FaultyDisk.mkdir (absolute request.staging))
  StateAction.cleanupAfter
    (do
      populateFaulty backends file limits parsed request.staging
      checkpoint
      faultyIo (exposed (absolute request.outputDir)
        (Disk.rename (absolute request.staging) (absolute request.outputDir)))
      syncParentFaulty request)
    (faultyIo (exposed (absolute request.staging)
      (Disk.removeDirAll (absolute request.staging))))

/-! ## Without faults -/

section Undisturbed

/-- An action that does to its stream, when nothing stops it, what another does. -/
def Streams
    {Value : Type}
    (faulty : FaultyWriter Value)
    (plain : Writer Value) : Prop :=
  ∀ output, faulty ⟨output, []⟩ =
    ((plain output).1, ⟨(plain output).2, []⟩)

variable {Value Next : Type}

theorem Streams.bind
    {faulty : FaultyWriter Value}
    {plain : Writer Value}
    {next : Value → FaultyWriter Next}
    {plainNext : Value → Writer Next}
    (first : Streams faulty plain)
    (rest : ∀ value, Streams (next value) (plainNext value)) :
    Streams (faulty >>= next) (plain >>= plainNext) := by
  intro output
  have ran := first output
  match same : plain output with
  | (.ok value, written) =>
      rw [same] at ran
      rw [StateAction.bind_of_ok same, StateAction.bind_of_ok ran]
      exact rest value written
  | (.error failure, written) =>
      rw [same] at ran
      rw [StateAction.bind_of_error same, StateAction.bind_of_error ran]

theorem Streams.afterStop
    {next : Unit → FaultyWriter Value}
    {plain : Writer Value}
    (rest : Streams (next ()) plain) :
    Streams (stop >>= next) plain :=
  rest

theorem streams_lift (result : Result Value) :
    Streams (StateAction.lift result) (StateAction.lift result) :=
  fun _ => rfl

theorem streams_deliver (bytes : List UInt8) :
    Streams (deliver bytes) (emit bytes) :=
  fun _ => rfl

variable
  (backends : Backends)
  (file : List UInt8)
  (limits : DecodeLimits)

theorem streams_extractToWriter (entry : Path) :
    Streams (extractToWriterFaulty backends file limits entry)
      (extractToWriter backends file limits entry) := by
  refine .afterStop ?_
  refine (streams_lift _).bind fun selector => ?_
  refine .afterStop (.afterStop ?_)
  refine (streams_lift _).bind fun parsed => ?_
  refine (streams_lift _).bind fun selected => ?_
  refine (streams_lift _).bind fun source => ?_
  refine (streams_lift _).bind fun groupId => ?_
  refine (streams_lift _).bind fun group => ?_
  refine (streams_lift _).bind fun restore => ?_
  refine .afterStop ?_
  generalize decodeGroup backends file group parsed.codecRegistry limits =
    decoding
  refine (streams_lift _).bind fun decoded => ?_
  refine (streams_lift _).bind fun bytes => ?_
  refine (streams_deliver _).bind fun _ => ?_
  exact (streams_lift _).bind fun _ => fun _ => rfl

theorem streams_readRange (entry : Path) (offset length : UInt64) :
    Streams (readRangeFaulty backends file limits entry offset length)
      (readRange backends file limits entry offset length) := by
  refine .afterStop ?_
  refine (streams_lift _).bind fun _ => ?_
  refine (streams_lift _).bind fun selector => ?_
  refine .afterStop (.afterStop ?_)
  refine (streams_lift _).bind fun parsed => ?_
  refine (streams_lift _).bind fun selected => ?_
  refine (streams_lift _).bind fun source => ?_
  refine (streams_lift _).bind fun _ => ?_
  refine (streams_lift _).bind fun _ => ?_
  refine (streams_lift _).bind fun groupId => ?_
  refine (streams_lift _).bind fun group => ?_
  refine (streams_lift _).bind fun restore => ?_
  refine .afterStop ?_
  generalize decodeGroup backends file group parsed.codecRegistry limits =
    decoding
  refine (streams_lift _).bind fun decoded => ?_
  refine (streams_lift _).bind fun entryBytes => ?_
  refine (streams_lift _).bind fun _ => ?_
  refine (streams_lift _).bind fun rangeBytes => ?_
  refine (streams_deliver _).bind fun _ => ?_
  exact (streams_lift _).bind fun _ => fun _ => rfl

theorem mimics_unpackEntry
    (parsed : ParsedArchive)
    (staging : Location)
    (entry : EntryRecord) :
    Mimics (unpackEntryFaulty backends file limits parsed staging entry)
      (unpackEntry backends file limits parsed staging entry) := by
  refine mimics_checkpoint.before ?_
  unfold unpackEntry
  cases entry.kind with
  | directory =>
      exact (mimics_lift _).bind fun _ => mimics_faultyIo (mimics_createDirAll _)
  | file groupId =>
      refine (mimics_lift _).bind fun group => ?_
      refine (mimics_lift _).bind fun restore => ?_
      refine (mimics_lift _).bind fun relative => ?_
      refine (mimics_faultyIo (mimics_createDirAll _)).bind fun _ => ?_
      refine (mimics_faultyIo (mimics_exposed _ _)).bind fun inode => ?_
      refine mimics_touch.before (mimics_checkpoint.before ?_)
      generalize decodeGroup backends file group parsed.codecRegistry limits =
        decoding
      refine (mimics_lift _).bind fun decoded => ?_
      refine (mimics_lift _).bind fun bytes => ?_
      refine (mimics_faultyIo (mimics_exposed _ _)).bind fun _ => ?_
      refine (mimics_lift _).bind fun _ => mimics_touch.before ?_
      exact mimics_faultyIo (mimics_exposed _ _)
  | hardlink targetEntryId =>
      refine (mimics_lift _).bind fun target => ?_
      refine (mimics_lift _).bind fun relative => ?_
      refine (mimics_faultyIo (mimics_createDirAll _)).bind fun _ => ?_
      refine (mimics_lift _).bind fun source => ?_
      exact mimics_faultyIo (mimics_exposed _ _)
  | symlink target targetIsDir =>
      refine (mimics_lift _).bind fun _ => ?_
      refine (mimics_lift _).bind fun relative => ?_
      refine (mimics_faultyIo (mimics_createDirAll _)).bind fun _ => ?_
      refine (mimics_lift _).bind fun spelled => ?_
      exact mimics_faultyIo (mimics_exposed _ _)

theorem mimics_createOutputParent (request : UnpackRequest) :
    Mimics (createOutputParentFaulty request) (createOutputParent request) := by
  unfold createOutputParentFaulty createOutputParent
  split
  · exact mimics_pure ()
  · exact mimics_faultyIo (mimics_createDirAll _)

/-- Without faults, unpacking is the unpacking of an undisturbed disk. -/
theorem mimics_unpack (maxTempBytes : UInt64) (request : UnpackRequest) :
    Mimics (unpackFaulty backends file limits maxTempBytes request)
      (unpack backends file limits maxTempBytes request) := by
  have flat : unpack backends file limits maxTempBytes request = (do
      refuseExisting (absolute request.outputDir)
      let parsed ← StateAction.lift (verifyOpenFile backends file limits)
      StateAction.lift (ensure (parsed.report.originalBytes ≤ maxTempBytes)
        (.resourceLimit "unpack temporary bytes"))
      createOutputParent request
      io (Disk.mkdir (absolute request.staging))
      StateAction.cleanupAfter
        (do
          populate backends file limits parsed request.staging
          io (Disk.rename (absolute request.staging)
            (absolute request.outputDir))
          syncParent request)
        (io (Disk.removeDirAll (absolute request.staging)))) := by
    simp only [unpack, prepareStaging, refuseExisting, StateAction.bind_assoc]
    rfl
  rw [flat]
  refine mimics_checkpoint.before ?_
  refine (mimics_refuseExisting _).bind fun _ => ?_
  refine mimics_touch.before (mimics_touch.before (mimics_checkpoint.before ?_))
  refine (mimics_lift _).bind fun parsed => ?_
  refine (mimics_lift _).bind fun _ => ?_
  refine (mimics_createOutputParent request).bind fun _ => ?_
  refine (mimics_faultyIo (mimics_exposed _ _)).bind fun _ => ?_
  refine .cleanupAfter ?_ (mimics_faultyIo (mimics_exposed _ _))
  have each := Mimics.forEach
    (mimics_unpackEntry backends file limits parsed request.staging)
  refine ((each _).bind fun _ => (each _).bind fun _ =>
    (each _).bind fun _ => each _).bind fun _ => ?_
  refine mimics_checkpoint.before ?_
  refine (mimics_faultyIo (mimics_exposed _ _)).bind fun _ => ?_
  exact (mimics_faultyIo (mimics_exposed _ _)).after mimics_touch

theorem undisturbed_durable : durable.Undisturbed where
  commit := fun _ _ => (mimics_atomicCommit _ _).after
    (mimics_touch.before mimics_touch)
  applyMode := fun _ _ => mimics_faultyIo (mimics_exposed _ _)

theorem mimics_extractDurable
    (maxOutputBytes maxTempBytes : UInt64)
    (request : ExtractRequest) :
    Mimics (extractDurable backends file limits maxOutputBytes maxTempBytes
        (absolute request.outputDir) request.entry)
      (extract backends file limits maxOutputBytes maxTempBytes request) :=
  undisturbed_durable.mimics_extract backends file limits maxOutputBytes
    maxTempBytes request

end Undisturbed

end Pithos
