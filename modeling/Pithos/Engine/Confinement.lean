import Pithos.Engine.Extract
import Pithos.Library.DiskFaults

/-!
# Extracting below an output directory

`extractFaulty` extracts one entry on a disk whose operations may fail at any
time, below any output directory.  Whatever stands there, and wherever it stops,
it adds the missing directories of the output directory and of the entry's own
names below it, and one object for the entry when it succeeds.

A fault at a look at the cancellation token is a cancellation.  The operations
after the entry has been published, which make it durable and set its mode, meet
no faults.
-/

namespace Pithos

open Fallible
open FileTree
open HostPath
open Disk
open FaultyDisk

/-! ## Operations -/

/-- An action of the engine on a disk with faults. -/
abbrev FaultyEngine := StateAction FaultyDisk PithosError

/-- An operation on files, as an action of the engine. -/
def faultyIo
    {Value : Type}
    (operation : StateAction FaultyDisk IoErrorKind Value) :
    FaultyEngine Value :=
  StateAction.mapError PithosError.io operation

/-- A look at the cancellation token. -/
def checkpoint : FaultyEngine Unit :=
  StateAction.mapError (fun _ => .cancelled) (exposed [] (pure ()))

/-- An operation that changes no directory: opening and reading the archive, and
making a file durable. -/
def touch : FaultyEngine Unit :=
  faultyIo (exposed [] (pure ()))

/-- What stands at a path, if anything does. -/
def stat (path : List Component) :
    StateAction FaultyDisk IoErrorKind (Option Label) :=
  fun faulty =>
    match exposed path (StateAction.inspect fun disk =>
        disk.symlinkMetadata path) faulty with
    | (.ok label, after) => (.ok (some label), after)
    | (.error .notFound, after) => (.ok none, after)
    | (.error failure, after) => (.error failure, after)

/-- Make a directory above the entry unless it is there.  Anything else that
stands there is refused. -/
def ensureDirectoryFaulty (current : List Component) : FaultyEngine Unit := do
  match ← faultyIo (stat current) with
  | some (.symlink _ _) => StateAction.fail .unsafePath
  | some (.directory _) => pure ()
  | some (.file _) => StateAction.fail (.invalidMetadata "extract parent")
  | none => faultyIo (FaultyDisk.mkdir current)

/-- Make the directories of a relative path below a directory. -/
def ensureDirectoriesFaulty (current : List Component) :
    List Component → FaultyEngine Unit
  | [] => pure ()
  | component :: rest => do
      ensureDirectoryFaulty (current ++ [component])
      ensureDirectoriesFaulty (current ++ [component]) rest

/-- Make the directories above an entry, without walking through a link below
the output directory. -/
def prepareExtractParentFaulty
    (outputRoot : List Component)
    (archivePath : ArchivePath) : FaultyEngine Unit := do
  faultyIo (FaultyDisk.createDirAll outputRoot)
  let root ← faultyIo (exposed outputRoot (StateAction.inspect fun disk =>
    disk.symlinkMetadata outputRoot))
  StateAction.lift (ensure (root.isSymlink = false) .unsafePath)
  let relative ← StateAction.lift archivePath.toPathBuf
  ensureDirectoriesFaulty outputRoot (HostPath.components relative).dropLast

/-- Make sure that nothing stands at a path. -/
def refuseExistingFaulty (path : List Component) : FaultyEngine Unit := do
  let found ← faultyIo (stat path)
  StateAction.lift (ensure (found.isSome = false) .outputExists)

/-- A spool in a directory. -/
def createAtomicSpoolFaulty (destDir : List Component) : FaultyEngine Nat := do
  faultyIo (FaultyDisk.createDirAll destDir)
  faultyIo (exposed destDir createSpool)

/-- Publish a spool at a path where nothing stands. -/
def atomicCommitFaulty (spool : Nat) (targetPath : List Component) :
    FaultyEngine Unit := do
  faultyIo (FaultyDisk.createDirAll targetPath.dropLast)
  touch
  StateAction.mapError (fun failure =>
    if failure = .alreadyExists then .outputExists else .io failure)
    (exposed targetPath (publish spool targetPath))

/-- Set the mode of a published file. -/
def applyFileMode (path : List Component) (mode : UInt32) :
    FaultyEngine Unit :=
  fun faulty =>
    ((io (setPermissions path mode) faulty.disk).1,
      { faulty with disk := (io (setPermissions path mode) faulty.disk).2 })

/-- How a file is published: how its spool comes to stand at its path, and how it
gets its mode. -/
structure Publication where
  commit : Nat → List Component → FaultyEngine Unit
  applyMode : List Component → UInt32 → FaultyEngine Unit

/-- Extract a file or hardlink entry. -/
def extractFileWith
    (publication : Publication)
    (backends : Backends)
    (file : List UInt8)
    (limits : DecodeLimits)
    (maxOutputBytes maxTempBytes : UInt64)
    (outputDir : List Component)
    (parsed : ParsedArchive)
    (entry : EntryRecord)
    (relative : Path) : FaultyEngine ExtractReport := do
  let source ← StateAction.lift (fileSourceEntry entry parsed.entries)
  let groupId ← StateAction.lift (okOr source.kind.groupId?
    (.invalidMetadata "file source"))
  let group ← StateAction.lift (okOr parsed.groups[groupId.toNat]?
    (.invalidMetadata "entry group"))
  let restore ← StateAction.lift (restoreForEntry parsed.restoreMap source.entryId)
  StateAction.lift (ensure (source.size ≤ maxOutputBytes)
    (.resourceLimit "extract output bytes"))
  StateAction.lift (ensure (group.group.compressedLen ≤ maxTempBytes)
    (.resourceLimit "extract temporary bytes"))
  prepareExtractParentFaulty outputDir entry.path
  refuseExistingFaulty (outputDir ++ lookupComponents relative)
  let spool ← createAtomicSpoolFaulty
    (outputDir ++ lookupComponents relative).dropLast
  touch
  checkpoint
  let decoded ← StateAction.lift
    (decodeGroup backends file group parsed.codecRegistry limits)
  let bytes ← StateAction.lift (restoredSlice decoded restore 0 restore.length)
  faultyIo (exposed [] (writeAll spool bytes))
  StateAction.lift (ensure (backends.digests.blake3 bytes = source.blake3)
    .hashMismatch)
  checkpoint
  publication.commit spool (outputDir ++ lookupComponents relative)
  publication.applyMode (outputDir ++ lookupComponents relative) entry.mode
  pure (extractReport entry source.size)

/-- Extract one entry. -/
def extractWith
    (publication : Publication)
    (backends : Backends)
    (file : List UInt8)
    (limits : DecodeLimits)
    (maxOutputBytes maxTempBytes : UInt64)
    (outputDir : List Component)
    (requested : Path) : FaultyEngine ExtractReport := do
  checkpoint
  let selector ← StateAction.lift (ArchivePath.fromRelative requested)
  touch
  checkpoint
  let parsed ← StateAction.lift (readCatalog backends file limits)
  let entry ← StateAction.lift (selectEntry parsed.entries selector)
  let relative ← StateAction.lift entry.path.toPathBuf
  match entry.kind with
  | .directory => do
      checkpoint
      prepareExtractParentFaulty outputDir entry.path
      refuseExistingFaulty (outputDir ++ lookupComponents relative)
      faultyIo (FaultyDisk.createDirAll (outputDir ++ lookupComponents relative))
      pure (extractReport entry 0)
  | .symlink target _ => do
      checkpoint
      prepareExtractParentFaulty outputDir entry.path
      refuseExistingFaulty (outputDir ++ lookupComponents relative)
      StateAction.lift (ensure (target.resolvesWithin entry.path) .unsafeSymlink)
      let spelled ← StateAction.lift target.toPathBuf
      faultyIo (exposed (outputDir ++ lookupComponents relative)
        (symlink spelled (outputDir ++ lookupComponents relative)))
      pure (extractReport entry entry.size)
  | .file _ | .hardlink _ =>
      extractFileWith publication backends file limits maxOutputBytes
        maxTempBytes outputDir parsed entry relative

/-- Publish a file up to where it stands at its path with its mode. -/
def placing : Publication :=
  ⟨atomicCommitFaulty, applyFileMode⟩

/-- Extract one entry, up to where it stands at its path with its mode. -/
def extractFaulty
    (backends : Backends)
    (file : List UInt8)
    (limits : DecodeLimits)
    (maxOutputBytes maxTempBytes : UInt64)
    (outputDir : List Component)
    (requested : Path) : FaultyEngine ExtractReport :=
  extractWith placing backends file limits maxOutputBytes maxTempBytes outputDir
    requested

/-! ## Without faults -/

section WithoutFaults

theorem mimics_checkpoint : Mimics checkpoint (pure ()) :=
  fun disk uses => ⟨uses ++ [⟨disk, []⟩], rfl⟩

theorem mimics_touch : Mimics touch (pure ()) :=
  fun disk uses => ⟨uses ++ [⟨disk, []⟩], rfl⟩

theorem mimics_faultyIo
    {Value : Type}
    {faulty : StateAction FaultyDisk IoErrorKind Value}
    {plain : StateAction Disk IoErrorKind Value}
    (mimics : Mimics faulty plain) :
    Mimics (faultyIo faulty) (io plain) :=
  mimics.mapError PithosError.io

/-- What stands at a path, on a disk without faults. -/
def plainStat (path : List Component) :
    StateAction Disk IoErrorKind (Option Label) :=
  StateAction.inspect fun disk =>
    match disk.symlinkMetadata path with
    | .ok label => .ok (some label)
    | .error .notFound => .ok none
    | .error failure => .error failure

theorem mimics_stat (path : List Component) :
    Mimics (stat path) (plainStat path) := by
  intro disk uses
  refine ⟨uses ++ [⟨disk, path⟩], ?_⟩
  have looked : exposed path (StateAction.inspect fun disk =>
      disk.symlinkMetadata path) ⟨disk, [], uses⟩ =
        (disk.symlinkMetadata path, ⟨disk, [], uses ++ [⟨disk, path⟩]⟩) :=
    rfl
  unfold stat plainStat
  rw [looked]
  unfold StateAction.inspect
  dsimp only
  cases disk.symlinkMetadata path with
  | ok label => rfl
  | error failure => cases failure <;> rfl

section PlainStat

variable
  {path : List Component}
  {disk : Disk}

theorem io_plainStat_of_ok
    {label : Label}
    (found : disk.symlinkMetadata path = .ok label) :
    io (plainStat path) disk = (.ok (some label), disk) := by
  simp [io, plainStat, StateAction.mapError, StateAction.inspect, found]

theorem io_plainStat_of_missing
    (found : disk.symlinkMetadata path = .error .notFound) :
    io (plainStat path) disk = (.ok none, disk) := by
  simp [io, plainStat, StateAction.mapError, StateAction.inspect, found]

theorem io_plainStat_of_error
    {failure : IoErrorKind}
    (found : disk.symlinkMetadata path = .error failure)
    (other : failure ≠ .notFound) :
    io (plainStat path) disk = (.error (.io failure), disk) := by
  cases failure <;>
    simp_all [io, plainStat, StateAction.mapError, StateAction.inspect]

end PlainStat

theorem mimics_ensureDirectory (current : List Component) :
    Mimics (ensureDirectoryFaulty current) (ensureDirectory current) := by
  have plain : ensureDirectory current = (do
      match ← io (plainStat current) with
      | some (.symlink _ _) => StateAction.fail .unsafePath
      | some (.directory _) => pure ()
      | some (.file _) =>
          StateAction.fail (.invalidMetadata "extract parent")
      | none => io (Disk.mkdir current)) := by
    funext disk
    cases found : disk.symlinkMetadata current with
    | ok label =>
        rw [StateAction.bind_of_ok (io_plainStat_of_ok found)]
        cases label <;> simp only [ensureDirectory, found] <;> rfl
    | error failure =>
        by_cases missing : failure = .notFound
        · subst missing
          rw [StateAction.bind_of_ok (io_plainStat_of_missing found)]
          simp only [ensureDirectory, found]
        · rw [StateAction.bind_of_error (io_plainStat_of_error found missing)]
          cases failure <;> simp_all [ensureDirectory]
  rw [plain]
  refine (mimics_faultyIo (mimics_stat current)).bind fun found => ?_
  rcases found with _ | label
  · exact mimics_faultyIo (mimics_exposed _ _)
  · cases label with
    | symlink _ _ => exact mimics_lift _
    | directory _ => exact mimics_pure ()
    | file _ => exact mimics_lift _

theorem mimics_ensureDirectories
    (current components : List Component) :
    Mimics (ensureDirectoriesFaulty current components)
      (ensureDirectories current components) := by
  induction components generalizing current with
  | nil => exact mimics_pure ()
  | cons component rest inductionHypothesis =>
      exact (mimics_ensureDirectory _).bind fun _ => inductionHypothesis _

theorem mimics_prepareExtractParent
    (outputRoot : Location)
    (path : ArchivePath) :
    Mimics (prepareExtractParentFaulty (absolute outputRoot) path)
      (prepareExtractParent outputRoot path) := by
  refine (mimics_faultyIo (mimics_createDirAll _)).bind fun _ => ?_
  refine (mimics_faultyIo (mimics_exposed _ _)).bind fun root => ?_
  refine (mimics_lift _).bind fun _ => ?_
  exact (mimics_lift _).bind fun relative => mimics_ensureDirectories _ _

theorem mimics_refuseExisting (path : List Component) :
    Mimics (refuseExistingFaulty path) (refuseExisting path) := by
  have plain : refuseExisting path = (do
      let found ← io (plainStat path)
      StateAction.lift (ensure (found.isSome = false) .outputExists)) := by
    funext disk
    unfold refuseExisting
    cases found : disk.symlinkMetadata path with
    | ok label =>
        have present : pathEntryExists path disk = (.ok true, disk) := by
          simp [pathEntryExists, StateAction.inspect, found]
        rw [StateAction.bind_of_ok (io_plainStat_of_ok found),
          StateAction.bind_of_ok present]
        rfl
    | error failure =>
        by_cases missing : failure = .notFound
        · subst missing
          have absent : pathEntryExists path disk = (.ok false, disk) := by
            simp [pathEntryExists, StateAction.inspect, found]
          rw [StateAction.bind_of_ok (io_plainStat_of_missing found),
            StateAction.bind_of_ok absent]
          rfl
        · have failed : pathEntryExists path disk =
              (.error (.io failure), disk) := by
            cases failure <;>
              simp_all [pathEntryExists, StateAction.inspect]
          rw [StateAction.bind_of_error (io_plainStat_of_error found missing),
            StateAction.bind_of_error failed]
  rw [plain]
  exact (mimics_faultyIo (mimics_stat path)).bind fun found => mimics_lift _

theorem mimics_atomicCommit (spool : Nat) (path : List Component) :
    Mimics (atomicCommitFaulty spool path) (atomicCommit spool path) := by
  refine (mimics_faultyIo (mimics_createDirAll _)).bind fun _ => ?_
  refine mimics_touch.before ?_
  exact (mimics_exposed _ _).mapError _

theorem mimics_applyFileMode (path : List Component) (mode : UInt32) :
    Mimics (applyFileMode path mode) (io (setPermissions path mode)) :=
  fun _ uses => ⟨uses, rfl⟩

/-- A publication that does, without faults, what the engine does. -/
structure Publication.Undisturbed (publication : Publication) : Prop where
  commit : ∀ spool path, Mimics (publication.commit spool path)
    (atomicCommit spool path)
  applyMode : ∀ path mode, Mimics (publication.applyMode path mode)
    (io (setPermissions path mode))

theorem Publication.Undisturbed.mimics_extractFile
    {publication : Publication}
    (undisturbed : publication.Undisturbed)
    (backends : Backends)
    (file : List UInt8)
    (limits : DecodeLimits)
    (maxOutputBytes maxTempBytes : UInt64)
    (outputDir : Location)
    (parsed : ParsedArchive)
    (entry : EntryRecord)
    (relative : Path) :
    Mimics (extractFileWith publication backends file limits maxOutputBytes
        maxTempBytes (absolute outputDir) parsed entry relative)
      (extractFile backends file limits maxOutputBytes maxTempBytes outputDir
        parsed entry relative) := by
  unfold extractFileWith extractFile
  refine (mimics_lift _).bind fun source => ?_
  refine (mimics_lift _).bind fun groupId => ?_
  refine (mimics_lift _).bind fun group => ?_
  refine (mimics_lift _).bind fun restore => ?_
  refine (mimics_lift _).bind fun _ => ?_
  refine (mimics_lift _).bind fun _ => ?_
  refine (mimics_prepareExtractParent _ _).bind fun _ => ?_
  refine (mimics_refuseExisting _).bind fun _ => ?_
  refine ((mimics_faultyIo (mimics_createDirAll _)).bind fun _ =>
    mimics_faultyIo (mimics_exposed _ _)).bind fun spool => ?_
  refine mimics_touch.before ?_
  refine mimics_checkpoint.before ?_
  generalize decodeGroup backends file group parsed.codecRegistry limits =
    decoding
  refine (mimics_lift _).bind fun decoded => ?_
  refine (mimics_lift _).bind fun bytes => ?_
  refine (mimics_faultyIo (mimics_exposed _ _)).bind fun _ => ?_
  refine (mimics_lift _).bind fun _ => ?_
  refine mimics_checkpoint.before ?_
  refine (undisturbed.commit _ _).bind fun _ => ?_
  refine (undisturbed.applyMode _ _).bind fun _ => ?_
  exact mimics_pure _

/-- Without faults, extraction is the extraction of an undisturbed disk. -/
theorem Publication.Undisturbed.mimics_extract
    {publication : Publication}
    (undisturbed : publication.Undisturbed)
    (backends : Backends)
    (file : List UInt8)
    (limits : DecodeLimits)
    (maxOutputBytes maxTempBytes : UInt64)
    (request : ExtractRequest) :
    Mimics (extractWith publication backends file limits maxOutputBytes
        maxTempBytes (absolute request.outputDir) request.entry)
      (extract backends file limits maxOutputBytes maxTempBytes request) := by
  refine mimics_checkpoint.before ?_
  refine (mimics_lift _).bind fun selector => ?_
  refine mimics_touch.before ?_
  refine mimics_checkpoint.before ?_
  refine (mimics_lift _).bind fun parsed => ?_
  refine (mimics_lift _).bind fun entry => ?_
  refine (mimics_lift _).bind fun relative => ?_
  cases entry.kind with
  | directory =>
      refine mimics_checkpoint.before ?_
      refine (mimics_prepareExtractParent _ _).bind fun _ => ?_
      refine (mimics_refuseExisting _).bind fun _ => ?_
      refine (mimics_faultyIo (mimics_createDirAll _)).bind fun _ => ?_
      exact mimics_pure _
  | symlink target targetIsDir =>
      refine mimics_checkpoint.before ?_
      refine (mimics_prepareExtractParent _ _).bind fun _ => ?_
      refine (mimics_refuseExisting _).bind fun _ => ?_
      refine (mimics_lift _).bind fun _ => ?_
      refine (mimics_lift _).bind fun spelled => ?_
      refine (mimics_faultyIo (mimics_exposed _ _)).bind fun _ => ?_
      exact mimics_pure _
  | file groupId => exact undisturbed.mimics_extractFile _ _ _ _ _ _ _ _ _
  | hardlink targetEntryId =>
      exact undisturbed.mimics_extractFile _ _ _ _ _ _ _ _ _

theorem undisturbed_placing : placing.Undisturbed :=
  ⟨mimics_atomicCommit, mimics_applyFileMode⟩

theorem mimics_extract
    (backends : Backends)
    (file : List UInt8)
    (limits : DecodeLimits)
    (maxOutputBytes maxTempBytes : UInt64)
    (request : ExtractRequest) :
    Mimics (extractFaulty backends file limits maxOutputBytes maxTempBytes
        (absolute request.outputDir) request.entry)
      (extract backends file limits maxOutputBytes maxTempBytes request) :=
  undisturbed_placing.mimics_extract backends file limits maxOutputBytes
    maxTempBytes request

end WithoutFaults

/-! ## Containment -/

/-- No link stood among the names of an entry above what an operation used. -/
def Unlinked
    (outputDir : List Component)
    (names : List Name)
    (use : Use) : Prop :=
  ∀ count base, count ≤ names.length →
    use.path = outputDir ++ (names.take count).map .normal →
    use.disk.resolve outputDir = .ok base →
    ∀ above, 0 < above → above < count → ∀ metadata target,
      use.disk.look (base ++ names.take above) ≠
        some (.symlink metadata target)

/-- What extracting an entry may do: what stood stays, and what is new are
directories to which a beginning of the output directory leads, directories of
the entry's names below it, and the entry itself if it was extracted. -/
structure ExtractContained
    (start : Disk)
    (outputDir : List Component)
    (names : List Name)
    (extracted : Prop)
    (faulty : FaultyDisk) : Prop where
  kept : Kept start faulty.disk
  added : ∀ location label, start.look location = none →
    faulty.disk.look location = some label →
    (label = .directory newDirectory ∧ ∃ count, count ≤ outputDir.length ∧
      faulty.disk.resolve (outputDir.take count) = .ok location) ∨
    ∃ base, faulty.disk.resolve outputDir = .ok base ∧
      ((label = .directory newDirectory ∧
        ∃ count, count < names.length ∧ location = base ++ names.take count) ∨
        extracted ∧ location = base ++ names)
  uses : ∀ use ∈ faulty.uses, Unlinked outputDir names use

/-- Without the entry, only the output directory's own path can have led to
where the entry belongs. -/
theorem ExtractContained.unpublished
    {start : Disk}
    {outputDir : List Component}
    {names : List Name}
    {faulty : FaultyDisk}
    (contained : ExtractContained start outputDir names False faulty)
    {base : Location}
    {label : Label}
    (resolved : faulty.disk.resolve outputDir = .ok base)
    (absent : start.look (base ++ names) = none)
    (isNew : faulty.disk.look (base ++ names) = some label) :
    ∃ count, count ≤ outputDir.length ∧
      faulty.disk.resolve (outputDir.take count) = .ok (base ++ names) := by
  obtain ⟨_, leads⟩ | ⟨other, root, ⟨_, count, within, same⟩ | ⟨impossible, _⟩⟩ :=
    contained.added _ _ absent isNew
  · exact leads
  · rw [resolved, Except.ok.injEq] at root
    subst root
    have lengths := congrArg List.length (List.append_cancel_left same)
    rw [List.length_take] at lengths
    omega
  · exact impossible.elim

/-- How extracting an entry may end.  When it fails, nothing new stands where the
entry belongs, unless the output directory's own path leads there. -/
def ExtractConfined
    (start : Disk)
    (outputDir : List Component)
    (names : List Name) : Result ExtractReport × FaultyDisk → Prop
  | (.ok _, after) => ExtractContained start outputDir names True after
  | (.error _, after) =>
      ExtractContained start outputDir names False after ∧
      ∀ base label, after.disk.resolve outputDir = .ok base →
        start.look (base ++ names) = none →
        after.disk.look (base ++ names) = some label →
        ∃ count, count ≤ outputDir.length ∧
          after.disk.resolve (outputDir.take count) = .ok (base ++ names)

/-- The directories above an entry, as far as they have been made. -/
structure Confined
    (start : Disk)
    (outputDir : List Component)
    (names : List Name)
    (base : Location)
    (depth : Nat)
    (faulty : FaultyDisk) : Prop where
  kept : Kept start faulty.disk
  within : depth < names.length
  root : faulty.disk.resolve outputDir = .ok base
  plain : hasNul ((names.take depth).map .normal) = false
  chain : ∀ count, count ≤ depth → ∃ metadata,
    faulty.disk.look (base ++ names.take count) = some (.directory metadata)
  added : ∀ location label, start.look location = none →
    faulty.disk.look location = some label →
    label = .directory newDirectory ∧
      ((∃ count, count ≤ outputDir.length ∧
        faulty.disk.resolve (outputDir.take count) = .ok location) ∨
      ∃ count, count ≤ depth ∧ location = base ++ names.take count)
  uses : ∀ use ∈ faulty.uses, Unlinked outputDir names use

section Steps

variable
  {start : Disk}
  {outputDir : List Component}
  {names : List Name}
  {base : Location}
  {depth : Nat}
  {faulty : FaultyDisk}

/-- The path to some of the names below the output directory. -/
def pathTo (outputDir : List Component) (names : List Name) (count : Nat) :
    List Component :=
  outputDir ++ (names.take count).map .normal

theorem pathTo_inj
    {one other : Nat}
    (oneWithin : one ≤ names.length)
    (otherWithin : other ≤ names.length)
    (same : pathTo outputDir names one = pathTo outputDir names other) :
    one = other := by
  have lengths := congrArg List.length (List.append_cancel_left same)
  simp only [List.length_map, List.length_take] at lengths
  omega

theorem pathTo_succ
    (outputDir : List Component)
    {count : Nat}
    (within : count < names.length) :
    pathTo outputDir names (count + 1) =
      pathTo outputDir names count ++ [.normal names[count]] := by
  rw [pathTo, pathTo, List.take_succ_eq_append_getElem within, List.map_append,
    List.append_assoc]
  rfl

/-- Names that have been made lead to themselves. -/
theorem Confined.leads
    (confined : Confined start outputDir names base depth faulty)
    {count : Nat}
    (within : count ≤ depth) :
    faulty.disk.resolve (pathTo outputDir names count) =
      .ok (base ++ names.take count) := by
  have inside := confined.within
  induction count with
  | zero =>
      simp only [pathTo, List.take_zero, List.map_nil, List.append_nil]
      exact confined.root
  | succ count inductionHypothesis =>
      have before := inductionHypothesis (by omega)
      obtain ⟨metadata, found⟩ := confined.chain (count + 1) within
      have split : names.take (count + 1) =
          names.take count ++ [names[count]] :=
        List.take_succ_eq_append_getElem (by omega)
      have plain : hasNul [Component.normal names[count]] = false := by
        have all := confined.plain
        rw [hasNul, List.any_eq_false] at all ⊢
        intro component member
        rw [List.mem_singleton.mp member]
        refine all _ (List.mem_map.mpr ⟨names[count], ?_, rfl⟩)
        rw [List.mem_take_iff_getElem]
        exact ⟨count, by omega, rfl⟩
      rw [pathTo_succ outputDir (by omega), split, ← List.append_assoc]
      rw [split, ← List.append_assoc] at found
      exact resolve_entry before (confined.chain count (by omega)) plain found
        rfl

/-- The next name stands where it says. -/
theorem Confined.resolveLast
    (confined : Confined start outputDir names base depth faulty)
    {disk : Disk}
    (kept : Kept faulty.disk disk)
    {count : Nat}
    (within : count ≤ depth)
    {location : Location}
    (resolved : disk.resolveLast (pathTo outputDir names (count + 1)) =
      .ok location) :
    location = base ++ names.take (count + 1) ∧
      hasNul ((names.take (count + 1)).map .normal) = false := by
  have inside := confined.within
  have split : names.take (count + 1) = names.take count ++ [names[count]] :=
    List.take_succ_eq_append_getElem (by omega)
  have plain : hasNul ((names.take count).map Component.normal) = false := by
    have all := confined.plain
    rw [hasNul, List.any_eq_false] at all ⊢
    intro component member
    refine all component ?_
    rw [List.mem_map] at member ⊢
    obtain ⟨name, isName, same⟩ := member
    exact ⟨name, (List.take_prefix_take_left within).subset isName, same⟩
  obtain ⟨metadata, isDirectory⟩ := confined.chain count within
  rw [pathTo_succ outputDir (by omega), resolveLast_entry
    (kept.resolve (confined.leads within))
    ⟨metadata, kept.look _ _ isDirectory⟩] at resolved
  split at resolved
  · rename_i last
    cases resolved
    rw [split, List.append_assoc, List.map_append, hasNul_append, plain]
    exact ⟨rfl, last⟩
  · cases resolved

/-- A use at most one name below the directories. -/
theorem Confined.unlinked
    (confined : Confined start outputDir names base depth faulty)
    {disk : Disk}
    (kept : Kept faulty.disk disk)
    {path : List Component}
    (shallow : ∀ count, count ≤ names.length →
      path = pathTo outputDir names count → count ≤ depth + 1) :
    Unlinked outputDir names ⟨disk, path⟩ := by
  intro count other within isPath resolved above _ isAbove metadata target
    isLink
  have small := shallow count within isPath
  have same : other = base := by
    have found := kept.resolve confined.root
    rw [resolved] at found
    cases found
    rfl
  obtain ⟨others, found⟩ := confined.chain above (by omega)
  rw [same, kept.look _ _ found] at isLink
  cases isLink

/-- An operation that only looks. -/
theorem Confined.used
    (confined : Confined start outputDir names base depth faulty)
    {path : List Component}
    (shallow : ∀ count, count ≤ names.length →
      path = pathTo outputDir names count → count ≤ depth + 1) :
    Confined start outputDir names base depth (faulty.used path) := by
  refine ⟨confined.kept, confined.within, confined.root, confined.plain,
    confined.chain, confined.added, ?_⟩
  intro use isUse
  rcases List.mem_append.mp isUse with isUse | isNew
  · exact confined.uses use isUse
  · rw [List.mem_singleton.mp isNew]
    exact confined.unlinked (.refl _) shallow

/-- The names next below the directories are not deeper. -/
theorem shallow_pathTo
    {count : Nat}
    (within : count ≤ names.length)
    (le : count ≤ depth + 1) :
    ∀ other, other ≤ names.length →
      pathTo outputDir names count = pathTo outputDir names other →
      other ≤ depth + 1 := by
  intro other otherWithin same
  rwa [← pathTo_inj within otherWithin same]

/-- Directories above an entry are within what may be done. -/
theorem Confined.contained
    (confined : Confined start outputDir names base depth faulty)
    (extracted : Prop) :
    ExtractContained start outputDir names extracted faulty := by
  refine ⟨confined.kept, ?_, confined.uses⟩
  intro location label absent found
  obtain ⟨isNew, leads | ⟨count, within, same⟩⟩ :=
    confined.added location label absent found
  · exact .inl ⟨isNew, leads⟩
  · exact .inr ⟨base, confined.root, .inl ⟨isNew, count,
      Nat.lt_of_le_of_lt within confined.within, same⟩⟩

/-- Where the paths above the directories lead. -/
theorem Confined.ledTo
    (confined : Confined start outputDir names base depth faulty)
    {disk : Disk}
    (kept : Kept faulty.disk disk)
    {count beginning : Nat}
    {location : Location}
    (inside : beginning ≤ outputDir.length + depth)
    (leads : disk.resolve ((pathTo outputDir names count).take beginning) =
      .ok location) :
    (∃ beginning, beginning ≤ outputDir.length ∧
      disk.resolve (outputDir.take beginning) = .ok location) ∨
    ∃ count, count ≤ depth ∧ location = base ++ names.take count := by
  by_cases above : beginning ≤ outputDir.length
  · refine .inl ⟨beginning, above, ?_⟩
    rwa [pathTo, List.take_append_of_le_length above] at leads
  · have isPath : (pathTo outputDir names count).take beginning =
        pathTo outputDir names (min (beginning - outputDir.length) count) := by
      rw [pathTo, List.take_append, List.take_of_length_le (by omega),
        ← List.map_take, List.take_take, pathTo]
    have small : min (beginning - outputDir.length) count ≤ depth := by omega
    have expected := kept.resolve (confined.leads small)
    rw [isPath, expected, Except.ok.injEq] at leads
    exact .inr ⟨_, small, leads.symm⟩

theorem Confined.alongUses
    (confined : Confined start outputDir names base depth faulty)
    {count limit : Nat}
    (shallow : count ≤ depth + 1)
    {after : FaultyDisk}
    (along : Along faulty (pathTo outputDir names count) limit after) :
    ∀ use ∈ after.uses, Unlinked outputDir names use := by
  intro use isUse
  rcases along.uses use isUse with old | ⟨kept, beginning, _, isPath⟩
  · exact confined.uses use old
  · refine confined.unlinked kept ?_
    intro other within same
    have lengths := congrArg List.length (isPath.symm.trans same)
    simp only [pathTo, List.length_take, List.length_append,
      List.length_map] at lengths
    omega

/-- Making directories along the path of an entry adds nothing else. -/
theorem Confined.along
    (confined : Confined start outputDir names base depth faulty)
    {count limit : Nat}
    (shallow : count ≤ depth + 1)
    (inside : limit ≤ outputDir.length + depth)
    {after : FaultyDisk}
    (along : Along faulty (pathTo outputDir names count) limit after) :
    Confined start outputDir names base depth after := by
  refine ⟨confined.kept.trans along.kept, confined.within,
    along.kept.resolve confined.root, confined.plain, ?_, ?_,
    confined.alongUses shallow along⟩
  · intro other within
    obtain ⟨metadata, found⟩ := confined.chain other within
    exact ⟨metadata, along.kept.look _ _ found⟩
  · intro location label absent found
    cases earlier : faulty.disk.look location with
    | some old =>
        have same := along.kept.look _ _ earlier
        rw [found, Option.some.injEq] at same
        subst same
        obtain ⟨isNew, ⟨beginning, within, leads⟩ | below⟩ :=
          confined.added location label absent earlier
        · exact ⟨isNew, .inl ⟨beginning, within, along.kept.resolve leads⟩⟩
        · exact ⟨isNew, .inr below⟩
    | none =>
        obtain ⟨isNew, beginning, within, leads, _⟩ :=
          along.added location label earlier found
        exact ⟨isNew, confined.ledTo along.kept (by omega) leads⟩

/-- The rule for a look at a path. -/
theorem stat_triple
    {path : List Component}
    {before : FaultyDisk → Prop}
    {success : Option Label → FaultyDisk → Prop}
    {failed : IoErrorKind → FaultyDisk → Prop}
    (stands : ∀ faulty label, before faulty →
      faulty.disk.symlinkMetadata path = .ok label →
      success (some label) (faulty.used path))
    (missing : ∀ faulty, before faulty → success none (faulty.used path))
    (fails : ∀ faulty failure, before faulty →
      failed failure (faulty.used path)) :
    StateAction.Triple before (stat path) success failed := by
  have looks : StateAction.Triple before
      (exposed path (StateAction.inspect fun disk => disk.symlinkMetadata path))
      (fun label => success (some label))
      (fun failure after => failed failure after ∧ success none after) := by
    refine exposed_triple ?_ ?_ ?_
    · intro faulty label after isBefore looked
      obtain ⟨found, rfl⟩ := Prod.mk.inj looked
      exact stands faulty label isBefore found
    · intro faulty failure after isBefore looked
      obtain ⟨_, rfl⟩ := Prod.mk.inj looked
      exact ⟨fails faulty failure isBefore, missing faulty isBefore⟩
    · exact fun faulty failure isBefore =>
        ⟨fails faulty failure isBefore, missing faulty isBefore⟩
  intro faulty isBefore
  have result := looks faulty isBefore
  unfold stat
  generalize exposed path (StateAction.inspect fun disk =>
    disk.symlinkMetadata path) faulty = ran at result
  obtain ⟨looked, after⟩ := ran
  cases looked with
  | ok label => exact result
  | error failure =>
      cases failure with
      | notFound => exact result.2
      | _ => exact result.1

/-- What stands at a path that ends with a name. -/
theorem resolveLast_of_symlinkMetadata
    {disk : Disk}
    {front : List Component}
    {name : Name}
    {label : Label}
    (stands : disk.symlinkMetadata (front ++ [.normal name]) = .ok label) :
    ∃ location, disk.resolveLast (front ++ [.normal name]) = .ok location ∧
      disk.look location = some label := by
  simp only [symlinkMetadata, resolveNoFollow, List.getLast?_concat,
    bind_eq_ok, okOr_eq_ok] at stands
  exact stands

/-- One more directory of an entry. -/
theorem Confined.succ
    (confined : Confined start outputDir names base depth faulty)
    (within : depth + 1 < names.length)
    {after : FaultyDisk}
    (kept : Kept faulty.disk after.disk)
    (plain : hasNul ((names.take (depth + 1)).map .normal) = false)
    (isDirectory : ∃ metadata, after.disk.look
      (base ++ names.take (depth + 1)) = some (.directory metadata))
    (added : ∀ location label, faulty.disk.look location = none →
      after.disk.look location = some label →
      label = .directory newDirectory ∧
        location = base ++ names.take (depth + 1))
    (uses : ∀ use ∈ after.uses, Unlinked outputDir names use) :
    Confined start outputDir names base (depth + 1) after := by
  refine ⟨confined.kept.trans kept, within, kept.resolve confined.root, plain,
    ?_, ?_, uses⟩
  · intro count le
    rcases Nat.le_succ_iff.mp le with le | rfl
    · obtain ⟨metadata, found⟩ := confined.chain count le
      exact ⟨metadata, kept.look _ _ found⟩
    · exact isDirectory
  · intro location label absent found
    cases earlier : faulty.disk.look location with
    | some old =>
        have same := kept.look _ _ earlier
        rw [found, Option.some.injEq] at same
        subst same
        obtain ⟨isNew, ⟨beginning, inside, leads⟩ | ⟨count, le, same⟩⟩ :=
          confined.added location label absent earlier
        · exact ⟨isNew, .inl ⟨beginning, inside, kept.resolve leads⟩⟩
        · exact ⟨isNew, .inr ⟨count, by omega, same⟩⟩
    | none =>
        obtain ⟨isNew, same⟩ := added location label earlier found
        exact ⟨isNew, .inr ⟨depth + 1, Nat.le_refl _, same⟩⟩

theorem ensureDirectory_confined
    (within : depth + 1 < names.length) :
    StateAction.Triple (Confined start outputDir names base depth)
      (ensureDirectoryFaulty (pathTo outputDir names (depth + 1)))
      (fun _ => Confined start outputDir names base (depth + 1))
      (fun _ => ExtractContained start outputDir names False) := by
  have shallow := @shallow_pathTo outputDir names depth (depth + 1)
    (Nat.le_of_lt within) (Nat.le_refl _)
  have middle : StateAction.Triple
      (Confined start outputDir names base depth)
      (faultyIo (stat (pathTo outputDir names (depth + 1))))
      (fun found after => Confined start outputDir names base depth after ∧
        ∀ metadata, found = some (.directory metadata) →
          Confined start outputDir names base (depth + 1) after)
      (fun _ => ExtractContained start outputDir names False) := by
    refine StateAction.Triple.mapError (stat_triple ?_ ?_ ?_)
    · intro faulty label confined stands
      have used := confined.used shallow
      refine ⟨used, ?_⟩
      rintro metadata ⟨⟩
      rw [pathTo_succ outputDir (by omega)] at stands
      obtain ⟨location, resolved, found⟩ :=
        resolveLast_of_symlinkMetadata stands
      rw [← pathTo_succ] at resolved
      obtain ⟨rfl, plain⟩ := confined.resolveLast (.refl _) (Nat.le_refl _) resolved
      refine used.succ within (.refl _) plain ⟨metadata, found⟩ ?_ used.uses
      intro location label absent found
      rw [absent] at found
      cases found
    · exact fun faulty confined => ⟨confined.used shallow, nofun⟩
    · exact fun faulty failure confined =>
        (confined.used shallow).contained False
  refine StateAction.Triple.bind middle fun found => ?_
  match found with
  | some (.symlink metadata target) =>
      exact fun after both => both.1.contained False
  | some (.file inode) => exact fun after both => both.1.contained False
  | some (.directory metadata) =>
      exact StateAction.Triple.pure fun after both => both.2 metadata rfl
  | none =>
      refine StateAction.Triple.mapError (exposed_triple ?_ ?_ ?_)
      · rintro faulty value after ⟨confined, _⟩ made
        have keeps := keeps_mkdir (pathTo outputDir names (depth + 1))
          faulty.disk
        rw [made] at keeps
        obtain ⟨location, resolved, _, added, _⟩ := mkdir_eq_ok made
        obtain ⟨rfl, plain⟩ := confined.resolveLast (.refl _) (Nat.le_refl _) resolved
        refine confined.succ within keeps plain ⟨newDirectory, ?_⟩ ?_
          (confined.used shallow).uses
        · rw [added.look, if_pos rfl]
        · intro location label absent found
          dsimp only at found
          rw [added.look] at found
          split at found
          · rename_i same
            cases found
            exact ⟨rfl, same⟩
          · rw [absent] at found
            cases found
      · rintro faulty failure after ⟨confined, _⟩ failed
        rw [StateAction.eq_of_attempt_eq_error failed]
        exact (confined.used shallow).contained False
      · exact fun faulty failure both =>
          (both.1.used shallow).contained False

/-- The directories of an entry, one after the other. -/
theorem ensureDirectories_confined
    (more : Nat)
    (within : depth + more < names.length) :
    StateAction.Triple (Confined start outputDir names base depth)
      (ensureDirectoriesFaulty (pathTo outputDir names depth)
        (((names.drop depth).take more).map .normal))
      (fun _ => Confined start outputDir names base (depth + more))
      (fun _ => ExtractContained start outputDir names False) := by
  induction more generalizing depth with
  | zero => exact StateAction.Triple.pure fun faulty confined => confined
  | succ more inductionHypothesis =>
      have split : (names.drop depth).take (more + 1) =
          names[depth] :: (names.drop (depth + 1)).take more := by
        rw [List.drop_eq_getElem_cons (by omega), List.take_succ_cons]
      rw [split, List.map_cons, ensureDirectoriesFaulty,
        ← pathTo_succ outputDir (by omega)]
      refine StateAction.Triple.bind (ensureDirectory_confined (by omega))
        fun _ => ?_
      have rest := @inductionHypothesis (depth + 1) (by omega)
      rwa [Nat.add_right_comm, Nat.add_assoc] at rest

/-- Nothing has been added, and no link has been used. -/
structure Untouched
    (start : Disk)
    (outputDir : List Component)
    (names : List Name)
    (faulty : FaultyDisk) : Prop where
  disk : faulty.disk = start
  uses : ∀ use ∈ faulty.uses, Unlinked outputDir names use

theorem Untouched.contained
    (untouched : Untouched start outputDir names faulty)
    (extracted : Prop) :
    ExtractContained start outputDir names extracted faulty := by
  refine ⟨?_, ?_, untouched.uses⟩
  · rw [untouched.disk]
    exact .refl _
  · intro location label absent found
    rw [untouched.disk, absent] at found
    cases found

/-- A path that is no deeper than the output directory. -/
theorem unlinked_of_length_le
    {disk : Disk}
    {path : List Component}
    (short : path.length ≤ outputDir.length) :
    Unlinked outputDir names ⟨disk, path⟩ := by
  intro count base within same _ above isPositive isAbove
  have lengths := congrArg List.length same
  simp only [List.length_append, List.length_map, List.length_take] at lengths
  omega

theorem exposed_untouched :
    StateAction.Triple (Untouched start outputDir names)
      (exposed [] (pure ()))
      (fun _ => Untouched start outputDir names)
      (fun _ => ExtractContained start outputDir names False) := by
  have later {faulty : FaultyDisk}
      (untouched : Untouched start outputDir names faulty) :
      Untouched start outputDir names (faulty.used []) := by
    refine ⟨untouched.disk, fun use isUse => ?_⟩
    rcases List.mem_append.mp isUse with isUse | isNew
    · exact untouched.uses use isUse
    · rw [List.mem_singleton.mp isNew]
      exact unlinked_of_length_le (Nat.zero_le _)
  refine exposed_triple ?_ ?_ ?_
  · intro faulty value after untouched ran
    cases ran
    exact later untouched
  · intro faulty failure after untouched ran
    cases ran
  · exact fun faulty failure untouched => (later untouched).contained False

theorem checkpoint_untouched :
    StateAction.Triple (Untouched start outputDir names) checkpoint
      (fun _ => Untouched start outputDir names)
      (fun _ => ExtractContained start outputDir names False) :=
  StateAction.Triple.mapError exposed_untouched

theorem touch_untouched :
    StateAction.Triple (Untouched start outputDir names) touch
      (fun _ => Untouched start outputDir names)
      (fun _ => ExtractContained start outputDir names False) :=
  StateAction.Triple.mapError exposed_untouched

theorem lift_untouched
    {Value : Type}
    (result : Result Value) :
    StateAction.Triple (Untouched start outputDir names)
      (StateAction.lift result)
      (fun _ => Untouched start outputDir names)
      (fun _ => ExtractContained start outputDir names False) :=
  StateAction.Triple.lift (fun _ _ _ untouched => untouched)
    (fun _ _ _ untouched => untouched.contained False)

/-- The output directory stands, and is where the names begin. -/
theorem createDirAll_confined
    (nonempty : names ≠ []) :
    StateAction.Triple (Untouched start outputDir names)
      (FaultyDisk.createDirAll outputDir)
      (fun _ faulty => ∃ base, Confined start outputDir names base 0 faulty)
      (fun _ => ExtractContained start outputDir names False) := by
  intro first untouched
  obtain rfl := untouched.disk
  have uses {limit : Nat} {faulty : FaultyDisk}
      (along : Along first outputDir limit faulty) :
      ∀ use ∈ faulty.uses, Unlinked outputDir names use := by
    intro use isUse
    rcases along.uses use isUse with old | ⟨_, count, _, isPath⟩
    · exact untouched.uses use old
    · obtain ⟨disk, path⟩ := use
      obtain rfl : path = outputDir.take count := isPath
      exact unlinked_of_length_le (List.length_take_le' _ _)
  refine (createDirAll_along first outputDir).consequence ?_ ?_ ?_ first rfl
  · rintro faulty rfl
    exact .refl _ _ _
  · rintro _ faulty ⟨along, base, metadata, leads, found⟩
    rw [List.take_length] at leads
    refine ⟨base, along.kept, List.length_pos_iff.mpr nonempty, leads, rfl, ?_,
      ?_, uses along⟩
    · intro count isZero
      rw [Nat.le_zero.mp isZero, List.take_zero, List.append_nil]
      exact ⟨metadata, found⟩
    · intro location label absent isNew
      obtain ⟨isDirectory, count, within, leads, _⟩ :=
        along.added location label absent isNew
      exact ⟨isDirectory, .inl ⟨count, within, leads⟩⟩
  · intro failure faulty along
    refine ⟨along.kept, ?_, uses along⟩
    intro location label absent isNew
    obtain ⟨isDirectory, count, within, leads, _⟩ :=
      along.added location label absent isNew
    exact .inl ⟨isDirectory, count, by omega, leads⟩

/-- A precondition about some location. -/
theorem Triple.of_exists
    {Value : Type}
    {before : Location → FaultyDisk → Prop}
    {action : FaultyEngine Value}
    {success : Value → FaultyDisk → Prop}
    {failed : PithosError → FaultyDisk → Prop}
    (each : ∀ base, StateAction.Triple (before base) action success failed) :
    StateAction.Triple (fun faulty => ∃ base, before base faulty) action
      success failed :=
  fun faulty ⟨base, isBefore⟩ => each base faulty isBefore

/-- A precondition with a part that is not about the disk. -/
theorem Triple.of_fact
    {Value : Type}
    {before : FaultyDisk → Prop}
    {fact : Prop}
    {action : FaultyEngine Value}
    {success : Value → FaultyDisk → Prop}
    {failed : PithosError → FaultyDisk → Prop}
    (when : fact → StateAction.Triple before action success failed) :
    StateAction.Triple (fun faulty => before faulty ∧ fact) action success
      failed :=
  fun faulty ⟨isBefore, holds⟩ => when holds faulty isBefore

/-- All directories above an entry stand. -/
theorem prepareExtractParent_confined
    {path : ArchivePath}
    (hostable : path.Hostable) :
    StateAction.Triple (Untouched start outputDir path.names)
      (prepareExtractParentFaulty outputDir path)
      (fun _ faulty => ∃ base, Confined start outputDir path.names base
        (path.names.length - 1) faulty)
      (fun _ => ExtractContained start outputDir path.names False) := by
  have nonempty := hostable.names_ne_nil
  have positive := List.length_pos_iff.mpr nonempty
  have atRoot : pathTo outputDir path.names 0 = outputDir := by
    rw [pathTo, List.take_zero, List.map_nil, List.append_nil]
  refine StateAction.Triple.bind (StateAction.Triple.mapError
    (createDirAll_confined nonempty)) fun _ => ?_
  refine Triple.of_exists fun base => ?_
  have shallow : ∀ count, count ≤ path.names.length →
      outputDir = pathTo outputDir path.names count → count ≤ 0 + 1 := by
    intro count within same
    have isZero := pathTo_inj (Nat.zero_le _) within (atRoot.trans same)
    omega
  have looks : StateAction.Triple
      (Confined start outputDir path.names base 0)
      (faultyIo (exposed outputDir (StateAction.inspect fun disk =>
        disk.symlinkMetadata outputDir)))
      (fun _ => Confined start outputDir path.names base 0)
      (fun _ => ExtractContained start outputDir path.names False) := by
    refine StateAction.Triple.mapError (exposed_triple ?_ ?_ ?_)
    · intro faulty label after confined looked
      obtain ⟨_, rfl⟩ := Prod.mk.inj looked
      exact confined.used shallow
    · intro faulty failure after confined looked
      obtain ⟨_, rfl⟩ := Prod.mk.inj looked
      exact (confined.used shallow).contained False
    · exact fun faulty failure confined =>
        (confined.used shallow).contained False
  refine StateAction.Triple.bind looks fun root => ?_
  refine StateAction.Triple.bind (StateAction.Triple.lift
    (fun _ _ _ confined => confined)
    (fun _ _ _ confined => confined.contained False)) fun _ => ?_
  rw [hostable.toPathBuf_eq, StateAction.lift_ok_bind,
    hostable.components_joinPieces, ← List.map_dropLast,
    List.dropLast_eq_take]
  have made := @ensureDirectories_confined start outputDir path.names
    base 0 (path.names.length - 1) (by omega)
  rw [atRoot, List.drop_zero, Nat.zero_add] at made
  exact made.consequence (fun _ => id)
    (fun _ _ confined => ⟨base, confined⟩) (fun _ _ => id)

end Steps

/-! ## The entry -/

section Entry

variable
  {start : Disk}
  {outputDir : List Component}
  {names : List Name}
  {base : Location}
  {faulty : FaultyDisk}

/-- All directories above the entry stand. -/
abbrev Ready
    (start : Disk)
    (outputDir : List Component)
    (names : List Name)
    (base : Location) (faulty : FaultyDisk) : Prop :=
  Confined start outputDir names base (names.length - 1) faulty

theorem pathTo_length (outputDir : List Component) (names : List Name) :
    pathTo outputDir names names.length = outputDir ++ names.map .normal := by
  rw [pathTo, List.take_length]

/-- The path of the entry, or a path above it. -/
theorem Confined.shallow
    (ready : Ready start outputDir names base faulty)
    {path : List Component} :
    ∀ count, count ≤ names.length → path = pathTo outputDir names count →
      count ≤ names.length - 1 + 1 := by
  have positive := ready.within
  intro count within _
  omega

/-- An operation that changes no directory. -/
theorem exposed_ready
    {Value : Type}
    {path : List Component}
    {operation : StateAction Disk IoErrorKind Value}
    {success : Value → FaultyDisk → Prop}
    (unchanged : ∀ disk, (operation disk).2 = disk)
    (holds : ∀ value faulty, Ready start outputDir names base faulty →
      success value faulty) :
    StateAction.Triple (Ready start outputDir names base)
      (exposed path operation) success
      (fun _ => ExtractContained start outputDir names False) := by
  have stays {faulty : FaultyDisk}
      (ready : Ready start outputDir names base faulty) {after : Disk}
      (same : after = faulty.disk) :
      Ready start outputDir names base { faulty.used path with disk := after }
      := by
    rw [same]
    exact ready.used ready.shallow
  refine exposed_triple ?_ ?_ ?_
  · intro faulty value after ready ran
    have same := unchanged faulty.disk
    rw [ran] at same
    exact holds value _ (stays ready same)
  · intro faulty failure after ready ran
    have same := unchanged faulty.disk
    rw [ran] at same
    exact (stays ready same).contained False
  · exact fun faulty failure ready =>
      (ready.used ready.shallow).contained False

theorem checkpoint_ready :
    StateAction.Triple (Ready start outputDir names base) checkpoint
      (fun _ => Ready start outputDir names base)
      (fun _ => ExtractContained start outputDir names False) :=
  StateAction.Triple.mapError
    (exposed_ready (fun _ => rfl) fun _ _ ready => ready)

theorem touch_ready :
    StateAction.Triple (Ready start outputDir names base) touch
      (fun _ => Ready start outputDir names base)
      (fun _ => ExtractContained start outputDir names False) :=
  StateAction.Triple.mapError
    (exposed_ready (fun _ => rfl) fun _ _ ready => ready)

theorem lift_ready
    {Value : Type}
    (result : Result Value) :
    StateAction.Triple (Ready start outputDir names base)
      (StateAction.lift result)
      (fun _ => Ready start outputDir names base)
      (fun _ => ExtractContained start outputDir names False) :=
  StateAction.Triple.lift (fun _ _ _ ready => ready)
    (fun _ _ _ ready => ready.contained False)

theorem refuseExisting_ready (path : List Component) :
    StateAction.Triple (Ready start outputDir names base)
      (refuseExistingFaulty path)
      (fun _ => Ready start outputDir names base)
      (fun _ => ExtractContained start outputDir names False) := by
  refine StateAction.Triple.bind (StateAction.Triple.mapError
    (stat_triple ?_ ?_ ?_)) fun _ => lift_ready _
  · exact fun faulty label ready _ => ready.used ready.shallow
  · exact fun faulty ready => ready.used ready.shallow
  · exact fun faulty failure ready =>
      (ready.used ready.shallow).contained False

/-- Making the directory above the entry again adds nothing else. -/
theorem createParent_ready :
    StateAction.Triple (Ready start outputDir names base)
      (FaultyDisk.createDirAll
        (outputDir ++ names.map Component.normal).dropLast)
      (fun _ => Ready start outputDir names base)
      (fun _ => ExtractContained start outputDir names False) := by
  intro faulty ready
  have positive := ready.within
  have isPath : (outputDir ++ names.map Component.normal).dropLast =
      pathTo outputDir names (names.length - 1) := by
    have nonempty : names.map Component.normal ≠ [] := by
      intro isEmpty
      rw [List.map_eq_nil_iff] at isEmpty
      rw [isEmpty] at positive
      cases positive
    rw [List.dropLast_append_of_ne_nil nonempty, ← List.map_dropLast,
      List.dropLast_eq_take, pathTo]
  have length : (pathTo outputDir names (names.length - 1)).length =
      outputDir.length + (names.length - 1) := by
    rw [pathTo, List.length_append, List.length_map, List.length_take]
    omega
  rw [isPath]
  refine (createDirAll_along faulty _).consequence ?_ ?_ ?_ faulty rfl
  · rintro _ rfl
    exact .refl _ _ _
  · rintro _ after ⟨along, _⟩
    exact ready.along (by omega) (by omega) along
  · intro failure after along
    exact (ready.along (by omega) (by omega) along).contained False

/-- The entry itself has been added. -/
theorem Confined.withEntry
    (ready : Ready start outputDir names base faulty)
    {after : FaultyDisk}
    (kept : Kept faulty.disk after.disk)
    (added : ∀ location label, faulty.disk.look location = none →
      after.disk.look location = some label →
      location = base ++ names ∨ label = .directory newDirectory ∧
        ((∃ beginning, beginning ≤ outputDir.length ∧
          after.disk.resolve (outputDir.take beginning) = .ok location) ∨
        ∃ count, count ≤ names.length - 1 ∧
          location = base ++ names.take count))
    (uses : ∀ use ∈ after.uses, Unlinked outputDir names use) :
    ExtractContained start outputDir names True after := by
  have positive := ready.within
  have root := kept.resolve ready.root
  refine ⟨ready.kept.trans kept, ?_, uses⟩
  intro location label absent found
  cases earlier : faulty.disk.look location with
  | some old =>
      have same := kept.look _ _ earlier
      rw [found, Option.some.injEq] at same
      subst same
      obtain ⟨isNew, ⟨beginning, inside, leads⟩ | ⟨count, le, same⟩⟩ :=
        ready.added location label absent earlier
      · exact .inl ⟨isNew, beginning, inside, kept.resolve leads⟩
      · exact .inr ⟨base, root, .inl ⟨isNew, count, by omega, same⟩⟩
  | none =>
      obtain same | ⟨isNew, leads | ⟨count, le, same⟩⟩ :=
        added location label earlier found
      · exact .inr ⟨base, root, .inr ⟨trivial, same⟩⟩
      · exact .inl ⟨isNew, leads⟩
      · exact .inr ⟨base, root, .inl ⟨isNew, count, by omega, same⟩⟩

/-- The directory of an entry. -/
theorem createDirAll_ready :
    StateAction.Triple (Ready start outputDir names base)
      (FaultyDisk.createDirAll (outputDir ++ names.map Component.normal))
      (fun _ => ExtractContained start outputDir names True)
      (fun _ => ExtractContained start outputDir names False) := by
  intro faulty ready
  have positive := ready.within
  have isLength : names.length = names.length - 1 + 1 := by omega
  have length : (pathTo outputDir names names.length).length =
      outputDir.length + names.length := by
    rw [pathTo, List.length_append, List.length_map, List.take_length]
  rw [← pathTo_length]
  refine (createDirAll_along faulty _).consequence ?_ ?_ ?_ faulty rfl
  · rintro _ rfl
    exact .refl _ _ _
  · rintro _ after ⟨along, _⟩
    refine ready.withEntry along.kept ?_ ?_
    · intro location label absent found
      obtain ⟨isNew, beginning, within, leads, last⟩ :=
        along.added location label absent found
      by_cases whole : beginning = outputDir.length + names.length
      · rw [List.take_of_length_le (by omega), isLength] at last
        have same := (ready.resolveLast along.kept (Nat.le_refl _) last).1
        rw [← isLength, List.take_length] at same
        exact .inl same
      · exact .inr ⟨isNew, ready.ledTo along.kept (by omega) leads⟩
    · exact ready.alongUses (by omega) along
  · intro failure after along
    exact (ready.along (by omega) (by omega) along).contained False

/-- A leaf added at the path of the entry stands there. -/
theorem Confined.addAt
    (ready : Ready start outputDir names base faulty)
    {added : Node}
    (leaf : added.IsLeaf)
    {changed : Disk}
    (placed : faulty.disk.addAt (outputDir ++ names.map Component.normal)
      added = .ok changed)
    (path : List Component) :
    ExtractContained start outputDir names True
        { faulty.used path with disk := changed } ∧
      (added.label.isSymlink = false →
        changed.resolve (outputDir ++ names.map .normal) =
          .ok (base ++ names)) ∧
      changed.look (base ++ names) = some added.label := by
  have positive := ready.within
  have isLength : names.length = names.length - 1 + 1 := by omega
  obtain ⟨location, last, _, isAdded⟩ := addAt_eq_ok leaf placed
  have kept := kept_of_addAt placed
  rw [← pathTo_length, isLength] at last
  obtain ⟨rfl, plain⟩ := ready.resolveLast (.refl _) (Nat.le_refl _) last
  rw [← isLength, List.take_length] at isAdded plain
  have found : changed.look (base ++ names) = some added.label := by
    rw [isAdded.look, if_pos rfl]
  refine ⟨ready.withEntry kept ?_ (ready.used ready.shallow).uses, ?_, found⟩
  · intro location label absent isNew
    dsimp only at isNew
    rw [isAdded.look] at isNew
    split at isNew
    · exact .inl (by assumption)
    · rw [absent] at isNew
      cases isNew
  · intro notLink
    obtain ⟨metadata, isDirectory⟩ := ready.chain _ (Nat.le_refl _)
    have split : names = names.take (names.length - 1) ++
        [names[names.length - 1]] := by
      rw [← List.take_succ_eq_append_getElem, ← isLength, List.take_length]
    have lastPlain : hasNul [Component.normal names[names.length - 1]] = false := by
      rw [split, List.map_append, hasNul_append, Bool.or_eq_false_iff] at plain
      exact plain.2
    have above := kept.resolve (ready.leads (Nat.le_refl _))
    have resolved := @resolve_entry _ _ _ names[names.length - 1] above
      ⟨metadata, kept.look _ _ isDirectory⟩ lastPlain added.label ?_ notLink
    · rwa [← pathTo_succ, ← isLength, pathTo_length, List.append_assoc,
        ← split] at resolved
    · rwa [List.append_assoc, ← split]

/-- A link entry. -/
theorem symlink_ready (spelled : Path) :
    StateAction.Triple (Ready start outputDir names base)
      (faultyIo (exposed (outputDir ++ names.map Component.normal)
        (symlink spelled (outputDir ++ names.map .normal))))
      (fun _ => ExtractContained start outputDir names True)
      (fun _ => ExtractContained start outputDir names False) := by
  refine StateAction.Triple.mapError (exposed_triple ?_ ?_ ?_)
  · intro faulty value after ready made
    simp only [symlink, StateAction.attempt_eq_ok, bind_eq_ok,
      Except.ok.injEq, Prod.mk.injEq, true_and] at made
    obtain ⟨_, _, _, _, _, placed, rfl⟩ := made
    exact (ready.addAt (Node.isLeaf_symlink newFile spelled) placed _).1
  · intro faulty failure after ready failed
    rw [StateAction.eq_of_attempt_eq_error failed]
    exact (ready.used ready.shallow).contained False
  · exact fun faulty failure ready =>
      (ready.used ready.shallow).contained False

/-- A change of new files only. -/
theorem Confined.inodes
    (ready : Ready start outputDir names base faulty)
    {disk : Disk}
    (kept : Kept start disk)
    (sameRoot : disk.root = faulty.disk.root)
    (path : List Component) :
    Ready start outputDir names base
      { faulty.used path with disk := disk } := by
  have used := ready.used (@Confined.shallow _ _ _ _ _ ready path)
  have sameLook : disk.look = faulty.disk.look := by
    unfold Disk.look
    rw [sameRoot]
  have sameResolve (path : List Component) :
      disk.resolve path = faulty.disk.resolve path := by
    rw [Disk.resolve, Disk.resolve, sameLook]
  refine ⟨kept, ready.within, ?_, ready.plain, ?_, ?_, used.uses⟩
  · dsimp only
    rw [sameResolve]
    exact ready.root
  · dsimp only
    rw [sameLook]
    exact ready.chain
  · intro location label absent found
    dsimp only at found ⊢
    rw [sameLook] at found
    simp only [sameResolve]
    exact ready.added location label absent found

/-- A spool is a new file. -/
theorem createSpool_ready (destDir : List Component) :
    StateAction.Triple (Ready start outputDir names base)
      (faultyIo (exposed destDir createSpool))
      (fun spool faulty => Ready start outputDir names base faulty ∧
        start.inodes.length ≤ spool)
      (fun _ => ExtractContained start outputDir names False) := by
  refine StateAction.Triple.mapError (exposed_triple ?_ ?_ ?_)
  · intro faulty spool after ready created
    cases created
    have kept : Kept start { faulty.disk with
        inodes := faulty.disk.inodes ++ [⟨newFile, []⟩] } := by
      refine ⟨ready.kept.look, fun index inode found => ?_⟩
      have present := ready.kept.inodes _ _ found
      have within := (List.getElem?_eq_some_iff.mp present).1
      dsimp only
      rw [List.getElem?_append_left within, present]
    exact ⟨ready.inodes kept rfl destDir, ready.kept.length_le⟩
  · intro faulty failure after ready failed
    cases failed
  · exact fun faulty failure ready =>
      (ready.used ready.shallow).contained False

theorem createAtomicSpool_ready :
    StateAction.Triple (Ready start outputDir names base)
      (createAtomicSpoolFaulty
        (outputDir ++ names.map Component.normal).dropLast)
      (fun spool faulty => Ready start outputDir names base faulty ∧
        start.inodes.length ≤ spool)
      (fun _ => ExtractContained start outputDir names False) :=
  StateAction.Triple.bind (StateAction.Triple.mapError createParent_ready)
    fun _ => createSpool_ready _

theorem writeAll_ready
    {spool : Nat}
    (isFresh : start.inodes.length ≤ spool)
    (bytes : List UInt8) :
    StateAction.Triple (Ready start outputDir names base)
      (faultyIo (exposed [] (writeAll spool bytes)))
      (fun _ => Ready start outputDir names base)
      (fun _ => ExtractContained start outputDir names False) := by
  refine StateAction.Triple.mapError (exposed_triple ?_ ?_ ?_)
  · intro faulty value after ready wrote
    cases wrote
    exact ready.inodes (ready.kept.modify isFresh _) rfl []
  · intro faulty failure after ready failed
    cases failed
  · exact fun faulty failure ready =>
      (ready.used ready.shallow).contained False

/-- The entry has been added as a file. -/
def EntryPublished
    (start : Disk)
    (outputDir : List Component)
    (names : List Name)
    (spool : Nat)
    (faulty : FaultyDisk) : Prop :=
  ExtractContained start outputDir names True faulty ∧
    ∃ location,
      faulty.disk.resolve (outputDir ++ names.map .normal) = .ok location ∧
        faulty.disk.look location = some (.file spool)

theorem atomicCommit_ready (spool : Nat) :
    StateAction.Triple (Ready start outputDir names base)
      (atomicCommitFaulty spool (outputDir ++ names.map Component.normal))
      (fun _ => EntryPublished start outputDir names spool)
      (fun _ => ExtractContained start outputDir names False) := by
  refine StateAction.Triple.bind
    (StateAction.Triple.mapError createParent_ready) fun _ => ?_
  refine StateAction.Triple.bind touch_ready fun _ => ?_
  refine StateAction.Triple.mapError (exposed_triple ?_ ?_ ?_)
  · intro faulty value after ready published
    simp only [publish, StateAction.attempt_eq_ok, bind_eq_ok,
      Except.ok.injEq, Prod.mk.injEq, true_and] at published
    obtain ⟨_, placed, rfl⟩ := published
    obtain ⟨contained, leads, found⟩ := ready.addAt (Node.isLeaf_file spool)
      placed (outputDir ++ names.map .normal)
    exact ⟨contained, base ++ names, leads rfl, found⟩
  · intro faulty failure after ready failed
    rw [StateAction.eq_of_attempt_eq_error failed]
    exact (ready.used ready.shallow).contained False
  · exact fun faulty failure ready =>
      (ready.used ready.shallow).contained False

/-- Setting the mode of the file that has been published does not fail. -/
theorem applyFileMode_published
    {spool : Nat}
    (isFresh : start.inodes.length ≤ spool)
    (mode : UInt32) :
    StateAction.Triple (EntryPublished start outputDir names spool)
      (applyFileMode (outputDir ++ names.map Component.normal) mode)
      (fun _ => ExtractContained start outputDir names True)
      (fun _ => ExtractContained start outputDir names False) := by
  rintro faulty ⟨contained, location, leads, found⟩
  have changed : setPermissions (outputDir ++ names.map .normal) mode
      faulty.disk = (.ok (), { faulty.disk with
        inodes := faulty.disk.inodes.modify spool (Inode.setMode mode) }) := by
    simp [setPermissions, StateAction.attempt_eq_ok, leads, found]
  have ran : applyFileMode (outputDir ++ names.map .normal) mode faulty =
      (.ok (), { faulty with disk := { faulty.disk with
        inodes := faulty.disk.inodes.modify spool (Inode.setMode mode) } }) := by
    rw [applyFileMode, io, StateAction.mapError_eq_ok.mpr changed]
  rw [ran]
  exact ⟨contained.kept.modify isFresh _, contained.added, contained.uses⟩

/-- A file or hardlink entry, from where the output directory is prepared. -/
theorem extractFile_contained
    {backends : Backends}
    {file : List UInt8}
    {limits : DecodeLimits}
    {maxOutputBytes maxTempBytes : UInt64}
    {parsed : ParsedArchive}
    {entry : EntryRecord}
    (hostable : entry.path.Hostable) :
    StateAction.Triple (Untouched start outputDir entry.names)
      (extractFileWith placing backends file limits maxOutputBytes maxTempBytes
        outputDir parsed entry (joinPieces entry.names))
      (fun _ => ExtractContained start outputDir entry.names True)
      (fun _ => ExtractContained start outputDir entry.names False) := by
  unfold extractFileWith
  rw [hostable.lookupComponents_joinPieces]
  refine StateAction.Triple.bind (lift_untouched _) fun source => ?_
  refine StateAction.Triple.bind (lift_untouched _) fun groupId => ?_
  refine StateAction.Triple.bind (lift_untouched _) fun group => ?_
  refine StateAction.Triple.bind (lift_untouched _) fun restore => ?_
  refine StateAction.Triple.bind (lift_untouched _) fun _ => ?_
  refine StateAction.Triple.bind (lift_untouched _) fun _ => ?_
  refine StateAction.Triple.bind (prepareExtractParent_confined hostable)
    fun _ => ?_
  refine Triple.of_exists fun base => ?_
  refine StateAction.Triple.bind (refuseExisting_ready _) fun _ => ?_
  refine StateAction.Triple.bind createAtomicSpool_ready fun spool => ?_
  refine Triple.of_fact fun isFresh => ?_
  refine StateAction.Triple.bind touch_ready fun _ => ?_
  refine StateAction.Triple.bind checkpoint_ready fun _ => ?_
  generalize decodeGroup backends file group parsed.codecRegistry limits =
    decoding
  refine StateAction.Triple.bind (lift_ready _) fun decoded => ?_
  refine StateAction.Triple.bind (lift_ready _) fun bytes => ?_
  refine StateAction.Triple.bind (writeAll_ready isFresh bytes) fun _ => ?_
  refine StateAction.Triple.bind (lift_ready _) fun _ => ?_
  refine StateAction.Triple.bind checkpoint_ready fun _ => ?_
  refine StateAction.Triple.bind (atomicCommit_ready spool) fun _ => ?_
  refine StateAction.Triple.bind (applyFileMode_published isFresh entry.mode)
    fun _ => ?_
  exact StateAction.Triple.pure fun _ contained => contained

/-- Extracting an entry, whatever its kind. -/
theorem extractFaulty_contained
    {backends : Backends}
    {file : List UInt8}
    {limits : DecodeLimits}
    {maxOutputBytes maxTempBytes : UInt64}
    {requested : Path}
    {selector : ArchivePath}
    {parsed : ParsedArchive}
    {entry : EntryRecord}
    (accepted : readCatalog backends file limits = .ok parsed)
    (isSelector : ArchivePath.fromRelative requested = .ok selector)
    (found : selectEntry parsed.entries selector = .ok entry) :
    StateAction.Triple (Untouched start outputDir entry.names)
      (extractFaulty backends file limits maxOutputBytes maxTempBytes outputDir
        requested)
      (fun _ => ExtractContained start outputDir entry.names True)
      (fun _ => ExtractContained start outputDir entry.names False) := by
  unfold extractFaulty extractWith
  rw [isSelector, accepted]
  refine StateAction.Triple.bind checkpoint_untouched fun _ => ?_
  rw [StateAction.lift_ok_bind]
  refine StateAction.Triple.bind touch_untouched fun _ => ?_
  refine StateAction.Triple.bind checkpoint_untouched fun _ => ?_
  rw [StateAction.lift_ok_bind, found, StateAction.lift_ok_bind]
  cases spelled : entry.path.toPathBuf with
  | error failure =>
      exact fun faulty untouched => untouched.contained False
  | ok relative =>
      obtain ⟨hostable, rfl⟩ := ArchivePath.toPathBuf_eq_ok.mp spelled
      rw [StateAction.lift_ok_bind]
      cases entry.kind with
      | directory =>
          refine StateAction.Triple.bind checkpoint_untouched fun _ => ?_
          refine StateAction.Triple.bind (prepareExtractParent_confined hostable)
            fun _ => ?_
          refine Triple.of_exists fun base => ?_
          refine StateAction.Triple.bind (refuseExisting_ready _) fun _ => ?_
          rw [hostable.lookupComponents_joinPieces]
          refine StateAction.Triple.bind
            (StateAction.Triple.mapError createDirAll_ready) fun _ => ?_
          exact StateAction.Triple.pure fun _ contained => contained
      | symlink target targetIsDir =>
          refine StateAction.Triple.bind checkpoint_untouched fun _ => ?_
          refine StateAction.Triple.bind (prepareExtractParent_confined hostable)
            fun _ => ?_
          refine Triple.of_exists fun base => ?_
          refine StateAction.Triple.bind (refuseExisting_ready _) fun _ => ?_
          refine StateAction.Triple.bind (lift_ready _) fun _ => ?_
          refine StateAction.Triple.bind (lift_ready _) fun host => ?_
          rw [hostable.lookupComponents_joinPieces]
          refine StateAction.Triple.bind (symlink_ready host) fun _ => ?_
          exact StateAction.Triple.pure fun _ contained => contained
      | file groupId => exact extractFile_contained hostable
      | hardlink targetEntryId => exact extractFile_contained hostable

/-- What extracting a directory entry does, step by step. -/
theorem extractFaulty_eq_of_directory
    {backends : Backends}
    {file : List UInt8}
    {limits : DecodeLimits}
    {maxOutputBytes maxTempBytes : UInt64}
    {requested relative : Path}
    {selector : ArchivePath}
    {parsed : ParsedArchive}
    {entry : EntryRecord}
    (accepted : readCatalog backends file limits = .ok parsed)
    (isSelector : ArchivePath.fromRelative requested = .ok selector)
    (found : selectEntry parsed.entries selector = .ok entry)
    (spelled : entry.path.toPathBuf = .ok relative)
    (isDirectory : entry.kind = .directory) :
    extractFaulty backends file limits maxOutputBytes maxTempBytes outputDir
      requested = (do
        checkpoint
        touch
        checkpoint
        checkpoint
        prepareExtractParentFaulty outputDir entry.path
        refuseExistingFaulty (outputDir ++ lookupComponents relative)
        faultyIo (FaultyDisk.createDirAll
          (outputDir ++ lookupComponents relative))
        pure (extractReport entry 0)) := by
  unfold extractFaulty extractWith
  rw [accepted, isSelector]
  simp only [StateAction.lift_ok_bind, found, spelled, isDirectory]

end Entry

end Pithos
