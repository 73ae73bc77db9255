import Pithos.Engine.Unpack.Contents

/-!
# Extracting one entry

`extract` finds an entry by its path and creates it below an output directory.
It makes the directories above the entry one by one, refusing to walk through a
symbolic link below the output directory, writes the bytes of a file to a spool
and publishes the spool under the entry's name when nothing stands there.  A
spool is a file without a name: the temporary name that the temporary-file crate
chooses for it is left out.
-/

namespace Pithos

open Fallible
open FileTree
open HostPath
open Disk

/-- What to extract and where to.  The output directory is given by its physical
location. -/
structure ExtractRequest where
  outputDir : Location
  entry : Path

/-- Make a directory above the entry unless it is there.  Anything else that
stands there is refused. -/
def ensureDirectory (current : List Component) : Engine Unit :=
  fun disk =>
    match disk.symlinkMetadata current with
    | .ok (.symlink _ _) => (.error .unsafePath, disk)
    | .ok (.directory _) => (.ok (), disk)
    | .ok (.file _) => (.error (.invalidMetadata "extract parent"), disk)
    | .error .notFound => io (mkdir current) disk
    | .error failure => (.error (.io failure), disk)

/-- Make the directories of a relative path below a directory. -/
def ensureDirectories (current : List Component) :
    List Component → Engine Unit
  | [] => pure ()
  | component :: rest => do
      ensureDirectory (current ++ [component])
      ensureDirectories (current ++ [component]) rest

/-- Make the directories above an entry, without walking through a link below
the output directory. -/
def prepareExtractParent (outputRoot : Location) (archivePath : ArchivePath) :
    Engine Unit := do
  io (createDirAll (absolute outputRoot))
  let root ← io (StateAction.inspect fun disk =>
    disk.symlinkMetadata (absolute outputRoot))
  StateAction.lift (ensure (root.isSymlink = false) .unsafePath)
  let relative ← StateAction.lift archivePath.toPathBuf
  ensureDirectories (absolute outputRoot)
    (HostPath.components relative).dropLast

/-- A spool in a directory. -/
def createAtomicSpool (destDir : List Component) : Engine Nat := do
  io (createDirAll destDir)
  io createSpool

/-- Publish a spool at a path where nothing stands. -/
def atomicCommit (spool : Nat) (targetPath : List Component) :
    Engine Unit := do
  createParents targetPath
  StateAction.mapError (fun failure =>
    if failure = .alreadyExists then .outputExists else .io failure)
    (publish spool targetPath)

/-- Make sure that nothing stands at a path. -/
def refuseExisting (path : List Component) : Engine Unit := do
  let present ← pathEntryExists path
  StateAction.lift (ensure (present = false) .outputExists)

/-- Extract a file or hardlink entry. -/
def extractFile
    (backends : Backends)
    (file : List UInt8)
    (limits : DecodeLimits)
    (maxOutputBytes maxTempBytes : UInt64)
    (outputDir : Location)
    (parsed : ParsedArchive)
    (entry : EntryRecord)
    (relative : Path) : Engine ExtractReport := do
  let source ← StateAction.lift (fileSourceEntry entry parsed.entries)
  let groupId ← StateAction.lift (okOr source.kind.groupId?
    (.invalidMetadata "file source"))
  let group ← StateAction.lift (okOr parsed.groups[groupId.toNat]?
    (.invalidMetadata "entry group"))
  let restore ← StateAction.lift (restoreForEntry parsed.restoreMap source.entryId)
  StateAction.lift (ensure (source.size ≤ maxOutputBytes)
    (.resourceLimit "extract output bytes"))
  StateAction.lift (ensure (group.group.compressedLen ≤ maxTempBytes)
    (.resourceLimit "extract temporary bytes"))
  prepareExtractParent outputDir entry.path
  refuseExisting (join outputDir relative)
  let spool ← createAtomicSpool (join outputDir relative).dropLast
  let decoded ← StateAction.lift
    (decodeGroup backends file group parsed.codecRegistry limits)
  let bytes ← StateAction.lift (restoredSlice decoded restore 0 restore.length)
  io (writeAll spool bytes)
  StateAction.lift (ensure (backends.digests.blake3 bytes = source.blake3)
    .hashMismatch)
  atomicCommit spool (join outputDir relative)
  io (setPermissions (join outputDir relative) entry.mode)
  pure (extractReport entry source.size)

/-- Extract one entry. -/
def extract
    (backends : Backends)
    (file : List UInt8)
    (limits : DecodeLimits)
    (maxOutputBytes maxTempBytes : UInt64)
    (request : ExtractRequest) : Engine ExtractReport := do
  let selector ← StateAction.lift (ArchivePath.fromRelative request.entry)
  let parsed ← StateAction.lift (readCatalog backends file limits)
  let entry ← StateAction.lift (selectEntry parsed.entries selector)
  let relative ← StateAction.lift entry.path.toPathBuf
  match entry.kind with
  | .directory => do
      prepareExtractParent request.outputDir entry.path
      refuseExisting (join request.outputDir relative)
      io (createDirAll (join request.outputDir relative))
      pure (extractReport entry 0)
  | .symlink target _ => do
      prepareExtractParent request.outputDir entry.path
      refuseExisting (join request.outputDir relative)
      StateAction.lift (ensure (target.resolvesWithin entry.path) .unsafeSymlink)
      let spelled ← StateAction.lift target.toPathBuf
      io (symlink spelled (join request.outputDir relative))
      pure (extractReport entry entry.size)
  | .file _ | .hardlink _ =>
      extractFile backends file limits maxOutputBytes maxTempBytes
        request.outputDir parsed entry relative

/-! ## What is published -/

section Publishing

variable
  {disk after : Disk}
  {names : List Name}
  {name : Name}

/-- A directory at a location. -/
def IsDirectory (disk : Disk) (location : Location) : Prop :=
  ∃ metadata, disk.look location = some (.directory metadata)

theorem IsDirectory.kept
    (isDirectory : IsDirectory disk names)
    (kept : Kept disk after) :
    IsDirectory after names := by
  obtain ⟨metadata, found⟩ := isDirectory
  exact ⟨metadata, kept.look _ _ found⟩

theorem IsDirectory.linkFree
    (isDirectory : IsDirectory disk names) :
    LinkFree disk.root names := by
  obtain ⟨metadata, found⟩ := isDirectory
  exact (Kept.refl disk).linkFree found

/-- Adding at a name below a directory, when it succeeds. -/
theorem IsDirectory.addAt_eq_ok
    (isDirectory : IsDirectory disk names)
    {added : Node}
    (placed : disk.addAt ((names ++ [name]).map .normal) added = .ok after) :
    NoNul (names ++ [name]) ∧ after.inodes = disk.inodes ∧
      after.look (names ++ [name]) = some added.label := by
  simp only [addAt, bind_eq_ok, okOr_eq_ok, add_eq_some,
    resolveLast_eq_ok isDirectory.linkFree] at placed
  obtain ⟨_, ⟨noNul, _, rfl⟩, inserted, inodes⟩ := placed
  refine ⟨noNul, inodes, ?_⟩
  rw [Disk.look, look_insert inserted, if_pos (List.prefix_refl _)]
  simp [FileTree.look]

theorem ensureDirectory_ok
    (isDirectory : IsDirectory disk names)
    (ran : ensureDirectory ((names ++ [name]).map .normal) disk =
      (.ok (), after)) :
    IsDirectory after (names ++ [name]) := by
  simp only [ensureDirectory, symlinkMetadata, resolveNoFollow_concat] at ran
  split at ran
  · cases ran
  · rename_i metadata found
    cases ran
    simp only [bind_eq_ok, okOr_eq_ok,
      resolveLast_eq_ok isDirectory.linkFree] at found
    obtain ⟨_, ⟨_, _, rfl⟩, found⟩ := found
    exact ⟨metadata, found⟩
  · cases ran
  · rw [io, StateAction.mapError_eq_ok, mkdir, StateAction.attempt] at ran
    split at ran
    · rename_i changed
      cases ran
      simp only [bind_eq_ok, Except.ok.injEq, Prod.mk.injEq,
        true_and] at changed
      obtain ⟨_, placed, rfl⟩ := changed
      exact ⟨_, (isDirectory.addAt_eq_ok placed).2.2⟩
    · cases ran
  · cases ran

theorem ensureDirectories_ok
    {rest : List Name}
    (isDirectory : IsDirectory disk names)
    (ran : ensureDirectories (names.map .normal) (rest.map .normal) disk =
      (.ok (), after)) :
    IsDirectory after (names ++ rest) := by
  induction rest generalizing names disk with
  | nil =>
      cases ran
      rwa [List.append_nil]
  | cons name rest inductionHypothesis =>
      rw [List.map_cons, ensureDirectories, StateAction.bind_eq_ok] at ran
      obtain ⟨_, middle, made, others⟩ := ran
      have assoc : names.map Component.normal ++ [.normal name] =
          (names ++ [name]).map .normal := by simp
      rw [assoc] at made others
      have := inductionHypothesis (ensureDirectory_ok isDirectory made) others
      rwa [List.append_assoc] at this

/-- The directory of an entry stands after it was prepared. -/
theorem prepareExtractParent_ok
    {outputRoot : Location}
    {path : ArchivePath}
    (linkFree : LinkFree disk.root outputRoot)
    (hostable : path.Hostable)
    (ran : prepareExtractParent outputRoot path disk = (.ok (), after)) :
    IsDirectory after (outputRoot ++ path.names.dropLast) := by
  simp only [prepareExtractParent, hostable.toPathBuf_eq, StateAction.bind_eq_ok,
    StateAction.lift_ok_bind, StateAction.lift_eq_ok, io, StateAction.mapError_eq_ok,
    hostable.components_joinPieces] at ran
  obtain ⟨_, rooted, made, _, _, inspected, _, _, ⟨_, rfl⟩, parents⟩ := ran
  have sameDisk : rooted = _ := (Prod.mk.inj inspected).2
  subst sameDisk
  have outcome := createDirAll_outcome linkFree
  rw [absolute] at made
  rw [made] at outcome
  cases outcome with
  | made _ noNul unblocked added =>
      have isDirectory : IsDirectory rooted outputRoot := by
        unfold IsDirectory
        rw [added.look]
        cases found : disk.look outputRoot with
        | none => exact ⟨newDirectory, by simp⟩
        | some label =>
            cases label with
            | directory metadata => exact ⟨metadata, by simp⟩
            | file inode =>
                exact absurd found (unblocked _ (List.prefix_refl _) inode)
            | symlink metadata target =>
                exact absurd found
                  (linkFree _ (List.prefix_refl _) metadata target)
      rw [← List.map_dropLast] at parents
      exact ensureDirectories_ok isDirectory parents

/-- The file that a commit publishes. -/
theorem atomicCommit_ok
    {spool : Nat}
    (isDirectory : IsDirectory disk names)
    (ran : atomicCommit spool ((names ++ [name]).map .normal) disk =
      (.ok (), after)) :
    NoNul (names ++ [name]) ∧
      after.look (names ++ [name]) = some (.file spool) ∧
      ∀ (index : Nat) (inode : Inode), disk.inodes[index]? = some inode →
        after.inodes[index]? = some inode := by
  simp only [atomicCommit, createParents, StateAction.bind_eq_ok, io,
    StateAction.mapError_eq_ok] at ran
  obtain ⟨_, parented, made, published⟩ := ran
  have kept : Kept disk parented := by
    have := keeps_createDirAll
      (((names ++ [name]).map Component.normal).dropLast) disk
    rwa [made] at this
  unfold publish StateAction.attempt at published
  split at published
  · rename_i changed
    cases published
    simp only [bind_eq_ok, Except.ok.injEq, Prod.mk.injEq, true_and] at changed
    obtain ⟨_, placed, rfl⟩ := changed
    obtain ⟨noNul, inodes, found⟩ :=
      (isDirectory.kept kept).addAt_eq_ok placed
    refine ⟨noNul, found, fun index inode present => ?_⟩
    rw [inodes]
    exact kept.inodes index inode present
  · cases published

theorem setPermissions_holdsFile
    {location : Location}
    {spool : Nat}
    {mode : UInt32}
    {metadata : Metadata}
    {bytes : List UInt8}
    (linkFree : LinkFree disk.root location)
    (found : disk.look location = some (.file spool))
    (content : disk.inodes[spool]? = some ⟨metadata, bytes⟩)
    (ran : setPermissions (location.map .normal) mode disk = (.ok (), after)) :
    HoldsFile after location bytes := by
  unfold setPermissions StateAction.attempt at ran
  split at ran
  · rename_i changed
    cases ran
    simp only [bind_eq_ok, resolve_eq_ok linkFree] at changed
    obtain ⟨_, ⟨_, _, rfl⟩, changed⟩ := changed
    rw [found] at changed
    simp only [Except.ok.injEq, Prod.mk.injEq, true_and] at changed
    subst changed
    refine ⟨spool, withMode mode metadata, found, ?_⟩
    simp [content, Inode.setMode]
  · cases ran

/-- What extracting a file or hardlink entry publishes. -/
theorem extractFile_holdsFile
    {backends : Backends}
    {file : List UInt8}
    {limits : DecodeLimits}
    {maxOutputBytes maxTempBytes : UInt64}
    {outputDir : Location}
    {parsed : ParsedArchive}
    {entry source : EntryRecord}
    {groupId : UInt64}
    {group : GroupTableRecord}
    {restore : RestoreMapRecord}
    {decoded bytes : List UInt8}
    {report : ExtractReport}
    (linkFree : LinkFree disk.root outputDir)
    (hostable : entry.path.Hostable)
    (isSource : fileSourceEntry entry parsed.entries = .ok source)
    (read : FileRead backends file limits parsed source groupId group restore
      decoded bytes)
    (ran : extractFile backends file limits maxOutputBytes maxTempBytes
      outputDir parsed entry (joinPieces entry.names) disk =
        (.ok report, after)) :
    HoldsFile after (outputDir ++ entry.names) bytes := by
  have isFile : source.kind.groupId? = some groupId := by
    rw [read.isFile]
    rfl
  obtain ⟨parent, last, split⟩ :
      ∃ parent last, entry.names = parent ++ [last] :=
    ⟨_, _, (List.dropLast_append_getLast hostable.names_ne_nil).symm⟩
  have parentNames : entry.path.names.dropLast = parent := by
    rw [show entry.path.names = parent ++ [last] from split,
      List.dropLast_concat]
  simp only [extractFile, isSource, isFile, okOr_some, StateAction.lift_ok_bind,
    read.groupFound, read.restoreFound, read.decodes, read.sliced,
    ensure_of read.hash, refuseExisting, createAtomicSpool,
    join_joinPieces outputDir hostable, StateAction.bind_eq_ok, StateAction.lift_eq_ok,
    io, StateAction.mapError_eq_ok] at ran
  obtain ⟨_, _, ⟨_, rfl⟩, _, _, ⟨_, rfl⟩, _, parented, prepared, _, refused,
    ⟨present, checked, inspected, _, sameChecked⟩, spool, spooled,
    ⟨_, readied, madeParents, created⟩, _, written, wrote, _, committed, commits,
    _, _, permitted, finish⟩ := ran
  cases finish
  have sameDisk : parented = checked := (Prod.mk.inj inspected).2
  subst sameDisk
  subst sameChecked
  have isDirectory := prepareExtractParent_ok linkFree hostable prepared
  rw [parentNames] at isDirectory
  have kept : Kept refused readied := by
    have := keeps_createDirAll
      (((outputDir ++ entry.names).map Component.normal).dropLast) refused
    rwa [madeParents] at this
  cases created
  cases wrote
  rw [split, ← List.append_assoc] at commits permitted ⊢
  obtain ⟨metadata, parentFound⟩ := isDirectory.kept kept
  have published := fun stands => atomicCommit_ok stands commits
  obtain ⟨noNul, found, contents⟩ := published ⟨metadata, parentFound⟩
  refine setPermissions_holdsFile ?_ found (contents _ ⟨newFile, bytes⟩ ?_)
    permitted
  · intro location isPrefix other target isLink
    by_cases same : location = outputDir ++ parent ++ [last]
    · subst same
      rw [Disk.look, isLink] at found
      cases found
    · obtain ⟨_, above⟩ := directory_of_isPrefix found isPrefix same
      rw [Disk.look, isLink] at above
      cases above
  · rw [modify_last]
    simp [Inode.append]

end Publishing

end Pithos
