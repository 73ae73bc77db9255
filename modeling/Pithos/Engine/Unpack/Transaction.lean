import Pithos.Engine.Unpack.Run
import Pithos.Library.DiskGrowth

/-!
# The outcome of unpacking

Around the loop stand the staging directory, the rename and the synchronisation
of the parent.  At a free destination the first two succeed, so an archive whose
links are flat is published exactly when its entries can be restored, and the
destination then holds the tree of the entries.  The last step fails for a
destination that is given by its name alone.
-/

namespace Pithos

open Fallible
open FileTree
open HostPath
open Disk

/-- A destination at which nothing stands, with a name for the staging directory
that is not taken.  The directories above it may be missing, but the working
directory is there. -/
structure Destination (disk : Disk) (request : UnpackRequest) : Prop where
  outputNoNul : NoNul request.outputDir
  stagingNoNul : NoNul request.staging
  different : request.stagingName ≠ request.outputName
  linkFree : LinkFree disk.root request.outputParent
  unblocked : disk.Unblocked request.outputParent
  outputFree : disk.look request.outputDir = none
  stagingFree : disk.look request.staging = none
  workingDirectory : request.bare → ∃ metadata,
    disk.look request.outputParent = some (.directory metadata)

/-- The disk with an empty staging directory. -/
structure Prepared
    (disk : Disk)
    (request : UnpackRequest)
    (prepared : Disk) : Prop where
  inodes : prepared.inodes = disk.inodes
  parent : ∃ metadata,
    prepared.look request.outputParent = some (.directory metadata)
  linkFree : LinkFree prepared.root request.outputParent
  outputFree : prepared.look request.outputDir = none
  staging : ∀ relative, prepared.look (request.staging ++ relative) =
    if relative = [] then some (.directory newDirectory) else none
  outside : ∀ location, ¬request.staging <+: location →
    prepared.look location =
      if location <+: request.outputParent ∧ disk.look location = none then
        some (.directory newDirectory)
      else disk.look location
  kept : ∀ location label, disk.look location = some label →
    prepared.look location = some label

/-- What the synchronisation of the parent gives. -/
def UnpackRequest.synced (request : UnpackRequest) : Result Unit :=
  if request.bare then .error (.io .notFound) else .ok ()

/-- The destination holds what the staging directory held. -/
structure Published
    (prepared populated : Disk)
    (request : UnpackRequest)
    (final : Disk) : Prop where
  inodes : final.inodes = populated.inodes
  output : ∀ relative, final.look (request.outputDir ++ relative) =
    populated.look (request.staging ++ relative)
  kept : ∀ location, ¬request.staging <+: location →
    ¬request.outputDir <+: location →
    final.look location = prepared.look location

section Transaction

variable
  {backends : Backends}
  {file : List UInt8}
  {limits : DecodeLimits}
  {maxTempBytes : UInt64}
  {parsed : ParsedArchive}
  {request : UnpackRequest}
  {disk prepared populated : Disk}

theorem Destination.pathEntryExists_eq
    (destination : Destination disk request) :
    pathEntryExists (absolute request.outputDir) disk = (.ok false, disk) := by
  have outcome := @resolveLast_outcome disk request.outputParent
    request.outputName destination.linkFree
  have metadata : disk.symlinkMetadata (absolute request.outputDir) =
      .error .notFound := by
    unfold symlinkMetadata absolute UnpackRequest.outputDir
    rw [resolveNoFollow_concat]
    generalize disk.resolveLast
      ((request.outputParent ++ [request.outputName]).map .normal) = result
      at outcome
    cases outcome with
    | parentFound metadata noNul isDirectory =>
        have free := destination.outputFree
        rw [UnpackRequest.outputDir] at free
        rw [ok_bind, free, okOr_none]
    | parentMissing noNul absent unblocked => rfl
    | blocked failure otherFailure obstacle =>
        rcases obstacle with hasNul | blocked
        · exact absurd destination.outputNoNul hasNul
        · exact absurd destination.unblocked blocked
  simp only [pathEntryExists, StateAction.inspect, metadata]

/-- The directories above the destination are made. -/
theorem Destination.createOutputParent_ok
    (destination : Destination disk request) :
    ∃ parented,
      createOutputParent request disk = (.ok (), parented) ∧
      DirectoriesAdded disk request.outputParent parented := by
  unfold createOutputParent
  split
  · rename_i isBare
    obtain ⟨metadata, found⟩ := destination.workingDirectory isBare
    exact ⟨disk, rfl, directoriesAdded_self found⟩
  · have outcome := createDirAll_outcome destination.linkFree
    unfold absolute io StateAction.mapError
    generalize createDirAll (request.outputParent.map .normal) disk = result
      at outcome
    cases outcome with
    | made after noNul unblocked added => exact ⟨after, rfl, added⟩
    | failed failure obstacle =>
        rcases obstacle with hasNul | blocked
        · exact absurd (destination.outputNoNul.take (List.prefix_append _ _))
            hasNul
        · exact absurd destination.unblocked blocked

/-- The staging directory is made in the directory of the destination. -/
theorem Destination.mkdir_staging
    (destination : Destination disk request)
    {parented : Disk}
    (added : DirectoriesAdded disk request.outputParent parented) :
    ∃ prepared,
      mkdir (absolute request.staging) parented = (.ok (), prepared) ∧
      Prepared disk request prepared := by
  have child {name : Name} :
      ¬request.outputParent ++ [name] <+: request.outputParent := by
    intro isPrefix
    have := isPrefix.length_le
    rw [List.length_append, List.length_singleton] at this
    omega
  have free {name : Name}
      (absent : disk.look (request.outputParent ++ [name]) = none) :
      parented.look (request.outputParent ++ [name]) = none := by
    rw [added.look, if_neg (fun both => child both.1), absent]
  have isDirectory : ∃ metadata,
      parented.look request.outputParent = some (.directory metadata) := by
    rw [added.look]
    cases found : disk.look request.outputParent with
    | none => exact ⟨newDirectory, by simp⟩
    | some label =>
        cases label with
        | directory metadata => exact ⟨metadata, by simp⟩
        | file inode =>
            exact absurd found
              (destination.unblocked _ (List.prefix_refl _) inode)
        | symlink metadata target =>
            exact absurd found
              (destination.linkFree _ (List.prefix_refl _) metadata target)
  have linkFree : LinkFree parented.root request.outputParent := by
    refine linkFree_of_look destination.linkFree ?_
    intro location _ metadata target found
    rw [added.look] at found
    split at found
    · cases found
    · exact found
  obtain ⟨metadata, parentFound⟩ := isDirectory
  obtain ⟨prepared, placed, inodes, labels⟩ := addAt_of_free
    (Node.isLeaf_directory newDirectory) linkFree destination.stagingNoNul
    parentFound (free destination.stagingFree)
  have parentDiffers : request.outputParent ≠ request.staging := by
    simp [UnpackRequest.staging]
  refine ⟨prepared, StateAction.attempt_of_ok ?_,
    inodes.trans added.inodes, ?_, ?_, ?_, ?_, ?_, ?_⟩
  · unfold absolute UnpackRequest.staging
    rw [placed, ok_bind]
  · exact ⟨metadata, by rw [labels.look, if_neg (by simp), parentFound]⟩
  · refine linkFree_of_look linkFree ?_
    intro location _ metadata target found
    rw [labels.look] at found
    split at found
    · cases found
    · exact found
  · have different : request.outputDir ≠
        request.outputParent ++ [request.stagingName] := by
      simpa [UnpackRequest.outputDir] using destination.different.symm
    rw [labels.look, if_neg different]
    exact free destination.outputFree
  · intro relative
    rw [labels.look]
    by_cases empty : relative = []
    · subst empty
      simp [UnpackRequest.staging, Node.label]
    · rw [if_neg empty, if_neg (by simpa [UnpackRequest.staging] using empty)]
      exact look_eq_none_of_isPrefix (free destination.stagingFree)
        (List.prefix_append _ _)
  · intro location outside
    rw [labels.look, if_neg, added.look]
    rintro rfl
    exact outside (List.prefix_refl _)
  · intro location label found
    rw [labels.look, if_neg, added.look, found]
    · simp
    · rintro rfl
      have absent := destination.stagingFree
      rw [UnpackRequest.staging, found] at absent
      cases absent

/-- At a free destination, preparing succeeds on a verified archive. -/
theorem Destination.prepareStaging_ok
    (destination : Destination disk request)
    (verified : verifyOpenFile backends file limits = .ok parsed)
    (fits : parsed.report.originalBytes ≤ maxTempBytes) :
    ∃ prepared,
      prepareStaging backends file limits maxTempBytes request disk =
        (.ok parsed, prepared) ∧
      Prepared disk request prepared := by
  obtain ⟨parented, parents, added⟩ := destination.createOutputParent_ok
  obtain ⟨prepared, madeStaging, isPrepared⟩ :=
    destination.mkdir_staging added
  refine ⟨prepared, ?_, isPrepared⟩
  have staging : io (mkdir (absolute request.staging)) parented =
      (.ok (), prepared) := by
    rw [io, StateAction.mapError, madeStaging]
  unfold prepareStaging
  rw [StateAction.bind_of_ok destination.pathEntryExists_eq,
    ensure_of (by simp), StateAction.lift_ok_bind, verified, StateAction.lift_ok_bind,
    ensure_of fits, StateAction.lift_ok_bind, StateAction.bind_of_ok parents,
    StateAction.bind_of_ok staging]
  rfl

/-- The prepared staging directory holds no entry yet. -/
theorem Prepared.staged
    (isPrepared : Prepared disk request prepared)
    (contents : EntryRecord → List UInt8)
    (entries : List EntryRecord) :
    Staged contents entries prepared request.staging [] prepared := by
  refine {
    outside := fun _ _ => rfl
    directories := ?_
    present := by simp
    nodes := ?_
    files := by simp
    fileInodes := by simp
    hardlinks := by simp
    restorable := ⟨by simp, List.Pairwise.nil⟩ }
  · intro relative
    rw [isPrepared.staging]
    by_cases empty : relative = []
    · simp [empty, Implied]
    · simp [empty, Implied]
  · intro relative label found notDirectory
    rw [isPrepared.staging] at found
    split at found
    · cases found
      cases notDirectory
    · cases found

/-- A staging directory beside a free destination is renamed to it, and the
cleanup has nothing left to do. -/
theorem Destination.publish_ok
    (destination : Destination disk request)
    {metadata : Metadata}
    (parent : populated.look request.outputParent =
      some (.directory metadata))
    (present : (populated.look request.staging).isSome)
    (free : populated.look request.outputDir = none) :
    ∃ final,
      rename (absolute request.staging) (absolute request.outputDir)
        populated = (.ok (), final) ∧
      Moved populated request.staging request.outputDir final ∧
      syncParent request final = (request.synced, final) ∧
      (removeDirAll (absolute request.staging) final).2 = final := by
  have notInside {name : Name} :
      ¬request.outputParent ++ [name] <+: request.outputParent := by
    intro isPrefix
    have := isPrefix.length_le
    rw [List.length_append, List.length_singleton] at this
    omega
  obtain ⟨final, renamed, moved⟩ := rename_sibling
    ((Kept.refl populated).linkFree parent) destination.stagingNoNul
    destination.outputNoNul destination.different present free
  have parentAfter : final.look request.outputParent =
      some (.directory metadata) := by
    rw [moved.kept _ notInside notInside, parent]
  have linkFree := (Kept.refl final).linkFree parentAfter
  refine ⟨final, renamed, moved, ?_, ?_⟩
  · have resolved := (resolve_eq_ok linkFree).mpr
      ⟨destination.outputNoNul.take (List.prefix_append _ _),
        by rw [parentAfter]; rfl, rfl⟩
    simp only [syncParent, openParent, io, StateAction.mapError,
      StateAction.inspect, UnpackRequest.synced, absolute, resolved]
    cases request.bare <;> rfl
  · have missing := moved.gone []
    rw [List.append_nil] at missing
    exact removeDirAll_missing linkFree missing

/-- When all entries are made and the destination is still free, the archive is
unpacked. -/
theorem Destination.unpack_of_populated
    (destination : Destination disk request)
    (prepares : prepareStaging backends file limits maxTempBytes request disk =
      (.ok parsed, prepared))
    (populates : populate backends file limits parsed request.staging prepared =
      (.ok (), populated))
    {metadata : Metadata}
    (parent : populated.look request.outputParent =
      some (.directory metadata))
    (present : (populated.look request.staging).isSome)
    (free : populated.look request.outputDir = none) :
    ∃ final,
      unpack backends file limits maxTempBytes request disk =
        (request.synced, final) ∧
      Moved populated request.staging request.outputDir final := by
  obtain ⟨final, renamed, moved, synced, cleaned⟩ :=
    destination.publish_ok parent present free
  refine ⟨final, ?_, moved⟩
  have publishes : io (rename (absolute request.staging)
      (absolute request.outputDir)) populated = (.ok (), final) := by
    rw [io, StateAction.mapError, renamed]
  have cleanup : (io (removeDirAll (absolute request.staging)) final).2 =
      final := by
    rw [io, StateAction.mapError_snd, cleaned]
  rw [unpack, StateAction.bind_of_ok prepares, StateAction.cleanupAfter,
    StateAction.bind_of_ok populates, StateAction.bind_of_ok publishes, synced,
    cleanup]

/-- When an entry cannot be made, nothing is published. -/
theorem unpack_of_unpopulated
    (prepares : prepareStaging backends file limits maxTempBytes request disk =
      (.ok parsed, prepared))
    {failure : PithosError}
    (populates : populate backends file limits parsed request.staging prepared =
      (.error failure, populated)) :
    unpack backends file limits maxTempBytes request disk =
      (.error failure,
        (removeDirAll (absolute request.staging) populated).2) := by
  rw [unpack, StateAction.bind_of_ok prepares, StateAction.cleanupAfter,
    StateAction.bind_of_error populates, io, StateAction.mapError_snd]

/-- The outcomes of unpacking a verified archive at a free destination. -/
inductive UnpackOutcome
    (backends : Backends)
    (file : List UInt8)
    (limits : DecodeLimits)
    (parsed : ParsedArchive)
    (request : UnpackRequest)
    (disk prepared : Disk) :
    Result Unit × Disk → Prop
  | unpacked (populated final : Disk)
      (staged : Staged (fileBytes backends file limits parsed) parsed.entries
        prepared request.staging (creationOrder parsed.entries) populated)
      (published : Published prepared populated request final) :
      UnpackOutcome backends file limits parsed request disk prepared
        (request.synced, final)
  | failed (failure : PithosError) (final : Disk)
      (notRestorable : ¬Restorable parsed.entries)
      (notPublished : final.look request.outputDir = none) :
      UnpackOutcome backends file limits parsed request disk prepared
        (.error failure, final)

/-- What stands outside the staging directory stands there still. -/
theorem Prepared.look_of_outside
    (isPrepared : Prepared disk request prepared)
    (destination : Destination disk request)
    (outside : SameOutside request.staging prepared populated) :
    (∃ metadata, populated.look request.outputParent =
      some (.directory metadata)) ∧
      populated.look request.outputDir = none := by
  constructor
  · obtain ⟨metadata, found⟩ := isPrepared.parent
    refine ⟨metadata, ?_⟩
    rw [outside, found]
    intro isPrefix
    have := isPrefix.length_le
    rw [UnpackRequest.staging, List.length_append,
      List.length_singleton] at this
    omega
  · rw [outside]
    · exact isPrepared.outputFree
    · have := @not_isPrefix_sibling request.outputParent request.stagingName
        request.outputName destination.different []
      rwa [List.append_nil] at this

/-- Unpacking an archive with flat links at a free destination. -/
theorem Destination.unpack_outcome
    (destination : Destination disk request)
    (verified : verifyOpenFile backends file limits = .ok parsed)
    (fits : parsed.report.originalBytes ≤ maxTempBytes)
    (flat : LinksFlat parsed.entries) :
    ∃ prepared, Prepared disk request prepared ∧
      prepareStaging backends file limits maxTempBytes request disk =
        (.ok parsed, prepared) ∧
      UnpackOutcome backends file limits parsed request disk prepared
        (unpack backends file limits maxTempBytes request disk) := by
  obtain ⟨prepared, ran, isPrepared⟩ :=
    @Destination.prepareStaging_ok backends file limits maxTempBytes parsed
      request disk destination verified fits
  refine ⟨prepared, isPrepared, ran, ?_⟩
  have loop := populate_run (verified_of_verifyOpenFile verified) flat
    destination.stagingNoNul prepared
    (isPrepared.staged (fileBytes backends file limits parsed) parsed.entries)
  match populating : populate backends file limits parsed request.staging
      prepared with
  | (.ok _, populated) =>
      rw [populating] at loop
      obtain ⟨⟨metadata, parent⟩, free⟩ :=
        isPrepared.look_of_outside destination loop.outside
      obtain ⟨_, root⟩ := loop.root
      obtain ⟨final, unpacks, moved⟩ := destination.unpack_of_populated ran
        populating parent (by rw [root]; rfl) free
      rw [unpacks]
      refine .unpacked populated final loop ⟨moved.inodes, moved.arrived, ?_⟩
      intro location notStaging notOutput
      rw [moved.kept location notStaging notOutput,
        loop.outside location notStaging]
  | (.error failure, populated) =>
      rw [populating] at loop
      rw [unpack_of_unpopulated ran populating]
      refine .failed failure _ loop.2 (look_removeDirAll_eq_none ?_)
      exact (isPrepared.look_of_outside destination loop.1).2

/-- A verified archive fits in the limit it was verified with. -/
theorem originalBytes_le_of_verified
    (verified : verifyOpenFile backends file limits = .ok parsed) :
    parsed.report.originalBytes ≤ limits.maxOriginalBytes := by
  obtain ⟨read, accepted, _, rfl⟩ := verifyOpenFile_eq_ok.mp verified
  obtain ⟨container, _, tables, catalog⟩ := readCatalog_eq_ok.mp accepted
  obtain ⟨_, _, ok, rfl⟩ := catalog
  have bound := ok.sizeLimit
  have maximum := limits.maxOriginalBytes.toNat_lt
  have size := @scanEntries_originalSize tables.entries (by omega)
  change (scanEntries tables.entries).originalSize ≤ limits.maxOriginalBytes
  rw [UInt64.le_iff_toNat_le, size]
  exact bound

/-- Entries that fit in one tree are unpacked at a destination in a directory. -/
theorem Destination.unpack_ok_of_restorable
    (destination : Destination disk request)
    (inDirectory : request.bare = false)
    (verified : verifyOpenFile backends file limits = .ok parsed)
    (restorable : Restorable parsed.entries) :
    (unpack backends file limits limits.maxOriginalBytes request disk).1 =
      .ok () := by
  obtain ⟨_, _, _, outcome⟩ := destination.unpack_outcome verified
    (originalBytes_le_of_verified verified) restorable.linksFlat
  generalize unpack backends file limits limits.maxOriginalBytes request
    disk = result at outcome
  cases outcome with
  | unpacked populated final staged published =>
      simp [UnpackRequest.synced, inDirectory]
  | failed failure final notRestorable notPublished =>
      exact absurd restorable notRestorable

end Transaction

end Pithos
