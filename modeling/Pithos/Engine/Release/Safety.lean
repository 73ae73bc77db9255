import Pithos.Engine.Crates
import Pithos.Engine.Release.Defs
import Pithos.Library.DiskContents

/-!
# What a failed read releases

Whatever stops them, `readRange`, `extract` and `unpack` release only bytes that
have passed the checks of their entry: the stream is written, and the spool
published, after the hash was compared, and `unpack` verifies the whole archive
before it makes the first file.  `extractToWriter` writes before it compares the
BLAKE3 hash, so it releases the bytes of an entry that does not have the hash
recorded for it.
-/

namespace Pithos

open Fallible
open Bytes
open FileTree
open HostPath
open Disk
open FaultyDisk

/-! ## Steps that release nothing -/

section Quiet

open StateAction (Respects)

/-- An action that leaves all contents alone and names no new file. -/
abbrev Quiet {Value : Type} (action : FaultyEngine Value) : Prop :=
  Respects (OnDisk Rearranged) action

variable {Value : Type}

theorem quiet_faultyIo
    {operation : StateAction FaultyDisk IoErrorKind Value}
    (respects : Respects (OnDisk Rearranged) operation) :
    Quiet (faultyIo operation) :=
  respects.mapError

theorem quiet_exposed
    {path : List Component}
    {operation : StateAction Disk IoErrorKind Value}
    (respects : Respects Rearranged operation) :
    Quiet (faultyIo (exposed path operation)) :=
  quiet_faultyIo (respects_exposed respects)

theorem quiet_lift (result : Result Value) :
    Quiet (StateAction.lift result) :=
  StateAction.respects_lift result

theorem quiet_checkpoint : Quiet checkpoint :=
  (respects_exposed (StateAction.respects_pure ())).mapError

theorem quiet_touch : Quiet touch :=
  quiet_exposed (StateAction.respects_pure ())

theorem quiet_createDirAll (path : List Component) :
    Quiet (faultyIo (FaultyDisk.createDirAll path)) :=
  quiet_faultyIo (respects_createDirAll path)

theorem quiet_stat (path : List Component) : Quiet (faultyIo (stat path)) := by
  refine quiet_faultyIo fun faulty => ?_
  have looked := @respects_exposed Rearranged Label _ path _
    (StateAction.respects_inspect fun disk => disk.symlinkMetadata path) faulty
  unfold stat
  split
  all_goals
    rename_i ran
    rw [ran] at looked
    exact looked

theorem quiet_refuseExisting (path : List Component) :
    Quiet (refuseExistingFaulty path) :=
  (quiet_stat path).bind fun _ => quiet_lift _

theorem quiet_ensureDirectory (path : List Component) :
    Quiet (ensureDirectoryFaulty path) := by
  refine (quiet_stat path).bind fun found => ?_
  split
  · exact StateAction.respects_fail _
  · exact StateAction.respects_pure ()
  · exact StateAction.respects_fail _
  · exact quiet_exposed (respects_mkdir path)

theorem quiet_ensureDirectories (rest current : List Component) :
    Quiet (ensureDirectoriesFaulty current rest) := by
  induction rest generalizing current with
  | nil => exact StateAction.respects_pure ()
  | cons component rest inductionHypothesis =>
      exact (quiet_ensureDirectory _).bind fun _ => inductionHypothesis _

theorem quiet_prepareExtractParent
    (outputDir : List Component)
    (path : ArchivePath) :
    Quiet (prepareExtractParentFaulty outputDir path) :=
  (quiet_createDirAll outputDir).bind fun _ =>
    (quiet_exposed (StateAction.respects_inspect _)).bind fun _ =>
      (quiet_lift _).bind fun _ => (quiet_lift _).bind fun _ =>
        quiet_ensureDirectories _ _

end Quiet

/-! ## What passes the checks -/

/-- The bytes that the group of a requested entry decodes to, and the entry that
records their hash. -/
def requestedBytes
    (backends : Backends)
    (file : List UInt8)
    (limits : DecodeLimits)
    (requested : Path) : Result (EntryRecord × List UInt8) := do
  let selector ← ArchivePath.fromRelative requested
  let parsed ← readCatalog backends file limits
  let selected ← selectEntry parsed.entries selector
  let source ← fileSourceEntry selected parsed.entries
  let groupId ← okOr source.kind.groupId? (.invalidMetadata "file source")
  let group ← okOr parsed.groups[groupId.toNat]? (.invalidMetadata "entry group")
  let restore ← restoreForEntry parsed.restoreMap source.entryId
  let decoded ← decodeGroup backends file group parsed.codecRegistry limits
  let bytes ← restoredSlice decoded restore 0 restore.length
  .ok (source, bytes)

theorem requestedBytes_eq_ok
    {backends : Backends}
    {file : List UInt8}
    {limits : DecodeLimits}
    {requested : Path}
    {source : EntryRecord}
    {bytes : List UInt8} :
    requestedBytes backends file limits requested = .ok (source, bytes) ↔
      ∃ selector parsed selected groupId group restore decoded,
        ArchivePath.fromRelative requested = .ok selector ∧
        readCatalog backends file limits = .ok parsed ∧
        selectEntry parsed.entries selector = .ok selected ∧
        fileSourceEntry selected parsed.entries = .ok source ∧
        source.kind.groupId? = some groupId ∧
        parsed.groups[groupId.toNat]? = some group ∧
        restoreForEntry parsed.restoreMap source.entryId = .ok restore ∧
        decodeGroup backends file group parsed.codecRegistry limits =
          .ok decoded ∧
        restoredSlice decoded restore 0 restore.length = .ok bytes := by
  simp only [requestedBytes, bind_eq_ok, okOr_eq_ok, Except.ok.injEq,
    Prod.mk.injEq]
  constructor
  · rintro ⟨selector, isSelector, parsed, isParsed, selected, isSelected, _,
      isSource, groupId, isGroupId, group, isGroup, restore, isRestore, decoded,
      isDecoded, _, isWhole, rfl, rfl⟩
    exact ⟨selector, parsed, selected, groupId, group, restore, decoded,
      isSelector, isParsed, isSelected, isSource, isGroupId, isGroup, isRestore,
      isDecoded, isWhole⟩
  · rintro ⟨selector, parsed, selected, groupId, group, restore, decoded,
      isSelector, isParsed, isSelected, isSource, isGroupId, isGroup, isRestore,
      isDecoded, isWhole⟩
    exact ⟨selector, isSelector, parsed, isParsed, selected, isSelected, source,
      isSource, groupId, isGroupId, group, isGroup, restore, isRestore, decoded,
      isDecoded, bytes, isWhole, rfl, rfl⟩

/-- The requested entry has these bytes, and they have passed its checks. -/
def Passed
    (backends : Backends)
    (file : List UInt8)
    (limits : DecodeLimits)
    (requested : Path)
    (bytes : List UInt8) : Prop :=
  ∃ source, requestedBytes backends file limits requested =
    .ok (source, bytes) ∧ backends.digests.blake3 bytes = source.blake3

/-- The requested entry has bytes that do not have its hash. -/
def Corrupt
    (backends : Backends)
    (file : List UInt8)
    (limits : DecodeLimits)
    (requested : Path) : Prop :=
  ∃ source bytes, requestedBytes backends file limits requested =
    .ok (source, bytes) ∧ bytes ≠ [] ∧
      backends.digests.blake3 bytes ≠ source.blake3

/-- The bytes of some file entry of a verified archive. -/
def VerifiedBytes
    (backends : Backends)
    (file : List UInt8)
    (limits : DecodeLimits)
    (bytes : List UInt8) : Prop :=
  ∃ parsed source groupId group restore decoded,
    verifyOpenFile backends file limits = .ok parsed ∧
      source ∈ parsed.entries ∧
        FileRead backends file limits parsed source groupId group restore
          decoded bytes

/-- Whatever stops the action, the stream has got a part of bytes that have
passed the checks, if anything. -/
def WriterSafe
    {Value : Type}
    (passed : List UInt8 → Prop)
    (action : FaultyWriter Value) : Prop :=
  ∀ start failure after, action start = (.error failure, after) →
    ∃ released, after.output = start.output ++ released ∧
      (released = [] ∨ ∃ whole, passed whole ∧ released <:+: whole)

/-- Whatever stops the action, wherever a file stands then, it is an old file
with its old contents, empty, or holds bytes that have passed the checks. -/
def DiskSafe
    {Value : Type}
    (passed : List UInt8 → Prop)
    (action : FaultyEngine Value) : Prop :=
  ∀ start failure after, Stored start.disk →
    action start = (.error failure, after) →
      Released start.disk (fun content => content = [] ∨ passed content)
        after.disk

/-! ## Streams release what has passed -/

section Stream

variable
  {backends : Backends}
  {file : List UInt8}
  {limits : DecodeLimits}
  {requested : Path}
  {passed : List UInt8 → Prop}

/-- What a stream may hold when an action is stopped. -/
def ReleasedTo
    (passed : List UInt8 → Prop)
    (before : List UInt8)
    (streaming : Streaming) : Prop :=
  ∃ released, streaming.output = before ++ released ∧
    (released = [] ∨ ∃ whole, passed whole ∧ released <:+: whole)

theorem ReleasedTo.nothing
    {before : List UInt8}
    {streaming : Streaming}
    (same : streaming.output = before) :
    ReleasedTo passed before streaming :=
  ⟨[], by rw [same, List.append_nil], .inl rfl⟩

theorem writerSafe_of_triple
    {Value : Type}
    {action : FaultyWriter Value}
    (triple : ∀ before, StateAction.Triple
      (fun streaming => streaming.output = before) action (fun _ _ => True)
      (fun _ => ReleasedTo passed before)) :
    WriterSafe passed action := by
  intro start failure after ran
  have result := triple start.output start rfl
  rw [ran] at result
  exact result

theorem stop_triple
    {success : Unit → Streaming → Prop}
    {failed : PithosError → Streaming → Prop}
    {before : Streaming → Prop}
    (goesOn : ∀ streaming stops, before streaming →
      success () { streaming with stops := stops })
    (isStopped : ∀ streaming stops failure, before streaming →
      failed failure { streaming with stops := stops }) :
    StateAction.Triple before stop success failed := by
  intro streaming holds
  unfold stop
  cases streaming.stops.head?.join with
  | none => exact goesOn streaming _ holds
  | some failure => exact isStopped streaming _ failure holds

/-- Before anything is written, an action may be stopped. -/
theorem stop_untouched (before : List UInt8) :
    StateAction.Triple (fun streaming => streaming.output = before) stop
      (fun _ streaming => streaming.output = before)
      (fun _ => ReleasedTo passed before) :=
  stop_triple (fun _ _ same => same) (fun _ _ _ same => .nothing same)

theorem deliver_triple (before bytes : List UInt8) :
    StateAction.Triple (fun streaming => streaming.output = before)
      (deliver bytes) (fun _ streaming => streaming.output = before ++ bytes)
      (fun _ => ReleasedTo passed before) := by
  intro streaming same
  change streaming.output ++ bytes = before ++ bytes
  rw [same]

/-- A range is a part of the bytes of its entry. -/
theorem restoredSlice_infix
    {decoded whole range : List UInt8}
    {restore : RestoreMapRecord}
    {offset length : UInt64}
    (isWhole : restoredSlice decoded restore 0 restore.length = .ok whole)
    (isRange : restoredSlice decoded restore offset length = .ok range) :
    range <:+: whole := by
  obtain ⟨_, _, _, rfl⟩ := restoredSlice_eq_ok.mp isWhole
  obtain ⟨within, _, _, rfl⟩ := restoredSlice_eq_ok.mp isRange
  rw [UInt64.toNat_zero, Nat.add_zero,
    ← Bytes.slice_slice decoded within]
  exact (List.take_prefix _ _).isInfix.trans (List.drop_suffix _ _).isInfix

/-- A range is written after the hash of its entry was compared. -/
theorem readRangeFaulty_safe (offset length : UInt64) :
    WriterSafe (Passed backends file limits requested)
      (readRangeFaulty backends file limits requested offset length) := by
  refine writerSafe_of_triple fun before => ?_
  have quiet {Value : Type} {result : Result Value} :
      ∀ failure, result = .error failure → ∀ streaming : Streaming,
        streaming.output = before →
          ReleasedTo (Passed backends file limits requested) before streaming :=
    fun _ _ _ same => .nothing same
  unfold readRangeFaulty
  refine .bind (stop_untouched before) fun _ => ?_
  refine .lift_bind (fun _ _ => ?_) quiet
  refine .lift_bind (fun selector isSelector => ?_) quiet
  refine .bind (stop_untouched before) fun _ => ?_
  refine .bind (stop_untouched before) fun _ => ?_
  refine .lift_bind (fun parsed isParsed => ?_) quiet
  refine .lift_bind (fun selected isSelected => ?_) quiet
  refine .lift_bind (fun source isSource => ?_) quiet
  refine .lift_bind (fun _ _ => ?_) quiet
  refine .lift_bind (fun _ _ => ?_) quiet
  refine .lift_bind (fun groupId isGroupId => ?_) quiet
  refine .lift_bind (fun group isGroup => ?_) quiet
  refine .lift_bind (fun restore isRestore => ?_) quiet
  refine .bind (stop_untouched before) fun _ => ?_
  generalize decodes : decodeGroup backends file group parsed.codecRegistry
    limits = decoding
  refine .lift_bind (fun decoded isDecoded => ?_) quiet
  refine .lift_bind (fun whole isWhole => ?_) quiet
  refine .lift_bind (fun _ hash => ?_) quiet
  refine .lift_bind (fun range isRange => ?_) quiet
  refine .bind (deliver_triple before range) fun _ => ?_
  have isRequested := requestedBytes_eq_ok.mpr ⟨selector, parsed, selected,
    groupId, group, restore, decoded, isSelector, isParsed, isSelected, isSource,
    okOr_eq_ok.mp isGroupId, okOr_eq_ok.mp isGroup, isRestore,
    decodes.trans isDecoded, isWhole⟩
  have isPassed : Passed backends file limits requested whole :=
    ⟨source, isRequested, (ensure_eq_ok.mp hash)⟩
  refine .lift_bind (fun _ _ => .pure fun _ _ => trivial) ?_
  exact fun _ _ streaming same =>
    ⟨range, same, .inr ⟨whole, isPassed, restoredSlice_infix isWhole isRange⟩⟩

/-- All is written before the hash is compared. -/
theorem extractToWriterFaulty_safe
    (intact : ¬ Corrupt backends file limits requested) :
    WriterSafe (Passed backends file limits requested)
      (extractToWriterFaulty backends file limits requested) := by
  refine writerSafe_of_triple fun before => ?_
  have quiet {Value : Type} {result : Result Value} :
      ∀ failure, result = .error failure → ∀ streaming : Streaming,
        streaming.output = before →
          ReleasedTo (Passed backends file limits requested) before streaming :=
    fun _ _ _ same => .nothing same
  unfold extractToWriterFaulty
  refine .bind (stop_untouched before) fun _ => ?_
  refine .lift_bind (fun selector isSelector => ?_) quiet
  refine .bind (stop_untouched before) fun _ => ?_
  refine .bind (stop_untouched before) fun _ => ?_
  refine .lift_bind (fun parsed isParsed => ?_) quiet
  refine .lift_bind (fun selected isSelected => ?_) quiet
  refine .lift_bind (fun source isSource => ?_) quiet
  refine .lift_bind (fun groupId isGroupId => ?_) quiet
  refine .lift_bind (fun group isGroup => ?_) quiet
  refine .lift_bind (fun restore isRestore => ?_) quiet
  refine .bind (stop_untouched before) fun _ => ?_
  generalize decodes : decodeGroup backends file group parsed.codecRegistry
    limits = decoding
  refine .lift_bind (fun decoded isDecoded => ?_) quiet
  refine .lift_bind (fun whole isWhole => ?_) quiet
  refine .bind (deliver_triple before whole) fun _ => ?_
  have isRequested := requestedBytes_eq_ok.mpr ⟨selector, parsed, selected,
    groupId, group, restore, decoded, isSelector, isParsed, isSelected, isSource,
    okOr_eq_ok.mp isGroupId, okOr_eq_ok.mp isGroup, isRestore,
    decodes.trans isDecoded, isWhole⟩
  refine .lift_bind (fun _ _ => .pure fun _ _ => trivial) ?_
  intro failure mismatch streaming same
  by_cases empty : whole = []
  · exact .nothing (by rw [same, empty, List.append_nil])
  · by_cases hash : backends.digests.blake3 whole = source.blake3
    · exact ⟨whole, same, .inr ⟨whole, ⟨source, isRequested, hash⟩,
        List.infix_refl _⟩⟩
    · exact absurd ⟨source, whole, isRequested, empty, hash⟩ intact

/-- A run that nothing stops hands out the bytes of a corrupt entry. -/
theorem extractToWriterFaulty_corrupt
    {source : EntryRecord}
    {bytes : List UInt8}
    (isRequested : requestedBytes backends file limits requested =
      .ok (source, bytes))
    (differs : backends.digests.blake3 bytes ≠ source.blake3) :
    extractToWriterFaulty backends file limits requested ⟨[], []⟩ =
      (.error .hashMismatch, ⟨bytes, []⟩) := by
  obtain ⟨selector, parsed, selected, groupId, group, restore, decoded,
    isSelector, isParsed, isSelected, isSource, isGroupId, isGroup, isRestore,
    isDecoded, isWhole⟩ := requestedBytes_eq_ok.mp isRequested
  have goesOn (next : Unit → FaultyWriter ExtractReport) :
      (stop >>= next) ⟨[], []⟩ = next () ⟨[], []⟩ := rfl
  rw [extractToWriterFaulty, goesOn, isSelector, StateAction.lift_ok_bind,
    goesOn, goesOn, isParsed, StateAction.lift_ok_bind, isSelected,
    StateAction.lift_ok_bind, isSource, StateAction.lift_ok_bind, isGroupId,
    okOr_some, StateAction.lift_ok_bind, isGroup, okOr_some,
    StateAction.lift_ok_bind, isRestore, StateAction.lift_ok_bind, goesOn,
    isDecoded, StateAction.lift_ok_bind, isWhole, StateAction.lift_ok_bind,
    ensure_of_not differs]
  rfl

theorem extractToWriterFaulty_safe_iff :
    WriterSafe (Passed backends file limits requested)
        (extractToWriterFaulty backends file limits requested) ↔
      ¬ Corrupt backends file limits requested := by
  refine ⟨fun safe corrupt => ?_, extractToWriterFaulty_safe⟩
  obtain ⟨source, bytes, isRequested, notEmpty, differs⟩ := corrupt
  obtain ⟨released, isReleased, nothing | ⟨whole, ⟨other, isOther, hash⟩, _⟩⟩ :=
    safe _ _ _ (extractToWriterFaulty_corrupt isRequested differs)
  · rw [nothing] at isReleased
    exact notEmpty isReleased
  · rw [isRequested] at isOther
    cases isOther
    exact differs hash

end Stream

/-! ## The disk gets what has passed -/

section OnTheDisk

variable
  {Value : Type}
  {start : Disk}
  {holds : List UInt8 → Prop}
  {spool : Nat}
  {content : List UInt8}

/-- What a disk may hold when an action is stopped. -/
abbrev ReleasedOnDisk
    (passed : List UInt8 → Prop)
    (start : Disk)
    (faulty : FaultyDisk) : Prop :=
  Released start (fun content => content = [] ∨ passed content) faulty.disk

theorem diskSafe_of_triple
    {passed : List UInt8 → Prop}
    {action : FaultyEngine Value}
    (triple : ∀ start, StateAction.Triple (ReleasedOnDisk passed start) action
      (fun _ => ReleasedOnDisk passed start)
      (fun _ => ReleasedOnDisk passed start)) :
    DiskSafe passed action := by
  intro begin failure after stored ran
  have result := triple begin.disk begin stored.released
  rw [ran] at result
  exact result

/-- A quiet action keeps what has been released. -/
theorem Quiet.released
    {action : FaultyEngine Value}
    (quiet : Quiet action) :
    StateAction.Triple (fun faulty => Released start holds faulty.disk) action
      (fun _ faulty => Released start holds faulty.disk)
      (fun _ faulty => Released start holds faulty.disk) :=
  quiet.triple fun _ _ rearranged released => released.rearranged rearranged

/-- A quiet action keeps a spool away from all names. -/
theorem Quiet.spooled
    {action : FaultyEngine Value}
    (quiet : Quiet action) :
    StateAction.Triple
      (fun faulty => Spooled start holds spool content faulty.disk) action
      (fun _ faulty => Spooled start holds spool content faulty.disk)
      (fun _ faulty => Released start holds faulty.disk) :=
  (quiet.triple fun _ _ rearranged spooled =>
      spooled.rearranged rearranged).consequence (fun _ => id) (fun _ _ => id)
    fun _ _ spooled => spooled.toReleased

/-- A quiet action keeps a new file empty. -/
theorem Quiet.opened
    {action : FaultyEngine Value}
    (quiet : Quiet action) :
    StateAction.Triple
      (fun faulty => Opened start holds spool faulty.disk) action
      (fun _ faulty => Opened start holds spool faulty.disk)
      (fun _ faulty => Released start holds faulty.disk) :=
  (quiet.triple fun _ _ rearranged opened =>
      opened.rearranged rearranged).consequence (fun _ => id) (fun _ _ => id)
    fun _ _ opened => opened.toReleased

/-- A new file with a name is empty. -/
theorem createNew_released
    (emptyHeld : holds [])
    (path : List Component) :
    StateAction.Triple (fun faulty => Released start holds faulty.disk)
      (faultyIo (exposed path (Disk.createNew path)))
      (fun file faulty => Opened start holds file faulty.disk)
      (fun _ faulty => Released start holds faulty.disk) := by
  refine .mapError (exposed_triple ?_ ?_ ?_)
  · exact fun _ _ _ released created => released.createNew emptyHeld created
  · intro _ _ _ released failed
    rw [StateAction.eq_of_attempt_eq_error failed]
    exact released
  · exact fun _ _ released => released

/-- Contents of the kind are written to a new file. -/
theorem writeAll_opened
    {bytes : List UInt8}
    (isHeld : holds bytes) :
    StateAction.Triple
      (fun faulty => Opened start holds spool faulty.disk)
      (faultyIo (exposed [] (writeAll spool bytes)))
      (fun _ faulty => Released start holds faulty.disk)
      (fun _ faulty => Released start holds faulty.disk) := by
  refine .mapError (exposed_triple ?_ ?_ ?_)
  · intro _ _ _ opened written
    cases written
    exact opened.writeAll isHeld
  · intro _ _ _ _ failed
    cases failed
  · exact fun _ _ opened => opened.toReleased

theorem createAtomicSpool_released (destDir : List Component) :
    StateAction.Triple (fun faulty => Released start holds faulty.disk)
      (createAtomicSpoolFaulty destDir)
      (fun spool faulty => Spooled start holds spool [] faulty.disk)
      (fun _ faulty => Released start holds faulty.disk) := by
  refine .bind (quiet_createDirAll destDir).released fun _ => ?_
  refine .mapError (exposed_triple ?_ ?_ ?_)
  · exact fun _ _ _ released created => released.createSpool created
  · intro _ _ _ _ failed
    cases failed
  · exact fun _ _ released => released

theorem writeAll_spooled (bytes : List UInt8) :
    StateAction.Triple
      (fun faulty => Spooled start holds spool content faulty.disk)
      (faultyIo (exposed [] (writeAll spool bytes)))
      (fun _ faulty => Spooled start holds spool (content ++ bytes) faulty.disk)
      (fun _ faulty => Released start holds faulty.disk) := by
  refine .mapError (exposed_triple ?_ ?_ ?_)
  · intro _ _ _ spooled written
    cases written
    exact spooled.writeAll bytes
  · intro _ _ _ _ failed
    cases failed
  · exact fun _ _ spooled => spooled.toReleased

/-- Only a spool with contents of the kind is published. -/
theorem atomicCommitDurable_released
    (isHeld : holds content)
    (targetPath : List Component) :
    StateAction.Triple
      (fun faulty => Spooled start holds spool content faulty.disk)
      (atomicCommitDurable spool targetPath)
      (fun _ faulty => Released start holds faulty.disk)
      (fun _ faulty => Released start holds faulty.disk) := by
  have published : StateAction.Triple
      (fun faulty => Spooled start holds spool content faulty.disk)
      (atomicCommitFaulty spool targetPath)
      (fun _ faulty => Released start holds faulty.disk)
      (fun _ faulty => Released start holds faulty.disk) := by
    refine .bind (quiet_createDirAll _).spooled fun _ => ?_
    refine .bind quiet_touch.spooled fun _ => ?_
    refine .mapError (exposed_triple ?_ ?_ ?_)
    · exact fun _ _ _ spooled published => spooled.publish isHeld published
    · intro _ _ _ spooled failed
      rw [StateAction.eq_of_attempt_eq_error failed]
      exact spooled.toReleased
    · exact fun _ _ spooled => spooled.toReleased
  exact .bind published fun _ =>
    Quiet.released (quiet_touch.bind fun _ => quiet_touch)

end OnTheDisk

section Extraction

variable
  {backends : Backends}
  {file : List UInt8}
  {limits : DecodeLimits}
  {requested : Path}

/-- The spool is published after the hash was compared. -/
theorem extractDurable_safe
    (maxOutputBytes maxTempBytes : UInt64)
    (outputDir : List Component) :
    DiskSafe (Passed backends file limits requested)
      (extractDurable backends file limits maxOutputBytes maxTempBytes outputDir
        requested) := by
  refine diskSafe_of_triple fun start => ?_
  unfold extractDurable extractWith
  refine .bind quiet_checkpoint.released fun _ => ?_
  refine .lift_bind (fun selector isSelector => ?_) fun _ _ _ => id
  refine .bind quiet_touch.released fun _ => ?_
  refine .bind quiet_checkpoint.released fun _ => ?_
  refine .lift_bind (fun parsed isParsed => ?_) fun _ _ _ => id
  refine .lift_bind (fun entry isSelected => ?_) fun _ _ _ => id
  refine .lift_bind (fun relative _ => ?_) fun _ _ _ => id
  have fromSpool : StateAction.Triple
      (ReleasedOnDisk (Passed backends file limits requested) start)
      (extractFileWith durable backends file limits maxOutputBytes maxTempBytes
        outputDir parsed entry relative)
      (fun _ => ReleasedOnDisk (Passed backends file limits requested) start)
      (fun _ =>
        ReleasedOnDisk (Passed backends file limits requested) start) := by
    unfold extractFileWith
    refine .lift_bind (fun source isSource => ?_) fun _ _ _ => id
    refine .lift_bind (fun groupId isGroupId => ?_) fun _ _ _ => id
    refine .lift_bind (fun group isGroup => ?_) fun _ _ _ => id
    refine .lift_bind (fun restore isRestore => ?_) fun _ _ _ => id
    refine .lift_bind (fun _ _ => ?_) fun _ _ _ => id
    refine .lift_bind (fun _ _ => ?_) fun _ _ _ => id
    refine .bind (quiet_prepareExtractParent _ _).released fun _ => ?_
    refine .bind (quiet_refuseExisting _).released fun _ => ?_
    refine .bind (createAtomicSpool_released _) fun spool => ?_
    refine .bind quiet_touch.spooled fun _ => ?_
    refine .bind quiet_checkpoint.spooled fun _ => ?_
    generalize decodes : decodeGroup backends file group parsed.codecRegistry
      limits = decoding
    refine .lift_bind (fun decoded isDecoded => ?_)
      fun _ _ _ spooled => spooled.toReleased
    refine .lift_bind (fun bytes isWhole => ?_)
      fun _ _ _ spooled => spooled.toReleased
    refine .bind (writeAll_spooled bytes) fun _ => ?_
    refine .lift_bind (fun _ hash => ?_)
      fun _ _ _ spooled => spooled.toReleased
    have isPassed : Passed backends file limits requested bytes :=
      ⟨source, requestedBytes_eq_ok.mpr ⟨selector, parsed, entry, groupId, group,
        restore, decoded, isSelector, isParsed, isSelected, isSource,
        okOr_eq_ok.mp isGroupId, okOr_eq_ok.mp isGroup, isRestore,
        decodes.trans isDecoded, isWhole⟩, ensure_eq_ok.mp hash⟩
    refine .bind quiet_checkpoint.spooled fun _ => ?_
    refine .bind (atomicCommitDurable_released (.inr isPassed) _) fun _ => ?_
    exact Quiet.released ((quiet_exposed (respects_setPermissions _ _)).bind
      fun _ => StateAction.respects_pure _)
  cases entry.kind with
  | directory =>
      exact Quiet.released (quiet_checkpoint.bind fun _ =>
        (quiet_prepareExtractParent _ _).bind fun _ =>
          (quiet_refuseExisting _).bind fun _ =>
            (quiet_createDirAll _).bind fun _ => StateAction.respects_pure _)
  | symlink target targetIsDir =>
      exact Quiet.released (quiet_checkpoint.bind fun _ =>
        (quiet_prepareExtractParent _ _).bind fun _ =>
          (quiet_refuseExisting _).bind fun _ =>
            (quiet_lift _).bind fun _ => (quiet_lift _).bind fun _ =>
              (quiet_exposed (respects_symlink _ _)).bind fun _ =>
                StateAction.respects_pure _)
  | file groupId => exact fromSpool
  | hardlink target => exact fromSpool

end Extraction

section Unpacking

variable
  {backends : Backends}
  {file : List UInt8}
  {limits : DecodeLimits}
  {parsed : ParsedArchive}
  {start : Disk}

/-- What the group of a file entry decodes to in a verified archive. -/
theorem verifiedBytes_of_restoredSlice
    (accepted : verifyOpenFile backends file limits = .ok parsed)
    {entry : EntryRecord}
    {groupId : UInt64}
    (member : entry ∈ parsed.entries)
    (isFile : entry.kind = .file groupId)
    {group : GroupTableRecord}
    {restore : RestoreMapRecord}
    {decoded bytes : List UInt8}
    (groupFound : groupById parsed.groups groupId = some group)
    (restoreFound : restoreForEntry parsed.restoreMap entry.entryId = .ok restore)
    (decodes : decodeGroup backends file group parsed.codecRegistry limits =
      .ok decoded)
    (sliced : restoredSlice decoded restore 0 restore.length = .ok bytes) :
    VerifiedBytes backends file limits bytes := by
  obtain ⟨sameGroup, sameRestore, sameDecoded, isGroup, read⟩ :=
    (verified_of_verifyOpenFile accepted).files entry member groupId isFile
  obtain rfl := Option.some.inj (groupFound.symm.trans isGroup)
  obtain rfl := Except.ok.inj (restoreFound.symm.trans read.restoreFound)
  obtain rfl := Except.ok.inj (decodes.symm.trans read.decodes)
  rw [Except.ok.inj (sliced.symm.trans read.sliced)]
  exact ⟨parsed, entry, groupId, group, restore, decoded, accepted, member, read⟩

theorem unpackFile_released
    (accepted : verifyOpenFile backends file limits = .ok parsed)
    {entry : EntryRecord}
    {groupId : UInt64}
    (member : entry ∈ parsed.entries)
    (isFile : entry.kind = .file groupId)
    (staging : Location) :
    StateAction.Triple
      (ReleasedOnDisk (VerifiedBytes backends file limits) start)
      (unpackFileFaulty backends file limits parsed staging entry groupId)
      (fun _ => ReleasedOnDisk (VerifiedBytes backends file limits) start)
      (fun _ => ReleasedOnDisk (VerifiedBytes backends file limits) start) := by
  unfold unpackFileFaulty
  refine .lift_bind (fun group isGroup => ?_) fun _ _ _ => id
  refine .lift_bind (fun restore isRestore => ?_) fun _ _ _ => id
  refine .lift_bind (fun relative _ => ?_) fun _ _ _ => id
  refine .bind (quiet_createDirAll _).released fun _ => ?_
  refine .bind (createNew_released (.inl rfl) _) fun inode => ?_
  refine .bind quiet_touch.opened fun _ => ?_
  refine .bind quiet_checkpoint.opened fun _ => ?_
  generalize decodes : decodeGroup backends file group parsed.codecRegistry
    limits = decoding
  refine .lift_bind (fun decoded isDecoded => ?_)
    fun _ _ _ opened => opened.toReleased
  refine .lift_bind (fun bytes isWhole => ?_)
    fun _ _ _ opened => opened.toReleased
  have isVerified := verifiedBytes_of_restoredSlice accepted member isFile
    (okOr_eq_ok.mp isGroup) isRestore (decodes.trans isDecoded) isWhole
  refine .bind (writeAll_opened (.inr isVerified)) fun _ => ?_
  exact Quiet.released ((quiet_lift _).bind fun _ =>
    quiet_touch.bind fun _ => quiet_exposed (respects_setPermissions _ _))

theorem unpackEntry_released
    (accepted : verifyOpenFile backends file limits = .ok parsed)
    {entry : EntryRecord}
    (member : entry ∈ parsed.entries)
    (staging : Location) :
    StateAction.Triple
      (ReleasedOnDisk (VerifiedBytes backends file limits) start)
      (unpackEntryFaulty backends file limits parsed staging entry)
      (fun _ => ReleasedOnDisk (VerifiedBytes backends file limits) start)
      (fun _ => ReleasedOnDisk (VerifiedBytes backends file limits) start) := by
  refine .bind quiet_checkpoint.released fun _ => ?_
  cases kind : entry.kind with
  | directory =>
      exact Quiet.released ((quiet_lift _).bind fun _ => quiet_createDirAll _)
  | file groupId => exact unpackFile_released accepted member kind staging
  | hardlink targetEntryId =>
      exact Quiet.released ((quiet_lift _).bind fun _ => (quiet_lift _).bind
        fun _ => (quiet_createDirAll _).bind fun _ => (quiet_lift _).bind
          fun _ => quiet_exposed (respects_hardLink _ _))
  | symlink target targetIsDir =>
      exact Quiet.released ((quiet_lift _).bind fun _ => (quiet_lift _).bind
        fun _ => (quiet_createDirAll _).bind fun _ => (quiet_lift _).bind
          fun _ => quiet_exposed (respects_symlink _ _))

theorem populate_released
    (accepted : verifyOpenFile backends file limits = .ok parsed)
    (staging : Location) :
    StateAction.Triple
      (ReleasedOnDisk (VerifiedBytes backends file limits) start)
      (populateFaulty backends file limits parsed staging)
      (fun _ => ReleasedOnDisk (VerifiedBytes backends file limits) start)
      (fun _ => ReleasedOnDisk (VerifiedBytes backends file limits) start) := by
  have each (kinds : EntryRecord → Bool) : StateAction.Triple
      (ReleasedOnDisk (VerifiedBytes backends file limits) start)
      (StateAction.forEach
        (unpackEntryFaulty backends file limits parsed staging)
        (parsed.entries.filter kinds))
      (fun _ => ReleasedOnDisk (VerifiedBytes backends file limits) start)
      (fun _ => ReleasedOnDisk (VerifiedBytes backends file limits) start) := by
    refine .forEach (fun _ => ReleasedOnDisk
      (VerifiedBytes backends file limits) start) ?_
    intro done entry rest split
    have listed : entry ∈ parsed.entries.filter kinds := by simp [split]
    exact unpackEntry_released accepted (List.mem_of_mem_filter listed) staging
  exact .bind (each _) fun _ => .bind (each _) fun _ =>
    .bind (each _) fun _ => each _

theorem quiet_createOutputParent (request : UnpackRequest) :
    Quiet (createOutputParentFaulty request) := by
  unfold createOutputParentFaulty
  split
  · exact StateAction.respects_pure ()
  · exact quiet_createDirAll _

theorem quiet_syncParent (request : UnpackRequest) :
    Quiet (syncParentFaulty request) :=
  (quiet_exposed (StateAction.respects_inspect _)).bind fun _ => quiet_touch

/-- Everything is verified before the first file is made. -/
theorem unpackFaulty_safe
    (maxTempBytes : UInt64)
    (request : UnpackRequest) :
    DiskSafe (VerifiedBytes backends file limits)
      (unpackFaulty backends file limits maxTempBytes request) := by
  refine diskSafe_of_triple fun start => ?_
  unfold unpackFaulty
  refine .bind quiet_checkpoint.released fun _ => ?_
  refine .bind (quiet_refuseExisting _).released fun _ => ?_
  refine .bind quiet_touch.released fun _ => ?_
  refine .bind quiet_touch.released fun _ => ?_
  refine .bind quiet_checkpoint.released fun _ => ?_
  refine .lift_bind (fun parsed accepted => ?_) fun _ _ _ => id
  refine .lift_bind (fun _ _ => ?_) fun _ _ _ => id
  refine .bind (quiet_createOutputParent request).released fun _ => ?_
  refine .bind (quiet_faultyIo (respects_exposed (respects_mkdir _))).released
    fun _ => ?_
  refine .cleanupAfter ?_ (quiet_exposed (respects_removeDirAll _)).released
  refine .bind (populate_released accepted _) fun _ => ?_
  exact Quiet.released (quiet_checkpoint.bind fun _ =>
    (quiet_exposed (respects_rename _ _)).bind fun _ =>
      quiet_syncParent request)

end Unpacking

/-! ## What is released -/

/-- Whatever stops them, the four operations release only what has passed its
checks, unless the requested entry does not have its hash. -/
theorem released_passed_iff
    (backends : Backends)
    (file : List UInt8)
    (limits : DecodeLimits)
    (requested : Path) :
    (WriterSafe (Passed backends file limits requested)
        (extractToWriterFaulty backends file limits requested) ∧
      (∀ offset length, WriterSafe (Passed backends file limits requested)
        (readRangeFaulty backends file limits requested offset length)) ∧
      (∀ maxOutputBytes maxTempBytes outputDir,
        DiskSafe (Passed backends file limits requested)
          (extractDurable backends file limits maxOutputBytes maxTempBytes
            outputDir requested)) ∧
      ∀ maxTempBytes request, DiskSafe (VerifiedBytes backends file limits)
        (unpackFaulty backends file limits maxTempBytes request)) ↔
      ¬ Corrupt backends file limits requested := by
  rw [extractToWriterFaulty_safe_iff]
  constructor
  · rintro ⟨intact, _⟩
    exact intact
  · intro intact
    exact ⟨intact, readRangeFaulty_safe, extractDurable_safe, unpackFaulty_safe⟩

/-- A file whose recorded hash is not its own. -/
def corruptEntry : EntryRecord where
  entryId := 0
  path := ⟨[utf8Component "f"]⟩
  size := 1
  modifiedNs := 0
  mode := 0o644
  blake3 := zeros 32
  kind := .file 0

/-- The group of the file. -/
def corruptGroup : GroupTableRecord where
  group := {
    version := 1
    flags := 0
    groupId := 0
    codecChainId := 0
    chunkCount := 1
    uncompressedLen := 1
    compressedLen := 1
    descriptorLen := 0
    payloadCrc32c := Digests.crates.crc32c [0x61] }
  payloadOffset := 288

/-- The archive of the file. -/
def corruptParts : ArchiveParts where
  entries := [corruptEntry]
  groups := [corruptGroup]
  restoreMap := [
    { entryId := 0
      originalOffset := 0
      length := 1
      groupId := 0
      groupOffset := 0 }]
  registryBytes := none
  payload := [[0x61]]
  originalTotalSize := 1

set_option maxRecDepth 100000 in
theorem corruptParts_checks : corruptParts.catalogChecks .default = .ok () := by
  decide

/-- The path of the file. -/
def corruptPath : Path := [102]

theorem corruptParts_requested :
    requestedBytes corruptParts.crates corruptParts.archive .default
      corruptPath = .ok (corruptEntry, [0x61]) := by
  obtain ⟨fits, registry, acceptable⟩ :=
    ArchiveParts.acceptable_of_checks corruptParts_checks
  have isRead : readCatalog corruptParts.crates corruptParts.archive .default =
      .ok (corruptParts.parsed corruptParts.crates registry) :=
    (readCatalog_parts corruptParts.readsBack_crates fits
      (Footer.length_encode _ _) (Footer.decode_encode _ _)).mpr
        ⟨registry, acceptable, rfl⟩
  have isRaw : registry = none :=
    Except.ok.inj (acceptable.registryRead.symm.trans (by decide))
  subst isRaw
  have decodes : decodeGroup corruptParts.crates corruptParts.archive
      corruptGroup none .default = .ok [0x61] := by
    refine (ArchiveParts.decodeGroup_payloadAlone (by decide) (by decide) none
      .default).trans ?_
    exact bind_eq_ok.mpr ⟨_, rfl, bind_eq_ok.mpr
      ⟨[0x61], by decide, bind_eq_ok.mpr ⟨(), ensure_of rfl _, by decide⟩⟩⟩
  exact requestedBytes_eq_ok.mpr ⟨⟨[utf8Component "f"]⟩, _, corruptEntry, 0,
    corruptGroup, ⟨0, 0, 1, 0, 0⟩, [0x61], by decide, isRead, by decide,
    by decide, rfl, rfl, by decide, decodes, by decide⟩

/-- An entry without its hash is handed out before the hash is compared. -/
theorem extractToWriter_releases_corrupt :
    ¬ ∀ backends file limits requested,
      WriterSafe (Passed backends file limits requested)
        (extractToWriterFaulty backends file limits requested) := by
  intro always
  refine extractToWriterFaulty_safe_iff.mp (always corruptParts.crates
    corruptParts.archive .default corruptPath)
    ⟨corruptEntry, [0x61], corruptParts_requested, by decide, ?_⟩
  change Digests.crates.blake3 [0x61] ≠ corruptEntry.blake3
  rw [sampleDigest]
  decide

end Pithos
