import Pithos.Engine.Pack.Raw
import Pithos.Engine.Scheduler.Safety
import Mathlib.Data.List.Dedup
import Mathlib.Data.List.Forall2

/-!
# Packing with compression

The compressed packer hashes every new file, plans solid groups of neighbouring
files, and has the scheduler encode each group.  Then it writes the encoded
groups in the order of their numbers, the tables behind them, and verifies what
it has written.

A file of the host stays below `2 ^ 63` bytes, and reading a temporary file gives
what was written to it.
-/

namespace Pithos

open Fallible
open Machine
open FileTree
open Layout
open Scheduler

/-! ## Hashing the files -/

/-- A hashed file with its entry. -/
structure CollectedSource where
  entryId : UInt64
  source : CompressedSource

namespace CollectedSource

/-- How many bytes the file had when it was hashed. -/
def size (source : CollectedSource) : UInt64 := source.source.stamp.size

end CollectedSource

/-- Hash an input file that looks as it did when it was scanned. -/
def hashInputFile (digests : Digests) (item : PackItem) :
    Result (UInt64 × Digest) := do
  let current ← ofIo item.current
  ensure (current = item.stamp) .inputChanged
  let bytes ← readSourceBytes digests ⟨item.stamp, Bytes.zeros 32⟩ item.reading
    false
  .ok (UInt64.ofNat bytes.length, digests.blake3 bytes)

/-- The group of a file that has not been planned. -/
def unplannedGroup : UInt64 := 18446744073709551615

/-- Hash a new file and keep it for later. -/
def packCompressedFile (digests : Digests) :
    PackFile (List CollectedSource) := fun item entryId sources => do
  let (size, hash) ← hashInputFile digests item
  .ok (sources ++ [⟨entryId, ⟨{ item.stamp with size := size }, hash⟩⟩], size,
    hash, .file unplannedGroup)

/-! ## Placing the files in groups -/

/-- The entries with the groups they have got so far, and where the files stand
in them. -/
structure Placing where
  entries : List EntryRecord
  restoreMap : List RestoreMapRecord

/-- Put a file behind the others of its group. -/
def placeMember
    (groupId : UInt64)
    (_position : Nat)
    (member : CollectedSource)
    (placing : Placing × UInt64) : Result (Placing × UInt64) := do
  let groupOffset ← okOr (checkedAdd placing.2 member.size) .integerOverflow
  .ok (⟨placing.1.entries.modify member.entryId.toNat fun entry =>
        { entry with kind := .file groupId },
      placing.1.restoreMap ++
        [{ entryId := member.entryId
           originalOffset := 0
           length := member.size
           groupId := groupId
           groupOffset := placing.2 }]⟩, groupOffset)

/-- Put the files of a plan into their group. -/
def placeGroup
    (sources : List CollectedSource)
    (position : Nat)
    (plan : SolidGroupPlan)
    (placing : Placing) : Result Placing := do
  let members ← groupMembers sources plan
  let placed ← forEnum (placeMember (UInt64.ofNat position)) 0 members
    (placing, 0)
  ensure (placed.2 = plan.uncompressedLen)
    (.invalidMetadata "solid group plan length")
  .ok placed.1

/-! ## The tasks -/

/-- The tasks that encode the groups. -/
def packTasks
    (backends : Backends)
    (profile : CompressionProfile)
    (sources : List CollectedSource)
    (plans : List SolidGroupPlan) : Result (List ScheduledTask) :=
  plans.zipIdx.mapM fun plan =>
    packTask backends.codecs backends.digests (profileCodecs profile)
      (sources.map CollectedSource.source) (UInt64.ofNat plan.2) plan.1

/-- At most eight workers, and no more than 2 GiB of memory. -/
def PackLimits.schedulerConfig
    (packLimits : PackLimits)
    (parallelism : { count : UInt64 // count ≠ 0 }) : SchedulerConfig where
  workers := min parallelism.val 8
  memoryBudget := max 1 (min packLimits.maxMemoryBytes (2 * 1024 * 1024 * 1024))
  someWorkers := by
    intro isZero
    have value := congrArg UInt64.toNat isZero
    rw [toNat_min] at value
    refine parallelism.property (UInt64.toNat_inj.mp ?_)
    change min _ 8 = 0 at value
    change _ = 0
    omega
  someMemory := by
    intro isZero
    have value := congrArg UInt64.toNat isZero
    rw [toNat_max] at value
    change max 1 _ = 0 at value
    omega

/-- What has been prepared when the scheduler starts. -/
structure PlannedArchive where
  sources : List CollectedSource
  originalTotalSize : UInt64
  plans : List SolidGroupPlan
  placing : Placing
  tasks : List ScheduledTask

/-- Collect the files, plan their groups, give every file its place and every
group its task. -/
def planCompressed
    (backends : Backends)
    (packLimits : PackLimits)
    (profile : CompressionProfile)
    (items : List PackItem) : Result PlannedArchive := do
  let state ← collect backends.json backends.digests
    (packLimits.decodeLimits profile) (packCompressedFile backends.digests) []
    items
  let plans ← planSolidGroups profile (state.files.map CollectedSource.size)
  let placing ← forEnum (placeGroup state.files) 0 plans ⟨state.entries, []⟩
  let tasks ← packTasks backends profile state.files plans
  .ok ⟨state.files, state.originalTotalSize, plans, placing, tasks⟩

/-! ## Writing the groups -/

/-- The groups written so far, in the pieces they were written in, with the
codecs used. -/
structure WrittenGroups where
  groups : List GroupTableRecord
  payload : List (List UInt8)
  codecIds : List UInt16

/-- Where the payload starts in an archive with a codec registry. -/
def compressedPayloadStart : Nat :=
  headerLen + requiredCompressedSections.toNat * sectionEntryLen

/-- Where the next group goes. -/
def WrittenGroups.position (written : WrittenGroups) : Nat :=
  compressedPayloadStart + written.payload.flatten.length

/-- Write the encoded group of a task. -/
def writeGroup
    (digests : Digests)
    (cancelled : Nat → Bool)
    (plans : List SolidGroupPlan)
    (position : Nat)
    (spool : SpoolHandle)
    (written : WrittenGroups) : Result WrittenGroups := do
  ensure (cancelled position = false) .cancelled
  ensure (2 ≤ spool.payload.length) (.invalidMetadata "encoded group envelope")
  let codecId ← okOr (CodecId.fromU16 (readU16 spool.payload 0))
    .unsupportedCodec
  ensure (written.position + (spool.payload.drop 2).length < 2 ^ 63)
    (.io .invalidInput)
  let plan ← okOr plans[spool.taskId.toNat]? (.invalidMetadata "encoded group ID")
  ensure (plan.itemCount < 2 ^ 32) .integerOverflow
  .ok {
    groups := written.groups ++ [⟨{
      version := 1
      flags := 0
      groupId := spool.taskId
      codecChainId := codecId.chainId
      chunkCount := UInt32.ofNat plan.itemCount
      uncompressedLen := plan.uncompressedLen
      compressedLen := UInt64.ofNat (spool.payload.drop 2).length
      descriptorLen := 0
      payloadCrc32c := digests.crc32c (spool.payload.drop 2) },
      UInt64.ofNat written.position⟩]
    payload := written.payload ++ [spool.payload.drop 2]
    codecIds := written.codecIds ++ [readU16 spool.payload 0] }

/-- The registry record of a codec. -/
def registryRecord (codecId : UInt16) : Result CodecRegistryRecord := do
  let known ← okOr (CodecId.fromU16 codecId) .unsupportedCodec
  .ok {
    chainId := codecId.toUInt32 + 1
    codecId := codecId
    codecVersion := 1
    level := known.defaultLevel
    flags := codecFlagRequired }

/-- The registry of the codecs used, each once and in order. -/
def usedRegistry (codecIds : List UInt16) : Result CodecRegistry := do
  let records ← (codecIds.dedup.insertionSort (· ≤ ·)).mapM registryRecord
  .ok ⟨records⟩

/-- The metadata sections, each and together, stay within their limit. -/
def checkMetadata (limits : DecodeLimits) (sections : List (List UInt8)) :
    Result UInt64 := do
  let total ← sections.foldlM (fun total bytes => do
    ensure (bytes.length ≤ limits.maxMetadataBytes.toNat)
      (.resourceLimit "seção de metadados")
    okOr (checkedAdd total (UInt64.ofNat bytes.length)) .integerOverflow) 0
  ensure (total ≤ limits.maxMetadataBytes) (.resourceLimit "aggregate metadata")
  .ok total

/-- What the compressed packer has collected when it starts to write
metadata. -/
def PlannedArchive.parts
    (planned : PlannedArchive)
    (written : WrittenGroups)
    (registryBytes : List UInt8) : ArchiveParts where
  entries := planned.placing.entries
  groups := written.groups
  restoreMap := planned.placing.restoreMap
  registryBytes := some registryBytes
  payload := written.payload
  originalTotalSize := planned.originalTotalSize

/-- The temporary files and the archive fit into the temporary space. -/
def checkTemporarySpace
    (packLimits : PackLimits)
    (spools : List SpoolHandle)
    (archiveLength : UInt64) : Result Unit := do
  let encoded ← (spools.map fun spool =>
      UInt64.ofNat spool.payload.length).foldlM
    (fun total length => okOr (checkedAdd total length) .integerOverflow) 0
  ensure ((checkedAdd encoded archiveLength).any fun peak =>
    peak ≤ packLimits.maxTempBytes) .temporarySpaceLimit

/-- The compressed archive of encoded groups, before it is verified. -/
def compressedParts
    (backends : Backends)
    (packLimits : PackLimits)
    (profile : CompressionProfile)
    (cancelled : Nat → Bool)
    (planned : PlannedArchive)
    (spools : List SpoolHandle) : Result ArchiveParts := do
  let written ← forEnum (writeGroup backends.digests cancelled planned.plans) 0
    spools ⟨[], [], []⟩
  let registry ← usedRegistry written.codecIds
  let registryBytes ← registry.encode
  let total ← checkMetadata (packLimits.decodeLimits profile)
    (((planned.parts written registryBytes).metadataSections
      backends.json).map Prod.snd)
  let length ← expectedLength (UInt64.ofNat written.position) total
  ensure (length ≤ packLimits.maxOutputBytes) (.resourceLimit "archive output")
  checkTemporarySpace packLimits spools length
  .ok (planned.parts written registryBytes)

/-- Packing some items with compression builds an archive: the scheduler, in
some run, encodes all groups. -/
structure BuildsCompressed
    (backends : Backends)
    (packLimits : PackLimits)
    (profile : CompressionProfile)
    (parallelism : { count : UInt64 // count ≠ 0 })
    (items : List PackItem)
    (events : List Event)
    (parts : ArchiveParts) : Prop where
  built : ∃ planned start state cancelled spools,
    planCompressed backends packLimits profile items = .ok planned ∧
    prepare planned.tasks (packLimits.schedulerConfig parallelism) false
      true = .ok start ∧
    Run planned.tasks.length (packLimits.schedulerConfig parallelism) start
      events state ∧
    state.control = .returned (.ok spools) ∧
    compressedParts backends packLimits profile cancelled planned spools =
      .ok parts


/-! ## What is collected -/

section Collect

variable {digests : Digests}

/-- A file is hashed whole. -/
theorem size_of_hashInputFile
    {item : PackItem}
    {size : UInt64}
    {hash : Digest}
    (hashed : hashInputFile digests item = .ok (size, hash)) :
    size = item.size := by
  simp only [hashInputFile, readSourceBytes, bind_eq_ok, ensure_eq_ok,
    Except.ok.injEq, Prod.mk.injEq] at hashed
  obtain ⟨_, _, _, _, bytes, ⟨_, _, _, _, _, _, read, _, _, _, _, whole, same⟩,
    rfl, rfl⟩ := hashed
  subst same
  change read.length = item.size.toNat ∧ _ at whole
  rw [whole.1]
  exact UInt64.ofNat_toNat

theorem packCompressedFile_eq_ok
    {item : PackItem}
    {entryId size : UInt64}
    {sources next : List CollectedSource}
    {hash : Digest}
    {kind : EntryKind}
    (packed : packCompressedFile digests item entryId sources =
      .ok (next, size, hash, kind)) :
    size = item.size ∧ kind = .file unplannedGroup ∧
      next = sources ++ [⟨entryId, ⟨item.stamp, hash⟩⟩] := by
  simp only [packCompressedFile, bind_eq_ok, Except.ok.injEq, Prod.mk.injEq]
    at packed
  obtain ⟨⟨found, digest⟩, hashed, rfl, rfl, rfl, rfl⟩ := packed
  have same := size_of_hashInputFile hashed
  subst same
  exact ⟨rfl, rfl, rfl⟩

theorem packCompressedFile_lawful (digests : Digests) :
    (packCompressedFile digests).Lawful := by
  intro item entryId files next size hash kind packed
  obtain ⟨isSize, isKind, _⟩ := packCompressedFile_eq_ok packed
  exact ⟨isSize, _, isKind⟩

theorem hashed_of_packCompressedFile
    {item : PackItem}
    {entryId size : UInt64}
    {sources next : List CollectedSource}
    {hash : Digest}
    {kind : EntryKind}
    (packed : packCompressedFile digests item entryId sources =
      .ok (next, size, hash, kind)) :
    item.Hashed digests hash := by
  simp only [packCompressedFile, hashInputFile, readSourceBytes, bind_eq_ok,
    ensure_eq_ok, Except.ok.injEq, Prod.mk.injEq] at packed
  obtain ⟨_, ⟨_, _, _, _, bytes, ⟨_, _, _, _, _, _, read, turns, _, _, _, whole,
    same⟩, rfl⟩, _, _, rfl, _⟩ := packed
  subst same
  exact ⟨read, turns, whole.1, rfl⟩

/-- What a source says about its entry in a group. -/
def CollectedSource.row (groupId : UInt64) (source : CollectedSource) :
    FileRow :=
  (source.entryId, source.size, source.source.hash, groupId)

/-- The sources are the file entries, none of them in a group yet. -/
structure SourcesKept
    (limits : DecodeLimits)
    (done : List (PackItem × EntryRecord))
    (sources : List CollectedSource) : Prop where
  rows : done.filterMap (fun pair => pair.2.fileRow?) =
    sources.map (CollectedSource.row unplannedGroup)
  small : ∀ source ∈ sources, source.size ≤ limits.maxGroupOutput

theorem SourcesKept.extend
    {limits : DecodeLimits}
    {done : List (PackItem × EntryRecord)}
    {sources next : List CollectedSource}
    (kept : SourcesKept limits done sources)
    {item : PackItem}
    {entryId size : UInt64}
    {hash : Digest}
    {kind : EntryKind}
    (small : item.size ≤ limits.maxGroupOutput)
    (packed : packCompressedFile digests item entryId sources =
      .ok (next, size, hash, kind)) :
    SourcesKept limits
      (done ++ [(item, item.record entryId size hash kind)]) next := by
  obtain ⟨rfl, rfl, rfl⟩ := packCompressedFile_eq_ok packed
  refine ⟨?_, ?_⟩
  · rw [List.filterMap_append, kept.rows, List.map_append]
    rfl
  · intro source member
    rcases List.mem_append.mp member with earlier | last
    · exact kept.small source earlier
    · obtain rfl := List.mem_singleton.mp last
      exact small

end Collect

/-! ## The members of the groups -/

section Members

variable
  {sources : List CollectedSource}
  {plan : SolidGroupPlan}
  {members : List CollectedSource}

theorem groupMembers_eq_ok
    (isMembers : groupMembers sources plan = .ok members) :
    members = (sources.drop plan.firstItem).take plan.itemCount ∧
      members.length = plan.itemCount := by
  simp only [groupMembers, bind_eq_ok, ensure_eq_ok, Except.ok.injEq]
    at isMembers
  obtain ⟨_, _, _, inside, rfl⟩ := isMembers
  refine ⟨rfl, ?_⟩
  rw [List.length_take, List.length_drop]
  omega

/-- The files of a task are those of its group. -/
theorem groupMembers_map
    (isMembers : groupMembers sources plan = .ok members) :
    groupMembers (sources.map CollectedSource.source) plan =
      .ok (members.map CollectedSource.source) := by
  simp only [groupMembers, bind_eq_ok, ensure_eq_ok, Except.ok.injEq]
    at isMembers
  obtain ⟨_, small, _, inside, rfl⟩ := isMembers
  simp only [groupMembers, List.length_map]
  rw [ensure_of small, ok_bind, ensure_of inside, ok_bind, ← List.map_drop,
    ← List.map_take]

/-- Groups that follow each other take the sources one after the other. -/
theorem drop_eq_flatten_of_tiles
    {plans : List SolidGroupPlan}
    {grouped : List (List CollectedSource)}
    (areMembers : List.Forall₂ (fun plan members =>
      groupMembers sources plan = .ok members) plans grouped)
    {start : Nat}
    (tiles : Tiles start
      (plans.map fun plan => (plan.firstItem, plan.itemCount))
      sources.length) :
    sources.drop start = grouped.flatten := by
  induction areMembers generalizing start with
  | nil =>
      rw [List.map_nil, tiles_nil] at tiles
      simp [tiles]
  | @cons plan members plans grouped isMembers rest inductionHypothesis =>
      rw [List.map_cons, tiles_cons] at tiles
      obtain ⟨begins, tiles⟩ := tiles
      obtain ⟨isSlice, _⟩ := groupMembers_eq_ok isMembers
      rw [List.flatten_cons, ← inductionHypothesis tiles, isSlice, ← begins]
      change _ = _ ++ sources.drop (plan.firstItem + plan.itemCount)
      rw [← List.drop_drop, List.take_append_drop]

end Members

/-! ## Where the files are placed -/

/-- The member of a group is the file of a source. -/
structure Member.IsOf
    (digests : Digests)
    (source : CollectedSource)
    (member : Member) : Prop where
  entryId : member.entryId = source.entryId
  length : member.bytes.length = source.size.toNat
  hash : digests.blake3 member.bytes = source.source.hash

theorem Member.IsOf.row
    {digests : Digests}
    {source : CollectedSource}
    {member : Member}
    (isOf : member.IsOf digests source)
    (groupId : Nat) :
    source.row (UInt64.ofNat groupId) = member.row digests groupId := by
  simp [CollectedSource.row, Member.row, isOf.entryId, isOf.length, isOf.hash]

/-- A file entry that has been put into a group. -/
def InGroup (before after : EntryRecord) : Prop :=
  after = before ∨ before.isFile = true ∧
    ∃ groupId, after = { before with kind := .file groupId }

/-- Entries of which some files have been put into groups. -/
abbrev Regrouped : List EntryRecord → List EntryRecord → Prop :=
  List.Forall₂ InGroup

theorem InGroup.trans
    {first second third : EntryRecord}
    (before : InGroup first second)
    (after : InGroup second third) :
    InGroup first third := by
  rcases before with rfl | ⟨isFile, groupId, rfl⟩
  · exact after
  · rcases after with rfl | ⟨_, other, rfl⟩
    · exact Or.inr ⟨isFile, groupId, rfl⟩
    · exact Or.inr ⟨isFile, other, rfl⟩

theorem regrouped_refl (entries : List EntryRecord) :
    Regrouped entries entries :=
  List.forall₂_same.mpr fun _ _ => Or.inl rfl

theorem Regrouped.trans
    {first second third : List EntryRecord}
    (before : Regrouped first second)
    (after : Regrouped second third) :
    Regrouped first third := by
  induction before generalizing third with
  | nil => exact after
  | cons same _ inductionHypothesis =>
      cases after with
      | cons later rest =>
          exact .cons (same.trans later) (inductionHypothesis rest)

/-- The ids of entries are their positions. -/
def InOrder (entries : List EntryRecord) : Prop :=
  ∀ (position : Nat) (entry : EntryRecord),
    entries[position]? = some entry → entry.entryId.toNat = position

theorem Regrouped.exists_before
    {before after : List EntryRecord}
    (regrouped : Regrouped before after)
    {position : Nat}
    {entry : EntryRecord}
    (isEntry : after[position]? = some entry) :
    ∃ old, before[position]? = some old ∧ InGroup old entry := by
  induction regrouped generalizing position with
  | nil => cases isEntry
  | @cons old new _ _ same _ inductionHypothesis =>
      cases position with
      | zero =>
          cases isEntry
          exact ⟨old, rfl, same⟩
      | succ position => exact inductionHypothesis isEntry

theorem Regrouped.exists_after
    {before after : List EntryRecord}
    (regrouped : Regrouped before after)
    {position : Nat}
    {entry : EntryRecord}
    (isEntry : before[position]? = some entry) :
    ∃ new, after[position]? = some new ∧ InGroup entry new := by
  induction regrouped generalizing position with
  | nil => cases isEntry
  | @cons old new _ _ same _ inductionHypothesis =>
      cases position with
      | zero =>
          cases isEntry
          exact ⟨new, rfl, same⟩
      | succ position => exact inductionHypothesis isEntry

theorem Regrouped.inOrder
    {before after : List EntryRecord}
    (regrouped : Regrouped before after)
    (inOrder : InOrder before) :
    InOrder after := by
  intro position entry isEntry
  obtain ⟨old, isOld, same⟩ := regrouped.exists_before isEntry
  have id := inOrder position old isOld
  rcases same with rfl | ⟨_, groupId, rfl⟩
  · exact id
  · exact id

theorem modify_middle
    {Value : Type}
    (before : List Value)
    (item : Value)
    (after : List Value)
    (change : Value → Value) :
    (before ++ item :: after).modify before.length change =
      before ++ change item :: after := by
  induction before with
  | nil => rfl
  | cons first before inductionHypothesis =>
      rw [List.cons_append, List.length_cons, List.modify_succ_cons,
        inductionHypothesis, List.cons_append]

/-- Putting the file of a source into a group changes its row only. -/
theorem modify_row
    {entries : List EntryRecord}
    (inOrder : InOrder entries)
    {source : CollectedSource}
    {before after : List FileRow}
    (rows : entries.filterMap EntryRecord.fileRow? =
      before ++ source.row unplannedGroup :: after)
    (groupId : UInt64) :
    (entries.modify source.entryId.toNat fun entry =>
        { entry with kind := .file groupId }).filterMap
          EntryRecord.fileRow? = before ++ source.row groupId :: after ∧
      Regrouped entries (entries.modify source.entryId.toNat fun entry =>
        { entry with kind := .file groupId }) := by
  obtain ⟨first, rest, rfl, isBefore, rows⟩ :=
    List.filterMap_eq_append_iff.mp rows
  obtain ⟨others, entry, last, rfl, noRows, isRow, isAfter⟩ :=
    List.filterMap_eq_cons_iff.mp rows
  have found : (first ++ (others ++ entry :: last))[(first ++ others).length]? =
      some entry := by
    rw [← List.append_assoc, List.getElem?_append_right (Nat.le_refl _),
      Nat.sub_self]
    rfl
  have place := inOrder _ entry found
  obtain ⟨kind, entryId, size, hash⟩ := fileRow?_eq_some.mp isRow
  have isFile : entry.isFile = true := by
    rw [EntryRecord.isFile, kind]
    rfl
  change source.entryId = entry.entryId at entryId
  change source.size = entry.size at size
  change source.source.hash = entry.blake3 at hash
  rw [entryId, place, ← List.append_assoc, modify_middle]
  constructor
  · have noOthers : others.filterMap EntryRecord.fileRow? = [] :=
      List.filterMap_eq_nil_iff.mpr noRows
    rw [List.filterMap_append, List.filterMap_append, isBefore, noOthers,
      List.append_nil, List.filterMap_cons, isAfter]
    simp [EntryRecord.fileRow?, EntryKind.groupId?, CollectedSource.row,
      entryId, size, hash]
  · refine List.rel_append (regrouped_refl _) (.cons ?_ (regrouped_refl _))
    exact Or.inr ⟨isFile, groupId, rfl⟩

/-- What has been placed: the restore records have been added, the rows have got
their group, and nothing else has changed. -/
structure PlacedInGroups
    (before after : Placing)
    (restores : List RestoreMapRecord)
    (rows : List FileRow) : Prop where
  restoreMap : after.restoreMap = before.restoreMap ++ restores
  rows : after.entries.filterMap EntryRecord.fileRow? = rows
  regrouped : Regrouped before.entries after.entries

section Placing

variable {digests : Digests}

/-- Placing the members of a group. -/
theorem placed_of_members
    {groupId : Nat}
    {sources : List CollectedSource}
    {members : List Member}
    (areOf : List.Forall₂ (Member.IsOf digests) sources members)
    {position offset : Nat}
    (fits : offset < 2 ^ 64)
    {placing : Placing}
    {next : Placing × UInt64}
    (inOrder : InOrder placing.entries)
    {before after : List FileRow}
    (rows : placing.entries.filterMap EntryRecord.fileRow? =
      before ++ (sources.map (CollectedSource.row unplannedGroup) ++ after))
    (ran : forEnum (placeMember (UInt64.ofNat groupId)) position sources
      (placing, UInt64.ofNat offset) = .ok next) :
    PlacedInGroups placing next.1 (restoreRecords groupId offset members)
        (before ++ (members.map (Member.row digests groupId) ++ after)) ∧
      next.2.toNat = offset + (members.flatMap Member.bytes).length := by
  induction areOf generalizing position offset placing before with
  | nil =>
      cases ran
      exact ⟨⟨by simp [restoreRecords], rows, regrouped_refl _⟩, by
        simp [toNat_ofNat_of_lt fits]⟩
  | @cons source member sources members isOf rest inductionHypothesis =>
      simp only [forEnum_cons, bind_eq_ok, placeMember, okOr_eq_ok,
        checkedAdd_eq_some, Except.ok.injEq] at ran
      obtain ⟨_, ⟨total, added, rfl⟩, ran⟩ := ran
      rw [toNat_ofNat_of_lt fits] at added
      have totalFits := total.toNat_lt
      obtain ⟨changed, regrouped⟩ := modify_row inOrder rows
        (UInt64.ofNat groupId)
      have isTotal : total = UInt64.ofNat total.toNat :=
        UInt64.ofNat_toNat.symm
      rw [isTotal] at ran
      rw [isOf.row groupId] at changed
      rw [← List.singleton_append, ← List.append_assoc] at changed
      obtain ⟨placed, finish⟩ := inductionHypothesis totalFits
        (regrouped.inOrder inOrder) changed ran
      refine ⟨⟨?_, ?_, regrouped.trans placed.regrouped⟩, ?_⟩
      · rw [placed.restoreMap, restoreRecords, isOf.entryId, isOf.length,
          ← added, List.append_assoc, UInt64.ofNat_toNat]
        rfl
      · rw [placed.rows, List.append_assoc]
        rfl
      · rw [finish, ← added, List.flatMap_cons, List.length_append,
          isOf.length, Nat.add_assoc]

/-- Placing all groups. -/
theorem placed_of_groups
    {all : List CollectedSource}
    {plans : List SolidGroupPlan}
    {grouped : List (List CollectedSource)}
    (areMembers : List.Forall₂ (fun plan members =>
      groupMembers all plan = .ok members) plans grouped)
    {groups : List LaidGroup}
    (areOf : List.Forall₂ (fun sources (group : LaidGroup) =>
      List.Forall₂ (Member.IsOf digests) sources group.members) grouped groups)
    {position : Nat}
    {placing next : Placing}
    (inOrder : InOrder placing.entries)
    {before : List FileRow}
    (rows : placing.entries.filterMap EntryRecord.fileRow? =
      before ++ grouped.flatten.map (CollectedSource.row unplannedGroup))
    (ran : forEnum (placeGroup all) position plans placing = .ok next) :
    PlacedInGroups placing next (laidRestoreMap position groups)
        (before ++ laidRows digests position groups) ∧
      List.Forall₂ (fun (plan : SolidGroupPlan) (group : LaidGroup) =>
        plan.uncompressedLen.toNat = group.contents.length ∧
          plan.itemCount = group.members.length) plans groups := by
  induction areMembers generalizing groups position placing before with
  | nil =>
      cases areOf
      cases ran
      refine ⟨⟨by simp [laidRestoreMap], ?_, regrouped_refl _⟩, .nil⟩
      simpa [laidRows] using rows
  | @cons plan sources plans grouped isMembers rest inductionHypothesis =>
      cases areOf with
      | @cons _ group _ groups isOf areOf =>
          simp only [forEnum_cons, bind_eq_ok, placeGroup, isMembers, ok_bind,
            ensure_eq_ok, Except.ok.injEq] at ran
          obtain ⟨_, ⟨placed, ranMembers, _, exact, rfl⟩, ran⟩ := ran
          rw [List.flatten_cons, List.map_append] at rows
          have fromStart : forEnum (placeMember (UInt64.ofNat position)) 0
              sources (placing, UInt64.ofNat 0) = .ok placed := ranMembers
          obtain ⟨first, finish⟩ := placed_of_members isOf (by decide) inOrder
            rows fromStart
          have changed := first.rows
          rw [← List.append_assoc] at changed
          obtain ⟨later, lengths⟩ := inductionHypothesis areOf
            (first.regrouped.inOrder inOrder) changed ran
          refine ⟨⟨?_, ?_, first.regrouped.trans later.regrouped⟩,
            .cons ⟨?_, ?_⟩ lengths⟩
          · rw [later.restoreMap, first.restoreMap, List.append_assoc]
            rfl
          · rw [later.rows, List.append_assoc]
            rfl
          · rw [← exact, finish, Nat.zero_add]
            rfl
          · rw [← (groupMembers_eq_ok isMembers).2, isOf.length_eq]

end Placing

end Pithos
