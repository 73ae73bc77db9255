import Pithos.Engine.Pack.Encoded
import Pithos.Library.Lists

/-!
# What packing ends in

Under every profile and however the workers took turns, the archive that a packer
builds is laid out in groups, and it passes its own verification exactly when it
meets the three conditions that the packer has not checked before.
-/

namespace Pithos

open Fallible
open Machine
open Layout
open Scheduler
open Lists

/-! ## Plans and tasks in order -/

section Order

variable {sources : List CollectedSource}

theorem exists_grouped
    {plans : List SolidGroupPlan}
    {position : Nat}
    {placing next : Placing}
    (ran : forEnum (placeGroup sources) position plans placing = .ok next) :
    ∃ grouped, List.Forall₂ (fun plan members =>
      groupMembers sources plan = .ok members) plans grouped := by
  induction plans generalizing position placing with
  | nil => exact ⟨[], .nil⟩
  | cons plan plans inductionHypothesis =>
      simp only [forEnum_cons, bind_eq_ok, placeGroup] at ran
      obtain ⟨middle, ⟨members, isMembers, _⟩, rest⟩ := ran
      obtain ⟨grouped, areMembers⟩ := inductionHypothesis rest
      exact ⟨members :: grouped, .cons isMembers areMembers⟩

/-- Groups that are not empty are not more than the files. -/
theorem length_plans_le
    {plans : List SolidGroupPlan}
    (nonempty : ∀ plan ∈ plans, 0 < plan.itemCount)
    {start finish : Nat}
    (tiles : Tiles start
      (plans.map fun plan => (plan.firstItem, plan.itemCount)) finish) :
    start + plans.length ≤ finish := by
  induction plans generalizing start with
  | nil => exact Nat.le_of_eq tiles
  | cons plan plans inductionHypothesis =>
      rw [List.map_cons, tiles_cons] at tiles
      have rest := inductionHypothesis (fun other member =>
        nonempty other (List.mem_cons_of_mem _ member)) tiles.2
      have some := nonempty plan List.mem_cons_self
      rw [List.length_cons]
      change start + plan.itemCount + plans.length ≤ finish at rest
      omega

/-- The tasks are numbered in the order of the plans. -/
theorem taskIds_of_packTasks
    {codecs : Codecs}
    {digests : Digests}
    {candidates : List CodecId}
    {members : List CompressedSource}
    {plans : List SolidGroupPlan}
    {start : Nat}
    {tasks : List ScheduledTask}
    (areTasks : List.Forall₂ (fun plan task =>
      packTask codecs digests candidates members (UInt64.ofNat plan.2) plan.1 =
        .ok task) (plans.zipIdx start) tasks) :
    tasks.map ScheduledTask.taskId =
      (List.range' start plans.length).map UInt64.ofNat := by
  induction plans generalizing start tasks with
  | nil =>
      cases areTasks
      rfl
  | cons plan plans inductionHypothesis =>
      rw [List.zipIdx_cons] at areTasks
      cases areTasks with
      | cons isTask areTasks =>
          rw [List.map_cons, inductionHypothesis areTasks, List.length_cons,
            List.range'_succ, List.map_cons, (exists_of_packTask isTask).1]

theorem pairwise_ofNat_range'
    {start count : Nat}
    (small : start + count ≤ 2 ^ 64) :
    ((List.range' start count).map UInt64.ofNat).Pairwise (· < ·) := by
  rw [List.pairwise_map]
  refine List.Pairwise.imp_of_mem ?_ List.pairwise_lt_range'
  intro first second isFirst isSecond before
  rw [List.mem_range'_1] at isFirst isSecond
  rw [UInt64.lt_iff_toNat_lt, toNat_ofNat_of_lt (by omega),
    toNat_ofNat_of_lt (by omega)]
  exact before

end Order

/-! ## The sizes of the groups -/

theorem solidGroupTarget_le (profile : CompressionProfile) :
    (solidGroupTarget profile).toNat ≤ 1073741824 := by
  cases profile <;> decide

/-- A planned group is not larger than its target or a single file. -/
theorem uncompressedLen_le
    {target bound : UInt64}
    {lengths : List UInt64}
    {plans : List SolidGroupPlan}
    (plan : SolidPlan target lengths plans)
    (small : ∀ length ∈ lengths, length ≤ bound)
    (targetSmall : target ≤ bound)
    {group : SolidGroupPlan}
    (member : group ∈ plans) :
    group.uncompressedLen ≤ bound := by
  by_cases large : target < group.uncompressedLen
  · have single := plan.oversized group member large
    rw [UInt64.le_iff_toNat_le, plan.exact group member]
    unfold SolidGroupPlan.items
    rw [single]
    cases rest : lengths.drop group.firstItem with
    | nil => exact Nat.zero_le _
    | cons length others =>
        have isLength : length ∈ lengths :=
          List.mem_of_mem_drop (rest ▸ List.mem_cons_self)
        have below := UInt64.le_iff_toNat_le.mp (small length isLength)
        simpa [Runs.total] using below
  · exact UInt64.le_trans (UInt64.not_lt.mp large) targetSmall

/-! ## The compressed archive -/

section Archive

variable
  {backends : Backends}
  {packLimits : PackLimits}
  {profile : CompressionProfile}
  {parallelism : { count : UInt64 // count ≠ 0 }}
  {items : List PackItem}
  {events : List Event}
  {parts : ArchiveParts}

/-- The groups of a compressed archive, as the tasks have encoded them. -/
def GroupsEncoded
    (backends : Backends)
    (profile : CompressionProfile)
    (spools : List SpoolHandle)
    (groups : List LaidGroup) : Prop :=
  List.Forall₂ (fun spool group => ∃ sources, EncodedGroup backends.codecs
    backends.digests (profileCodecs profile) sources spool group) spools groups

theorem store_mem_profileCodecs (profile : CompressionProfile) :
    .store ∈ profileCodecs profile := by
  cases profile <;> decide

theorem EncodedGroup.encoded
    {sources : List CollectedSource}
    {spool : SpoolHandle}
    {group : LaidGroup}
    (lossless : backends.codecs.Lossless)
    (encoded : EncodedGroup backends.codecs backends.digests
      (profileCodecs profile) sources spool group) :
    group.Encoded backends.codecs := by
  obtain ⟨codecId, isCodec, cheapest, _⟩ := encoded.envelope
  have vector := encoded.vector
  rw [LaidGroup.Encoded, isCodec]
  refine Codecs.decode_of_encode lossless cheapest.encoded ?_
  exact (toNat_ofNat_of_lt (by omega)).symm

section GroupsEncoded

variable
  {spools : List SpoolHandle}
  {groups : List LaidGroup}
  {group : LaidGroup}

/-- Every group comes from the spool of a task. -/
theorem GroupsEncoded.exists_encoded
    (encoded : GroupsEncoded backends profile spools groups)
    (member : group ∈ groups) :
    ∃ sources spool, EncodedGroup backends.codecs backends.digests
      (profileCodecs profile) sources spool group := by
  obtain ⟨spool, _, sources, isEncoded⟩ :=
    exists_left_of_forall₂ encoded member
  exact ⟨sources, spool, isEncoded⟩

/-- The codec of every group is in the registry of the codecs that were used. -/
theorem GroupsEncoded.registryFor
    (encoded : GroupsEncoded backends profile spools groups)
    {registry : CodecRegistry}
    (chains : ∀ known : CodecId,
      known.toU16 ∈ groups.map LaidGroup.codecId →
      ∃ record, registry.chain known.chainId = some record ∧
        record.codecId = known.toU16 ∧ record.level = known.defaultLevel) :
    RegistryFor (some registry) groups := by
  intro group member
  obtain ⟨_, _, isEncoded⟩ := encoded.exists_encoded member
  obtain ⟨codecId, isCodec, _⟩ := isEncoded.envelope
  have used : codecId.toU16 ∈ groups.map LaidGroup.codecId := by
    refine List.mem_map.mpr ⟨group, member, ?_⟩
    rw [LaidGroup.codecId, isCodec]
    rfl
  obtain ⟨record, found, id, level⟩ := chains codecId used
  exact ⟨codecId, record, isCodec, found, id, level⟩

end GroupsEncoded

/-- What is known when a compressed archive has been planned. -/
structure PlannedWell
    (backends : Backends)
    (packLimits : PackLimits)
    (profile : CompressionProfile)
    (items : List PackItem)
    (planned : PlannedArchive)
    (entries : List EntryRecord)
    (grouped : List (List CollectedSource)) : Prop where
  recorded : Recorded backends.json backends.digests items entries
  hashed : FilesHashed backends.digests items entries
  inOrder : InOrder entries
  rows : entries.filterMap EntryRecord.fileRow? =
    grouped.flatten.map (CollectedSource.row unplannedGroup)
  placed : forEnum (placeGroup planned.sources) 0 planned.plans
    ⟨entries, []⟩ = .ok planned.placing
  members : List.Forall₂ (fun plan members =>
    groupMembers planned.sources plan = .ok members) planned.plans grouped
  tasks : List.Forall₂ (fun plan task =>
    packTask backends.codecs backends.digests (profileCodecs profile)
      (planned.sources.map CollectedSource.source) (UInt64.ofNat plan.2)
        plan.1 = .ok task) planned.plans.zipIdx planned.tasks
  few : planned.plans.length ≤ 2 ^ 64
  nonempty : ∀ plan ∈ planned.plans, 0 < plan.itemCount
  small : ∀ plan ∈ planned.plans, plan.uncompressedLen ≤
    (packLimits.decodeLimits profile).maxGroupOutput
  total : planned.originalTotalSize.toNat =
    (items.map PackItem.countedSize).sum
  sizeLimit : planned.originalTotalSize ≤
    (packLimits.decodeLimits profile).maxOriginalBytes

theorem plannedWell_of_ok
    (compressed : profile ≠ .raw)
    (scanned : Scanned (packLimits.decodeLimits profile) items)
    {planned : PlannedArchive}
    (ran : planCompressed backends packLimits profile items = .ok planned) :
    ∃ entries grouped, PlannedWell backends packLimits profile items planned
      entries grouped := by
  simp only [planCompressed, bind_eq_ok, Except.ok.injEq] at ran
  obtain ⟨state, collected, plans, isPlan, placing, placed, tasks, areTasks,
    rfl⟩ := ran
  have lawful := packCompressedFile_lawful backends.digests
  have all := collected_of_ok lawful collected
  have kept := collect_files lawful
    (SourcesKept (packLimits.decodeLimits profile)) ⟨rfl, by simp⟩
    (fun kept small packed => kept.extend small packed) collected
  have rows := kept.rows
  rw [fileRows_packedFiles all.length] at rows
  have word := (packLimits.decodeLimits profile).maxEntries.toNat_lt
  have count := scanned.count
  have short : state.files.length < 2 ^ 64 := by
    have lengths := congrArg List.length rows
    rw [length_fileRows, List.length_map] at lengths
    have fewer := List.length_filter_le EntryRecord.isFile state.entries
    rw [all.length] at fewer
    omega
  have plan := solidPlan_of_ok compressed (by rwa [List.length_map]) isPlan
  have tiles := plan.tiles
  rw [List.length_map] at tiles
  obtain ⟨grouped, areMembers⟩ := exists_grouped placed
  have flat := drop_eq_flatten_of_tiles areMembers tiles
  rw [List.drop_zero] at flat
  have maximum : (packLimits.decodeLimits profile).maxGroupOutput =
      DecodeLimits.default.maxGroupOutput := by
    rw [PackLimits.decodeLimits]
    exact if_neg compressed
  refine ⟨state.entries, grouped, {
    recorded := all.toRecorded
    hashed := collect_hashed lawful hashed_of_packCompressedFile collected
    inOrder := ?_
    rows := by rw [rows, flat]
    placed := placed
    members := areMembers
    tasks := mapM_eq_ok_iff_forall₂.mp areTasks
    few := ?_
    nonempty := plan.nonempty
    small := ?_
    total := all.total
    sizeLimit := originalTotalSize_le collected }⟩
  · intro position entry isEntry
    obtain ⟨item, isItem, kind⟩ := all.toRecorded.exists_item isEntry
    have inside := (List.getElem?_eq_some_iff.mp isItem).1
    rw [kind.entryId_eq, toNat_ofNat_of_lt (by omega)]
  · have fewer := length_plans_le plan.nonempty tiles
    change plans.length ≤ _
    omega
  · intro group member
    refine uncompressedLen_le plan ?_ ?_ member
    · intro length isLength
      obtain ⟨source, isSource, rfl⟩ := List.mem_map.mp isLength
      exact kept.small source isSource
    · rw [maximum, UInt64.le_iff_toNat_le]
      exact solidGroupTarget_le profile

/-- An archive that was written from the results of all tasks. -/
structure WrittenFrom
    (backends : Backends)
    (packLimits : PackLimits)
    (profile : CompressionProfile)
    (items : List PackItem)
    (planned : PlannedArchive)
    (spools : List SpoolHandle)
    (groups : List LaidGroup)
    (parts : ArchiveParts) : Prop where
  isPlanned : planCompressed backends packLimits profile items = .ok planned
  ids : ∀ (position : Nat) (spool : SpoolHandle),
    spools[position]? = some spool → spool.taskId = UInt64.ofNat (0 + position)
  encoded : GroupsEncoded backends profile spools groups
  written : ∃ cancelled, compressedParts backends packLimits profile cancelled
    planned spools = .ok parts

/-- What the compressed packer has made sure of when it has built an archive,
in whatever order the tasks ran. -/
theorem built_of_buildsCompressed
    (crates : backends.codecs.Crates)
    (lossless : backends.codecs.Lossless)
    (compressed : profile ≠ .raw)
    (scanned : Scanned (packLimits.decodeLimits profile) items)
    (builds : BuildsCompressed backends packLimits profile parallelism items
      events parts) :
    ∃ planned spools groups registry,
      WrittenFrom backends packLimits profile items planned spools groups
        parts ∧
      Built backends packLimits profile items parts groups
        (some registry) := by
  obtain ⟨planned, start, state, cancelled, spools, isPlanned, prepared, run,
    returned, ran⟩ := builds.built
  obtain ⟨entries, grouped, well⟩ :=
    plannedWell_of_ok compressed scanned isPlanned
  have complete := complete_of_run prepared run returned
  have taskIds := taskIds_of_packTasks well.tasks
  have ordered : (planned.tasks.map ScheduledTask.taskId).Pairwise
      (· < ·) := by
    rw [taskIds]
    exact pairwise_ofNat_range' (by simpa using well.few)
  obtain ⟨ids, groups, areOf, areEncoded⟩ := encodedGroups_of_spools crates
    well.members well.tasks (complete.forall₂ ordered)
  have rows : entries.filterMap EntryRecord.fileRow? = [] ++
      grouped.flatten.map (CollectedSource.row unplannedGroup) := well.rows
  obtain ⟨placed, lengths⟩ := placed_of_groups well.members areOf well.inOrder
    rows well.placed
  have writtenFrom : WrittenFrom backends packLimits profile items planned
      spools groups parts := ⟨isPlanned, ids, areEncoded, cancelled, ran⟩
  simp only [compressedParts, bind_eq_ok, ensure_eq_ok, Except.ok.injEq,
    expectedLength_eq_ok] at ran
  obtain ⟨written, ranGroups, registry, isRegistry, registryBytes, isBytes,
    total, checked, length, isLength, _, _, _, _, rfl⟩ := ran
  have count : spools.length = planned.plans.length := by
    rw [areEncoded.length_eq, ← lengths.length_eq]
  have numbered : 0 + spools.length ≤ 2 ^ 64 := by
    rw [count, Nat.zero_add]
    exact well.few
  have fromFirst := lengths
  rw [← List.drop_zero (l := planned.plans)] at fromFirst
  obtain ⟨few, room, rfl⟩ := written_of_ok areEncoded numbered ids fromFirst
    (by decide) ranGroups
  obtain ⟨readBack, chains⟩ := usedRegistry_readsBack isRegistry isBytes
  refine ⟨planned, spools, groups, registry, writtenFrom, {
    recorded := well.recorded.regrouped placed.regrouped
    hashed := well.hashed.regrouped placed.regrouped
    rows := placed.rows
    representable := ?_
    encoded := ?_
    moderate := ?_
    groupTable := rfl
    restoreMap := placed.restoreMap
    payload := List.flatMap_def.symm
    registryRead := by
      rw [ArchiveParts.readRegistry, PlannedArchive.parts]
      simp only [readBack, ok_bind]
    registryFor := GroupsEncoded.registryFor areEncoded chains
    total := well.total
    sizeLimit := well.sizeLimit
    fits := ?_ }⟩
  · intro group member
    obtain ⟨plan, isPlan, _, members⟩ := exists_left_of_forall₂ lengths member
    obtain ⟨_, _, encoded⟩ := GroupsEncoded.exists_encoded areEncoded member
    have some := well.nonempty plan isPlan
    have vector := encoded.vector
    refine ⟨?_, few group member, by omega⟩
    rw [← List.length_pos_iff]
    omega
  · intro group member
    obtain ⟨_, _, encoded⟩ := GroupsEncoded.exists_encoded areEncoded member
    exact encoded.encoded lossless
  · intro group member
    obtain ⟨plan, isPlan, contents, _⟩ := exists_left_of_forall₂ lengths member
    obtain ⟨_, _, encoded⟩ := GroupsEncoded.exists_encoded areEncoded member
    refine moderate_of_encoded crates (store_mem_profileCodecs profile) encoded
      ?_
    rw [← contents]
    exact UInt64.le_iff_toNat_le.mp (well.small plan isPlan)
  · have metadata := checkMetadata_length checked
    rw [← List.flatMap_def] at metadata
    have bound := length.toNat_lt
    have position := @toNat_ofNat_of_lt (WrittenGroups.position _)
      (room.trans (by decide))
    rw [position] at isLength
    rw [← metadata] at isLength
    exact Eq.trans_lt isLength bound

end Archive

end Pithos
