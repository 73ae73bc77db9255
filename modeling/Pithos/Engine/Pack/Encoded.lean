import Pithos.Engine.Pack.Compressed

/-!
# The groups of a compressed archive

However the scheduler interleaved the tasks, the results stand in the order of
the plans, and each holds the files of its group under the codec that was
cheapest.  The tables that the packer writes are those of these groups.
-/

namespace Pithos

open Fallible
open Machine
open Scheduler

/-! ## What the tasks give -/

section Results

variable
  {codecs : Codecs}
  {digests : Digests}
  {candidates : List CodecId}

theorem hash_of_readVerifiedSource
    {source : CompressedSource}
    {reading : SourceReading}
    {bytes : List UInt8}
    (read : readVerifiedSource digests source reading = .ok bytes) :
    digests.blake3 bytes = source.hash := by
  simp only [readVerifiedSource, bind_eq_ok, ensure_eq_ok, Except.ok.injEq]
    at read
  obtain ⟨_, _, _, hash, rfl⟩ := read
  exact hash

/-- Files that have been read with the size and hash they were recorded
with. -/
theorem exists_pieces
    {members : Members}
    {input : List UInt8}
    (read : readMembers digests members = .ok input) :
    ∃ pieces : List (List UInt8), input = pieces.flatten ∧
      List.Forall₂ (fun (member : CompressedSource × SourceReading) piece =>
        piece.length = member.1.stamp.size.toNat ∧
          digests.blake3 piece = member.1.hash) members pieces := by
  suffices from_start : ∀ start, members.foldlM (fun input member => do
      ensure (member.2.cancelled = false) PithosError.cancelled
      let bytes ← readVerifiedSource digests member.1 member.2
      .ok (input ++ bytes)) start = .ok input →
      ∃ pieces : List (List UInt8), input = start ++ pieces.flatten ∧
        List.Forall₂ (fun (member : CompressedSource × SourceReading) piece =>
          piece.length = member.1.stamp.size.toNat ∧
            digests.blake3 piece = member.1.hash) members pieces from
    from_start [] read
  clear read
  induction members with
  | nil =>
      intro start read
      cases read
      exact ⟨[], by simp, .nil⟩
  | cons member members inductionHypothesis =>
      intro start read
      rw [List.foldlM_cons, bind_eq_ok] at read
      obtain ⟨next, added, rest⟩ := read
      simp only [bind_eq_ok, Except.ok.injEq] at added
      obtain ⟨_, _, bytes, isRead, rfl⟩ := added
      obtain ⟨pieces, rfl, areRead⟩ := inductionHypothesis _ rest
      exact ⟨bytes :: pieces, by simp, .cons
        ⟨length_readVerifiedSource isRead, hash_of_readVerifiedSource isRead⟩
        areRead⟩

/-- The group holds the files of the sources, and the result of its task is the
group as the cheapest codec encodes it. -/
structure EncodedGroup
    (codecs : Codecs)
    (digests : Digests)
    (candidates : List CodecId)
    (sources : List CollectedSource)
    (spool : SpoolHandle)
    (group : LaidGroup) : Prop where
  members : List.Forall₂ (Member.IsOf digests) sources group.members
  vector : group.contents.length < 2 ^ 63
  envelope : ∃ codecId, group.codec = some codecId ∧
    IsCheapest codecs group.contents candidates codecId group.payload ∧
    spool.payload = le16 codecId.toU16 ++ group.payload

/-- The members of a group, from the pieces that were read. -/
theorem exists_members
    {sources : List CollectedSource}
    {readings : List SourceReading}
    (each : readings.length = sources.length)
    {pieces : List (List UInt8)}
    (areRead : List.Forall₂
      (fun (member : CompressedSource × SourceReading) piece =>
        piece.length = member.1.stamp.size.toNat ∧
          digests.blake3 piece = member.1.hash)
      ((sources.map CollectedSource.source).zip readings) pieces) :
    ∃ members : List Member, members.map Member.bytes = pieces ∧
      List.Forall₂ (Member.IsOf digests) sources members := by
  induction sources generalizing readings pieces with
  | nil =>
      cases areRead
      exact ⟨[], rfl, .nil⟩
  | cons source sources inductionHypothesis =>
      cases readings with
      | nil => cases each
      | cons reading readings =>
          rw [List.map_cons, List.zip_cons_cons] at areRead
          cases areRead with
          | @cons _ piece _ pieces isRead rest =>
              obtain ⟨members, areBytes, areOf⟩ :=
                inductionHypothesis (Nat.succ.inj each) rest
              refine ⟨⟨source.entryId, piece⟩ :: members, ?_,
                .cons ⟨rfl, isRead.1, isRead.2⟩ areOf⟩
              rw [List.map_cons, areBytes]

/-- The task of a group has the number of the group, and what it gives is the
encoding of the members as they are read. -/
theorem exists_of_packTask
    {sources : List CompressedSource}
    {groupId : UInt64}
    {plan : SolidGroupPlan}
    {task : ScheduledTask}
    (isTask : packTask codecs digests candidates sources groupId plan =
      .ok task) :
    task.taskId = groupId ∧ ∃ members,
      groupMembers sources plan = .ok members ∧
      ∀ outcome, task.action outcome → ∃ cancelled readings,
        readings.length = members.length ∧
        outcome = encodeSolidGroup codecs digests cancelled
          (members.zip readings) candidates := by
  -- The memory bounds stay as they are: reduced, they are slow to check.
  rw [packTask, bind_eq_ok] at isTask
  obtain ⟨members, isMembers, isTask⟩ := isTask
  rw [bind_eq_ok] at isTask
  obtain ⟨_, _, isTask⟩ := isTask
  rw [bind_eq_ok] at isTask
  obtain ⟨_, _, isTask⟩ := isTask
  obtain rfl := Except.ok.inj isTask
  exact ⟨rfl, members, isMembers, fun _ acted => acted⟩

/-- What the task of a group gives. -/
theorem encodedGroup_of_task
    (crates : codecs.Crates)
    {sources members : List CollectedSource}
    {groupId : UInt64}
    {plan : SolidGroupPlan}
    (isMembers : groupMembers sources plan = .ok members)
    {task : ScheduledTask}
    (isTask : packTask codecs digests candidates
      (sources.map CollectedSource.source) groupId plan = .ok task)
    {spool : SpoolHandle}
    (acted : task.action (.ok spool.payload)) :
    task.taskId = groupId ∧ ∃ group,
      EncodedGroup codecs digests candidates members spool group := by
  obtain ⟨sameId, read, isRead, gives⟩ := exists_of_packTask isTask
  obtain rfl := Except.ok.inj (isRead.symm.trans (groupMembers_map isMembers))
  refine ⟨sameId, ?_⟩
  obtain ⟨cancelled, readings, each, encoded⟩ := gives _ acted
  rw [List.length_map] at each
  obtain ⟨input, gathered, _, _, codecId, payload, cheapest, isEnvelope⟩ :=
    (encodeSolidGroup_eq_ok crates).mp encoded.symm
  obtain ⟨pieces, isInput, areRead⟩ := exists_pieces gathered.2
  obtain ⟨groupMembers, areBytes, areOf⟩ := exists_members each areRead
  have contents : (LaidGroup.mk groupMembers (some codecId) payload).contents =
      input := by
    rw [LaidGroup.contents, List.flatMap_def, areBytes, isInput]
  refine ⟨⟨groupMembers, some codecId, payload⟩, areOf, ?_, codecId, rfl, ?_,
    isEnvelope⟩
  · rw [contents]
    exact gathered.length_lt
  · rw [contents]
    exact cheapest

/-- The results of all tasks, in the order of the plans. -/
theorem encodedGroups_of_spools
    (crates : codecs.Crates)
    {sources : List CollectedSource}
    {plans : List SolidGroupPlan}
    {grouped : List (List CollectedSource)}
    (areMembers : List.Forall₂ (fun plan members =>
      groupMembers sources plan = .ok members) plans grouped)
    {start : Nat}
    {tasks : List ScheduledTask}
    (areTasks : List.Forall₂ (fun plan task =>
      packTask codecs digests candidates
        (sources.map CollectedSource.source) (UInt64.ofNat plan.2) plan.1 =
          .ok task) (plans.zipIdx start) tasks)
    {spools : List SpoolHandle}
    (areResults : List.Forall₂ (fun (task : ScheduledTask)
      (spool : SpoolHandle) => spool.taskId = task.taskId ∧
        task.action (.ok spool.payload)) tasks spools) :
    (∀ (position : Nat) (spool : SpoolHandle),
        spools[position]? = some spool →
        spool.taskId = UInt64.ofNat (start + position)) ∧
      ∃ groups, List.Forall₂ (fun sources (group : LaidGroup) =>
          List.Forall₂ (Member.IsOf digests) sources group.members) grouped
          groups ∧
        List.Forall₂ (fun (spool : SpoolHandle) (group : LaidGroup) =>
          ∃ sources, EncodedGroup codecs digests candidates sources spool
            group) spools groups := by
  induction areMembers generalizing start tasks spools with
  | nil =>
      cases areTasks
      cases areResults
      exact ⟨by simp, [], .nil, .nil⟩
  | @cons plan members plans grouped isMembers _ inductionHypothesis =>
      rw [List.zipIdx_cons] at areTasks
      cases areTasks with
      | cons isTask areTasks =>
          cases areResults with
          | @cons _ spool _ spools isResult areResults =>
              obtain ⟨isId, acted⟩ := isResult
              obtain ⟨taskId, group, encoded⟩ :=
                encodedGroup_of_task crates isMembers isTask acted
              obtain ⟨ids, groups, areOf, areEncoded⟩ :=
                inductionHypothesis areTasks areResults
              refine ⟨?_, group :: groups, .cons encoded.members areOf,
                .cons ⟨_, encoded⟩ areEncoded⟩
              intro position other isOther
              cases position with
              | zero =>
                  cases isOther
                  rw [isId, taskId]
                  rfl
              | succ position =>
                  rw [ids position other isOther]
                  congr 1
                  omega

end Results

/-! ## What is written -/

section Written

variable
  {codecs : Codecs}
  {digests : Digests}
  {candidates : List CodecId}
  {cancelled : Nat → Bool}
  {plans : List SolidGroupPlan}

/-- The codec of a group, as it stands in front of the payload. -/
def LaidGroup.codecId (group : LaidGroup) : UInt16 :=
  (group.codec.map CodecId.toU16).getD 0

/-- One group is written behind the others. -/
theorem writeGroup_eq_ok
    {sources : List CollectedSource}
    {spool : SpoolHandle}
    {group : LaidGroup}
    (encoded : EncodedGroup codecs digests candidates sources spool group)
    {position groupId : Nat}
    (small : groupId < 2 ^ 64)
    (isId : spool.taskId = UInt64.ofNat groupId)
    {plan : SolidGroupPlan}
    (isPlan : plans[groupId]? = some plan)
    (length : plan.uncompressedLen.toNat = group.contents.length)
    (count : plan.itemCount = group.members.length)
    {written next : WrittenGroups}
    (ran : writeGroup digests cancelled plans position spool written =
      .ok next) :
    group.members.length < 2 ^ 32 ∧
      written.position + group.payload.length < 2 ^ 63 ∧
      next = {
        groups := written.groups ++
          [⟨group.record digests groupId, UInt64.ofNat written.position⟩]
        payload := written.payload ++ [group.payload]
        codecIds := written.codecIds ++ [group.codecId] } := by
  obtain ⟨codecId, isCodec, _, envelope⟩ := encoded.envelope
  have rest : spool.payload.drop 2 = group.payload := by
    rw [envelope]
    exact List.drop_left' (length_le16 _)
  have first : readU16 spool.payload 0 = codecId.toU16 := by
    rw [envelope]
    exact readU16_eq (Bytes.slice_head _ (length_le16 _))
  have found : plans[spool.taskId.toNat]? = some plan := by
    rw [isId, toNat_ofNat_of_lt small]
    exact isPlan
  simp only [writeGroup, rest, first, found, CodecId.fromU16_toU16, okOr_some,
    ok_bind, bind_eq_ok, ensure_eq_ok, Except.ok.injEq] at ran
  obtain ⟨_, _, _, _, _, below, _, few, rfl⟩ := ran
  refine ⟨by rwa [← count], below, ?_⟩
  simp [LaidGroup.record, LaidGroup.codecId, isCodec, isId, count, ← length]

/-- All groups are written one after the other. -/
theorem written_of_ok
    {spools : List SpoolHandle}
    {groups : List LaidGroup}
    (areEncoded : List.Forall₂ (fun (spool : SpoolHandle)
      (group : LaidGroup) => ∃ sources,
        EncodedGroup codecs digests candidates sources spool group) spools
      groups)
    {groupId : Nat}
    (small : groupId + spools.length ≤ 2 ^ 64)
    (ids : ∀ (position : Nat) (spool : SpoolHandle),
      spools[position]? = some spool →
      spool.taskId = UInt64.ofNat (groupId + position))
    (lengths : List.Forall₂ (fun (plan : SolidGroupPlan)
      (group : LaidGroup) => plan.uncompressedLen.toNat =
        group.contents.length ∧ plan.itemCount = group.members.length)
      (plans.drop groupId) groups)
    {position : Nat}
    {written next : WrittenGroups}
    (room : written.position < 2 ^ 63)
    (ran : forEnum (writeGroup digests cancelled plans) position spools
      written = .ok next) :
    (∀ group ∈ groups, group.members.length < 2 ^ 32) ∧
      next.position < 2 ^ 63 ∧
      next = {
        groups := written.groups ++
          laidGroupTable digests groupId written.position groups
        payload := written.payload ++ groups.map LaidGroup.payload
        codecIds := written.codecIds ++ groups.map LaidGroup.codecId } := by
  induction areEncoded generalizing groupId position written with
  | nil =>
      cases ran
      refine ⟨by simp, room, ?_⟩
      simp [laidGroupTable]
  | @cons spool group spools groups encoded rest inductionHypothesis =>
      obtain ⟨sources, encoded⟩ := encoded
      simp only [forEnum_cons, bind_eq_ok] at ran
      obtain ⟨middle, first, ran⟩ := ran
      rw [List.length_cons] at small
      generalize isRest : plans.drop groupId = remaining at lengths
      cases lengths with
      | @cons plan _ remaining _ exact lengths =>
          have isPlan : plans[groupId]? = some plan := by
            rw [← Nat.add_zero groupId, ← List.getElem?_drop, isRest]
            rfl
          have later : plans.drop (groupId + 1) = remaining := by
            rw [← List.drop_drop, isRest]
            rfl
          have isId : spool.taskId = UInt64.ofNat groupId := ids 0 spool rfl
          obtain ⟨few, below, rfl⟩ := writeGroup_eq_ok encoded (by omega) isId
            isPlan exact.1 exact.2 first
          have moved : WrittenGroups.position {
              groups := written.groups ++
                [⟨group.record digests groupId,
                  UInt64.ofNat written.position⟩]
              payload := written.payload ++ [group.payload]
              codecIds := written.codecIds ++ [group.codecId] } =
                written.position + group.payload.length := by
            simp [WrittenGroups.position, Nat.add_assoc]
          obtain ⟨fewRest, end_, rfl⟩ := @inductionHypothesis (groupId + 1)
            (by omega) (fun place other isOther => by
              rw [ids (place + 1) other isOther]
              congr 1
              omega) (by rwa [later]) _ _ (by rwa [moved]) ran
          refine ⟨List.forall_mem_cons.mpr ⟨few, fewRest⟩, end_, ?_⟩
          rw [moved]
          simp [laidGroupTable, List.append_assoc]

end Written

/-! ## The registry -/

section Registry

theorem registryRecord_eq_ok
    {codecId : UInt16}
    {record : CodecRegistryRecord}
    (isRecord : registryRecord codecId = .ok record) :
    ∃ known : CodecId, codecId = known.toU16 ∧
      record = {
        chainId := known.chainId
        codecId := known.toU16
        codecVersion := 1
        level := known.defaultLevel
        flags := codecFlagRequired } := by
  simp only [registryRecord, bind_eq_ok, okOr_eq_ok, Except.ok.injEq]
    at isRecord
  obtain ⟨known, isKnown, rfl⟩ := isRecord
  have same : codecId = known.toU16 := by
    have value := codecId.toNat_lt
    unfold CodecId.fromU16 at isKnown
    rw [← UInt16.toNat_inj]
    split at isKnown <;> cases isKnown <;> assumption
  exact ⟨known, same, by rw [same]; rfl⟩

theorem decodable_of_registryRecord
    {codecId : UInt16}
    {record : CodecRegistryRecord}
    (isRecord : registryRecord codecId = .ok record) :
    record.Decodable := by
  obtain ⟨known, _, rfl⟩ := registryRecord_eq_ok isRecord
  cases known <;> exact ⟨by decide, by decide, by decide⟩

theorem CodecId.chainId_injective : Function.Injective CodecId.chainId := by
  intro first second same
  cases first <;> cases second <;> first | rfl | exact absurd same (by decide)

/-- The registry that is written is read back, and it has a chain for every codec
used. -/
theorem usedRegistry_readsBack
    {codecIds : List UInt16}
    {registry : CodecRegistry}
    (isRegistry : usedRegistry codecIds = .ok registry)
    {bytes : List UInt8}
    (written : registry.encode = .ok bytes) :
    CodecRegistry.decode bytes 32 = .ok registry ∧
      ∀ known : CodecId, known.toU16 ∈ codecIds →
        ∃ record, registry.chain known.chainId = some record ∧
          record.codecId = known.toU16 ∧
          record.level = known.defaultLevel := by
  simp only [usedRegistry, bind_eq_ok, Except.ok.injEq] at isRegistry
  obtain ⟨records, areRecords, rfl⟩ := isRegistry
  have origin (record : CodecRegistryRecord) (member : record ∈ records) :=
    mem_of_mapM_eq_ok areRecords member
  have decodable : ∀ record ∈ records, record.Decodable := by
    intro record member
    obtain ⟨codecId, _, isRecord⟩ := origin record member
    exact decodable_of_registryRecord isRecord
  have distinct := (CodecRegistry.encode_eq_ok.mp written).2.2.1
  have few : records.length ≤ (32 : UInt32).toNat := by
    have inside : records ⊆ [CodecId.store, .zstd, .brotli, .lzma2].map
        fun known => {
          chainId := known.chainId
          codecId := known.toU16
          codecVersion := 1
          level := known.defaultLevel
          flags := codecFlagRequired } := by
      intro record member
      obtain ⟨codecId, _, isRecord⟩ := origin record member
      obtain ⟨known, _, rfl⟩ := registryRecord_eq_ok isRecord
      exact List.mem_map.mpr ⟨known, by cases known <;> decide, rfl⟩
    have distinctRecords : records.Nodup := distinct.of_map _
    exact (distinctRecords.subperm inside).length_le.trans (by decide)
  refine ⟨?_, fun known member => ?_⟩
  · obtain ⟨other, isOther, decoded⟩ :=
      @CodecRegistry.decode_encode ⟨records⟩ 32 few decodable distinct
    obtain rfl := Except.ok.inj (isOther.symm.trans written)
    exact decoded
  · have used : known.toU16 ∈ codecIds.dedup.insertionSort (· ≤ ·) := by
      rw [(List.perm_insertionSort _ _).mem_iff]
      exact List.mem_dedup.mpr member
    obtain ⟨record, inRecords, isRecord⟩ :=
      exists_of_mapM_eq_ok areRecords used
    have present : (records.find? fun record =>
        record.chainId = known.chainId).isSome := by
      rw [List.find?_isSome]
      obtain ⟨other, same, rfl⟩ := registryRecord_eq_ok isRecord
      obtain rfl := CodecId.toU16_injective same
      exact ⟨_, inRecords, decide_eq_true rfl⟩
    obtain ⟨found, isFound⟩ := Option.isSome_iff_exists.mp present
    refine ⟨found, isFound, ?_⟩
    have chain := List.find?_some isFound
    obtain ⟨codecId, _, isRecord⟩ := origin found (List.mem_of_find?_eq_some isFound)
    obtain ⟨other, _, rfl⟩ := registryRecord_eq_ok isRecord
    obtain rfl := CodecId.chainId_injective (of_decide_eq_true chain)
    exact ⟨rfl, rfl⟩

end Registry

/-! ## The archive -/

section Archive

variable
  {json : Json}
  {digests : Digests}
  {items : List PackItem}

/-- The entries record the items also when files have been put into groups. -/
theorem Recorded.regrouped
    {before after : List EntryRecord}
    (recorded : Recorded json digests items before)
    (regrouped : Regrouped before after) :
    Recorded json digests items after := by
  refine ⟨regrouped.length_eq.symm.trans recorded.length, ?_⟩
  intro position item entry isItem isEntry
  obtain ⟨old, isOld, same⟩ := regrouped.exists_before isEntry
  have kind := recorded.recorded position item old isItem isOld
  cases kind with
  | directory kind record =>
      subst old
      rcases same with rfl | ⟨isFile, _⟩
      · exact .directory kind rfl
      · cases isFile
  | symlink target targetIsDir kind record =>
      subst old
      rcases same with rfl | ⟨isFile, _⟩
      · exact .symlink target targetIsDir kind rfl
      · cases isFile
  | hardlink first target kind earlier met isTarget targetIsFile record =>
      subst old
      rcases same with rfl | ⟨isFile, _⟩
      · obtain ⟨found, isFound, moved⟩ := regrouped.exists_after isTarget
        rcases moved with rfl | ⟨_, groupId, rfl⟩
        · exact .hardlink first _ kind earlier met isFound targetIsFile rfl
        · exact .hardlink first _ kind earlier met isFound rfl rfl
      · cases isFile
  | file groupId hash kind fresh record =>
      subst old
      rcases same with rfl | ⟨_, other, rfl⟩
      · exact .file groupId hash kind fresh rfl
      · exact .file other hash kind fresh rfl

theorem FilesHashed.regrouped
    {before after : List EntryRecord}
    (hashed : FilesHashed digests items before)
    (regrouped : Regrouped before after) :
    FilesHashed digests items after := by
  intro position item entry isItem isEntry isFile
  obtain ⟨old, isOld, same⟩ := regrouped.exists_before isEntry
  rcases same with rfl | ⟨wasFile, groupId, rfl⟩
  · exact hashed position item _ isItem isOld isFile
  · exact hashed position item old isItem isOld wasFile

theorem checkMetadata_length
    {limits : DecodeLimits}
    {sections : List (List UInt8)}
    {total : UInt64}
    (checked : checkMetadata limits sections = .ok total) :
    sections.flatten.length = total.toNat := by
  simp only [checkMetadata, bind_eq_ok, ensure_eq_ok, Except.ok.injEq]
    at checked
  obtain ⟨sum, summed, _, _, rfl⟩ := checked
  suffices from_start : ∀ start : UInt64,
      sections.foldlM (fun total bytes => do
        ensure (bytes.length ≤ limits.maxMetadataBytes.toNat)
          (PithosError.resourceLimit "seção de metadados")
        okOr (checkedAdd total (UInt64.ofNat bytes.length)) .integerOverflow)
        start = .ok sum →
      start.toNat + sections.flatten.length = sum.toNat by
    have whole := from_start 0 summed
    rwa [UInt64.toNat_zero, Nat.zero_add] at whole
  clear summed
  have maximum := limits.maxMetadataBytes.toNat_lt
  induction sections with
  | nil =>
      rintro start ran
      cases ran
      simp
  | cons bytes sections inductionHypothesis =>
      intro start ran
      rw [List.foldlM_cons, bind_eq_ok] at ran
      obtain ⟨next, added, rest⟩ := ran
      simp only [bind_eq_ok, ensure_eq_ok, okOr_eq_ok, checkedAdd_eq_some]
        at added
      obtain ⟨_, small, added⟩ := added
      rw [toNat_ofNat_of_lt (by omega)] at added
      have whole := inductionHypothesis next rest
      rw [List.flatten_cons, List.length_append]
      omega

/-- A group that was planned is not larger than a group may be. -/
theorem moderate_of_encoded
    {codecs : Codecs}
    (crates : codecs.Crates)
    {candidates : List CodecId}
    (stored : .store ∈ candidates)
    {limits : DecodeLimits}
    {sources : List CollectedSource}
    {spool : SpoolHandle}
    {group : LaidGroup}
    (encoded : EncodedGroup codecs digests candidates sources spool group)
    (within : group.contents.length ≤ limits.maxGroupOutput.toNat) :
    group.Moderate limits := by
  obtain ⟨codecId, _, cheapest, _⟩ := encoded.envelope
  have small := length_payloadOf_lt crates encoded.vector codecId
  rw [payloadOf_of_encode cheapest.encoded] at small
  exact ⟨within, cheapest.length_le encoded.vector stored small⟩

end Archive

end Pithos
