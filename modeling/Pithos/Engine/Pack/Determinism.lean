import Pithos.Engine.Pack.Packing
import Pithos.Engine.Scheduler.Orders

/-!
# The same archive on every run

How many workers encode the groups, and in which order, does not matter: the
catalog of the archive is the same, and so is the whole archive when the files are
read with the same bytes.  The codec of a group is the cheapest one, and a tie is
broken by its number.
-/

namespace Pithos

open Fallible
open Lists
open Machine
open FileTree
open Scheduler

/-! ## One cheapest codec -/

/-- There is at most one cheapest codec. -/
theorem IsCheapest.unique
    {codecs : Codecs}
    {input : List UInt8}
    {candidates : List CodecId}
    {first second : CodecId}
    {firstPayload secondPayload : List UInt8}
    (isFirst : IsCheapest codecs input candidates first firstPayload)
    (isSecond : IsCheapest codecs input candidates second secondPayload) :
    first = second ∧ firstPayload = secondPayload := by
  have same : first = second := by
    by_contra different
    obtain ⟨cost, otherCost, isCost, isOther, below⟩ := isFirst.least second
      isSecond.candidate (Ne.symm different) _ isSecond.encoded
    obtain ⟨again, otherAgain, isAgain, isOtherAgain, above⟩ :=
      isSecond.least first isFirst.candidate different _ isFirst.encoded
    cases isCost.symm.trans isOtherAgain
    cases isOther.symm.trans isAgain
    rcases below with below | ⟨rfl, below⟩
    · rcases above with above | ⟨rfl, _⟩
      · exact UInt64.lt_irrefl _ (UInt64.lt_trans below above)
      · exact UInt64.lt_irrefl _ below
    · rcases above with above | ⟨_, above⟩
      · exact UInt64.lt_irrefl _ above
      · exact UInt16.lt_irrefl _ (UInt16.lt_trans below above)
  subst same
  exact ⟨rfl, Except.ok.inj (isFirst.encoded.symm.trans isSecond.encoded)⟩

section Runs

variable
  {backends : Backends}
  {packLimits : PackLimits}
  {profile : CompressionProfile}
  {items : List PackItem}

/-- Groups with the same files are encoded in the same way. -/
theorem payload_eq_of_members
    {firstSources secondSources : List CollectedSource}
    {first second : SpoolHandle}
    {firstGroup secondGroup : LaidGroup}
    (isFirst : EncodedGroup backends.codecs backends.digests
      (profileCodecs profile) firstSources first firstGroup)
    (isSecond : EncodedGroup backends.codecs backends.digests
      (profileCodecs profile) secondSources second secondGroup)
    (same : firstGroup.members = secondGroup.members) :
    first.payload = second.payload := by
  obtain ⟨codecId, _, cheapest, isPayload⟩ := isFirst.envelope
  obtain ⟨other, _, otherCheapest, isOther⟩ := isSecond.envelope
  rw [LaidGroup.contents, ← same] at otherCheapest
  obtain ⟨rfl, samePayload⟩ := cheapest.unique otherCheapest
  rw [isPayload, isOther, samePayload]

/-- Writing does not depend on when the job might have been cancelled. -/
theorem written_unique
    {digests : Digests}
    {first second : Nat → Bool}
    {plans : List SolidGroupPlan}
    {position : Nat}
    {spools : List SpoolHandle}
    {start written other : WrittenGroups}
    (isFirst : forEnum (writeGroup digests first plans) position spools start =
      .ok written)
    (isSecond : forEnum (writeGroup digests second plans) position spools start =
      .ok other) :
    written = other := by
  induction spools generalizing position start with
  | nil => exact Except.ok.inj (isFirst.symm.trans isSecond)
  | cons spool spools inductionHypothesis =>
      rw [forEnum_cons, bind_eq_ok] at isFirst isSecond
      obtain ⟨next, stepped, rest⟩ := isFirst
      obtain ⟨otherNext, otherStepped, otherRest⟩ := isSecond
      have same : next = otherNext := by
        unfold writeGroup at stepped otherStepped
        rw [bind_eq_ok] at stepped otherStepped
        obtain ⟨_, _, stepped⟩ := stepped
        obtain ⟨_, _, otherStepped⟩ := otherStepped
        exact Except.ok.inj (stepped.symm.trans otherStepped)
      subst same
      exact inductionHypothesis rest otherRest

/-- Two archives written from the same results are the same. -/
theorem compressedParts_unique
    {first second : Nat → Bool}
    {planned : PlannedArchive}
    {spools : List SpoolHandle}
    {parts other : ArchiveParts}
    (isFirst : compressedParts backends packLimits profile first planned
      spools = .ok parts)
    (isSecond : compressedParts backends packLimits profile second planned
      spools = .ok other) :
    parts = other := by
  unfold compressedParts at isFirst isSecond
  rw [bind_eq_ok] at isFirst isSecond
  obtain ⟨written, wrote, isFirst⟩ := isFirst
  obtain ⟨again, wroteAgain, isSecond⟩ := isSecond
  cases written_unique wrote wroteAgain
  exact Except.ok.inj (isFirst.symm.trans isSecond)

/-- Results of groups with the same files are the same. -/
theorem spools_unique
    {start : Nat}
    {spools otherSpools : List SpoolHandle}
    {groups otherGroups : List LaidGroup}
    (ids : ∀ (position : Nat) (spool : SpoolHandle),
      spools[position]? = some spool →
      spool.taskId = UInt64.ofNat (start + position))
    (otherIds : ∀ (position : Nat) (spool : SpoolHandle),
      otherSpools[position]? = some spool →
      spool.taskId = UInt64.ofNat (start + position))
    (encoded : GroupsEncoded backends profile spools groups)
    (otherEncoded : GroupsEncoded backends profile otherSpools otherGroups)
    (same : groups.map LaidGroup.members = otherGroups.map LaidGroup.members) :
    spools = otherSpools := by
  induction encoded generalizing otherSpools otherGroups start with
  | nil =>
      cases otherEncoded with
      | nil => rfl
      | cons _ _ => cases same
  | @cons spool group spools groups isEncoded _ inductionHypothesis =>
      cases otherEncoded with
      | nil => cases same
      | @cons other otherGroup others otherGroups isOther areOther =>
          rw [List.map_cons, List.map_cons, List.cons.injEq] at same
          obtain ⟨_, isEncoded⟩ := isEncoded
          obtain ⟨_, isOther⟩ := isOther
          have payload := payload_eq_of_members isEncoded isOther same.1
          have taskId : spool.taskId = other.taskId :=
            (ids 0 spool rfl).trans (otherIds 0 other rfl).symm
          have rest := @inductionHypothesis (start + 1) others otherGroups
            (fun position spool isSpool => by
              rw [ids (position + 1) spool isSpool, Nat.add_right_comm,
                Nat.add_assoc])
            (fun position spool isSpool => by
              rw [otherIds (position + 1) spool isSpool, Nat.add_right_comm,
                Nat.add_assoc]) areOther same.2
          obtain ⟨id, bytes⟩ := spool
          obtain ⟨otherId, otherBytes⟩ := other
          cases payload
          cases taskId
          rw [rest]

/-- The catalog depends on the plan only. -/
theorem catalog_of_compressedParts
    {cancelled : Nat → Bool}
    {planned : PlannedArchive}
    {spools : List SpoolHandle}
    {parts : ArchiveParts}
    (ran : compressedParts backends packLimits profile cancelled planned
      spools = .ok parts) :
    parts.entries = planned.placing.entries ∧
      parts.restoreMap = planned.placing.restoreMap ∧
      parts.originalTotalSize = planned.originalTotalSize := by
  simp only [compressedParts, bind_eq_ok, Except.ok.injEq] at ran
  obtain ⟨_, _, _, _, _, _, _, _, _, _, _, _, _, _, rfl⟩ := ran
  exact ⟨rfl, rfl, rfl⟩

/-- Two runs of the packer on the same items, with any number of workers and in
any order of the tasks, build archives with the same catalog; and they are the
same archive when both have read the same bytes of each file.  The bytes of a file
have the same hash in both. -/
theorem builds_schedule_independent
    (lawful : backends.digests.Lawful)
    (crates : backends.codecs.Crates)
    (lossless : backends.codecs.Lossless)
    (scanned : Scanned (packLimits.decodeLimits profile) items)
    {parts other : ArchiveParts}
    (builds : Builds backends packLimits items profile parts)
    (buildsOther : Builds backends packLimits items profile other) :
    parts.entries = other.entries ∧ parts.restoreMap = other.restoreMap ∧
      parts.originalTotalSize = other.originalTotalSize ∧
      ∃ groups otherGroups registry otherRegistry,
        Built backends packLimits profile items parts groups registry ∧
        Built backends packLimits profile items other otherGroups
          otherRegistry ∧
        laidRows backends.digests 0 groups =
          laidRows backends.digests 0 otherGroups ∧
        (groups.map LaidGroup.members = otherGroups.map LaidGroup.members →
          parts = other) := by
  cases builds with
  | raw ran =>
      cases buildsOther with
      | raw ranOther =>
          cases ran.symm.trans ranOther
          have built := (built_of_rawParts lawful ran).1
          exact ⟨rfl, rfl, rfl, _, _, _, _, built, built, rfl, fun _ => rfl⟩
      | compressed notRaw _ => exact absurd rfl notRaw
  | compressed notRaw ran =>
      cases buildsOther with
      | raw _ => exact absurd rfl notRaw
      | compressed _ ranOther =>
          obtain ⟨planned, spools, groups, registry, written, built⟩ :=
            built_of_buildsCompressed crates lossless notRaw scanned ran
          obtain ⟨again, otherSpools, otherGroups, otherRegistry, otherWritten,
            otherBuilt⟩ :=
            built_of_buildsCompressed crates lossless notRaw scanned ranOther
          cases written.isPlanned.symm.trans otherWritten.isPlanned
          obtain ⟨_, isWritten⟩ := written.written
          obtain ⟨_, isOther⟩ := otherWritten.written
          obtain ⟨entries, restoreMap, total⟩ :=
            catalog_of_compressedParts isWritten
          obtain ⟨otherEntries, otherRestoreMap, otherTotal⟩ :=
            catalog_of_compressedParts isOther
          have sameEntries := entries.trans otherEntries.symm
          refine ⟨sameEntries, restoreMap.trans otherRestoreMap.symm,
            total.trans otherTotal.symm, groups, otherGroups, _, _, built,
            otherBuilt, ?_, fun same => ?_⟩
          · rw [← built.rows, ← otherBuilt.rows, sameEntries]
          · cases spools_unique written.ids otherWritten.ids written.encoded
              otherWritten.encoded same
            exact compressedParts_unique isWritten isOther

end Runs

/-! ## Reading in one turn -/

/-- A reading that takes one turn. -/
def wholeReading (stamp : SourceStamp) (bytes : List UInt8) : SourceReading where
  cancelled := false
  initial := .ok stamp
  opened := .ok ()
  turns := [⟨false, .ok bytes⟩]
  final := .ok stamp

/-- A file that is read in one turn. -/
theorem readSourceBytes_whole
    {digests : Digests}
    {source : CompressedSource}
    {bytes : List UInt8}
    (nonempty : bytes ≠ [])
    (isLength : bytes.length = source.stamp.size.toNat)
    {verifyHash : Bool}
    (same : verifyHash = true → digests.blake3 bytes = source.hash) :
    readSourceBytes digests source (wholeReading source.stamp bytes)
      verifyHash = .ok bytes := by
  have turns : readSourceTurns source.stamp.size [⟨false, .ok bytes⟩] [] =
      .ok bytes := by
    rw [readSourceTurns, ensure_of rfl, ok_bind, ofIo, ok_bind, if_neg nonempty,
      List.nil_append, ensure_of (Nat.le_of_eq isLength), ok_bind,
      readSourceTurns]
  simp only [readSourceBytes, wholeReading, ofIo, ok_bind, ensure_of, turns,
    isLength, true_and]
  rw [ensure_of same, ok_bind]

theorem readVerifiedSource_whole
    {digests : Digests}
    {source : CompressedSource}
    {bytes : List UInt8}
    (nonempty : bytes ≠ [])
    (isLength : bytes.length = source.stamp.size.toNat)
    (same : digests.blake3 bytes = source.hash) :
    readVerifiedSource digests source (wholeReading source.stamp bytes) =
      .ok bytes := by
  rw [readVerifiedSource, readSourceBytes_whole nonempty isLength fun _ => same,
    ok_bind, ensure_of same, ok_bind]

/-- Hashing a file that is read in one turn. -/
theorem packCompressedFile_whole
    {digests : Digests}
    {item : PackItem}
    {bytes : List UInt8}
    (isCurrent : item.current = .ok item.stamp)
    (isReading : item.reading = wholeReading item.stamp bytes)
    (nonempty : bytes ≠ [])
    (isLength : bytes.length = item.size.toNat)
    (entryId : UInt64)
    (sources : List CollectedSource) :
    packCompressedFile digests item entryId sources =
      .ok (sources ++ [⟨entryId, ⟨item.stamp, digests.blake3 bytes⟩⟩],
        item.size, digests.blake3 bytes, .file unplannedGroup) := by
  have read := @readSourceBytes_whole digests ⟨item.stamp, Bytes.zeros 32⟩ bytes
    nonempty isLength false nofun
  have size : UInt64.ofNat bytes.length = item.size := by
    rw [isLength, UInt64.ofNat_toNat]
  rw [packCompressedFile, hashInputFile, isCurrent, isReading, ofIo, ok_bind,
    ensure_of rfl, ok_bind, read, ok_bind, ok_bind, size]
  rfl

/-- Writing the group of a task that has succeeded. -/
theorem writeGroup_of_envelope
    {digests : Digests}
    {cancelled : Nat → Bool}
    {plans : List SolidGroupPlan}
    {position : Nat}
    {taskId : UInt64}
    {codecId : CodecId}
    {payload : List UInt8}
    {plan : SolidGroupPlan}
    {written : WrittenGroups}
    (goesOn : cancelled position = false)
    (below : written.position + payload.length < 2 ^ 63)
    (isPlan : plans[taskId.toNat]? = some plan)
    (few : plan.itemCount < 2 ^ 32) :
    writeGroup digests cancelled plans position
        ⟨taskId, le16 codecId.toU16 ++ payload⟩ written = .ok {
      groups := written.groups ++ [⟨{
        version := 1
        flags := 0
        groupId := taskId
        codecChainId := codecId.chainId
        chunkCount := UInt32.ofNat plan.itemCount
        uncompressedLen := plan.uncompressedLen
        compressedLen := UInt64.ofNat payload.length
        descriptorLen := 0
        payloadCrc32c := digests.crc32c payload },
        UInt64.ofNat written.position⟩]
      payload := written.payload ++ [payload]
      codecIds := written.codecIds ++ [codecId.toU16] } := by
  have rest : (le16 codecId.toU16 ++ payload).drop 2 = payload :=
    List.drop_left' (length_le16 _)
  have first : readU16 (le16 codecId.toU16 ++ payload) 0 = codecId.toU16 :=
    readU16_eq (Bytes.slice_head _ (length_le16 _))
  have envelope : 2 ≤ (le16 codecId.toU16 ++ payload).length := by
    rw [List.length_append, length_le16]
    omega
  simp only [writeGroup, rest, first, isPlan, CodecId.fromU16_toU16, okOr_some,
    ok_bind, ensure_of goesOn, ensure_of envelope, ensure_of below,
    ensure_of few]

/-! ## Two files in two groups -/

/-- Zeros, which nothing but their number is to be known of. -/
@[irreducible] def manyZeros (count : Nat) : List UInt8 :=
  List.replicate count 0

theorem length_manyZeros (count : Nat) : (manyZeros count).length = count := by
  unfold manyZeros
  exact List.length_replicate

/-- Four mebibytes of zeros: a group of its own in the profile `stream`. -/
def largeText : List UInt8 := manyZeros 4194304

/-- The zeros as a Zstandard frame, as level 9 writes it. -/
def largeZstd : List UInt8 :=
  [0x28, 0xB5, 0x2F, 0xFD, 0x00, 0x60, 0x4C, 0x00, 0x00, 0x08, 0x00, 0x01,
    0x00, 0xFC, 0xFF, 0xE4, 0x4E, 0x08] ++
    (List.replicate 31 [0x02, 0x00, 0x10, 0x00]).flatten ++ [0x01, 0x00, 0x00]

/-- The letter `a` as a Zstandard frame. -/
def letterZstd : List UInt8 :=
  [0x28, 0xB5, 0x2F, 0xFD, 0x00, 0x60, 0x09, 0x00, 0x00, 0x61]

theorem length_largeText : largeText.length = 4194304 :=
  length_manyZeros 4194304

theorem length_largeZstd : largeZstd.length = 145 := by
  simp [largeZstd]

theorem largeText_ne : ([97] : List UInt8) ≠ largeText := by
  intro same
  have lengths := congrArg List.length same
  rw [length_largeText, List.length_singleton] at lengths
  omega

theorem largeText_nonempty : largeText ≠ [] := by
  refine List.ne_nil_of_length_pos ?_
  rw [length_largeText]
  exact Nat.succ_pos _

/-- What the Zstandard crate does with the zeros and the letter. -/
def zstdCodecs : Codecs where
  compress codecId level input :=
    if codecId = .zstd ∧ level = 9 ∧ input = largeText then .ok largeZstd
    else if codecId = .zstd ∧ level = 9 ∧ input = [97] then .ok letterZstd
    else .error (.io .invalidInput)
  decompress codecId payload :=
    if codecId = .zstd ∧ payload = largeZstd then .ok largeText
    else if codecId = .zstd ∧ payload = letterZstd then .ok [97]
    else .error (.io .invalidInput)

theorem zstdCodecs_crates : zstdCodecs.Crates where
  vector := by
    intro codecId level input output written
    change (if _ then _ else if _ then _ else _) = _ at written
    split at written
    · cases written
      rw [length_largeZstd]
      decide
    · split at written
      · cases written
        decide
      · cases written
  io := by
    intro codecId level input failure failed
    change (if _ then _ else if _ then _ else _) = _ at failed
    split at failed
    · cases failed
    · split at failed
      · cases failed
      · cases failed
        exact ⟨_, rfl⟩

theorem zstdCodecs_lossless : zstdCodecs.Lossless := by
  intro codecId level input output written
  change (if _ then _ else if _ then _ else _) = _ at written
  split at written
  · rename_i isLarge
    obtain ⟨rfl, _, rfl⟩ := isLarge
    cases written
    simp only [zstdCodecs, and_self, if_true]
  · split at written
    · rename_i isLetter
      obtain ⟨rfl, _, rfl⟩ := isLetter
      cases written
      have other : letterZstd ≠ largeZstd := by decide
      simp only [zstdCodecs, other, and_false, and_self, if_true, if_false]
    · cases written

/-- The BLAKE3 digest of the zeros. -/
def largeDigest : Digest :=
  ⟨[0x04, 0xE5, 0x2C, 0xD2, 0xDA, 0x6A, 0x0E, 0x1F,
    0x33, 0x8B, 0x00, 0x78, 0x36, 0x91, 0x30, 0xD9,
    0x65, 0x85, 0xC1, 0xDE, 0x65, 0x05, 0x7D, 0xA5,
    0xDD, 0x12, 0x83, 0xB1, 0x2F, 0xB8, 0x53, 0xE1], rfl⟩

/-- CRC32C and BLAKE3, which looks the digest of the zeros up. -/
def lookupDigests : Digests :=
  { Digests.crates with
    blake3 := fun bytes =>
      if bytes = largeText then largeDigest else Digests.crates.blake3 bytes }

theorem lookupDigests_lawful : lookupDigests.Lawful :=
  ⟨Digests.crates_lawful.crc32c_nil, Digests.crates_lawful.crc32cAppend_crc32c⟩

theorem blake3_largeText : lookupDigests.blake3 largeText = largeDigest :=
  if_pos rfl

theorem blake3_letter :
    lookupDigests.blake3 [97] = Digests.crates.blake3 [97] :=
  if_neg largeText_ne

/-- The crates around the two files. -/
def groupsBackends : Backends where
  digests := lookupDigests
  json := packedBackends.json
  codecs := zstdCodecs

/-- A file `g` of zeros. -/
def largeFile : PackItem :=
  { packedItem [120, 47, 103] [[103]] 0o644 (some 8) .file with
    size := 4194304
    current := .ok ⟨4194304, none, some 8⟩
    reading := wholeReading ⟨4194304, none, some 8⟩ largeText }

/-- A file `h` with the letter `a`. -/
def letterFile : PackItem :=
  packedItem [120, 47, 104] [[104]] 0o644 (some 7) .file

/-- The large file when it has been hashed. -/
def largeSource : CompressedSource := ⟨⟨4194304, none, some 8⟩, largeDigest⟩

/-- The letter when it has been hashed. -/
def letterSource : CompressedSource :=
  ⟨packedStamp, Digests.crates.blake3 [97]⟩

/-- What has been collected before the letter. -/
def collectedLarge : Collecting (List CollectedSource) where
  entries := [largeFile.record 0 4194304 largeDigest (.file unplannedGroup)]
  hardlinks := [(8, 0, 4194304, largeDigest)]
  originalTotalSize := 4194304
  files := [⟨0, largeSource⟩]

/-- What has been collected of both files. -/
def collectedGroups : Collecting (List CollectedSource) where
  entries := [largeFile.record 0 4194304 largeDigest (.file unplannedGroup),
    letterFile.record 1 1 (Digests.crates.blake3 [97]) (.file unplannedGroup)]
  hardlinks := [(7, 1, 1, Digests.crates.blake3 [97]),
    (8, 0, 4194304, largeDigest)]
  originalTotalSize := 4194305
  files := [⟨0, largeSource⟩, ⟨1, letterSource⟩]

theorem largeFile_collected (json : Json) :
    collectItem json lookupDigests (PackLimits.default.decodeLimits .stream)
        (packCompressedFile lookupDigests) 0 largeFile (Collecting.start []) =
      .ok collectedLarge := by
  have packed := @packCompressedFile_whole lookupDigests largeFile largeText rfl
    rfl largeText_nonempty length_largeText
  rw [blake3_largeText] at packed
  unfold collectItem
  simp only [packed]
  rfl

theorem letterFile_collected (json : Json) :
    collectItem json lookupDigests (PackLimits.default.decodeLimits .stream)
        (packCompressedFile lookupDigests) 1 letterFile collectedLarge =
      .ok collectedGroups := by
  have packed := @packCompressedFile_whole lookupDigests letterFile [97] rfl rfl
    (List.cons_ne_nil _ _) rfl
  rw [blake3_letter] at packed
  unfold collectItem
  simp only [packed]
  rfl

/-- The task of a group with one file. -/
def groupTask
    (groupId scratchBytes outputBound : UInt64)
    (source : CompressedSource) : ScheduledTask where
  taskId := groupId
  priority := .packForeground
  dependencies := []
  resources := ⟨0, scratchBytes, outputBound⟩
  action := fun result => ∃ cancelled readings,
    readings.length = [source].length ∧
    result = encodeSolidGroup zstdCodecs lookupDigests cancelled
      ([source].zip readings) (profileCodecs .stream)

/-- The task of the group of the large file. -/
def largeTask : ScheduledTask :=
  groupTask 0 138412032 5242882 largeSource

/-- The task of the group of the small file. -/
def letterTask : ScheduledTask :=
  groupTask 1 134217729 1048579 letterSource

/-- The plan for the two files: each is a group of its own. -/
def groupsPlan : PlannedArchive where
  sources := collectedGroups.files
  originalTotalSize := 4194305
  plans := [⟨0, 1, 4194304⟩, ⟨1, 1, 1⟩]
  placing := {
    entries := [largeFile.record 0 4194304 largeDigest (.file 0),
      letterFile.record 1 1 (Digests.crates.blake3 [97]) (.file 1)]
    restoreMap := [⟨0, 0, 4194304, 0, 0⟩, ⟨1, 0, 1, 1, 0⟩] }
  tasks := [largeTask, letterTask]

theorem groupsPlan_planned :
    planCompressed groupsBackends .default .stream [largeFile, letterFile] =
      .ok groupsPlan := by
  have collected : collect groupsBackends.json groupsBackends.digests
      (PackLimits.default.decodeLimits .stream)
      (packCompressedFile groupsBackends.digests) [] [largeFile, letterFile] =
        .ok collectedGroups := by
    refine bind_eq_ok.mpr ⟨_, largeFile_collected _, ?_⟩
    exact bind_eq_ok.mpr ⟨_, letterFile_collected _, rfl⟩
  rw [planCompressed, collected, ok_bind]
  rfl

/-- A group of one file is encoded with the cheaper of the two codecs. -/
theorem groupTask_acts
    {groupId scratchBytes outputBound : UInt64}
    {source : CompressedSource}
    {bytes frame payload : List UInt8}
    {codecId : CodecId}
    (nonempty : bytes ≠ [])
    (isLength : bytes.length = source.stamp.size.toNat)
    (small : bytes.length < 2 ^ 63)
    (same : lookupDigests.blake3 bytes = source.hash)
    (framed : zstdCodecs.encode .zstd 9 bytes = .ok frame)
    (cheapest : IsCheapest zstdCodecs bytes [.store, .zstd] codecId payload) :
    (groupTask groupId scratchBytes outputBound source).action
      (.ok (le16 codecId.toU16 ++ payload)) := by
  have read := readVerifiedSource_whole nonempty isLength same
  refine ⟨fun _ => false, [wholeReading source.stamp bytes], rfl, Eq.symm ?_⟩
  refine (encodeSolidGroup_eq_ok zstdCodecs_crates).mpr
    ⟨bytes, ⟨?_, ?_⟩, fun _ _ => rfl, ?_, codecId, payload, cheapest, rfl⟩
  · change source.stamp.size.toNat + 0 < 2 ^ 63
    omega
  · exact bind_eq_ok.mpr ⟨bytes, bind_eq_ok.mpr
      ⟨(), rfl, bind_eq_ok.mpr ⟨bytes, read, rfl⟩⟩, rfl⟩
  · exact List.forall_mem_cons.mpr
      ⟨⟨bytes, rfl⟩, List.forall_mem_singleton.mpr ⟨frame, framed⟩⟩

theorem encode_zstd (codecs : Codecs) (input : List UInt8) :
    codecs.encode .zstd 9 input = codecs.compress .zstd 9 input := rfl

theorem largeText_framed :
    zstdCodecs.encode .zstd 9 largeText = .ok largeZstd := by
  rw [encode_zstd]
  simp only [zstdCodecs, and_self, if_true]

theorem letter_framed : zstdCodecs.encode .zstd 9 [97] = .ok letterZstd := by
  rw [encode_zstd]
  simp only [zstdCodecs, largeText_ne, and_false, and_self, if_true, if_false]

theorem small_largeText : largeText.length < 2 ^ 63 := by
  rw [length_largeText]
  omega

/-- The zeros cost less as a frame. -/
theorem largeText_isCheapest :
    IsCheapest zstdCodecs largeText [.store, .zstd] .zstd largeZstd where
  candidate := by decide
  encoded := largeText_framed
  least := by
    intro other member different payload encoded
    rcases List.mem_pair.mp member with rfl | rfl
    · obtain rfl := Except.ok.inj
        ((encode_store zstdCodecs largeText).symm.trans encoded)
      obtain ⟨cost, isCost, value⟩ := total_payloadCost small_largeText
      obtain ⟨frameCost, isFrameCost, frameValue⟩ :=
        @total_payloadCost largeZstd (by rw [length_largeZstd]; omega)
      refine ⟨frameCost, cost, isFrameCost, isCost, Or.inl ?_⟩
      rw [UInt64.lt_iff_toNat_lt, value, frameValue, length_largeZstd,
        length_largeText]
      omega
    · exact absurd rfl different

/-- The letter costs less as it is. -/
theorem letter_isCheapest :
    IsCheapest zstdCodecs [97] [.store, .zstd] .store [97] where
  candidate := by decide
  encoded := rfl
  least := by
    intro other member different payload encoded
    rcases List.mem_pair.mp member with rfl | rfl
    · exact absurd rfl different
    · cases letter_framed.symm.trans encoded
      exact ⟨69, 78, by decide, by decide, by decide⟩

theorem largeTask_acts : largeTask.action (.ok (le16 1 ++ largeZstd)) :=
  @groupTask_acts _ _ _ largeSource _ _ _ _ largeText_nonempty length_largeText
    small_largeText blake3_largeText largeText_framed largeText_isCheapest

theorem letterTask_acts : letterTask.action (.ok (le16 0 ++ [97])) :=
  @groupTask_acts _ _ _ letterSource _ _ _ _ (List.cons_ne_nil _ _) rfl
    (by decide) blake3_letter letter_framed letter_isCheapest

/-- The results of the two tasks. -/
def groupsSpools : List SpoolHandle :=
  [⟨0, le16 1 ++ largeZstd⟩, ⟨1, le16 0 ++ [97]⟩]

theorem groups_checksums :
    Crc32c.checksum largeZstd = 3894868666 ∧
      Crc32c.checksum [97] = 3251651376 := by
  have pieces : Crc32c.checksum (largeZstd.take 50) = 3094763791 ∧
      Crc32c.append 3094763791 ((largeZstd.drop 50).take 50) = 1629136661 ∧
      Crc32c.append 1629136661 ((largeZstd.drop 50).drop 50) = 3894868666 ∧
      Crc32c.checksum [97] = 3251651376 := by
    decide +kernel
  obtain ⟨front, middle, back, letter⟩ := pieces
  refine ⟨?_, letter⟩
  rw [← back, ← middle, ← front, Crc32c.append_checksum, Crc32c.append_checksum,
    List.append_assoc, List.take_append_drop, List.take_append_drop]

/-- What is written of the two groups. -/
def groupsWritten (largeChecksum letterChecksum : UInt32) : WrittenGroups where
  groups := [⟨⟨1, 0, 0, 2, 1, 4194304, 145, 0, largeChecksum⟩, 320⟩,
    ⟨⟨1, 0, 1, 1, 1, 1, 1, 0, letterChecksum⟩, 465⟩]
  payload := [largeZstd, [97]]
  codecIds := [1, 0]

/-- What the packer builds of the two files. -/
def groupsParts : ArchiveParts :=
  groupsPlan.parts (groupsWritten 3894868666 3251651376)
    ((CodecRegistry.encode ⟨[⟨1, 0, 1, 0, codecFlagRequired⟩,
      ⟨2, 1, 1, 9, codecFlagRequired⟩]⟩).toOption.getD [])

/-- What is written before the group of the letter. -/
def largeWritten : WrittenGroups where
  groups := [⟨⟨1, 0, 0, 2, 1, 4194304, 145, 0, Crc32c.checksum largeZstd⟩, 320⟩]
  payload := [largeZstd]
  codecIds := [1]

theorem groups_written :
    forEnum (writeGroup lookupDigests (fun _ => false) groupsPlan.plans) 0
        groupsSpools ⟨[], [], []⟩ =
      .ok (groupsWritten (Crc32c.checksum largeZstd)
        (Crc32c.checksum [97])) := by
  have large := @writeGroup_of_envelope lookupDigests (fun _ => false)
    groupsPlan.plans 0 0 .zstd largeZstd ⟨0, 1, 4194304⟩ ⟨[], [], []⟩ rfl
    (by rw [length_largeZstd]; decide) rfl (by decide)
  have position : largeWritten.position = 465 := by
    rw [WrittenGroups.position, largeWritten, List.flatten_singleton,
      length_largeZstd]
    rfl
  have letter := @writeGroup_of_envelope lookupDigests (fun _ => false)
    groupsPlan.plans 1 1 .store [97] ⟨1, 1, 1⟩ largeWritten rfl
    (by rw [position]; decide) rfl (by decide)
  rw [length_largeZstd] at large
  rw [position] at letter
  exact bind_eq_ok.mpr ⟨_, large, bind_eq_ok.mpr ⟨_, letter, rfl⟩⟩

theorem groupsParts_written :
    compressedParts groupsBackends .default .stream (fun _ => false) groupsPlan
      groupsSpools = .ok groupsParts := by
  have wrote := groups_written
  rw [groups_checksums.1, groups_checksums.2] at wrote
  rw [compressedParts]
  refine bind_eq_ok.mpr ⟨_, wrote, ?_⟩
  decide +kernel

/-- Two workers, and memory for both groups. -/
def twoWorkers : { count : UInt64 // count ≠ 0 } := ⟨2, by decide⟩

theorem groupTasks_two :
    TwoTasks (PackLimits.default.schedulerConfig twoWorkers) largeTask
      letterTask 143654914 135266308 where
  workers := by decide
  firstFree := rfl
  lastFree := rfl
  samePriority := rfl
  ordered := by decide
  firstFits := by decide
  lastFits := by decide

theorem groups_prepared :
    prepare groupsPlan.tasks (PackLimits.default.schedulerConfig twoWorkers)
        false true =
      .ok (pairStart (PackLimits.default.schedulerConfig twoWorkers) largeTask
        letterTask 143654914 135266308) := by
  have valid : validateDag groupsPlan.tasks = .ok () :=
    validateDag_of_independent (by decide) (by decide)
      (List.forall_mem_cons.mpr ⟨rfl, List.forall_mem_singleton.mpr rfl⟩)
  rw [prepare, valid, ok_bind]
  rfl

/-- An archive is built whichever group is encoded first. -/
theorem groups_built
    {received : List UInt64}
    (order : received = [0, 1] ∨ received = [1, 0]) :
    ∃ events, receivedIds events = received ∧
      BuildsCompressed groupsBackends .default .stream twoWorkers
        [largeFile, letterFile] events groupsParts := by
  obtain ⟨state, ⟨events, run, isReceived⟩, returned⟩ :=
    groupTasks_two.either_order largeTask_acts
      (by rw [List.length_append, length_le16, length_largeZstd]; decide)
      letterTask_acts (by decide) order
  exact ⟨events, isReceived, ⟨groupsPlan, _, state, fun _ => false, _,
    groupsPlan_planned, groups_prepared, run, returned, groupsParts_written⟩⟩

theorem groups_scanned :
    Scanned (PackLimits.default.decodeLimits .stream)
      [largeFile, letterFile] where
  count := by decide
  paths := List.forall_mem_cons.mpr ⟨validateArchivePath_eq_ok.mp rfl,
    List.forall_mem_singleton.mpr (validateArchivePath_eq_ok.mp rfl)⟩
  sortKeys := by decide
  links := List.forall_mem_cons.mpr ⟨nofun,
    List.forall_mem_singleton.mpr nofun⟩

/-- One run encodes the zeros first and one the letter. -/
theorem groups_schedule_independent :
    ∃ events otherEvents parts other,
      receivedIds events = [0, 1] ∧ receivedIds otherEvents = [1, 0] ∧
      BuildsCompressed groupsBackends .default .stream twoWorkers
        [largeFile, letterFile] events parts ∧
      BuildsCompressed groupsBackends .default .stream twoWorkers
        [largeFile, letterFile] otherEvents other ∧
      parts.groups.length = 2 ∧
      parts.entries = other.entries ∧ parts.restoreMap = other.restoreMap ∧
      parts.originalTotalSize = other.originalTotalSize ∧
      ∃ groups otherGroups registry otherRegistry,
        Built groupsBackends .default .stream [largeFile, letterFile] parts
          groups registry ∧
        Built groupsBackends .default .stream [largeFile, letterFile] other
          otherGroups otherRegistry ∧
        laidRows lookupDigests 0 groups = laidRows lookupDigests 0 otherGroups ∧
        (groups.map LaidGroup.members = otherGroups.map LaidGroup.members →
          parts = other) := by
  obtain ⟨events, zerosFirst, built⟩ := groups_built (Or.inl rfl)
  obtain ⟨otherEvents, letterFirst, otherBuilt⟩ := groups_built (Or.inr rfl)
  have same := builds_schedule_independent lookupDigests_lawful
    zstdCodecs_crates zstdCodecs_lossless groups_scanned
    (.compressed (by decide) built) (.compressed (by decide) otherBuilt)
  exact ⟨events, otherEvents, groupsParts, groupsParts, zerosFirst, letterFirst,
    built, otherBuilt, rfl, same⟩

end Pithos
