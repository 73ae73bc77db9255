import Pithos.Engine.Pack.Built

/-!
# Packing without compression

The RAW packer copies every new file into the payload, as a group of its own,
while it walks over the scanned entries.  Then it writes the tables behind the
payload and verifies what it has written.
-/

namespace Pithos

open Fallible
open Machine
open FileTree

/-! ## Copying a file -/

/-- Copy a source in pieces to its end, but not beyond the size it had. -/
def copyTurns (size : UInt64) :
    List ReadTurn → List (List UInt8) → Result (List (List UInt8))
  | [], pieces => .ok pieces
  | turn :: turns, pieces => do
      ensure (turn.cancelled = false) .cancelled
      let bytes ← ofIo turn.read
      if bytes = [] then .ok pieces
      else
        ensure ((pieces ++ [bytes]).flatten.length < 2 ^ 64) .integerOverflow
        ensure ((pieces ++ [bytes]).flatten.length ≤ size.toNat) .inputChanged
        copyTurns size turns (pieces ++ [bytes])

/-- Copy an input file that looks as it did when it was scanned. -/
def copyInputFile (stamp : SourceStamp) (reading : SourceReading) :
    Result (List (List UInt8)) := do
  let current ← ofIo reading.initial
  ensure (current = stamp) .inputChanged
  ofIo reading.opened
  let pieces ← copyTurns stamp.size reading.turns []
  let final ← ofIo reading.final
  ensure (pieces.flatten.length = stamp.size.toNat ∧ final = stamp)
    .inputChanged
  .ok pieces

/-! ## The packer -/

/-- What the RAW packer keeps of the files.  The payload is kept in the pieces
it was written in. -/
structure RawFiles where
  groups : List GroupTableRecord
  restoreMap : List RestoreMapRecord
  payload : List (List UInt8)

/-- No file has been written. -/
def RawFiles.start : RawFiles := ⟨[], [], []⟩

/-- Where the payload starts in an archive without a codec registry. -/
def rawPayloadStart : Nat :=
  headerLen + requiredRawSections.toNat * sectionEntryLen

/-- Where the next file goes. -/
def RawFiles.position (files : RawFiles) : UInt64 :=
  UInt64.ofNat (rawPayloadStart + files.payload.flatten.length)

/-- The group of a file that is copied. -/
def RawFiles.groupRecord
    (digests : Digests)
    (files : RawFiles)
    (pieces : List (List UInt8)) : GroupRecord where
  version := 1
  flags := 0
  groupId := UInt64.ofNat files.groups.length
  codecChainId := 0
  chunkCount := 1
  uncompressedLen := UInt64.ofNat pieces.flatten.length
  compressedLen := UInt64.ofNat pieces.flatten.length
  descriptorLen := 0
  payloadCrc32c := pieces.foldl digests.crc32cAppend 0

/-- Copy a new file behind the others. -/
def packRawFile (digests : Digests) (archiveBudget : UInt64) :
    PackFile RawFiles := fun item entryId files => do
  ensure ((checkedAdd files.position item.size).any fun finish =>
    finish ≤ archiveBudget) (.resourceLimit "archive output")
  let pieces ← copyInputFile item.stamp item.reading
  .ok ({
      groups := files.groups ++
        [⟨files.groupRecord digests pieces, files.position⟩]
      restoreMap := files.restoreMap ++
        [{ entryId := entryId
           originalOffset := 0
           length := UInt64.ofNat pieces.flatten.length
           groupId := UInt64.ofNat files.groups.length
           groupOffset := 0 }]
      payload := files.payload ++ pieces },
    UInt64.ofNat pieces.flatten.length, digests.blake3 pieces.flatten,
    .file (UInt64.ofNat files.groups.length))

/-- The metadata sections, each and together, stay within their limit. -/
def checkRawMetadata (limits : DecodeLimits) (sections : List (List UInt8)) :
    Result UInt64 := do
  forEnum (fun _ (bytes : List UInt8) (_ : Unit) =>
    ensure (bytes.length ≤ limits.maxMetadataBytes.toNat)
      (.resourceLimit "seção de metadados")) 0 sections ()
  let total ← (sections.map fun bytes => UInt64.ofNat bytes.length).foldlM
    (fun total length => okOr (checkedAdd total length) .integerOverflow) 0
  ensure (total ≤ limits.maxMetadataBytes)
    (.resourceLimit "aggregate metadata")
  .ok total

/-- How long the archive is going to be. -/
def expectedLength (payloadEnd metadataTotal : UInt64) : Result UInt64 := do
  let length ← okOr (checkedAdd payloadEnd metadataTotal) .integerOverflow
  okOr (checkedAdd length (UInt64.ofNat footerLen)) .integerOverflow

namespace PackLimits

/-- The room for an archive that is written once. -/
def archiveBudget (packLimits : PackLimits) : UInt64 :=
  min packLimits.maxTempBytes packLimits.maxOutputBytes

end PackLimits

/-- What the RAW packer has collected when it starts to write metadata. -/
def Collecting.rawParts (state : Collecting RawFiles) : ArchiveParts where
  entries := state.entries
  groups := state.files.groups
  restoreMap := state.files.restoreMap
  registryBytes := none
  payload := state.files.payload
  originalTotalSize := state.originalTotalSize

/-- The RAW archive of some items, before it is verified. -/
def rawParts
    (backends : Backends)
    (packLimits : PackLimits)
    (items : List PackItem) : Result ArchiveParts := do
  ensure (UInt64.ofNat rawPayloadStart ≤ packLimits.archiveBudget)
    (.resourceLimit "archive output")
  let state ← collect backends.json backends.digests
    (packLimits.decodeLimits .raw)
    (packRawFile backends.digests packLimits.archiveBudget) .start items
  let total ← checkRawMetadata (packLimits.decodeLimits .raw)
    ((state.rawParts.metadataSections backends.json).map Prod.snd)
  let length ← expectedLength state.files.position total
  ensure (length ≤ packLimits.archiveBudget) (.resourceLimit "archive output")
  .ok state.rawParts

/-- Pack the items of a scan without compression. -/
def packRaw
    (backends : Backends)
    (packLimits : PackLimits)
    (items : List PackItem) : Result (List UInt8) := do
  let parts ← rawParts backends packLimits items
  let _ ← verifyOpenFile backends
    (parts.assemble backends.digests backends.json)
    (packLimits.decodeLimits .raw)
  .ok (parts.assemble backends.digests backends.json)

/-! ## What is copied -/

/-- The bytes that are copied from the file of an item. -/
def PackItem.bytes (item : PackItem) : List UInt8 :=
  ((copyInputFile item.stamp item.reading).toOption.getD []).flatten

theorem PackItem.bytes_eq
    {item : PackItem}
    {pieces : List (List UInt8)}
    (copied : copyInputFile item.stamp item.reading = .ok pieces) :
    item.bytes = pieces.flatten := by
  rw [PackItem.bytes, copied]
  rfl

/-- A file is copied whole. -/
theorem length_copyInputFile
    {stamp : SourceStamp}
    {reading : SourceReading}
    {pieces : List (List UInt8)}
    (copied : copyInputFile stamp reading = .ok pieces) :
    pieces.flatten.length = stamp.size.toNat := by
  simp only [copyInputFile, bind_eq_ok, ensure_eq_ok] at copied
  obtain ⟨_, _, _, _, _, _, result, _, _, _, _, whole, finished⟩ := copied
  cases finished
  exact whole.1

/-- Copying reads the file like a source whose hash is not known. -/
theorem copyTurns_readSourceTurns
    {size : UInt64}
    {turns : List ReadTurn}
    {pieces result : List (List UInt8)}
    (copied : copyTurns size turns pieces = .ok result) :
    readSourceTurns size turns pieces.flatten = .ok result.flatten := by
  induction turns generalizing pieces with
  | nil =>
      cases copied
      rfl
  | cons turn turns inductionHypothesis =>
      simp only [copyTurns, bind_eq_ok] at copied
      obtain ⟨_, running, bytes, isRead, copied⟩ := copied
      rw [readSourceTurns, running, ok_bind, isRead, ok_bind]
      by_cases ended : bytes = []
      · rw [if_pos ended] at copied ⊢
        cases copied
        rfl
      · rw [if_neg ended, bind_eq_ok] at copied
        obtain ⟨_, _, copied⟩ := copied
        rw [bind_eq_ok] at copied
        obtain ⟨_, small, copied⟩ := copied
        rw [ensure_eq_ok] at small
        have grown : (pieces ++ [bytes]).flatten = pieces.flatten ++ bytes := by
          simp
        have rest := inductionHypothesis copied
        rw [grown] at small rest
        rw [if_neg ended, ensure_of small, ok_bind, rest]

theorem packRawFile_eq_ok
    {digests : Digests}
    {archiveBudget : UInt64}
    {item : PackItem}
    {entryId : UInt64}
    {files next : RawFiles}
    {size : UInt64}
    {hash : Digest}
    {kind : EntryKind} :
    packRawFile digests archiveBudget item entryId files =
        .ok (next, size, hash, kind) ↔
      files.position.toNat + item.size.toNat ≤ archiveBudget.toNat ∧
      ∃ pieces, copyInputFile item.stamp item.reading = .ok pieces ∧
        next = {
          groups := files.groups ++
            [⟨files.groupRecord digests pieces, files.position⟩]
          restoreMap := files.restoreMap ++
            [{ entryId := entryId
               originalOffset := 0
               length := UInt64.ofNat pieces.flatten.length
               groupId := UInt64.ofNat files.groups.length
               groupOffset := 0 }]
          payload := files.payload ++ pieces } ∧
        size = UInt64.ofNat pieces.flatten.length ∧
        hash = digests.blake3 pieces.flatten ∧
        kind = .file (UInt64.ofNat files.groups.length) := by
  simp only [packRawFile, bind_eq_ok, ensure_eq_ok, checkedAdd_any_le,
    Except.ok.injEq, Prod.mk.injEq, exists_const]
  refine and_congr_right fun _ => exists_congr fun pieces => ?_
  refine and_congr_right fun _ => ?_
  constructor
  · rintro ⟨rfl, rfl, rfl, rfl⟩
    exact ⟨rfl, rfl, rfl, rfl⟩
  · rintro ⟨rfl, rfl, rfl, rfl⟩
    exact ⟨rfl, rfl, rfl, rfl⟩

theorem packRawFile_lawful (digests : Digests) (archiveBudget : UInt64) :
    (packRawFile digests archiveBudget).Lawful := by
  intro item entryId files next size hash kind packed
  obtain ⟨_, pieces, copied, _, rfl, _, rfl⟩ := packRawFile_eq_ok.mp packed
  refine ⟨?_, _, rfl⟩
  rw [length_copyInputFile copied]
  exact UInt64.ofNat_toNat

theorem hashed_of_packRawFile
    {digests : Digests}
    {archiveBudget : UInt64}
    {item : PackItem}
    {entryId size : UInt64}
    {files next : RawFiles}
    {hash : Digest}
    {kind : EntryKind}
    (packed : packRawFile digests archiveBudget item entryId files =
      .ok (next, size, hash, kind)) :
    item.Hashed digests hash := by
  obtain ⟨_, pieces, copied, _, _, rfl, _⟩ := packRawFile_eq_ok.mp packed
  have whole := length_copyInputFile copied
  simp only [copyInputFile, bind_eq_ok, ensure_eq_ok] at copied
  obtain ⟨_, _, _, _, _, _, result, turns, _, _, _, _, finished⟩ := copied
  cases finished
  exact ⟨_, copyTurns_readSourceTurns turns, whole, rfl⟩

/-! ## The tables of the files -/

/-- The group of a file that was copied. -/
def rawGroup (pair : PackItem × EntryRecord) : LaidGroup where
  members := [⟨pair.2.entryId, pair.1.bytes⟩]
  codec := none
  payload := pair.1.bytes

@[simp] theorem contents_rawGroup (pair : PackItem × EntryRecord) :
    (rawGroup pair).contents = pair.1.bytes := by
  simp [LaidGroup.contents, rawGroup]

/-- What the RAW packer has kept of the files so far. -/
structure RawKept
    (digests : Digests)
    (limits : DecodeLimits)
    (archiveBudget : UInt64)
    (done : List (PackItem × EntryRecord))
    (files : RawFiles) : Prop where
  copied : ∀ pair ∈ done,
    (∃ pieces, copyInputFile pair.1.stamp pair.1.reading = .ok pieces) ∧
      pair.1.size ≤ limits.maxGroupOutput
  groups : files.groups =
    laidGroupTable digests 0 rawPayloadStart (done.map rawGroup)
  restoreMap : files.restoreMap = laidRestoreMap 0 (done.map rawGroup)
  payload : files.payload.flatten =
    (done.map rawGroup).flatMap LaidGroup.payload
  rows : done.filterMap (fun pair => pair.2.fileRow?) =
    laidRows digests 0 (done.map rawGroup)
  room : rawPayloadStart + files.payload.flatten.length ≤ archiveBudget.toNat

theorem RawKept.extend
    {digests : Digests}
    (lawful : digests.Lawful)
    {limits : DecodeLimits}
    {archiveBudget : UInt64}
    {done : List (PackItem × EntryRecord)}
    {files next : RawFiles}
    (kept : RawKept digests limits archiveBudget done files)
    {item : PackItem}
    {entryId size : UInt64}
    {hash : Digest}
    {kind : EntryKind}
    (small : item.size ≤ limits.maxGroupOutput)
    (packed : packRawFile digests archiveBudget item entryId files =
      .ok (next, size, hash, kind)) :
    RawKept digests limits archiveBudget
      (done ++ [(item, item.record entryId size hash kind)]) next := by
  obtain ⟨room, pieces, copied, rfl, rfl, rfl, rfl⟩ :=
    packRawFile_eq_ok.mp packed
  have bytes := item.bytes_eq copied
  have whole := length_copyInputFile copied
  have count : files.groups.length = done.length := by
    rw [kept.groups, length_laidGroupTable, List.length_map]
  have maximum := archiveBudget.toNat_lt
  have position : files.position.toNat =
      rawPayloadStart + files.payload.flatten.length :=
    toNat_ofNat_of_lt (by have := kept.room; omega)
  have checksum : pieces.foldl digests.crc32cAppend 0 =
      digests.crc32c pieces.flatten := lawful.foldl_crc32cAppend pieces
  refine ⟨?_, ?_, ?_, ?_, ?_, ?_⟩
  · intro pair member
    rcases List.mem_append.mp member with earlier | last
    · exact kept.copied pair earlier
    · obtain rfl := List.mem_singleton.mp last
      exact ⟨⟨pieces, copied⟩, small⟩
  · change files.groups ++ _ = _
    rw [List.map_append, laidGroupTable_append, ← kept.groups, ← kept.payload,
      List.length_map]
    congr 1
    simp [laidGroupTable, LaidGroup.record, rawGroup, LaidGroup.contents,
      RawFiles.groupRecord, RawFiles.position, bytes, checksum, count]
  · change files.restoreMap ++ _ = _
    rw [List.map_append, laidRestoreMap_append, ← kept.restoreMap,
      List.length_map]
    congr 1
    simp [laidRestoreMap, restoreRecords, rawGroup, bytes, count,
      PackItem.record]
  · change (files.payload ++ pieces).flatten = _
    rw [List.flatten_append, kept.payload, List.map_append,
      List.flatMap_append]
    congr 1
    simp [rawGroup, bytes]
  · rw [List.filterMap_append, kept.rows, List.map_append, laidRows_append,
      List.length_map]
    congr 1
    simp [laidRows, rawGroup, Member.row, EntryRecord.fileRow?,
      PackItem.record, EntryKind.groupId?, bytes, count]
  · change rawPayloadStart + (files.payload ++ pieces).flatten.length ≤ _
    rw [List.flatten_append, List.length_append, whole]
    rw [position] at room
    change rawPayloadStart + (_ + item.size.toNat) ≤ _
    omega

/-! ## The archive -/

section Archive

variable
  {backends : Backends}
  {packLimits : PackLimits}
  {items : List PackItem}
  {parts : ArchiveParts}

/-- The groups of a RAW archive: one for each file, in the order of the
entries. -/
def rawGroups (items : List PackItem) (parts : ArchiveParts) :
    List LaidGroup :=
  (packedFiles items parts.entries).map rawGroup

theorem expectedLength_eq_ok
    {payloadEnd metadataTotal length : UInt64} :
    expectedLength payloadEnd metadataTotal = .ok length ↔
      payloadEnd.toNat + metadataTotal.toNat + footerLen = length.toNat := by
  have footer : (UInt64.ofNat footerLen).toNat = footerLen :=
    toNat_ofNat_of_lt (by decide)
  simp only [expectedLength, bind_eq_ok, okOr_eq_ok, checkedAdd_eq_some, footer]
  constructor
  · rintro ⟨middle, first, second⟩
    omega
  · intro sum
    have bound := length.toNat_lt
    have middle := @toNat_ofNat_of_lt (payloadEnd.toNat + metadataTotal.toNat)
      (by omega)
    exact ⟨_, middle.symm, by omega⟩

theorem checkRawMetadata_length
    {limits : DecodeLimits}
    {sections : List (List UInt8)}
    {total : UInt64}
    (checked : checkRawMetadata limits sections = .ok total) :
    sections.flatten.length = total.toNat := by
  have each (position : Nat) (bytes : List UInt8) (state next : Unit) :
      (ensure (bytes.length ≤ limits.maxMetadataBytes.toNat)
        (PithosError.resourceLimit "seção de metadados") : Result Unit) =
          .ok next ↔ bytes.length ≤ limits.maxMetadataBytes.toNat :=
    ensure_eq_ok
  simp only [checkRawMetadata, bind_eq_ok, ensure_eq_ok,
    forEnum_unit_eq_ok each] at checked
  obtain ⟨_, small, sum, summed, _, _, finished⟩ := checked
  cases finished
  rw [foldlM_checkedAdd_eq_ok, UInt64.toNat_zero, Nat.zero_add] at summed
  have bound := limits.maxMetadataBytes.toNat_lt
  rw [← summed, List.length_flatten]
  unfold Runs.total
  rw [List.map_map]
  refine congrArg List.sum (List.map_congr_left fun bytes member => ?_)
  have short := small bytes member
  exact (toNat_ofNat_of_lt (by omega)).symm

/-- What the RAW packer has made sure of when it has built an archive. -/
theorem built_of_rawParts
    (lawful : backends.digests.Lawful)
    (built : rawParts backends packLimits items = .ok parts) :
    Built backends packLimits .raw items parts (rawGroups items parts) none ∧
      ∀ pair ∈ packedFiles items parts.entries, ∃ pieces,
        copyInputFile pair.1.stamp pair.1.reading = .ok pieces := by
  simp only [rawParts, bind_eq_ok, ensure_eq_ok, expectedLength_eq_ok]
    at built
  obtain ⟨_, room, state, collected, total, checked, length, isLength, _, fits,
    finished⟩ := built
  cases finished
  have packFileLawful := packRawFile_lawful backends.digests
    packLimits.archiveBudget
  have recorded := collected_of_ok packFileLawful collected
  have kept := collect_files packFileLawful
    (RawKept backends.digests (packLimits.decodeLimits .raw)
      packLimits.archiveBudget)
    { copied := by simp
      groups := rfl
      restoreMap := rfl
      payload := rfl
      rows := rfl
      room := by
        have := UInt64.le_iff_toNat_le.mp room
        rwa [toNat_ofNat_of_lt (by decide)] at this }
    (fun kept small packed => kept.extend lawful small packed) collected
  have ofGroup {group : LaidGroup}
      (member : group ∈ rawGroups items state.rawParts) :
      ∃ pair : PackItem × EntryRecord, group = rawGroup pair ∧
        pair.1.bytes.length = pair.1.size.toNat ∧
        pair.1.size ≤ (packLimits.decodeLimits .raw).maxGroupOutput := by
    obtain ⟨pair, isPair, rfl⟩ := List.mem_map.mp member
    obtain ⟨⟨pieces, copied⟩, small⟩ := kept.copied pair isPair
    refine ⟨pair, rfl, ?_, small⟩
    rw [pair.1.bytes_eq copied, length_copyInputFile copied]
    rfl
  refine ⟨{
    recorded := recorded.toRecorded
    hashed := collect_hashed packFileLawful hashed_of_packRawFile collected
    rows := ?_
    representable := ?_
    encoded := ?_
    moderate := ?_
    groupTable := kept.groups
    restoreMap := kept.restoreMap
    payload := kept.payload
    registryRead := rfl
    registryFor := ?_
    total := recorded.total
    sizeLimit := originalTotalSize_le collected
    fits := ?_ }, fun pair member => (kept.copied pair member).1⟩
  · exact (fileRows_packedFiles recorded.length).symm.trans kept.rows
  · intro group member
    obtain ⟨pair, rfl, length, _⟩ := ofGroup member
    refine ⟨by simp [rawGroup], by simp [rawGroup], ?_⟩
    rw [contents_rawGroup, length]
    exact pair.1.size.toNat_lt
  · intro group member
    obtain ⟨pair, rfl, _⟩ := ofGroup member
    exact ⟨(contents_rawGroup pair).symm, rfl⟩
  · intro group member
    obtain ⟨pair, rfl, length, small⟩ := ofGroup member
    rw [UInt64.le_iff_toNat_le] at small
    refine ⟨?_, Nat.le_of_eq ?_⟩
    · rwa [contents_rawGroup, length]
    · rw [contents_rawGroup]
      rfl
  · intro group member
    obtain ⟨pair, rfl, _⟩ := ofGroup member
    rfl
  · have payloadRoom := kept.room
    have maximum := packLimits.archiveBudget.toNat_lt
    have position : state.files.position.toNat =
        rawPayloadStart + state.files.payload.flatten.length :=
      toNat_ofNat_of_lt (by omega)
    have metadata := checkRawMetadata_length checked
    have joined : ((state.rawParts.metadataSections backends.json).map
        Prod.snd).flatten = state.rawParts.metadata backends.json := by
      rw [ArchiveParts.metadata, sectionBytes, List.flatMap_def]
    rw [joined] at metadata
    rw [UInt64.le_iff_toNat_le] at fits
    have payloadEnd : state.rawParts.payloadEnd =
        rawPayloadStart + state.files.payload.flatten.length := rfl
    rw [ArchiveParts.footerOffset, payloadEnd]
    omega

/-- No RAW group is compressed too far. -/
theorem expansion_rawGroups
    {packLimits : PackLimits}
    {group : LaidGroup}
    (member : group ∈ rawGroups items parts) :
    group.payload = [] ∨ group.contents.length ≤ group.payload.length *
      (packLimits.decodeLimits .raw).maxExpansionRatio.toNat := by
  obtain ⟨pair, _, rfl⟩ := List.mem_map.mp member
  have ratio : (packLimits.decodeLimits .raw).maxExpansionRatio.toNat =
      1000 := rfl
  rw [contents_rawGroup, ratio]
  change _ ∨ pair.1.bytes.length ≤ pair.1.bytes.length * 1000
  exact Or.inr (by omega)

end Archive

end Pithos
