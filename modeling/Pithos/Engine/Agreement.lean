import Pithos.Engine.Extract

/-!
# The read paths agree

In a verified archive, streaming an entry, reading a range of it, extracting it
and unpacking the archive all lead to the same bytes.
-/

namespace Pithos

open Fallible
open FileTree
open HostPath
open Disk
open Machine
open Layout

section Source

variable
  {backends : Backends}
  {file : List UInt8}
  {limits : DecodeLimits}
  {parsed : ParsedArchive}
  {entry source : EntryRecord}
  {groupId : UInt64}
  {group : GroupTableRecord}
  {restore : RestoreMapRecord}
  {decoded bytes : List UInt8}

/-- The file behind an entry, with its bytes. -/
structure SourceRead
    (backends : Backends)
    (file : List UInt8)
    (limits : DecodeLimits)
    (parsed : ParsedArchive)
    (entry source : EntryRecord)
    (groupId : UInt64)
    (group : GroupTableRecord)
    (restore : RestoreMapRecord)
    (decoded bytes : List UInt8) : Prop where
  member : source ∈ parsed.entries
  isSource : fileSourceEntry entry parsed.entries = .ok source
  sameSize : source.size = entry.size
  sameHash : source.blake3 = entry.blake3
  read : FileRead backends file limits parsed source groupId group restore
    decoded bytes

/-- Every file and hardlink entry of a verified archive has a file behind
it. -/
theorem sourceRead_of_tablesOk
    {header : GlobalHeader}
    {tables : Tables}
    (ok : TablesOk limits header tables)
    (groupsVerified : ∀ record ∈ parsed.groups,
      GroupVerified backends file limits parsed record)
    (sameEntries : parsed.entries = tables.entries)
    (sameGroups : parsed.groups = tables.groups)
    (sameRestores : parsed.restoreMap = tables.restoreMap)
    (member : entry ∈ parsed.entries)
    (isCounted : entry.isCounted) :
    ∃ source groupId group restore decoded bytes,
      SourceRead backends file limits parsed entry source groupId group restore
        decoded bytes := by
  unfold EntryRecord.isCounted at isCounted
  cases kind : entry.kind with
  | directory => simp [kind] at isCounted
  | symlink target targetIsDir => simp [kind] at isCounted
  | file groupId =>
      obtain ⟨group, restore, decoded, bytes, read⟩ :=
        fileRead_of_tablesOk ok groupsVerified sameEntries sameGroups
          sameRestores member kind
      exact ⟨entry, groupId, group, restore, decoded, bytes, member,
        by rw [fileSourceEntry, kind], rfl, rfl, read⟩
  | hardlink targetEntryId =>
      have inTables := member
      rw [sameEntries] at inTables
      obtain ⟨target, groupId, _, found, isFile, sameSize, sameHash⟩ :=
        ok.hardlinkTarget (ok.getElem?_entryId inTables) kind
      rw [← sameEntries] at found
      obtain ⟨group, restore, decoded, bytes, read⟩ :=
        fileRead_of_tablesOk ok groupsVerified sameEntries sameGroups
          sameRestores (List.mem_of_getElem? found) isFile
      exact ⟨target, groupId, group, restore, decoded, bytes,
        List.mem_of_getElem? found,
        by simp only [fileSourceEntry, kind, found, okOr_some], sameSize,
        sameHash, read⟩

/-- The bytes of an entry have its size. -/
theorem FileRead.length_bytes
    (read : FileRead backends file limits parsed source groupId group restore
      decoded bytes) :
    bytes.length = source.size.toNat := by
  obtain ⟨_, _, inside, rfl⟩ := restoredSlice_eq_ok.mp read.sliced
  simp only [UInt64.toNat_zero, Nat.add_zero] at inside ⊢
  rw [Bytes.length_slice inside, read.sameLength]

/-- The bytes of an entry fit into its group. -/
theorem FileRead.length_le
    (read : FileRead backends file limits parsed source groupId group restore
      decoded bytes) :
    bytes.length ≤ group.group.uncompressedLen.toNat := by
  have decodes := read.decodes
  simp only [decodeGroup, bind_eq_ok] at decodes
  obtain ⟨_, _, _, _, _, _, _, _, isDecoded⟩ := decodes
  obtain ⟨_, _, inside, rfl⟩ := restoredSlice_eq_ok.mp read.sliced
  rw [← Codecs.length_of_decode isDecoded]
  simp only [UInt64.toNat_zero, Nat.add_zero] at inside ⊢
  rw [Bytes.length_slice inside]
  omega

/-- A range of an entry is a slice of its bytes. -/
theorem FileRead.restoredSlice_range
    (read : FileRead backends file limits parsed source groupId group restore
      decoded bytes)
    {offset length : UInt64}
    (within : offset.toNat + length.toNat ≤ source.size.toNat) :
    restoredSlice decoded restore offset length =
      .ok (Bytes.slice bytes offset.toNat length.toNat) := by
  obtain ⟨_, fits, inside, rfl⟩ := restoredSlice_eq_ok.mp read.sliced
  rw [read.sameLength] at fits inside
  simp only [UInt64.toNat_zero, Nat.add_zero] at fits inside ⊢
  rw [restoredSlice_eq_ok, read.sameLength]
  refine ⟨within, by omega, by omega, ?_⟩
  rw [Bytes.slice_slice _ within]

end Source

/-! ## Streams -/

section Streams

variable
  {backends : Backends}
  {file : List UInt8}
  {limits : DecodeLimits}
  {parsed : ParsedArchive}
  {entry source : EntryRecord}
  {groupId : UInt64}
  {group : GroupTableRecord}
  {restore : RestoreMapRecord}
  {decoded bytes : List UInt8}
  {host : Path}

/-- Streaming an entry writes its bytes. -/
theorem SourceRead.extractToWriter_eq
    (accepted : readCatalog backends file limits = .ok parsed)
    (selects : ArchivePath.fromRelative host = .ok entry.path)
    (selected : selectEntry parsed.entries entry.path = .ok entry)
    (behind : SourceRead backends file limits parsed entry source groupId group
      restore decoded bytes)
    (output : List UInt8) :
    extractToWriter backends file limits host output =
      (.ok (extractReport entry source.size), output ++ bytes) := by
  have isFile : source.kind.groupId? = some groupId := by
    rw [behind.read.isFile]
    rfl
  unfold extractToWriter
  rw [selects, StateAction.lift_ok_bind, accepted, StateAction.lift_ok_bind, selected,
    StateAction.lift_ok_bind, behind.isSource, StateAction.lift_ok_bind, isFile,
    okOr_some, StateAction.lift_ok_bind, behind.read.groupFound, okOr_some,
    StateAction.lift_ok_bind, behind.read.restoreFound, StateAction.lift_ok_bind,
    behind.read.decodes, StateAction.lift_ok_bind, behind.read.sliced,
    StateAction.lift_ok_bind, ensure_of behind.read.hash]
  exact StateAction.bind_of_ok rfl

/-- Reading a range succeeds exactly in the bounds of the entry, and writes that
slice of its bytes. -/
theorem SourceRead.readRange_eq
    (accepted : readCatalog backends file limits = .ok parsed)
    (selects : ArchivePath.fromRelative host = .ok entry.path)
    (selected : selectEntry parsed.entries entry.path = .ok entry)
    (hostable : entry.path.Hostable)
    (behind : SourceRead backends file limits parsed entry source groupId group
      restore decoded bytes)
    {offset length : UInt64}
    (bounded : length ≤ limits.maxGroupOutput)
    (output : List UInt8) :
    if offset.toNat + length.toNat < 2 ^ 64 ∧
        offset.toNat + length.toNat ≤ entry.size.toNat then
      readRange backends file limits host offset length output =
        (.ok {
          path := joinPieces entry.names
          offset := offset
          length := length
          entrySize := entry.size
          blake3 := backends.digests.blake3
            (Bytes.slice bytes offset.toNat length.toNat) },
          output ++ Bytes.slice bytes offset.toNat length.toNat)
    else ∃ failure,
      readRange backends file limits host offset length output =
        (.error failure, output) := by
  have isFile : source.kind.groupId? = some groupId := by
    rw [behind.read.isFile]
    rfl
  have sizes : source.size.toNat = entry.size.toNat := by
    rw [behind.sameSize]
  split
  · rename_i within
    obtain ⟨fits, inside⟩ := within
    obtain ⟨finish, sum, value⟩ := checkedAdd_of_lt fits
    have below : finish ≤ source.size := by
      rw [UInt64.le_iff_toNat_le, value, sizes]
      exact inside
    rw [← sizes] at inside
    unfold readRange
    rw [ensure_of bounded, StateAction.lift_ok_bind, selects, StateAction.lift_ok_bind,
      accepted, StateAction.lift_ok_bind, selected, StateAction.lift_ok_bind,
      behind.isSource, StateAction.lift_ok_bind, sum, okOr_some,
      StateAction.lift_ok_bind, ensure_of below, StateAction.lift_ok_bind, isFile,
      okOr_some, StateAction.lift_ok_bind, behind.read.groupFound, okOr_some,
      StateAction.lift_ok_bind, behind.read.restoreFound, StateAction.lift_ok_bind,
      behind.read.decodes, StateAction.lift_ok_bind, behind.read.sliced,
      StateAction.lift_ok_bind, ensure_of behind.read.hash, StateAction.lift_ok_bind,
      behind.read.restoredSlice_range inside, StateAction.lift_ok_bind,
      hostable.toPathBuf_eq, behind.sameSize]
    exact StateAction.bind_of_ok rfl
  · rename_i outside
    unfold readRange
    rw [ensure_of bounded, StateAction.lift_ok_bind, selects, StateAction.lift_ok_bind,
      accepted, StateAction.lift_ok_bind, selected, StateAction.lift_ok_bind,
      behind.isSource, StateAction.lift_ok_bind]
    cases sum : checkedAdd offset length with
    | none => exact ⟨.integerOverflow, StateAction.bind_of_error rfl⟩
    | some finish =>
        have value := checkedAdd_eq_some.mp sum
        have bound := finish.toNat_lt
        have beyond : ¬finish ≤ source.size := by
          rw [UInt64.le_iff_toNat_le, sizes]
          omega
        rw [okOr_some, StateAction.lift_ok_bind, ensure_of_not beyond]
        exact ⟨.invalidRange, StateAction.bind_of_error rfl⟩

end Streams

/-! ## Other limits -/

section OtherLimits

variable
  {backends : Backends}
  {file : List UInt8}
  {limits otherLimits : DecodeLimits}

theorem ContainerOk.unique
    {container other : Container}
    (first : ContainerOk backends.digests file limits container)
    (second : ContainerOk backends.digests file otherLimits other) :
    container = other := by
  have header : container.header = other.header :=
    Except.ok.inj (first.header.symm.trans second.header)
  have footer : container.footer = other.footer := by
    have decoded := second.footer
    rw [← header] at decoded
    exact Except.ok.inj (first.footer.symm.trans decoded)
  have directoryLength : container.directoryLength = other.directoryLength :=
    UInt64.toNat_inj.mp (by
      rw [first.directoryLength, second.directoryLength, header])
  have directoryEnd : container.directoryEnd = other.directoryEnd :=
    UInt64.toNat_inj.mp (by
      rw [first.directoryEnd, second.directoryEnd, directoryLength])
  have sections : container.sections = other.sections := by
    rw [first.sections, second.sections, directoryRecords, directoryRecords,
      directoryBytes, directoryBytes, directoryLength]
  cases container
  cases other
  cases header
  cases footer
  cases directoryLength
  cases directoryEnd
  cases sections
  rfl

theorem SectionRead.unique
    {record : SectionDirectoryRecord}
    {bytes other : List UInt8}
    (first : SectionRead backends.digests file limits record bytes)
    (second : SectionRead backends.digests file otherLimits record other) :
    bytes = other :=
  first.content.trans second.content.symm

theorem readJsonSection_unique
    {Value : Type}
    {codec : JsonCodec Value}
    {record : SectionDirectoryRecord}
    {value other : Value}
    (first : readJsonSection codec backends.digests file record limits =
      .ok value)
    (second : readJsonSection codec backends.digests file record otherLimits =
      .ok other) :
    value = other := by
  obtain ⟨_, firstRead, isFirst⟩ := readJsonSection_eq_ok.mp first
  obtain ⟨_, secondRead, isSecond⟩ := readJsonSection_eq_ok.mp second
  rw [firstRead.unique secondRead] at isFirst
  exact Option.some.inj (isFirst.symm.trans isSecond)

theorem readCodecRegistry_unique
    {record : Option SectionDirectoryRecord}
    {registry other : Option CodecRegistry}
    (first : readCodecRegistry backends.digests file limits record =
      .ok registry)
    (second : readCodecRegistry backends.digests file otherLimits record =
      .ok other) :
    registry = other := by
  cases record with
  | none => exact Except.ok.inj (first.symm.trans second)
  | some record =>
      simp only [readCodecRegistry, bind_eq_ok,
        readCheckedSection_eq_ok] at first second
      obtain ⟨_, firstRead, _, isFirst, rest⟩ := first
      obtain ⟨_, secondRead, _, isSecond, otherRest⟩ := second
      rw [firstRead.unique secondRead] at isFirst
      obtain rfl := Except.ok.inj (isFirst.symm.trans isSecond)
      exact Except.ok.inj (rest.symm.trans otherRest)

/-- Limits only refuse: what two limits accept, they read alike. -/
theorem readCatalog_unique
    {parsed other : ParsedArchive}
    (first : readCatalog backends file limits = .ok parsed)
    (second : readCatalog backends file otherLimits = .ok other) :
    parsed = other := by
  obtain ⟨container, located, tables, read⟩ := readCatalog_eq_ok.mp first
  obtain ⟨otherContainer, otherLocated, otherTables, otherRead⟩ :=
    readCatalog_eq_ok.mp second
  obtain rfl := read.containerOk.unique otherRead.containerOk
  have here := read.tablesRead
  have there := otherRead.tablesRead
  have section_eq {record another : SectionDirectoryRecord}
      {sectionType : SectionType}
      (isFirst : findSection container.sections sectionType = some record)
      (isSecond : findSection container.sections sectionType = some another) :
      another = record := Option.some.inj (isSecond.symm.trans isFirst)
  have entries := there.entries
  have groups := there.groups
  have restoreMap := there.restoreMap
  have codecRegistry := there.codecRegistry
  rw [section_eq here.entrySection there.entrySection] at entries
  rw [section_eq here.groupSection there.groupSection] at groups
  rw [section_eq here.restoreSection there.restoreSection] at restoreMap
  rw [← there.codecSection, here.codecSection] at codecRegistry
  rw [read.result, otherRead.result,
    readJsonSection_unique here.entries entries,
    readJsonSection_unique here.groups groups,
    readJsonSection_unique here.restoreMap restoreMap,
    readCodecRegistry_unique here.codecRegistry codecRegistry,
    section_eq there.payloadSection here.payloadSection]

theorem decodeGroup_unique
    {record : GroupTableRecord}
    {registry : Option CodecRegistry}
    {decoded other : List UInt8}
    (first : decodeGroup backends file record registry limits = .ok decoded)
    (second : decodeGroup backends file record registry otherLimits =
      .ok other) :
    decoded = other := by
  simp only [decodeGroup, bind_eq_ok, readExactVec_eq_ok] at first second
  obtain ⟨_, _, _, ⟨_, _, rfl⟩, _, _, _, isCodec, isDecoded⟩ := first
  obtain ⟨_, _, _, ⟨_, _, rfl⟩, _, _, _, otherCodec, otherDecoded⟩ := second
  obtain rfl := Except.ok.inj (isCodec.symm.trans otherCodec)
  exact Except.ok.inj (isDecoded.symm.trans otherDecoded)

/-- A range is read only from a file or hardlink that is found by its path. -/
theorem selected_of_readRange
    {host : Path}
    {offset length : UInt64}
    {output after : List UInt8}
    {report : ReadRangeReport}
    {parsed : ParsedArchive}
    (accepted : readCatalog backends file limits = .ok parsed)
    (ran : readRange backends file otherLimits host offset length output =
      (.ok report, after)) :
    ∃ selector entry, ArchivePath.fromRelative host = .ok selector ∧
      selectEntry parsed.entries selector = .ok entry ∧ entry.isCounted := by
  simp only [readRange, StateAction.bind_eq_ok, StateAction.lift_eq_ok] at ran
  obtain ⟨_, _, _, selector, _, ⟨selects, rfl⟩, other, _, ⟨isOther, rfl⟩, entry,
    _, ⟨selected, rfl⟩, source, _, ⟨isSource, rfl⟩, _⟩ := ran
  obtain rfl := readCatalog_unique accepted isOther
  refine ⟨selector, entry, selects, selected, ?_⟩
  unfold EntryRecord.isCounted
  unfold fileSourceEntry at isSource
  cases kind : entry.kind <;> simp_all

/-- A range that is read with some limits is a slice of the bytes that other
limits find. -/
theorem SourceRead.readRange_of_ok
    {parsed : ParsedArchive}
    {entry source : EntryRecord}
    {groupId : UInt64}
    {group : GroupTableRecord}
    {restore : RestoreMapRecord}
    {decoded bytes : List UInt8}
    {host : Path}
    {offset length : UInt64}
    {output after : List UInt8}
    {report : ReadRangeReport}
    (accepted : readCatalog backends file limits = .ok parsed)
    (selects : ArchivePath.fromRelative host = .ok entry.path)
    (selected : selectEntry parsed.entries entry.path = .ok entry)
    (behind : SourceRead backends file limits parsed entry source groupId group
      restore decoded bytes)
    (ran : readRange backends file otherLimits host offset length output =
      (.ok report, after)) :
    offset.toNat + length.toNat ≤ entry.size.toNat ∧
      after = output ++ Bytes.slice bytes offset.toNat length.toNat ∧
      report.offset = offset ∧ report.length = length := by
  simp only [readRange, StateAction.bind_eq_ok, StateAction.lift_eq_ok,
    okOr_eq_ok, ensure_eq_ok] at ran
  obtain ⟨_, _, ⟨_, rfl⟩, selector, _, ⟨isSelector, rfl⟩, other, _, ⟨isOther, rfl⟩,
    another, _, ⟨isAnother, rfl⟩, otherSource, _, ⟨isSource, rfl⟩, finish, _,
    ⟨sum, rfl⟩, _, _, ⟨inside, rfl⟩, otherId, _, ⟨isGroupId, rfl⟩, otherGroup, _,
    ⟨isGroup, rfl⟩, otherRestore, _, ⟨isRestore, rfl⟩, otherDecoded, _,
    ⟨decodes, rfl⟩, _, _, ⟨_, rfl⟩, _, _, ⟨_, rfl⟩, range, _, ⟨sliced, rfl⟩, _,
    written, emitted, _, _, ⟨_, rfl⟩, isReport⟩ := ran
  obtain rfl := readCatalog_unique accepted isOther
  obtain rfl := Except.ok.inj (selects.symm.trans isSelector)
  obtain rfl := Except.ok.inj (selected.symm.trans isAnother)
  obtain rfl := Except.ok.inj (behind.isSource.symm.trans isSource)
  rw [behind.read.isFile] at isGroupId
  obtain rfl := Option.some.inj isGroupId
  obtain rfl := Option.some.inj (behind.read.groupFound.symm.trans isGroup)
  obtain rfl := Except.ok.inj (behind.read.restoreFound.symm.trans isRestore)
  obtain rfl := decodeGroup_unique behind.read.decodes decodes
  have within : offset.toNat + length.toNat ≤ source.size.toNat := by
    have value := checkedAdd_eq_some.mp sum
    have bound := UInt64.le_iff_toNat_le.mp inside
    omega
  obtain rfl := Except.ok.inj
    ((behind.read.restoredSlice_range within).symm.trans sliced)
  cases emitted
  cases isReport
  rw [behind.sameSize] at within
  exact ⟨within, rfl, rfl, rfl⟩


end OtherLimits

/-! ## Agreement -/

/-- Read ranges of an entry one after the other. -/
def readRanges
    (backends : Backends)
    (file : List UInt8)
    (limits : DecodeLimits)
    (entry : Path)
    (ranges : List (UInt64 × UInt64)) : Writer Unit :=
  StateAction.forEach (fun range => do
    let _ ← readRange backends file limits entry range.1 range.2
    pure ()) ranges

/-- A range as a segment of numbers. -/
def rangeSegment (range : UInt64 × UInt64) : Nat × Nat :=
  (range.1.toNat, range.2.toNat)

/-- Everything that reads an entry reads the same bytes. -/
structure ReadPathsAgree
    (backends : Backends)
    (file : List UInt8)
    (limits : DecodeLimits)
    (entry : EntryRecord)
    (host : Path)
    (bytes : List UInt8) : Prop where
  size : bytes.length = entry.size.toNat
  hash : backends.digests.blake3 bytes = entry.blake3
  streamed : ∀ output, ∃ report,
    extractToWriter backends file limits host output =
      (.ok report, output ++ bytes)
  unpacked : ∀ maxTempBytes request disk final, Placed disk request →
    unpack backends file limits maxTempBytes request disk = (.ok (), final) →
    HoldsFile final (request.outputDir ++ entry.names) bytes
  extracted : ∀ maxOutputBytes maxTempBytes outputDir disk report final,
    LinkFree disk.root outputDir →
    extract backends file limits maxOutputBytes maxTempBytes
      ⟨outputDir, host⟩ disk = (.ok report, final) →
    HoldsFile final (outputDir ++ entry.names) bytes
  rangeBounds : ∀ offset length output, length ≤ limits.maxGroupOutput →
    ((∃ report after, readRange backends file limits host offset length
        output = (.ok report, after)) ↔
      offset.toNat + length.toNat < 2 ^ 64 ∧
        offset.toNat + length.toNat ≤ entry.size.toNat)
  rangeBytes : ∀ offset length output report after,
    readRange backends file limits host offset length output =
      (.ok report, after) →
    after = output ++ Bytes.slice bytes offset.toNat length.toNat ∧
      report.blake3 = backends.digests.blake3
        (Bytes.slice bytes offset.toNat length.toNat)
  partition : ∀ ranges output,
    (∀ range ∈ ranges, range.2 ≤ limits.maxGroupOutput) →
    Tiles 0 (ranges.map rangeSegment) entry.size.toNat →
    readRanges backends file limits host ranges output =
      (.ok (), output ++ bytes)

/-- Reading the ranges of a tiling writes the bytes it covers. -/
theorem readRanges_tiles
    {backends : Backends}
    {file : List UInt8}
    {limits : DecodeLimits}
    {host : Path}
    {bytes : List UInt8}
    {finish : Nat}
    (reads : ∀ (offset length : UInt64) output,
      length ≤ limits.maxGroupOutput →
      offset.toNat + length.toNat ≤ finish →
      ∃ report, readRange backends file limits host offset length output =
        (.ok report, output ++
          Bytes.slice bytes offset.toNat length.toNat))
    {start : Nat}
    {ranges : List (UInt64 × UInt64)}
    (bounded : ∀ range ∈ ranges, range.2 ≤ limits.maxGroupOutput)
    (tiles : Tiles start (ranges.map rangeSegment) finish)
    (output : List UInt8) :
    readRanges backends file limits host ranges output =
      (.ok (), output ++ (ranges.map rangeSegment).flatMap fun segment =>
        Bytes.slice bytes segment.1 segment.2) := by
  induction ranges generalizing start output with
  | nil => simp [readRanges, StateAction.forEach, pure]
  | cons range ranges inductionHypothesis =>
      have within := (tiles.inside (by simp :
        rangeSegment range ∈ (range :: ranges).map rangeSegment)).2
      obtain ⟨report, ran⟩ := reads range.1 range.2 output
        (bounded range (by simp)) within
      have first : (do
          let _ ← readRange backends file limits host range.1 range.2
          pure () : Writer Unit) output = (.ok (), output ++
            Bytes.slice bytes range.1.toNat range.2.toNat) := by
        rw [StateAction.bind_of_ok ran]
        rfl
      rw [readRanges, StateAction.forEach, StateAction.bind_of_ok first]
      have rest := inductionHypothesis
        (fun other member => bounded other (by simp [member])) tiles.2
        (output ++ Bytes.slice bytes range.1.toNat range.2.toNat)
      rw [readRanges] at rest
      rw [rest]
      simp [rangeSegment]

end Pithos
