import Pithos.Engine.Agreement
import Pithos.Engine.Canonical
import Pithos.Engine.Confinement
import Pithos.Engine.Crates
import Pithos.Engine.Identity

/-!
# Guarantees of the engine

The main results about archives that the verifier accepts, each with an archive
that it is about: a directory with a file in it, and a link to the directory.
Where the verifier accepts too much, an archive that it should have refused.
-/

namespace Pithos

open Fallible
open Machine
open Bytes
open FileTree
open HostPath
open Disk
open Intervals
open Layout
open Utf8

/-! ## Small archives -/

/-- Two directories with one host path: the second is tagged as raw bytes. -/
def twinParts : ArchiveParts :=
  partsWithoutFiles [directoryEntry 0 [⟨.utf8, [0x61]⟩],
    directoryEntry 1 [⟨.unixBytes, [0x61]⟩]]

/-- A directory, a link to it, and a link below the link. -/
def throughParts : ArchiveParts :=
  partsWithoutFiles [
    directoryEntry 0 [utf8Component "d"],
    linkEntry 1 [utf8Component "l"] [.normal (utf8Component "d")],
    linkEntry 2 [utf8Component "l", utf8Component "m"]
      [.normal (utf8Component "d")]]

/-- A link, and a directory below the link. -/
def blockedParts : ArchiveParts :=
  partsWithoutFiles [
    linkEntry 0 [utf8Component "l"] [.normal (utf8Component "d")],
    directoryEntry 1 [utf8Component "l", utf8Component "d"]]

/-- A link up from inside a directory, and a link that counts on the first one
being a directory: `x` resolves to the parent of the root. -/
def escapingParts : ArchiveParts :=
  partsWithoutFiles [
    directoryEntry 0 [utf8Component "d"],
    linkEntry 1 [utf8Component "d", utf8Component "l"] [.parent],
    linkEntry 2 [utf8Component "x"]
      [.normal (utf8Component "d"), .normal (utf8Component "l"), .parent]]

/-- The verifier accepts all of them. -/
theorem smallParts_checks :
    twinParts.checks .default = .ok () ∧
      throughParts.checks .default = .ok () ∧
      blockedParts.checks .default = .ok () ∧
      escapingParts.checks .default = .ok () := by
  decide +kernel

/-! ## The catalog -/

/-- Every accepted catalog has the global shape.  The container and the tables
are the ones that `readCatalog` reads on its way. -/
theorem readCatalog_sound
    {backends : Backends}
    {file : List UInt8}
    {limits : DecodeLimits}
    {parsed : ParsedArchive}
    (accepted : readCatalog backends file limits = .ok parsed) :
    ∃ container tables,
      readContainer backends.digests file limits = .ok container ∧
      readTables backends file limits container = .ok tables ∧
      container.sections.Perm (directoryRecords file container) ∧
      container.directoryEnd.toNat = headerLen +
        container.header.sectionCount.toNat * sectionEntryLen ∧
      parsed.entries = tables.entries ∧ parsed.groups = tables.groups ∧
      parsed.restoreMap = tables.restoreMap ∧
      parsed.payloadSection = tables.payloadSection ∧
      parsed.footerOffset = container.header.footerOffset ∧
      CatalogSound container tables := by
  obtain ⟨container, located, tables, containerOk, tablesRead, ok, rfl⟩ :=
    readCatalog_eq_ok.mp accepted
  have inArea := (validateSectionRanges_eq_ok.mp containerOk.ranges).1
  refine ⟨container, tables, readContainer_eq_ok.mpr containerOk,
    readTables_eq_ok.mpr ⟨located, tablesRead⟩, ?_, ?_, rfl, rfl, rfl, rfl,
    rfl, ?_⟩
  · rw [containerOk.sections]
    exact collectSections_perm _
  · rw [containerOk.directoryEnd, containerOk.directoryLength]
  · exact {
      sectionsInside := fun record member =>
        ⟨(inArea record member).afterDirectory,
          (inArea record member).beforeFooter⟩
      sectionsApart :=
        pairwise_apart_of_validateSectionRanges containerOk.ranges
      payloadSection := mem_of_findSection tablesRead.payloadSection
      groupIds := fun position record found =>
        (ok.groups position record found).groupId
      groupsTile := ok.groupTiles
      restoreBijection := ok.restoreBijection
      restoreMatches := by
        intro restore member
        obtain ⟨entry, found, isFile, sameId, _, length⟩ :=
          ok.restores restore member
        exact ⟨entry, List.mem_of_getElem? found, sameId.symm,
          EntryKind.eq_file_of_groupId? isFile, length.symm⟩
      restoreGroup := by
        intro restore member
        obtain ⟨record, found, same⟩ := ok.restoreGroup member
        exact ⟨record, List.mem_of_getElem? found, same⟩
      groupsFilled := by
        intro record member
        obtain ⟨position, bound, rfl⟩ := List.getElem_of_mem member
        have filled := (ok.groups position _
          (List.getElem?_eq_getElem bound)).mappings
        exact ⟨filled.nonempty, filled.tiles⟩
      hardlinks := fun _ _ _ found isHardlink =>
        ok.hardlinkTarget found isHardlink
      centralIndex := eq_map_of_rows ok.indexCount fun position entry found =>
        (ok.entries position entry found).index
      integrity := eq_map_of_rows ok.integrityCount fun position entry found =>
        (ok.entries position entry found).integrity
      entryIds := fun position entry found =>
        (ok.entries position entry found).entryId
      originalTotal := ok.sizeTotal.symm }

theorem sampleParts_catalog :
    ∃ parsed, readCatalog sampleParts.crates sampleParts.archive .default =
        .ok parsed ∧
      ∃ container tables,
        readContainer sampleParts.crates.digests sampleParts.archive .default =
          .ok container ∧
        readTables sampleParts.crates sampleParts.archive .default container =
          .ok tables ∧
        container.sections.Perm
          (directoryRecords sampleParts.archive container) ∧
        container.directoryEnd.toNat = headerLen +
          container.header.sectionCount.toNat * sectionEntryLen ∧
        parsed.entries = tables.entries ∧ parsed.groups = tables.groups ∧
        parsed.restoreMap = tables.restoreMap ∧
        parsed.payloadSection = tables.payloadSection ∧
        parsed.footerOffset = container.header.footerOffset ∧
        CatalogSound container tables := by
  obtain ⟨parsed, accepted, _, _⟩ :=
    verifyOpenFile_eq_ok.mp sampleParts_verified
  exact ⟨parsed, accepted, readCatalog_sound accepted⟩

/-- The entries of an accepted catalog stand for their own host paths exactly
when no component is tagged as raw bytes that are valid UTF-8. -/
theorem pathsCanonical_iff
    {backends : Backends}
    {file : List UInt8}
    {limits : DecodeLimits}
    {parsed : ParsedArchive}
    (accepted : readCatalog backends file limits = .ok parsed) :
    PathsCanonical parsed.entries ↔
      ∀ entry ∈ parsed.entries, ∀ component ∈ entry.path.components,
        component.encoding = .unixBytes → isUtf8 component.bytes = false := by
  obtain ⟨_, _, tables, _, _, ok, rfl⟩ := readCatalog_eq_ok.mp accepted
  constructor
  · intro canonical entry member
    obtain ⟨host, converted, back⟩ := canonical.encodedBack entry member
    exact (ArchivePath.fromRelative_toPathBuf_iff converted).mp back
  · intro canonical
    exact ok.pathsCanonical canonical

theorem sampleParts_pathsCanonical :
    ∃ parsed, readCatalog sampleParts.crates sampleParts.archive .default =
        .ok parsed ∧ PathsCanonical parsed.entries := by
  obtain ⟨parsed, accepted, _, same⟩ :=
    verifyOpenFile_eq_ok.mp sampleParts_verified
  have entries : parsed.entries = sampleParts.entries :=
    (congrArg ParsedArchive.entries same).symm
  refine ⟨parsed, accepted, (pathsCanonical_iff accepted).mpr ?_⟩
  rw [entries]
  decide

theorem twinParts_accepted :
    ∃ parsed, readCatalog twinParts.crates twinParts.archive .default =
        .ok parsed ∧ ¬PathsCanonical parsed.entries := by
  have verified : verifyOpenFile twinParts.crates twinParts.archive .default =
      .ok twinParts.verified :=
    ArchiveParts.verifyOpenFile_archive rfl smallParts_checks.1
  obtain ⟨parsed, accepted, _, same⟩ := verifyOpenFile_eq_ok.mp verified
  have entries : parsed.entries = twinParts.entries :=
    (congrArg ParsedArchive.entries same).symm
  refine ⟨parsed, accepted, fun canonical => ?_⟩
  have distinct := canonical.distinct
  rw [entries] at distinct
  exact absurd distinct (by decide)

/-! ## Reading -/

/-- Every file or hardlink entry of a verified archive that a host path selects
is read the same way by all operations. -/
theorem readPaths_agree
    {backends : Backends}
    {file : List UInt8}
    {limits : DecodeLimits}
    {parsed : ParsedArchive}
    {entry : EntryRecord}
    {host : Path}
    (verified : verifyOpenFile backends file limits = .ok parsed)
    (member : entry ∈ parsed.entries)
    (isCounted : entry.isCounted)
    (selects : ArchivePath.fromRelative host = .ok entry.path) :
    ∃ bytes, ReadPathsAgree backends file limits entry host bytes := by
  obtain ⟨read, header, tables, accepted, ok, groupsVerified, rfl, sameEntries,
    sameGroups, sameRestores⟩ := tables_of_verified verified
  have inRead : entry ∈ read.entries := member
  have inTables : entry ∈ tables.entries := sameEntries ▸ inRead
  have hostable := (ok.entries _ entry (ok.getElem?_entryId inTables)).path.hostable
  have selected : selectEntry read.entries entry.path = .ok entry := by
    rw [sameEntries]
    exact ok.selectEntry_eq inTables
  obtain ⟨source, groupId, group, restore, decoded, bytes, behind⟩ :=
    sourceRead_of_tablesOk ok groupsVerified sameEntries sameGroups sameRestores
      inRead isCounted
  have ranges := fun offset length bounded output =>
    @SourceRead.readRange_eq backends file limits read entry source groupId
      group restore decoded bytes host accepted selects selected hostable behind
      offset length bounded output
  have size : bytes.length = entry.size.toNat := by
    rw [behind.read.length_bytes, behind.sameSize]
  have notLink : entry.isOf .symlink = false := by
    unfold EntryRecord.isCounted at isCounted
    unfold EntryRecord.isOf archiveEntryKind
    cases kind : entry.kind <;> simp_all
  refine ⟨bytes, {
    size := size
    hash := by rw [behind.read.hash, behind.sameHash]
    streamed := fun output => ⟨_, SourceRead.extractToWriter_eq accepted selects
      selected behind output⟩
    unpacked := ?_
    extracted := ?_
    rangeBounds := ?_
    rangeBytes := ?_
    partition := ?_ }⟩
  · intro maxTempBytes request disk final placed ran
    have sourceFile : source.isOf .file := by
      simp [EntryRecord.isOf, behind.read.isFile, archiveEntryKind]
    have holds := placed.unpack_holdsFile verified ran member notLink
      behind.member sourceFile behind.isSource
    have same : fileBytes backends file limits read.withRoot source = bytes :=
      behind.read.fileBytes_eq
    rwa [same] at holds
  · intro maxOutputBytes maxTempBytes outputDir disk report final linkFree ran
    simp only [extract, selects, accepted, selected, hostable.toPathBuf_eq,
      StateAction.lift_ok_bind] at ran
    unfold EntryRecord.isCounted at isCounted
    cases kind : entry.kind with
    | directory => simp [kind] at isCounted
    | symlink target targetIsDir => simp [kind] at isCounted
    | file fileGroup =>
        rw [kind] at ran
        exact extractFile_holdsFile linkFree hostable behind.isSource
          behind.read ran
    | hardlink targetEntryId =>
        rw [kind] at ran
        exact extractFile_holdsFile linkFree hostable behind.isSource
          behind.read ran
  · intro offset length output bounded
    have outcome := ranges offset length bounded output
    split at outcome
    · rename_i within
      exact iff_of_true ⟨_, _, outcome⟩ within
    · rename_i outside
      obtain ⟨failure, failed⟩ := outcome
      refine iff_of_false ?_ outside
      rintro ⟨report, after, ran⟩
      rw [failed] at ran
      cases ran
  · intro offset length output report after ran
    have bounded : length ≤ limits.maxGroupOutput := by
      have first := ran
      rw [readRange, StateAction.bind_eq_ok] at first
      obtain ⟨_, _, checked, _⟩ := first
      rw [StateAction.lift_eq_ok, ensure_eq_ok] at checked
      exact checked.1
    have outcome := ranges offset length bounded output
    split at outcome
    · rw [ran] at outcome
      cases outcome
      exact ⟨rfl, rfl⟩
    · obtain ⟨failure, failed⟩ := outcome
      rw [failed] at ran
      cases ran
  · intro pieces output bounded tiles
    have maximum := entry.size.toNat_lt
    have reads := @readRanges_tiles backends file limits host bytes
      entry.size.toNat (fun offset length output fits within => by
        have outcome := ranges offset length fits output
        rw [if_pos ⟨by omega, within⟩] at outcome
        exact ⟨_, outcome⟩) 0 pieces bounded tiles output
    rw [reads, tiles.flatMap_slice, Nat.sub_zero, Bytes.slice_all size]

theorem sampleParts_readPaths :
    ∃ entry ∈ sampleParts.entries, entry.isCounted ∧
      ArchivePath.fromRelative (textBytes "d/f") = .ok entry.path ∧
      ∃ bytes, ReadPathsAgree sampleParts.crates sampleParts.archive .default
        entry (textBytes "d/f") bytes := by
  have member := List.getElem_mem (by decide : 1 < sampleParts.entries.length)
  exact ⟨sampleParts.entries[1], member, by decide, by decide,
    readPaths_agree sampleParts_verified member (by decide)
      (by decide)⟩

/-! ## Corruption -/

/-- No corrupted version of an accepted file is accepted, under any limits. -/
theorem verifyOpenFile_detects_corruption
    {backends : Backends}
    (lawful : backends.digests.Lawful)
    (detects : backends.digests.DetectsOneByte)
    {file changed : List UInt8}
    {limits : DecodeLimits}
    {verified : ParsedArchive}
    (accepted : verifyOpenFile backends file limits = .ok verified)
    (noCollision : backends.digests.NoPrefixCollision
      verified.footerOffset.toNat file changed)
    (corruption : Corruption verified.footerOffset.toNat file changed)
    (otherLimits : DecodeLimits) :
    ∃ failure, verifyOpenFile backends changed otherLimits = .error failure := by
  obtain ⟨header, footer, firstSealed, sameOffset⟩ :=
    sealed_of_verifyOpenFile accepted
  rw [sameOffset] at corruption noCollision
  cases result : verifyOpenFile backends changed otherLimits with
  | error failure => exact ⟨failure, rfl⟩
  | ok other =>
      exfalso
      obtain ⟨_, _, secondSealed, _⟩ := sealed_of_verifyOpenFile result
      have firstEnd := firstSealed.footerAtEnd
      have firstLong := firstSealed.long
      have secondEnd := secondSealed.footerAtEnd
      have secondLong := secondSealed.long
      cases corruption with
      | beforeFooter _ sameLength sameFooter different =>
          exact different (firstSealed.eq_of_sameFooter secondSealed
            noCollision sameLength sameFooter)
      | oneByte _ change =>
          exact firstSealed.not_oneByteChange lawful detects secondSealed
            noCollision change
      | cut length shorter =>
          have sameHeader : slice file 0 headerLen =
              slice (file.take length) 0 headerLen := by
            rw [List.length_take] at secondEnd
            simp only [slice, List.drop_zero, List.take_take]
            congr 1
            omega
          have := firstSealed.length_eq secondSealed sameHeader
          rw [List.length_take] at this
          omega
      | extended suffix nonempty =>
          have sameHeader : slice file 0 headerLen =
              slice (file ++ suffix) 0 headerLen :=
            (slice_append_left suffix (by omega)).symm
          have := firstSealed.length_eq secondSealed sameHeader
          rw [List.length_append] at this
          have := List.length_pos_iff.mpr nonempty
          omega

/-- The archive without its last byte. -/
def sampleFront : List UInt8 :=
  sampleParts.body .crates sampleParts.crates.json ++
    ((sampleParts.footer .crates sampleParts.crates.json).encodeFront ++
      (le32 (Footer.footerCrc .crates
        ((sampleParts.footer .crates sampleParts.crates.json).encodeFront ++
          (le32 0 ++ le32 0))) ++ [0, 0, 0]))

theorem sampleParts_archive_eq : sampleParts.archive = sampleFront ++ [0] := by
  have zero : le32 0 = [0, 0, 0] ++ [0] := by decide
  rw [ArchiveParts.archive, ArchiveParts.assemble, Footer.encode, sampleFront]
  nth_rewrite 3 [zero]
  simp only [List.append_assoc]

theorem sampleParts_corruption :
    ∃ failure, verifyOpenFile sampleParts.crates (sampleFront ++ [1])
      .default = .error failure := by
  have change : OneByteChange sampleParts.archive (sampleFront ++ [1]) :=
    ⟨sampleFront, 0, 1, [], sampleParts_archive_eq, rfl, by decide⟩
  have offset : sampleParts.verified.footerOffset.toNat ≤
      sampleFront.length := by
    have length := @length_body .crates sampleParts.crates.json sampleParts
    rw [sampleFront, List.length_append, length]
    exact Nat.le_add_right_of_le sampleParts.verified_footerOffset_le
  have noCollision : Digests.crates.NoPrefixCollision
      sampleParts.verified.footerOffset.toNat sampleParts.archive
      (sampleFront ++ [1]) := by
    intro _
    rw [sampleParts_archive_eq, List.take_append_of_le_length offset,
      List.take_append_of_le_length offset]
  exact verifyOpenFile_detects_corruption Digests.crates_lawful
    Digests.crates_detectsOneByte sampleParts_verified noCollision
    (.oneByte _ change) .default

/-! ## Unpacking -/

/-- When is a verified archive unpacked.  At a free destination unpacking it
succeeds exactly when the destination is in a directory and the entries can be
placed. -/
theorem unpack_ok_iff_placeable
    {backends : Backends}
    {file : List UInt8}
    {limits : DecodeLimits}
    {parsed : ParsedArchive}
    {request : UnpackRequest}
    {disk : Disk}
    (destination : Destination disk request)
    (verified : verifyOpenFile backends file limits = .ok parsed) :
    (unpack backends file limits limits.maxOriginalBytes request disk).1 =
        .ok () ↔
      request.bare = false ∧ Placeable disk request parsed.entries :=
  destination.unpack_ok_iff verified

/-- The second link is placed in the directory that the first one leads to. -/
theorem throughParts_placeable :
    Placeable emptyDisk rootRequest throughParts.entries where
  spellable := by decide
  compatible := by decide
  links := by
    let staging : Name := [115]
    refine ⟨_, .cons [staging, [108]] ?_ (.cons [staging, [100], [109]] ?_
      (.nil _)), rfl⟩
    · exact ⟨[staging], [108], [], [staging], rfl, ⟨rfl, rfl⟩, rfl, rfl⟩
    · exact ⟨[staging, [108]], [109], [], [staging, [100]], rfl, ⟨rfl, rfl⟩, rfl,
        rfl⟩

theorem throughParts_unpacked :
    (unpack throughParts.crates throughParts.archive .default
      DecodeLimits.default.maxOriginalBytes rootRequest emptyDisk).1 =
        .ok () :=
  (unpack_ok_iff_placeable rootRequest_destination
    (ArchiveParts.verifyOpenFile_archive rfl smallParts_checks.2.1)).mpr
      ⟨rfl, throughParts_placeable⟩

theorem blockedParts_notUnpacked :
    verifyOpenFile blockedParts.crates blockedParts.archive .default =
        .ok blockedParts.verified ∧
      (unpack blockedParts.crates blockedParts.archive .default
        DecodeLimits.default.maxOriginalBytes rootRequest emptyDisk).1 ≠
          .ok () := by
  have verified : verifyOpenFile blockedParts.crates blockedParts.archive
      .default = .ok blockedParts.verified :=
    ArchiveParts.verifyOpenFile_archive rfl smallParts_checks.2.2.1
  refine ⟨verified, fun unpacked => ?_⟩
  obtain ⟨_, placeable⟩ :=
    (rootRequest_destination.unpack_ok_iff verified).mp unpacked
  obtain ⟨final, plants, _⟩ := placeable.links
  -- The directory below the link has made a directory in the place of the link.
  cases plants with
  | cons place comes later =>
      have leads : follow
          (stagedShape emptyDisk rootRequest blockedParts.entries)
          [[115], [108]] = .ok [[115], [108]] := rfl
      cases leads.symm.trans comes.lost

theorem sampleParts_restorable : Restorable sampleParts.entries := by
  decide

theorem sampleParts_noEscape : NoEscape sampleParts.entries :=
  noEscape_of_traces 2 (by decide)

/-- Extracting an entry of an accepted archive is confined, below any output
directory, on any disk and whatever faults it meets. -/
theorem extract_confined
    {backends : Backends}
    {file : List UInt8}
    {limits : DecodeLimits}
    {requested : Path}
    {selector : ArchivePath}
    {parsed : ParsedArchive}
    {entry : EntryRecord}
    (accepted : readCatalog backends file limits = .ok parsed)
    (isSelector : ArchivePath.fromRelative requested = .ok selector)
    (found : selectEntry parsed.entries selector = .ok entry)
    (maxOutputBytes maxTempBytes : UInt64)
    (outputDir : List Component)
    (disk : Disk)
    (faults : List (Option IoErrorKind)) :
    ExtractConfined disk outputDir entry.names
      (extractFaulty backends file limits maxOutputBytes maxTempBytes outputDir
        requested ⟨disk, faults, []⟩) := by
  have run := @extractFaulty_contained disk outputDir backends file limits
    maxOutputBytes maxTempBytes requested selector parsed entry accepted
    isSelector found
  have outcome := run ⟨disk, faults, []⟩ ⟨rfl, nofun⟩
  match ran : extractFaulty backends file limits maxOutputBytes maxTempBytes
      outputDir requested ⟨disk, faults, []⟩ with
  | (.ok report, after) =>
      rw [ran] at outcome
      exact outcome
  | (.error failure, after) =>
      rw [ran] at outcome
      exact ⟨outcome, fun base label => outcome.unpublished⟩

/-- The directory of the sample. -/
theorem sampleParts_selected :
    ∃ parsed, readCatalog sampleParts.crates sampleParts.archive .default =
        .ok parsed ∧
      ArchivePath.fromRelative (textBytes "d") =
        .ok ⟨[utf8Component "d"]⟩ ∧
      selectEntry parsed.entries ⟨[utf8Component "d"]⟩ =
        .ok (directoryEntry 0 [utf8Component "d"]) := by
  obtain ⟨parsed, accepted, _, same⟩ :=
    verifyOpenFile_eq_ok.mp sampleParts_verified
  have entries : parsed.entries = sampleParts.entries :=
    (congrArg ParsedArchive.entries same).symm
  refine ⟨parsed, accepted, by decide, ?_⟩
  rw [entries]
  decide

/-- The file of the sample, which lies in the directory. -/
theorem sampleParts_selected_file :
    ∃ parsed, readCatalog sampleParts.crates sampleParts.archive .default =
        .ok parsed ∧
      ArchivePath.fromRelative (textBytes "d/f") =
        .ok ⟨[utf8Component "d", utf8Component "f"]⟩ ∧
      selectEntry parsed.entries ⟨[utf8Component "d", utf8Component "f"]⟩ =
        .ok (sampleParts.entries.get ⟨1, by decide⟩) := by
  obtain ⟨parsed, accepted, _, same⟩ :=
    verifyOpenFile_eq_ok.mp sampleParts_verified
  have entries : parsed.entries = sampleParts.entries :=
    (congrArg ParsedArchive.entries same).symm
  refine ⟨parsed, accepted, by decide, ?_⟩
  rw [entries]
  decide +kernel

/-- Making the directory of the file works, and publishing the file fails. -/
theorem sampleParts_extract_confined :
    ExtractConfined emptyDisk [.normal (textBytes "o")]
      [textBytes "d", textBytes "f"]
      (extractFaulty sampleParts.crates sampleParts.archive .default 1 1
        [.normal (textBytes "o")] (textBytes "d/f")
        ⟨emptyDisk, List.replicate 18 none ++ [some .permissionDenied], []⟩) := by
  generalize List.replicate 18 none ++ [some IoErrorKind.permissionDenied] =
    faults
  obtain ⟨parsed, accepted, isSelector, found⟩ := sampleParts_selected_file
  exact extract_confined accepted isSelector found 1 1 _ _ faults

/-- The path `d/..` of an output directory leads through the directory that is to
be extracted.  It is made on the way, and then the extraction is refused. -/
theorem extract_leaves_entry :
    ∃ after, extractFaulty sampleParts.crates sampleParts.archive .default 0 0
        [.normal (textBytes "d"), .parentDir] (textBytes "d")
        ⟨emptyDisk, [], []⟩ = (.error .outputExists, after) ∧
      after.disk.resolve [.normal (textBytes "d"), .parentDir] = .ok [] ∧
      emptyDisk.look [textBytes "d"] = none ∧
      after.disk.look [textBytes "d"] = some (.directory newDirectory) := by
  obtain ⟨parsed, accepted, isSelector, found⟩ := sampleParts_selected
  have spelled : (directoryEntry 0 [utf8Component "d"]).path.toPathBuf =
      .ok (textBytes "d") := by decide
  rw [extractFaulty_eq_of_directory accepted isSelector found spelled rfl]
  refine ⟨_, rfl, ?_, ?_, ?_⟩
  · decide
  · decide
  · decide

end Pithos
