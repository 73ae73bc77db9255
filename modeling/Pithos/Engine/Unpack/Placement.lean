import Pithos.Engine.Unpack.Containment
import Pithos.Library.DiskLinks

/-!
# Where unpacking places the links

The links come last, and a link may stand below another one: it is then placed
wherever the other leads.  `Plants` places links one after another in a tree,
and `Placeable` says that the entries before the links can be restored and the
links can then be placed.  At a destination in a directory an archive is
unpacked exactly when its entries are placeable.
-/

namespace Pithos

open Fallible
open FileTree
open HostPath
open Disk

/-! ## The entries before the links -/

/-- The entries that are created before the links. -/
def beforeLinks (entries : List EntryRecord) : List EntryRecord :=
  entries.filter (EntryRecord.isOf .directory) ++
    (entries.filter (EntryRecord.isOf .file) ++
      entries.filter (EntryRecord.isOf .hardlink))

/-- The links, in the order in which they are created. -/
def linkEntries (entries : List EntryRecord) : List EntryRecord :=
  entries.filter (EntryRecord.isOf .symlink)

theorem creationOrder_eq (entries : List EntryRecord) :
    creationOrder entries = beforeLinks entries ++ linkEntries entries := by
  simp [creationOrder, beforeLinks, linkEntries]

theorem mem_beforeLinks
    {entries : List EntryRecord}
    {entry : EntryRecord} :
    entry ∈ beforeLinks entries ↔
      entry ∈ entries ∧ entry.isOf .symlink = false := by
  simp only [beforeLinks, List.mem_append, List.mem_filter, EntryRecord.isOf]
  cases archiveEntryKind entry.kind <;> simp

section BeforeLinks

variable
  {backends : Backends}
  {file : List UInt8}
  {limits : DecodeLimits}
  {parsed : ParsedArchive}
  {start : Disk}
  {staging : Location}

/-- The entries before the links are created, or they cannot all be restored. -/
theorem beforeLinks_run
    (verified : Verified backends file limits parsed)
    (stagingNoNul : NoNul staging) :
    StateAction.Triple
      (Staged (fileBytes backends file limits parsed) parsed.entries start
        staging [])
      (StateAction.forEach (unpackEntry backends file limits parsed staging)
        (beforeLinks parsed.entries))
      (fun _ => Staged (fileBytes backends file limits parsed) parsed.entries
        start staging (beforeLinks parsed.entries))
      (fun _ _ => ¬Restorable (beforeLinks parsed.entries)) := by
  refine StateAction.Triple.forEach (Staged (fileBytes backends file limits parsed)
    parsed.entries start staging) ?_
  intro done entry rest split
  have whole : creationOrder parsed.entries = done ++ entry ::
      (rest ++ linkEntries parsed.entries) := by
    rw [creationOrder_eq, split]
    simp
  have noLinks : LinksBefore done entry := by
    intro link member isLink
    have := (mem_beforeLinks.mp (by rw [split]; simp [member] :
      link ∈ beforeLinks parsed.entries)).2
    rw [isLink] at this
    cases this
  refine (unpackEntry_step verified stagingNoNul whole noLinks).consequence
    (fun _ => id) (fun _ _ => id) ?_
  rintro failure disk ⟨_, notRestorable⟩ restorable
  have front : beforeLinks parsed.entries = done ++ [entry] ++ rest := by
    simp [split]
  rw [front] at restorable
  exact notRestorable restorable.of_append

/-- Creating a link only adds to the disk. -/
theorem keeps_unpackSymlink
    (staging : Location)
    (entry : EntryRecord)
    (target : LinkTarget) :
    Keeps (unpackSymlink staging entry target) := by
  refine (keeps_lift _).bind fun _ => ?_
  refine (keeps_lift _).bind fun _ => ?_
  refine ((keeps_createDirAll _).mapError).bind fun _ => ?_
  refine (keeps_lift _).bind fun _ => ?_
  exact (keeps_symlink _ _).mapError

theorem keeps_links
    (backends : Backends)
    (file : List UInt8)
    (limits : DecodeLimits)
    (parsed : ParsedArchive)
    (staging : Location) :
    Keeps (StateAction.forEach (unpackEntry backends file limits parsed staging)
      (linkEntries parsed.entries)) := by
  refine keeps_forEach fun entry member => ?_
  have isLink := (List.mem_filter.mp member).2
  unfold unpackEntry
  unfold EntryRecord.isOf archiveEntryKind at isLink
  cases kind : entry.kind with
  | directory => simp [kind] at isLink
  | file groupId => simp [kind] at isLink
  | hardlink targetEntryId => simp [kind] at isLink
  | symlink target targetIsDir => exact keeps_unpackSymlink staging entry target

end BeforeLinks

/-! ## Placing links -/

/-- Links are placed one after another in a tree, each where its path, through
the links before it, comes to a free place. -/
inductive Plants (staging : Location) :
    (Location → Option Shape) → List EntryRecord →
      (Location → Option Shape) → Prop
  | nil (tree : Location → Option Shape) : Plants staging tree [] tree
  | cons
      {tree final : Location → Option Shape}
      {entry : EntryRecord}
      {later : List EntryRecord}
      (place : Location)
      (comes : ComesFree tree (staging ++ entry.names) place)
      (plants : Plants staging (plant tree place entry.shape) later final) :
      Plants staging tree (entry :: later) final

/-- The tree on the disk when all entries but the links are created. -/
def stagedShape
    (disk : Disk)
    (request : UnpackRequest)
    (entries : List EntryRecord)
    (location : Location) : Option Shape :=
  if request.staging <+: location then
    catalogShape (beforeLinks entries)
      (location.drop request.staging.length)
  else if location <+: request.outputParent then some .directory
  else disk.shape location

/-- The entries can be placed: those before the links fit in one tree, and then
each link comes to a free place, and none to the destination. -/
structure Placeable
    (disk : Disk)
    (request : UnpackRequest)
    (entries : List EntryRecord) : Prop where
  spellable : ∀ entry ∈ entries, Spellable entry
  compatible : (beforeLinks entries).Pairwise Compatible
  links : ∃ final,
    Plants request.staging (stagedShape disk request entries) (linkEntries entries)
      final ∧
    final request.outputDir = none

section Links

variable
  {backends : Backends}
  {file : List UInt8}
  {limits : DecodeLimits}
  {parsed : ParsedArchive}
  {disk after : Disk}
  {staging : Location}
  {entry : EntryRecord}
  {target : LinkTarget}
  {targetIsDir : Bool}

theorem unpackSymlink_eq
    (hostable : entry.path.Hostable)
    (within : target.resolvesWithin entry.path)
    (targetHostable : target.Hostable) :
    unpackSymlink staging entry target = (do
      createParents ((staging ++ entry.names).map .normal)
      io (Disk.symlink (joinPieces target.pieces)
        ((staging ++ entry.names).map .normal))) := by
  have spelled : target.toPathBuf = .ok (joinPieces target.pieces) :=
    LinkTarget.toPathBuf_eq_ok.mpr ⟨targetHostable, rfl⟩
  simp only [unpackSymlink, ensure_of within, StateAction.lift_ok_bind,
    hostable.toPathBuf_eq, spelled, join_joinPieces staging hostable]

/-- A link that was created stands where its path comes to a free place. -/
theorem shape_of_unpackSymlink
    (hostable : entry.path.Hostable)
    (isLink : entry.kind = .symlink target targetIsDir)
    (within : target.resolvesWithin entry.path)
    (targetHostable : target.Hostable)
    (ran : unpackSymlink staging entry target disk = (.ok (), after)) :
    Spellable entry ∧
      ∃ place, ComesFree disk.shape (staging ++ entry.names) place ∧
        after.shape = plant disk.shape place entry.shape := by
  obtain ⟨parent, last, split⟩ :
      ∃ parent last, entry.names = parent ++ [last] :=
    ⟨_, _, (List.dropLast_append_getLast hostable.names_ne_nil).symm⟩
  have shape : entry.shape = .symlink (joinPieces target.pieces) := by
    simp [EntryRecord.shape, isLink]
  rw [unpackSymlink_eq hostable within targetHostable] at ran
  simp only [createParents, StateAction.bind_eq_ok, io,
    StateAction.mapError_eq_ok, split, ← List.append_assoc] at ran
  rw [← List.map_dropLast, List.dropLast_concat] at ran
  obtain ⟨_, middle, parents, linked⟩ := ran
  obtain ⟨⟨targetNoNul, noNul⟩, nonempty, place, comes, planted⟩ :=
    shape_of_makeLink parents linked
  rw [List.append_assoc, ← split] at noNul comes
  refine ⟨⟨fun name member => noNul name (by simp [member]), ?_⟩, place, comes,
    by rw [planted, shape]⟩
  intro other otherIsDir otherLink
  cases isLink.symm.trans otherLink
  refine ⟨fun empty => nonempty ?_, nul_mem_joinPieces.mp targetNoNul⟩
  simp [LinkTarget.pieces, empty, joinPieces]

/-- A link is created when its path comes to a free place. -/
theorem unpackSymlink_of_comesFree
    (stagingNoNul : NoNul staging)
    (hostable : entry.path.Hostable)
    (isLink : entry.kind = .symlink target targetIsDir)
    (within : target.resolvesWithin entry.path)
    (targetHostable : target.Hostable)
    (spellable : Spellable entry)
    {place : Location}
    (comes : ComesFree disk.shape (staging ++ entry.names) place) :
    ∃ after, unpackSymlink staging entry target disk = (.ok (), after) := by
  obtain ⟨parent, last, split⟩ :
      ∃ parent last, entry.names = parent ++ [last] :=
    ⟨_, _, (List.dropLast_append_getLast hostable.names_ne_nil).symm⟩
  obtain ⟨targetNonempty, targetNoNul⟩ := spellable.target _ _ isLink
  have noNul : NoNul (staging ++ entry.names) := by
    intro name member
    rcases List.mem_append.mp member with inStaging | inNames
    · exact stagingNoNul name inStaging
    · exact spellable.names name inNames
  have nonempty : joinPieces target.pieces ≠ [] := by
    refine joinPieces_ne_nil ?_ targetHostable.isPiece
    simpa [LinkTarget.pieces] using targetNonempty
  rw [unpackSymlink_eq hostable within targetHostable]
  simp only [createParents, StateAction.bind_eq_ok, io,
    StateAction.mapError_eq_ok, split, ← List.append_assoc] at noNul comes ⊢
  rw [← List.map_dropLast, List.dropLast_concat]
  obtain ⟨middle, after, parents, linked⟩ := makeLink_of_comesFree noNul
    (nul_mem_joinPieces.mpr targetNoNul) nonempty comes
  exact ⟨after, (), middle, parents, linked⟩

/-- Creating a link entry of a verified archive. -/
theorem Verified.unpackEntry_link
    (verified : Verified backends file limits parsed)
    (member : entry ∈ linkEntries parsed.entries) :
    ∃ target targetIsDir, entry.kind = .symlink target targetIsDir ∧
      target.resolvesWithin entry.path ∧ target.Hostable ∧
      unpackEntry backends file limits parsed staging entry =
        unpackSymlink staging entry target := by
  obtain ⟨listed, isOf⟩ := List.mem_filter.mp member
  unfold EntryRecord.isOf archiveEntryKind at isOf
  cases kind : entry.kind with
  | directory => simp [kind] at isOf
  | file groupId => simp [kind] at isOf
  | hardlink targetEntryId => simp [kind] at isOf
  | symlink target targetIsDir =>
      obtain ⟨within, hostable⟩ := verified.links entry listed _ _ kind
      exact ⟨target, targetIsDir, rfl, within, hostable, by
        rw [unpackEntry, kind]⟩

/-- Links that were created have been placed. -/
theorem plants_of_links
    (verified : Verified backends file limits parsed)
    {later : List EntryRecord}
    (listed : ∀ entry ∈ later, entry ∈ linkEntries parsed.entries)
    (ran : StateAction.forEach
      (unpackEntry backends file limits parsed staging) later disk =
        (.ok (), after)) :
    (∀ entry ∈ later, Spellable entry) ∧
      Plants staging disk.shape later after.shape := by
  induction later generalizing disk with
  | nil =>
      cases ran
      exact ⟨nofun, .nil _⟩
  | cons entry later inductionHypothesis =>
      obtain ⟨target, targetIsDir, isLink, within, targetHostable, same⟩ :=
        verified.unpackEntry_link (listed entry (by simp))
      have hostable := verified.hostable entry
        (List.mem_of_mem_filter (listed entry (by simp)))
      rw [StateAction.forEach, StateAction.bind_eq_ok, same] at ran
      obtain ⟨_, middle, first, rest⟩ := ran
      obtain ⟨spellable, place, comes, planted⟩ := shape_of_unpackSymlink
        hostable isLink within targetHostable first
      obtain ⟨laterSpellable, plants⟩ := inductionHypothesis
        (fun other member => listed other (by simp [member])) rest
      rw [planted] at plants
      exact ⟨List.forall_mem_cons.mpr ⟨spellable, laterSpellable⟩,
        .cons place comes plants⟩

/-- Links that can be placed are created. -/
theorem links_of_plants
    (verified : Verified backends file limits parsed)
    (stagingNoNul : NoNul staging)
    {later : List EntryRecord}
    (listed : ∀ entry ∈ later, entry ∈ linkEntries parsed.entries)
    (spellable : ∀ entry ∈ later, Spellable entry)
    {final : Location → Option Shape}
    (plants : Plants staging disk.shape later final) :
    ∃ after, StateAction.forEach
        (unpackEntry backends file limits parsed staging) later disk =
          (.ok (), after) ∧
      after.shape = final := by
  induction later generalizing disk with
  | nil =>
      cases plants
      exact ⟨disk, rfl, rfl⟩
  | cons entry later inductionHypothesis =>
      cases plants with
      | cons place comes plants =>
          obtain ⟨target, targetIsDir, isLink, within, targetHostable, same⟩ :=
            verified.unpackEntry_link (listed entry (by simp))
          have hostable := verified.hostable entry
            (List.mem_of_mem_filter (listed entry (by simp)))
          obtain ⟨middle, first⟩ := unpackSymlink_of_comesFree stagingNoNul
            hostable isLink within targetHostable
            (spellable entry (by simp)) comes
          obtain ⟨_, other, otherComes, planted⟩ := shape_of_unpackSymlink
            hostable isLink within targetHostable first
          cases comes.unique otherComes
          rw [← planted] at plants
          obtain ⟨after, rest, isFinal⟩ := inductionHypothesis
            (fun other member => listed other (by simp [member]))
            (fun other member => spellable other (by simp [member])) plants
          refine ⟨after, ?_, isFinal⟩
          rw [StateAction.forEach, same, StateAction.bind_of_ok first, rest]

/-- Placing links leaves no directory without anything in it. -/
theorem Plants.hollow
    {later : List EntryRecord}
    (areLinks : ∀ entry ∈ later, ∃ target, entry.shape = .symlink target)
    {tree final : Location → Option Shape}
    (plants : Plants staging tree later final)
    {location : Location}
    (hollow : Hollow final location) :
    Hollow tree location := by
  induction plants with
  | nil => exact hollow
  | cons place comes plants inductionHypothesis =>
      obtain ⟨target, shape⟩ := areLinks _ List.mem_cons_self
      have before := inductionHypothesis
        (fun other member => areLinks other (by simp [member])) hollow
      rw [shape] at before
      exact hollow_of_plant before

end Links

/-! ## Placeable archives -/

section Placing

variable
  {backends : Backends}
  {file : List UInt8}
  {limits : DecodeLimits}
  {parsed : ParsedArchive}
  {maxTempBytes : UInt64}
  {request : UnpackRequest}
  {disk prepared filled populated final : Disk}

/-- The tree on the disk when all entries but the links are created. -/
theorem Prepared.shape_eq_stagedShape
    (isPrepared : Prepared disk request prepared)
    {contents : EntryRecord → List UInt8}
    {entries : List EntryRecord}
    (staged : Staged contents entries prepared request.staging
      (beforeLinks entries) filled) :
    filled.shape = stagedShape disk request entries := by
  funext location
  unfold stagedShape
  by_cases inside : request.staging <+: location
  · obtain ⟨relative, rfl⟩ := inside
    rw [if_pos (List.prefix_append _ _), List.drop_left,
      staged.shape_eq fun _ => Iff.rfl]
  · have outside : filled.look location = prepared.look location :=
      staged.outside location inside
    rw [if_neg inside]
    by_cases above : location <+: request.outputParent
    · rw [if_pos above, shape_eq_directory, outside]
      obtain ⟨metadata, parent⟩ := isPrepared.parent
      by_cases same : location = request.outputParent
      · exact ⟨metadata, by rw [same, parent]⟩
      · exact directory_of_isPrefix parent above same
    · rw [if_neg above, Disk.shape, outside, isPrepared.outside location inside,
        if_neg (fun both => above both.1)]
      rfl

/-- When all entries are created, the links have been placed in the tree of the
others. -/
theorem Prepared.placed_of_populate
    (isPrepared : Prepared disk request prepared)
    (verified : Verified backends file limits parsed)
    (stagingNoNul : NoNul request.staging)
    (populates : populate backends file limits parsed request.staging prepared =
      (.ok (), populated)) :
    ∃ filled,
      Staged (fileBytes backends file limits parsed) parsed.entries prepared
        request.staging (beforeLinks parsed.entries) filled ∧
      Kept filled populated ∧
      (∀ entry ∈ linkEntries parsed.entries, Spellable entry) ∧
      Plants request.staging (stagedShape disk request parsed.entries)
        (linkEntries parsed.entries) populated.shape := by
  rw [populate_eq, creationOrder_eq, StateAction.forEach_append,
    StateAction.bind_eq_ok] at populates
  obtain ⟨_, filled, ranFiles, ranLinks⟩ := populates
  have staged := (beforeLinks_run verified stagingNoNul).ok
    (isPrepared.staged _ _) ranFiles
  have kept := keeps_links backends file limits parsed request.staging filled
  rw [ranLinks] at kept
  obtain ⟨spellable, plants⟩ :=
    plants_of_links verified (fun _ => id) ranLinks
  rw [isPrepared.shape_eq_stagedShape staged] at plants
  exact ⟨filled, staged, kept, spellable, plants⟩

/-- The steps of an unpacking that succeeds. -/
theorem Destination.steps_of_unpack_ok
    (destination : Destination disk request)
    (prepares : prepareStaging backends file limits maxTempBytes request disk =
      (.ok parsed, prepared))
    (isPrepared : Prepared disk request prepared)
    (verified : Verified backends file limits parsed)
    (unpacks : unpack backends file limits maxTempBytes request disk =
      (.ok (), final)) :
    ∃ filled populated,
      Staged (fileBytes backends file limits parsed) parsed.entries prepared
        request.staging (beforeLinks parsed.entries) filled ∧
      Kept filled populated ∧
      (∀ entry ∈ linkEntries parsed.entries, Spellable entry) ∧
      Plants request.staging (stagedShape disk request parsed.entries)
        (linkEntries parsed.entries) populated.shape ∧
      populated.shape request.outputDir = none ∧
      request.bare = false ∧
      Moved populated request.staging request.outputDir final := by
  rw [unpack, StateAction.bind_of_ok prepares, StateAction.cleanupAfter,
    Prod.mk.injEq] at unpacks
  obtain ⟨body, cleaned⟩ := unpacks
  rcases ranBody : (do
      populate backends file limits parsed request.staging
      io (rename (absolute request.staging) (absolute request.outputDir))
      syncParent request) prepared with ⟨failure | _, last⟩
  · rw [ranBody] at body
    cases body
  · rw [ranBody] at cleaned
    rw [StateAction.bind_eq_ok] at ranBody
    obtain ⟨_, populated, populates, rest⟩ := ranBody
    rw [StateAction.bind_eq_ok] at rest
    obtain ⟨_, renamedDisk, renamed, synced⟩ := rest
    rw [io, StateAction.mapError_eq_ok] at renamed
    obtain ⟨filled, staged, kept, spellable, plants⟩ :=
      isPrepared.placed_of_populate verified destination.stagingNoNul
        populates
    obtain ⟨⟨metadata, parent⟩, free⟩ :=
      isPrepared.look_of_outside destination staged.outside
    have linkFree := kept.linkFree parent
    have stillFree : populated.shape request.outputDir = none := by
      refine (free_or_hollow_of_rename linkFree destination.different
        renamed).resolve_right fun hollow => ?_
      have before := (plants.hollow (fun entry member => ?_) hollow).1
      · rw [← isPrepared.shape_eq_stagedShape staged] at before
        cases (shape_eq_none.mpr free).symm.trans before
      · obtain ⟨target, _, isLink, _⟩ :=
          @Verified.unpackEntry_link _ _ _ _ request.staging _ verified member
        exact ⟨_, by rw [EntryRecord.shape, isLink]⟩
    obtain ⟨other, again, moved, isSynced, nothing⟩ :=
      destination.publish_ok (kept.look _ _ parent)
        (by
          obtain ⟨_, root⟩ := staged.root
          rw [kept.look _ _ root]
          rfl)
        (shape_eq_none.mp stillFree)
    cases renamed.symm.trans again
    rw [isSynced, Prod.mk.injEq] at synced
    obtain ⟨inDirectory, rfl⟩ := synced
    refine ⟨filled, populated, staged, kept, spellable, plants, stillFree, ?_,
      ?_⟩
    · cases isBare : request.bare with
      | false => rfl
      | true => simp [UnpackRequest.synced, isBare] at inDirectory
    · rw [io, StateAction.mapError_snd, nothing] at cleaned
      rw [← cleaned]
      exact moved

/-- Placeable entries are created. -/
theorem Prepared.populate_of_placeable
    (isPrepared : Prepared disk request prepared)
    (verified : Verified backends file limits parsed)
    (stagingNoNul : NoNul request.staging)
    (placeable : Placeable disk request parsed.entries) :
    ∃ filled populated,
      Staged (fileBytes backends file limits parsed) parsed.entries prepared
        request.staging (beforeLinks parsed.entries) filled ∧
      Kept filled populated ∧
      populate backends file limits parsed request.staging prepared =
        (.ok (), populated) ∧
      populated.shape request.outputDir = none := by
  have restorable : Restorable (beforeLinks parsed.entries) :=
    ⟨fun entry member => placeable.spellable entry
      (mem_beforeLinks.mp member).1, placeable.compatible⟩
  have run := beforeLinks_run verified stagingNoNul prepared
    (isPrepared.staged (fileBytes backends file limits parsed) parsed.entries)
  match ranFiles : StateAction.forEach
      (unpackEntry backends file limits parsed request.staging)
      (beforeLinks parsed.entries) prepared with
  | (.error failure, stopped) =>
      rw [ranFiles] at run
      exact absurd restorable run
  | (.ok _, filled) =>
      rw [ranFiles] at run
      obtain ⟨tree, plants, free⟩ := placeable.links
      rw [← isPrepared.shape_eq_stagedShape run] at plants
      obtain ⟨populated, ranLinks, shape⟩ := links_of_plants verified
        stagingNoNul (fun _ => id) (fun entry member =>
          placeable.spellable entry (List.mem_of_mem_filter member)) plants
      have kept := keeps_links backends file limits parsed request.staging filled
      rw [ranLinks] at kept
      refine ⟨filled, populated, run, kept, ?_, by rw [shape, free]⟩
      rw [populate_eq, creationOrder_eq, StateAction.forEach_append,
        StateAction.bind_of_ok ranFiles, ranLinks]

/-- At a free destination a verified archive is unpacked exactly when the
destination is in a directory and the entries are placeable. -/
theorem Destination.unpack_ok_iff
    (destination : Destination disk request)
    (verified : verifyOpenFile backends file limits = .ok parsed) :
    (unpack backends file limits limits.maxOriginalBytes request disk).1 =
        .ok () ↔
      request.bare = false ∧ Placeable disk request parsed.entries := by
  have isVerified := verified_of_verifyOpenFile verified
  obtain ⟨prepared, prepares, isPrepared⟩ := destination.prepareStaging_ok
    verified (originalBytes_le_of_verified verified)
  constructor
  · intro succeeds
    obtain ⟨filled, populated, staged, _, spellable, plants, free, inDirectory,
      _⟩ := destination.steps_of_unpack_ok prepares isPrepared isVerified
        (Prod.ext succeeds rfl)
    refine ⟨inDirectory, fun entry member => ?_, staged.restorable.compatible,
      populated.shape, plants, free⟩
    cases isLink : entry.isOf .symlink with
    | true => exact spellable entry (List.mem_filter.mpr ⟨member, isLink⟩)
    | false =>
        exact staged.restorable.spellable entry
          (mem_beforeLinks.mpr ⟨member, isLink⟩)
  · rintro ⟨inDirectory, placeable⟩
    obtain ⟨filled, populated, staged, kept, populates, free⟩ :=
      isPrepared.populate_of_placeable isVerified destination.stagingNoNul
        placeable
    obtain ⟨⟨metadata, parent⟩, _⟩ :=
      isPrepared.look_of_outside destination staged.outside
    obtain ⟨_, root⟩ := staged.root
    obtain ⟨final, unpacks, _⟩ := destination.unpack_of_populated prepares
      populates (kept.look _ _ parent) (by rw [kept.look _ _ root]; rfl)
      (shape_eq_none.mp free)
    rw [unpacks]
    simp [UnpackRequest.synced, inDirectory]

/-- Entries that fit in one tree are placeable. -/
theorem Destination.placeable_of_restorable
    (destination : Destination disk request)
    (verified : verifyOpenFile backends file limits = .ok parsed)
    (restorable : Restorable parsed.entries) :
    Placeable disk request parsed.entries := by
  have inDirectory : Destination disk { request with bare := false } :=
    { destination with workingDirectory := nofun }
  obtain ⟨_, spellable, compatible, links⟩ :=
    (inDirectory.unpack_ok_iff verified).mp
      (inDirectory.unpack_ok_of_restorable rfl verified restorable)
  exact ⟨spellable, compatible, links⟩

end Placing

end Pithos
