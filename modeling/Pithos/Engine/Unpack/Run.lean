import Mathlib.Data.List.Pairwise
import Pithos.Engine.Unpack.Steps

/-!
# A whole unpacking

The four loops of `populate` are one loop over the entries in creation order.
The step lemmas and the loop rule give the outcome of the loop, and with the
staging directory before it and the rename after it the outcome of `unpack`.
-/

namespace Pithos

open Fallible
open FileTree
open HostPath
open Disk

/-! ## Creation order -/

/-- The entries in the order in which they are created. -/
def creationOrder (entries : List EntryRecord) : List EntryRecord :=
  entries.filter (EntryRecord.isOf .directory) ++
    (entries.filter (EntryRecord.isOf .file) ++
      (entries.filter (EntryRecord.isOf .hardlink) ++
        entries.filter (EntryRecord.isOf .symlink)))

/-- The phase in which entries of a kind are created. -/
def phase : ArchiveEntryKind → Nat
  | .directory => 0
  | .file => 1
  | .hardlink => 2
  | .symlink => 3

/-- The phase of an entry. -/
def EntryRecord.phase (entry : EntryRecord) : Nat :=
  Pithos.phase (archiveEntryKind entry.kind)

theorem EntryRecord.phase_of_isOf
    {entry : EntryRecord}
    {kind : ArchiveEntryKind}
    (isOf : entry.isOf kind) :
    entry.phase = Pithos.phase kind := by
  have same : archiveEntryKind entry.kind = kind := by
    simpa [EntryRecord.isOf] using isOf
  rw [EntryRecord.phase, same]

theorem creationOrder_perm (entries : List EntryRecord) :
    (creationOrder entries).Perm entries := by
  induction entries with
  | nil => exact List.Perm.refl _
  | cons entry rest inductionHypothesis =>
      have grouped : (creationOrder (entry :: rest)).Perm
          (entry :: creationOrder rest) := by
        unfold creationOrder
        simp only [List.filter_cons]
        unfold EntryRecord.isOf
        cases archiveEntryKind entry.kind with
        | directory => simp
        | file => simp
        | hardlink =>
            simp only [← List.append_assoc, reduceCtorEq, decide_false,
              Bool.false_eq_true, if_false, decide_true, if_true]
            simp only [List.append_assoc, List.cons_append]
            rw [← List.append_assoc]
            refine List.perm_middle.trans ?_
            rw [List.append_assoc]
        | symlink =>
            simp only [← List.append_assoc, reduceCtorEq, decide_false,
              Bool.false_eq_true, if_false, decide_true, if_true]
            exact List.perm_middle
      exact grouped.trans (inductionHypothesis.cons entry)

theorem mem_creationOrder
    {entries : List EntryRecord}
    {entry : EntryRecord} :
    entry ∈ creationOrder entries ↔ entry ∈ entries :=
  (creationOrder_perm entries).mem_iff

/-- Phases do not decrease along the creation order. -/
theorem creationOrder_phases (entries : List EntryRecord) :
    (creationOrder entries).Pairwise fun first second =>
      first.phase ≤ second.phase := by
  have same (kind : ArchiveEntryKind) {entry : EntryRecord}
      (member : entry ∈ entries.filter (EntryRecord.isOf kind)) :
      entry.phase = Pithos.phase kind :=
    EntryRecord.phase_of_isOf (List.mem_filter.mp member).2
  have within (kind : ArchiveEntryKind) :
      (entries.filter (EntryRecord.isOf kind)).Pairwise fun first second =>
        first.phase ≤ second.phase := by
    refine List.pairwise_of_forall_mem_list ?_
    intro first firstMember second secondMember
    rw [same kind firstMember, same kind secondMember]
  unfold creationOrder
  refine List.pairwise_append.mpr ⟨within _, List.pairwise_append.mpr
    ⟨within _, List.pairwise_append.mpr ⟨within _, within _, ?_⟩, ?_⟩, ?_⟩
  · intro first firstMember second secondMember
    rw [same _ firstMember, same _ secondMember]
    decide
  · intro first firstMember second secondMember
    rw [same _ firstMember]
    rcases List.mem_append.mp secondMember with member | member <;>
      rw [same _ member] <;> decide
  · intro first firstMember second secondMember
    rw [same _ firstMember]
    exact Nat.zero_le _

theorem populate_eq
    (backends : Backends)
    (file : List UInt8)
    (limits : DecodeLimits)
    (parsed : ParsedArchive)
    (staging : Location) :
    populate backends file limits parsed staging =
      StateAction.forEach (unpackEntry backends file limits parsed staging)
        (creationOrder parsed.entries) := by
  unfold creationOrder populate
  rw [StateAction.forEach_append, StateAction.forEach_append, StateAction.forEach_append]

/-- No link stands below another link. -/
def LinksFlat (entries : List EntryRecord) : Prop :=
  ∀ link ∈ entries, ∀ entry ∈ entries, link.isOf .symlink →
    entry.isOf .symlink → link.names <+: entry.names →
    link.names = entry.names

theorem Restorable.linksFlat
    {entries : List EntryRecord}
    (restorable : Restorable entries) :
    LinksFlat entries := by
  have symmetric : Std.Symm Compatible := ⟨fun _ _ => Compatible.symm⟩
  intro link linkMember entry entryMember isLink _ isPrefix
  by_contra different
  have distinct : link ≠ entry := fun same => different (by rw [same])
  have compatible := restorable.compatible.forall linkMember entryMember
    distinct
  refine compatible.1 ?_ isPrefix
  unfold EntryRecord.isOf at isLink ⊢
  simp_all

theorem LinksFlat.linksBefore
    {entries done rest : List EntryRecord}
    {entry : EntryRecord}
    (flat : LinksFlat entries)
    (split : creationOrder entries = done ++ entry :: rest) :
    LinksBefore done entry := by
  intro link member isLink
  have ordered := creationOrder_phases entries
  rw [split] at ordered
  have later := (List.pairwise_append.mp ordered).2.2 link member entry
    (by simp)
  rw [EntryRecord.phase_of_isOf isLink] at later
  have isEntryLink : entry.isOf .symlink := by
    unfold EntryRecord.phase at later
    unfold EntryRecord.isOf
    revert later
    cases archiveEntryKind entry.kind <;> decide
  have linkMember : link ∈ entries := by
    rw [← mem_creationOrder, split]
    simp [member]
  have entryMember : entry ∈ entries := by
    rw [← mem_creationOrder, split]
    simp
  exact ⟨isEntryLink, flat link linkMember entry entryMember isLink
    isEntryLink⟩

/-- The file behind a hardlink is created before it. -/
theorem file_before_hardlink
    {entries done rest : List EntryRecord}
    {target entry : EntryRecord}
    (split : creationOrder entries = done ++ entry :: rest)
    (member : target ∈ entries)
    (isFile : target.isOf .file)
    (isHardlink : entry.isOf .hardlink) :
    target ∈ done := by
  have ordered := creationOrder_phases entries
  rw [← mem_creationOrder, split] at member
  rw [split] at ordered
  have filePhase := EntryRecord.phase_of_isOf isFile
  have linkPhase := EntryRecord.phase_of_isOf isHardlink
  rcases List.mem_append.mp member with earlier | later
  · exact earlier
  · rcases List.mem_cons.mp later with same | later
    · rw [same, linkPhase] at filePhase
      cases filePhase
    · have := (List.pairwise_cons.mp
        (List.pairwise_append.mp ordered).2.1).1 target later
      rw [filePhase, linkPhase] at this
      exact absurd this (by decide)

/-! ## The loop -/

/-- What unpacking uses of a verified archive. -/
structure Verified
    (backends : Backends)
    (file : List UInt8)
    (limits : DecodeLimits)
    (parsed : ParsedArchive) : Prop where
  hostable : ∀ entry ∈ parsed.entries, entry.path.Hostable
  files : ∀ entry ∈ parsed.entries, ∀ groupId, entry.kind = .file groupId →
    ∃ group restore decoded, groupById parsed.groups groupId = some group ∧
      FileRead backends file limits parsed entry groupId group restore decoded
        (fileBytes backends file limits parsed entry)
  hardlinks : ∀ entry ∈ parsed.entries, ∀ targetEntryId,
    entry.kind = .hardlink targetEntryId →
    ∃ target ∈ parsed.entries, target.isOf .file ∧
      parsed.entries[targetEntryId.toNat]? = some target
  links : ∀ entry ∈ parsed.entries, ∀ target targetIsDir,
    entry.kind = .symlink target targetIsDir →
    target.resolvesWithin entry.path ∧ target.Hostable

/-- The map from ids finds the group at the position of its id. -/
theorem TablesOk.groupById_eq
    {limits : DecodeLimits}
    {header : GlobalHeader}
    {tables : Tables}
    (ok : TablesOk limits header tables)
    {groupId : UInt64}
    {group : GroupTableRecord}
    (found : tables.groups[groupId.toNat]? = some group)
    (sameId : group.group.groupId = groupId) :
    groupById tables.groups groupId = some group := by
  have isSome : (groupById tables.groups groupId).isSome := by
    rw [groupById, List.find?_isSome]
    exact ⟨group, List.mem_reverse.mpr (List.mem_of_getElem? found),
      by simpa using sameId⟩
  obtain ⟨other, search⟩ := Option.isSome_iff_exists.mp isSome
  have otherId : other.group.groupId = groupId := by
    simpa using List.find?_some search
  obtain ⟨position, bound, isOther⟩ := List.getElem_of_mem
    (List.mem_reverse.mp (List.mem_of_find?_eq_some search))
  have atPosition : tables.groups[position]? = some other := by
    rw [List.getElem?_eq_getElem bound, isOther]
  have positionOf := (ok.groups position other atPosition).groupId
  rw [otherId] at positionOf
  rw [positionOf, atPosition] at found
  rw [search, found]

theorem verified_of_verifyOpenFile
    {backends : Backends}
    {file : List UInt8}
    {limits : DecodeLimits}
    {parsed : ParsedArchive}
    (verified : verifyOpenFile backends file limits = .ok parsed) :
    Verified backends file limits parsed := by
  obtain ⟨read, header, tables, _, ok, groupsVerified, rfl, sameEntries,
    sameGroups, sameRestores⟩ := tables_of_verified verified
  have entryOk {entry : EntryRecord} (member : entry ∈ tables.entries) :=
    ok.entries _ entry (ok.getElem?_entryId member)
  refine ⟨?_, ?_, ?_, ?_⟩
  all_goals
    intro entry member
    replace member : entry ∈ tables.entries := by
      rw [← sameEntries]
      exact member
  · exact (entryOk member).path.hostable
  · intro groupId isFile
    have verifiedRoot : ∀ record ∈ read.withRoot.groups,
        GroupVerified backends file limits read.withRoot record :=
      groupsVerified
    obtain ⟨group, restore, decoded, bytes, fileRead⟩ :=
      fileRead_of_tablesOk ok verifiedRoot sameEntries sameGroups
        sameRestores (sameEntries ▸ member) isFile
    refine ⟨group, restore, decoded, ?_, ?_⟩
    · have found := fileRead.groupFound
      change read.groups[groupId.toNat]? = some group at found
      rw [sameGroups] at found
      have byId := ok.groupById_eq found fileRead.sameGroup
      rwa [← sameGroups] at byId
    · have same := fileRead.fileBytes_eq
      subst same
      exact fileRead
  · intro targetEntryId isHardlink
    obtain ⟨target, groupId, _, found, isFile, _⟩ :=
      ok.hardlinkTarget (ok.getElem?_entryId member) isHardlink
    rw [← sameEntries] at found
    exact ⟨target, List.mem_of_getElem? found,
      by simp [EntryRecord.isOf, isFile, archiveEntryKind], found⟩
  · intro target targetIsDir isLink
    have kind := (entryOk member).kind
    unfold KindOk at kind
    rwa [isLink] at kind

section Run

variable
  {backends : Backends}
  {file : List UInt8}
  {limits : DecodeLimits}
  {parsed : ParsedArchive}
  {start : Disk}
  {staging : Location}

/-- Creating one entry in creation order. -/
theorem unpackEntry_step
    (verified : Verified backends file limits parsed)
    (stagingNoNul : NoNul staging)
    {done rest : List EntryRecord}
    {entry : EntryRecord}
    (split : creationOrder parsed.entries = done ++ entry :: rest)
    (linksBefore : LinksBefore done entry) :
    StateAction.Triple
      (Staged (fileBytes backends file limits parsed) parsed.entries start
        staging done)
      (unpackEntry backends file limits parsed staging entry)
      (fun _ => Staged (fileBytes backends file limits parsed) parsed.entries
        start staging (done ++ [entry]))
      (StepFailed start staging done entry) := by
  have member : entry ∈ parsed.entries := by
    rw [← mem_creationOrder, split]
    simp
  have hostable := verified.hostable entry member
  unfold unpackEntry
  cases kind : entry.kind with
  | directory =>
      exact unpackDirectory_step stagingNoNul hostable linksBefore kind
  | file groupId =>
      obtain ⟨group, restore, decoded, groupFound, fileRead⟩ :=
        verified.files entry member groupId kind
      exact unpackFile_step stagingNoNul hostable linksBefore groupFound
        fileRead
  | hardlink targetEntryId =>
      obtain ⟨target, targetMember, isFile, found⟩ :=
        verified.hardlinks entry member targetEntryId kind
      have isHardlink : entry.isOf .hardlink := by
        simp [EntryRecord.isOf, kind, archiveEntryKind]
      exact unpackHardlink_step stagingNoNul hostable linksBefore kind found
        (verified.hostable target targetMember) isFile
        (file_before_hardlink split targetMember isFile isHardlink)
  | symlink target targetIsDir =>
      obtain ⟨within, targetHostable⟩ :=
        verified.links entry member target targetIsDir kind
      exact unpackSymlink_step stagingNoNul hostable linksBefore kind within
        targetHostable

/-- Creating all entries: the tree of all of them, or a failure because they
cannot all be restored. -/
theorem populate_run
    (verified : Verified backends file limits parsed)
    (flat : LinksFlat parsed.entries)
    (stagingNoNul : NoNul staging) :
    StateAction.Triple
      (Staged (fileBytes backends file limits parsed) parsed.entries start
        staging [])
      (populate backends file limits parsed staging)
      (fun _ => Staged (fileBytes backends file limits parsed) parsed.entries
        start staging (creationOrder parsed.entries))
      (fun _ disk => SameOutside staging start disk ∧
        ¬Restorable parsed.entries) := by
  rw [populate_eq]
  refine StateAction.Triple.forEach (Staged (fileBytes backends file limits parsed)
    parsed.entries start staging) ?_
  intro done entry rest split
  refine (unpackEntry_step verified stagingNoNul split
    (flat.linksBefore split)).consequence (fun _ => id) (fun _ _ => id) ?_
  rintro failure disk ⟨outside, notRestorable⟩
  refine ⟨outside, fun restorable => notRestorable ?_⟩
  rw [← Restorable.perm (creationOrder_perm parsed.entries), split] at restorable
  have whole : done ++ entry :: rest = done ++ [entry] ++ rest := by simp
  rw [whole] at restorable
  exact restorable.of_append

end Run

end Pithos
