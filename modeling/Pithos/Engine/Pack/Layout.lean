import Pithos.Engine.Pack.Readback
import Pithos.Engine.Read
import Pithos.Format.RoundTrip

/-!
# Files laid out in groups

Whatever the profile, a packer ends with files in groups: each group holds the
bytes of its files one after the other, as they are or encoded by a codec.  The
group table, the restore map and the payload follow from that.  An archive with
these tables is verified exactly when the sizes stay within the limits.
-/

namespace Pithos

open Fallible
open Machine
open Layout

/-! ## Groups -/

/-- A file in a group: its entry and its bytes. -/
structure Member where
  entryId : UInt64
  bytes : List UInt8

/-- A group with its files, the codec it is encoded with, and what it takes in
the payload. -/
structure LaidGroup where
  members : List Member
  codec : Option CodecId
  payload : List UInt8

/-- The chain of a codec in the registry. -/
def CodecId.chainId (codecId : CodecId) : UInt32 :=
  codecId.toU16.toUInt32 + 1

namespace LaidGroup

/-- The bytes of the files, one after the other. -/
def contents (group : LaidGroup) : List UInt8 :=
  group.members.flatMap Member.bytes

/-- The record of the group with a number. -/
def record (digests : Digests) (groupId : Nat) (group : LaidGroup) :
    GroupRecord where
  version := 1
  flags := 0
  groupId := UInt64.ofNat groupId
  codecChainId := (group.codec.map CodecId.chainId).getD 0
  chunkCount := UInt32.ofNat group.members.length
  uncompressedLen := UInt64.ofNat group.contents.length
  compressedLen := UInt64.ofNat group.payload.length
  descriptorLen := 0
  payloadCrc32c := digests.crc32c group.payload

/-- The payload holds the contents: as they are, of one file, or so that the
codec decodes them. -/
def Encoded (codecs : Codecs) (group : LaidGroup) : Prop :=
  match group.codec with
  | none => group.payload = group.contents ∧ group.members.length = 1
  | some codecId =>
      codecs.decode codecId group.payload
        (UInt64.ofNat group.contents.length) = .ok group.contents

/-- The lengths fit in the fields of the record. -/
structure Representable (group : LaidGroup) : Prop where
  nonempty : group.members ≠ []
  members : group.members.length < 2 ^ 32
  contents : group.contents.length < 2 ^ 64

end LaidGroup

/-- Where the files of a group stand in it. -/
def restoreRecords (groupId : Nat) :
    Nat → List Member → List RestoreMapRecord
  | _, [] => []
  | offset, member :: members =>
      { entryId := member.entryId
        originalOffset := 0
        length := UInt64.ofNat member.bytes.length
        groupId := UInt64.ofNat groupId
        groupOffset := UInt64.ofNat offset } ::
        restoreRecords groupId (offset + member.bytes.length) members

/-- The restore records of groups that are numbered from a number on. -/
def laidRestoreMap : Nat → List LaidGroup → List RestoreMapRecord
  | _, [] => []
  | groupId, group :: groups =>
      restoreRecords groupId 0 group.members ++
        laidRestoreMap (groupId + 1) groups

/-- The records of groups that stand one after the other in the file. -/
def laidGroupTable (digests : Digests) :
    Nat → Nat → List LaidGroup → List GroupTableRecord
  | _, _, [] => []
  | groupId, offset, group :: groups =>
      ⟨group.record digests groupId, UInt64.ofNat offset⟩ ::
        laidGroupTable digests (groupId + 1) (offset + group.payload.length)
          groups

/-- What an entry says about a file: its id, size, hash and group. -/
abbrev FileRow := UInt64 × UInt64 × Digest × UInt64

/-- The file row of a file entry. -/
def EntryRecord.fileRow? (entry : EntryRecord) : Option FileRow :=
  entry.kind.groupId?.map fun groupId =>
    (entry.entryId, entry.size, entry.blake3, groupId)

/-- What the group with a number says about one of its files. -/
def Member.row (digests : Digests) (groupId : Nat) (member : Member) :
    FileRow :=
  (member.entryId, UInt64.ofNat member.bytes.length,
    digests.blake3 member.bytes, UInt64.ofNat groupId)

/-- What groups that are numbered from a number on say about their files. -/
def laidRows (digests : Digests) : Nat → List LaidGroup → List FileRow
  | _, [] => []
  | groupId, group :: groups =>
      group.members.map (Member.row digests groupId) ++
        laidRows digests (groupId + 1) groups

/-! ## Restore records -/

section Restores

variable
  {groupId offset : Nat}
  {members : List Member}

@[simp] theorem length_restoreRecords :
    (restoreRecords groupId offset members).length = members.length := by
  induction members generalizing offset with
  | nil => rfl
  | cons member members inductionHypothesis =>
      rw [restoreRecords, List.length_cons, inductionHypothesis,
        List.length_cons]

theorem groupId_of_mem_restoreRecords
    {restore : RestoreMapRecord}
    (isRecord : restore ∈ restoreRecords groupId offset members) :
    restore.groupId = UInt64.ofNat groupId := by
  induction members generalizing offset with
  | nil => cases isRecord
  | cons member members inductionHypothesis =>
      rcases List.mem_cons.mp isRecord with rfl | later
      · rfl
      · exact inductionHypothesis later

/-- The restore records of a group tile it. -/
theorem tiles_restoreRecords
    (fits : offset + (members.flatMap Member.bytes).length < 2 ^ 64) :
    Tiles offset ((restoreRecords groupId offset members).map
        RestoreMapRecord.segment)
      (offset + (members.flatMap Member.bytes).length) := by
  induction members generalizing offset with
  | nil => simp [restoreRecords]
  | cons member members inductionHypothesis =>
      rw [List.flatMap_cons, List.length_append] at fits ⊢
      have rest := @inductionHypothesis (offset + member.bytes.length)
        (by omega)
      have start := @toNat_ofNat_of_lt offset (by omega)
      have length := @toNat_ofNat_of_lt member.bytes.length (by omega)
      rw [Nat.add_assoc] at rest
      simp only [restoreRecords, List.map_cons, tiles_cons,
        RestoreMapRecord.segment, start, length, true_and]
      exact rest

/-- The restore record at a position is that of the file there. -/
theorem getElem?_restoreRecords (position : Nat) :
    (restoreRecords groupId offset members)[position]? =
      members[position]?.map fun member =>
        { entryId := member.entryId
          originalOffset := 0
          length := UInt64.ofNat member.bytes.length
          groupId := UInt64.ofNat groupId
          groupOffset := UInt64.ofNat (offset +
            ((members.take position).flatMap Member.bytes).length) } := by
  induction members generalizing offset position with
  | nil => rfl
  | cons member members inductionHypothesis =>
      cases position with
      | zero => simp [restoreRecords]
      | succ position =>
          rw [restoreRecords, List.getElem?_cons_succ, inductionHypothesis,
            List.getElem?_cons_succ, List.take_succ_cons, List.flatMap_cons,
            List.length_append, Nat.add_assoc offset]

/-- The restore record of a file finds its bytes in the group. -/
theorem restoredSlice_eq
    (fits : (members.flatMap Member.bytes).length < 2 ^ 64)
    {position : Nat}
    {member : Member}
    (isMember : members[position]? = some member)
    {restore : RestoreMapRecord}
    (isRecord : (restoreRecords groupId 0 members)[position]? =
      some restore) :
    restoredSlice (members.flatMap Member.bytes) restore 0 restore.length =
      .ok member.bytes := by
  rw [getElem?_restoreRecords, isMember, Option.map_some, Option.some.injEq,
    Nat.zero_add] at isRecord
  subst isRecord
  have whole : members.flatMap Member.bytes =
      (members.take position).flatMap Member.bytes ++ (member.bytes ++
        (members.drop (position + 1)).flatMap Member.bytes) := by
    obtain ⟨inside, rfl⟩ := List.getElem?_eq_some_iff.mp isMember
    rw [← List.flatMap_cons, ← List.flatMap_append,
      ← List.drop_eq_getElem_cons inside, List.take_append_drop]
  have lengths := congrArg List.length whole
  rw [List.length_append, List.length_append] at lengths
  have length := @toNat_ofNat_of_lt member.bytes.length (by omega)
  have offset := @toNat_ofNat_of_lt
    ((members.take position).flatMap Member.bytes).length (by omega)
  rw [restoredSlice_eq_ok, UInt64.toNat_zero, length, offset, Nat.zero_add,
    Nat.add_zero]
  refine ⟨Nat.le_refl _, by omega, by omega, ?_⟩
  rw [whole]
  exact (Bytes.slice_field _ _ _ rfl rfl).symm

end Restores

/-! ## Tables of the groups -/

section Tables

variable
  {digests : Digests}
  {groups : List LaidGroup}

@[simp] theorem length_laidGroupTable (groupId offset : Nat) :
    (laidGroupTable digests groupId offset groups).length = groups.length := by
  induction groups generalizing groupId offset with
  | nil => rfl
  | cons group groups inductionHypothesis =>
      rw [laidGroupTable, List.length_cons, inductionHypothesis,
        List.length_cons]

/-- The record at a position is that of the group there. -/
theorem getElem?_laidGroupTable (groupId offset position : Nat) :
    (laidGroupTable digests groupId offset groups)[position]? =
      groups[position]?.map fun group =>
        ⟨group.record digests (groupId + position), UInt64.ofNat (offset +
          ((groups.take position).flatMap LaidGroup.payload).length)⟩ := by
  induction groups generalizing groupId offset position with
  | nil => rfl
  | cons group groups inductionHypothesis =>
      cases position with
      | zero => simp [laidGroupTable]
      | succ position =>
          rw [laidGroupTable, List.getElem?_cons_succ, inductionHypothesis,
            List.getElem?_cons_succ, List.take_succ_cons, List.flatMap_cons,
            List.length_append, Nat.add_right_comm groupId,
            Nat.add_assoc offset]
          rfl

/-- The groups tile the payload. -/
theorem tiles_laidGroupTable
    {groupId offset : Nat}
    (fits : offset + (groups.flatMap LaidGroup.payload).length < 2 ^ 64) :
    Tiles offset ((laidGroupTable digests groupId offset groups).map
        GroupTableRecord.segment)
      (offset + (groups.flatMap LaidGroup.payload).length) := by
  induction groups generalizing groupId offset with
  | nil => simp [laidGroupTable]
  | cons group groups inductionHypothesis =>
      rw [List.flatMap_cons, List.length_append] at fits ⊢
      have rest := @inductionHypothesis (groupId + 1)
        (offset + group.payload.length) (by omega)
      have start := @toNat_ofNat_of_lt offset (by omega)
      have length := @toNat_ofNat_of_lt group.payload.length (by omega)
      rw [Nat.add_assoc] at rest
      simp only [laidGroupTable, List.map_cons, tiles_cons,
        GroupTableRecord.segment, LaidGroup.record, start, length, true_and]
      exact rest

/-- The restore records carry the numbers of their groups. -/
theorem groupId_of_mem_laidRestoreMap
    {groupId : Nat}
    {restore : RestoreMapRecord}
    (isRecord : restore ∈ laidRestoreMap groupId groups) :
    ∃ number, groupId ≤ number ∧ number < groupId + groups.length ∧
      restore.groupId = UInt64.ofNat number := by
  induction groups generalizing groupId with
  | nil => cases isRecord
  | cons group groups inductionHypothesis =>
      rw [List.length_cons]
      rcases List.mem_append.mp isRecord with here | later
      · exact ⟨groupId, by omega, by omega, groupId_of_mem_restoreRecords here⟩
      · obtain ⟨number, above, below, same⟩ := inductionHypothesis later
        exact ⟨number, by omega, by omega, same⟩

/-- The restore records with a group's number are those of the group. -/
theorem mappings_laidRestoreMap
    {groupId position : Nat}
    (few : groupId + groups.length ≤ 2 ^ 64)
    {group : LaidGroup}
    (isGroup : groups[position]? = some group) :
    mappings (laidRestoreMap groupId groups)
        (UInt64.ofNat (groupId + position)) =
      restoreRecords (groupId + position) 0 group.members := by
  induction groups generalizing groupId position with
  | nil => cases isGroup
  | cons first groups inductionHypothesis =>
      rw [List.length_cons] at few
      unfold mappings
      rw [laidRestoreMap, List.filter_append]
      cases position with
      | zero =>
          cases isGroup
          have others : (laidRestoreMap (groupId + 1) groups).filter
              (fun restore => restore.groupId = UInt64.ofNat groupId) = [] := by
            rw [List.filter_eq_nil_iff]
            intro restore isRecord same
            obtain ⟨number, above, below, isNumber⟩ :=
              groupId_of_mem_laidRestoreMap isRecord
            have equal := eq_of_ofNat_eq (by omega) (by omega)
              (isNumber.symm.trans (of_decide_eq_true same))
            omega
          rw [Nat.add_zero, others, List.append_nil, List.filter_eq_self]
          intro restore isRecord
          exact decide_eq_true (groupId_of_mem_restoreRecords isRecord)
      | succ position =>
          rw [List.getElem?_cons_succ] at isGroup
          have inside : position < groups.length :=
            (List.getElem?_eq_some_iff.mp isGroup).1
          have none : (restoreRecords groupId 0 first.members).filter
              (fun restore => restore.groupId =
                UInt64.ofNat (groupId + (position + 1))) = [] := by
            rw [List.filter_eq_nil_iff]
            intro restore isRecord same
            have equal := eq_of_ofNat_eq (by omega) (by omega)
              ((groupId_of_mem_restoreRecords isRecord).symm.trans
                (of_decide_eq_true same))
            omega
          have rest := @inductionHypothesis (groupId + 1) position (by omega)
            isGroup
          rw [none, List.nil_append, ← Nat.add_assoc,
            Nat.add_right_comm groupId]
          exact rest

/-! ## Groups added at the end -/

theorem laidGroupTable_append (groupId offset : Nat) (added : List LaidGroup) :
    laidGroupTable digests groupId offset (groups ++ added) =
      laidGroupTable digests groupId offset groups ++
        laidGroupTable digests (groupId + groups.length)
          (offset + (groups.flatMap LaidGroup.payload).length) added := by
  induction groups generalizing groupId offset with
  | nil => rfl
  | cons group groups inductionHypothesis =>
      rw [List.cons_append, laidGroupTable, inductionHypothesis, laidGroupTable,
        List.flatMap_cons, List.length_append, List.length_cons,
        List.cons_append, Nat.add_assoc offset, Nat.add_assoc groupId,
        Nat.add_comm 1]

theorem laidRestoreMap_append (groupId : Nat) (added : List LaidGroup) :
    laidRestoreMap groupId (groups ++ added) =
      laidRestoreMap groupId groups ++
        laidRestoreMap (groupId + groups.length) added := by
  induction groups generalizing groupId with
  | nil => rfl
  | cons group groups inductionHypothesis =>
      rw [List.cons_append, laidRestoreMap, inductionHypothesis, laidRestoreMap,
        List.length_cons, List.append_assoc, Nat.add_assoc groupId,
        Nat.add_comm 1]

theorem laidRows_append (groupId : Nat) (added : List LaidGroup) :
    laidRows digests groupId (groups ++ added) =
      laidRows digests groupId groups ++
        laidRows digests (groupId + groups.length) added := by
  induction groups generalizing groupId with
  | nil => rfl
  | cons group groups inductionHypothesis =>
      rw [List.cons_append, laidRows, inductionHypothesis, laidRows,
        List.length_cons, List.append_assoc, Nat.add_assoc groupId,
        Nat.add_comm 1]

/-! ## Rows of the files -/

theorem mem_laidRows
    {groupId : Nat}
    {row : FileRow} :
    row ∈ laidRows digests groupId groups ↔
      ∃ (position : Nat) (group : LaidGroup),
        groups[position]? = some group ∧
        ∃ member ∈ group.members,
          row = member.row digests (groupId + position) := by
  induction groups generalizing groupId with
  | nil => simp [laidRows]
  | cons first groups inductionHypothesis =>
      rw [laidRows, List.mem_append, inductionHypothesis, List.mem_map]
      constructor
      · rintro (⟨member, isMember, rfl⟩ |
          ⟨position, group, isGroup, member, isMember, rfl⟩)
        · exact ⟨0, first, rfl, member, isMember, rfl⟩
        · refine ⟨position + 1, group, isGroup, member, isMember, ?_⟩
          rw [Nat.add_right_comm, Nat.add_assoc]
      · rintro ⟨position, group, isGroup, member, isMember, rfl⟩
        cases position with
        | zero =>
            cases isGroup
            exact Or.inl ⟨member, isMember, rfl⟩
        | succ position =>
            refine Or.inr ⟨position, group, isGroup, member, isMember, ?_⟩
            rw [Nat.add_right_comm, Nat.add_assoc]

/-- The restore map lists the files in the order of the rows. -/
theorem laidRestoreMap_rows (groupId : Nat) :
    (laidRestoreMap groupId groups).map (fun restore =>
        (restore.entryId, restore.length, restore.groupId)) =
      (laidRows digests groupId groups).map fun row =>
        (row.1, row.2.1, row.2.2.2) := by
  have records (groupId offset : Nat) (members : List Member) :
      (restoreRecords groupId offset members).map (fun restore =>
          (restore.entryId, restore.length, restore.groupId)) =
        (members.map (Member.row digests groupId)).map fun row =>
          (row.1, row.2.1, row.2.2.2) := by
    induction members generalizing offset with
    | nil => rfl
    | cons member members inductionHypothesis =>
        rw [restoreRecords, List.map_cons, inductionHypothesis]
        rfl
  induction groups generalizing groupId with
  | nil => rfl
  | cons group groups inductionHypothesis =>
      rw [laidRestoreMap, laidRows, List.map_append, List.map_append,
        inductionHypothesis, records]

theorem originalOffset_of_mem_laidRestoreMap
    {groupId : Nat}
    {restore : RestoreMapRecord}
    (isRecord : restore ∈ laidRestoreMap groupId groups) :
    restore.originalOffset = 0 := by
  have records {groupId offset : Nat} {members : List Member}
      (isRecord : restore ∈ restoreRecords groupId offset members) :
      restore.originalOffset = 0 := by
    induction members generalizing offset with
    | nil => cases isRecord
    | cons member members inductionHypothesis =>
        rcases List.mem_cons.mp isRecord with rfl | later
        · rfl
        · exact inductionHypothesis later
  induction groups generalizing groupId with
  | nil => cases isRecord
  | cons group groups inductionHypothesis =>
      rcases List.mem_append.mp isRecord with here | later
      · exact records here
      · exact inductionHypothesis later

end Tables

/-! ## Archives laid out -/

/-- Entries in order, apart from the groups of the files. -/
structure EntriesLaid (limits : DecodeLimits) (entries : List EntryRecord) :
    Prop where
  ids : ∀ (position : Nat) (entry : EntryRecord),
    entries[position]? = some entry → entry.entryId.toNat = position
  paths : ∀ entry ∈ entries, PathOk limits entry.path
  sortKeys : (entries.map fun entry => entry.path.sortKey).Nodup
  others : ∀ entry ∈ entries, entry.isFile = false → KindOk entries [] entry

/-- The registry knows the codecs of the groups. -/
def RegistryFor (registry : Option CodecRegistry) (groups : List LaidGroup) :
    Prop :=
  match registry with
  | none => ∀ group ∈ groups, group.codec = none
  | some registry => ∀ group ∈ groups, ∃ codecId record,
      group.codec = some codecId ∧
      registry.chain codecId.chainId = some record ∧
      record.codecId = codecId.toU16 ∧ record.level = codecId.defaultLevel

/-- An archive whose tables are those of its groups. -/
structure LaidOut
    (backends : Backends)
    (limits : DecodeLimits)
    (parts : ArchiveParts)
    (groups : List LaidGroup)
    (registry : Option CodecRegistry) : Prop where
  entries : EntriesLaid limits parts.entries
  rows : parts.entries.filterMap EntryRecord.fileRow? =
    laidRows backends.digests 0 groups
  representable : ∀ group ∈ groups, group.Representable
  encoded : ∀ group ∈ groups, group.Encoded backends.codecs
  groupTable : parts.groups =
    laidGroupTable backends.digests 0 parts.payloadStart groups
  restoreMap : parts.restoreMap = laidRestoreMap 0 groups
  payload : parts.payloadBytes = groups.flatMap LaidGroup.payload
  registryRead : parts.readRegistry = .ok registry
  registryFor : RegistryFor registry groups

/-- The sizes of a group stay within the limits. -/
structure LaidGroup.WithinLimits (limits : DecodeLimits) (group : LaidGroup) :
    Prop where
  output : group.contents.length ≤ limits.maxGroupOutput.toNat
  allowance : limits.maxGroupOutput.toNat + 1024 * 1024 < 2 ^ 64
  compressed : group.payload.length ≤
    limits.maxGroupOutput.toNat + 1024 * 1024
  expansion : group.payload = [] ∨ group.contents.length ≤
    group.payload.length * limits.maxExpansionRatio.toNat
  memory : ∀ codecId ∈ group.codec, group.contents.length +
    (codecId.scratchBytes codecId.defaultLevel).toNat < 2 ^ 64

/-- The sizes and counts of an archive stay within the limits. -/
structure ArchiveParts.WithinLimits
    (json : Json)
    (limits : DecodeLimits)
    (parts : ArchiveParts)
    (groups : List LaidGroup) : Prop where
  sections : parts.sectionCount ≤ limits.maxSections
  entryCount : parts.entries.length ≤ limits.maxEntries.toNat
  groupCount : groups.length ≤ limits.maxGroups.toNat
  chunkCount : (parts.entries.filter EntryRecord.isFile).length ≤
    limits.maxChunks.toNat
  sizeLimit : originalSize parts.entries ≤ limits.maxOriginalBytes.toNat
  sizeTotal : originalSize parts.entries = parts.originalTotalSize.toNat
  metadata : parts.directoryLength + (parts.metadata json).length ≤
    limits.maxMetadataBytes.toNat
  groups : ∀ group ∈ groups, group.WithinLimits limits

theorem EntriesLaid.length_le
    {limits : DecodeLimits}
    {entries : List EntryRecord}
    (laid : EntriesLaid limits entries) :
    entries.length ≤ 2 ^ 64 := by
  by_contra tooMany
  have inside : 2 ^ 64 < entries.length := by omega
  have last := laid.ids (2 ^ 64) entries[2 ^ 64]
    (List.getElem?_eq_getElem inside)
  have bound := entries[2 ^ 64].entryId.toNat_lt
  omega

/-- The entry with an id stands at that position. -/
theorem EntriesLaid.getElem?_entryId
    {limits : DecodeLimits}
    {entries : List EntryRecord}
    (laid : EntriesLaid limits entries)
    {entry : EntryRecord}
    (member : entry ∈ entries) :
    entries[entry.entryId.toNat]? = some entry := by
  obtain ⟨position, atPosition⟩ := List.mem_iff_getElem?.mp member
  rw [laid.ids position entry atPosition, atPosition]

theorem EntriesLaid.entryIds_nodup
    {limits : DecodeLimits}
    {entries : List EntryRecord}
    (laid : EntriesLaid limits entries) :
    (entries.map EntryRecord.entryId).Nodup := by
  rw [nodup_map_iff_split]
  intro before entry after split member
  obtain ⟨earlier, inBefore, same⟩ := List.mem_map.mp member
  obtain ⟨position, bound, rfl⟩ := List.getElem_of_mem inBefore
  have entryId := laid.ids before.length entry (by simp [split])
  have earlierId := laid.ids position before[position]
    (by simp [split, List.getElem?_append_left bound])
  rw [same] at earlierId
  omega

theorem fileRow?_eq_some
    {entry : EntryRecord}
    {row : FileRow} :
    entry.fileRow? = some row ↔
      entry.kind = .file row.2.2.2 ∧ row.1 = entry.entryId ∧
        row.2.1 = entry.size ∧ row.2.2.1 = entry.blake3 := by
  obtain ⟨entryId, size, hash, groupId⟩ := row
  unfold EntryRecord.fileRow?
  cases kind : entry.kind <;>
    simp only [EntryKind.groupId?, Option.map_some, Option.map_none,
      Option.some.injEq, Prod.mk.injEq, reduceCtorEq, false_and,
      EntryKind.file.injEq]
  constructor
  · rintro ⟨rfl, rfl, rfl, rfl⟩
    exact ⟨rfl, rfl, rfl, rfl⟩
  · rintro ⟨rfl, rfl, rfl, rfl⟩
    exact ⟨rfl, rfl, rfl, rfl⟩

theorem fileRow?_eq_none
    {entry : EntryRecord} :
    entry.fileRow? = none ↔ entry.isFile = false := by
  unfold EntryRecord.fileRow? EntryRecord.isFile
  cases entry.kind.groupId? <;> simp

theorem length_fileRows (entries : List EntryRecord) :
    (entries.filterMap EntryRecord.fileRow?).length =
      (entries.filter EntryRecord.isFile).length := by
  induction entries with
  | nil => rfl
  | cons entry entries inductionHypothesis =>
      rw [List.filterMap_cons, List.filter_cons]
      unfold EntryRecord.fileRow? EntryRecord.isFile at *
      cases entry.kind.groupId? <;> simp [inductionHypothesis]

/-- A restore record is found by its id when no other has it. -/
theorem restoreForEntry_of_mem
    {restoreMap : List RestoreMapRecord}
    (distinct : (restoreMap.map RestoreMapRecord.entryId).Nodup)
    {restore : RestoreMapRecord}
    (member : restore ∈ restoreMap) :
    restoreForEntry restoreMap restore.entryId = .ok restore := by
  have present : (restoreMap.find? fun candidate =>
      candidate.entryId = restore.entryId).isSome := by
    rw [List.find?_isSome]
    exact ⟨restore, member, by simp⟩
  obtain ⟨found, search⟩ := Option.isSome_iff_exists.mp present
  have same : found.entryId = restore.entryId := by
    simpa using List.find?_some search
  rw [restoreForEntry, search, okOr_some, List.inj_on_of_nodup_map distinct
    (List.mem_of_find?_eq_some search) member same]

section Laid

variable
  {backends : Backends}
  {limits : DecodeLimits}
  {parts : ArchiveParts}
  {groups : List LaidGroup}
  {registry : Option CodecRegistry}

namespace LaidOut

/-- A file entry is one of the files of its group. -/
theorem exists_member
    (laid : LaidOut backends limits parts groups registry)
    {entry : EntryRecord}
    (isEntry : entry ∈ parts.entries)
    {groupId : UInt64}
    (isFile : entry.kind = .file groupId) :
    ∃ (position : Nat) (group : LaidGroup) (member : Member),
      groups[position]? = some group ∧ member ∈ group.members ∧
      entry.entryId = member.entryId ∧
      entry.size = UInt64.ofNat member.bytes.length ∧
      entry.blake3 = backends.digests.blake3 member.bytes ∧
      groupId = UInt64.ofNat position := by
  have row : (entry.entryId, entry.size, entry.blake3, groupId) ∈
      laidRows backends.digests 0 groups := by
    rw [← laid.rows, List.mem_filterMap]
    exact ⟨entry, isEntry, fileRow?_eq_some.mpr ⟨isFile, rfl, rfl, rfl⟩⟩
  obtain ⟨position, group, isGroup, member, isMember, same⟩ :=
    mem_laidRows.mp row
  rw [Nat.zero_add] at same
  simp only [Member.row, Prod.mk.injEq] at same
  obtain ⟨sameId, size, hash, number⟩ := same
  exact ⟨position, group, member, isGroup, isMember, sameId, size, hash,
    number⟩

/-- A file of a group has an entry. -/
theorem exists_entry
    (laid : LaidOut backends limits parts groups registry)
    {position : Nat}
    {group : LaidGroup}
    (isGroup : groups[position]? = some group)
    {member : Member}
    (isMember : member ∈ group.members) :
    ∃ entry ∈ parts.entries, entry.kind = .file (UInt64.ofNat position) ∧
      entry.entryId = member.entryId ∧
      entry.size = UInt64.ofNat member.bytes.length ∧
      entry.blake3 = backends.digests.blake3 member.bytes := by
  have row : member.row backends.digests position ∈
      laidRows backends.digests 0 groups :=
    mem_laidRows.mpr ⟨position, group, isGroup, member, isMember, by
      rw [Nat.zero_add]⟩
  rw [← laid.rows, List.mem_filterMap] at row
  obtain ⟨entry, isEntry, isRow⟩ := row
  obtain ⟨isFile, sameId, size, hash⟩ := fileRow?_eq_some.mp isRow
  exact ⟨entry, isEntry, isFile, sameId.symm, size.symm, hash.symm⟩

/-- There are not more groups than files. -/
theorem length_groups_le
    (laid : LaidOut backends limits parts groups registry) :
    groups.length ≤ parts.entries.length := by
  have rows (groupId : Nat) {groups : List LaidGroup}
      (nonempty : ∀ group ∈ groups, group.members ≠ []) :
      groups.length ≤ (laidRows backends.digests groupId groups).length := by
    induction groups generalizing groupId with
    | nil => exact Nat.zero_le _
    | cons group groups inductionHypothesis =>
        have some := List.length_pos_iff.mpr
          (nonempty group List.mem_cons_self)
        have rest := inductionHypothesis (groupId + 1)
          fun other member => nonempty other (List.mem_cons_of_mem _ member)
        rw [laidRows, List.length_append, List.length_map, List.length_cons]
        omega
  have all := rows 0 fun group member => (laid.representable group member).nonempty
  rw [← laid.rows, length_fileRows] at all
  exact all.trans (List.length_filter_le _ _)

theorem length_groups_le_word
    (laid : LaidOut backends limits parts groups registry) :
    0 + groups.length ≤ 2 ^ 64 := by
  have few := laid.length_groups_le
  have bound := laid.entries.length_le
  omega

theorem length_restoreMap
    (laid : LaidOut backends limits parts groups registry) :
    parts.restoreMap.length =
      (parts.entries.filter EntryRecord.isFile).length := by
  have rows := congrArg List.length
    (@laidRestoreMap_rows backends.digests groups 0)
  rw [List.length_map, List.length_map, ← laid.rows, length_fileRows,
    ← laid.restoreMap] at rows
  exact rows

/-- The record of the group at a position. -/
theorem getElem?_groups
    (laid : LaidOut backends limits parts groups registry)
    (position : Nat) :
    parts.groups[position]? = groups[position]?.map fun group =>
      ⟨group.record backends.digests position, UInt64.ofNat
        (parts.payloadStart +
          ((groups.take position).flatMap LaidGroup.payload).length)⟩ := by
  rw [laid.groupTable, getElem?_laidGroupTable, Nat.zero_add]

/-- The demands on the entries hold. -/
theorem entryOk
    (laid : LaidOut backends limits parts groups registry)
    {position : Nat}
    {entry : EntryRecord}
    (atPosition : parts.entries[position]? = some entry) :
    EntryOk limits (parts.tables backends.digests registry) position entry where
  entryId := laid.entries.ids position entry atPosition
  path := laid.entries.paths entry (List.mem_of_getElem? atPosition)
  kind := by
    have isEntry := List.mem_of_getElem? atPosition
    unfold KindOk
    cases isFile : entry.isFile with
    | false =>
        have other := laid.entries.others entry isEntry isFile
        unfold KindOk at other
        cases kind : entry.kind with
        | file groupId => simp [EntryRecord.isFile, kind, EntryKind.groupId?]
            at isFile
        | directory | hardlink targetEntryId | symlink target targetIsDir =>
            rw [kind] at other
            exact other
    | true =>
        obtain ⟨groupId, isGroupId⟩ := Option.isSome_iff_exists.mp isFile
        have kind := EntryKind.eq_file_of_groupId? isGroupId
        obtain ⟨index, group, member, isGroup, _, _, _, _, rfl⟩ :=
          laid.exists_member isEntry kind
        have inside := (List.getElem?_eq_some_iff.mp isGroup).1
        have few := laid.length_groups_le_word
        have found := laid.getElem?_groups index
        rw [isGroup, Option.map_some] at found
        have number := @toNat_ofNat_of_lt index (by omega)
        rw [kind]
        exact ⟨_, (congrArg (fun place => parts.groups[place]?) number).trans
          found, rfl⟩
  index := by
    change (parts.entries.map EntryRecord.indexRow)[position]? = _
    rw [List.getElem?_map, atPosition]
    rfl
  integrity := by
    change (parts.entries.map EntryRecord.integrityRow)[position]? = _
    rw [List.getElem?_map, atPosition]
    rfl

/-- The restore map names the files in the order of their entries. -/
theorem restoreIds
    (laid : LaidOut backends limits parts groups registry) :
    parts.restoreMap.map RestoreMapRecord.entryId =
      (parts.entries.filter EntryRecord.isFile).map EntryRecord.entryId := by
  have rows := congrArg (List.map Prod.fst)
    (@laidRestoreMap_rows backends.digests groups 0)
  rw [List.map_map, List.map_map, ← laid.rows, ← laid.restoreMap] at rows
  refine Eq.trans rows ?_
  clear rows laid
  generalize parts.entries = entries
  induction entries with
  | nil => rfl
  | cons entry entries inductionHypothesis =>
      rw [List.filterMap_cons, List.filter_cons]
      unfold EntryRecord.fileRow? EntryRecord.isFile at *
      cases entry.kind.groupId? with
      | none => simpa using inductionHypothesis
      | some groupId => simpa using inductionHypothesis

theorem restoreOk
    (laid : LaidOut backends limits parts groups registry)
    {restore : RestoreMapRecord}
    (isRecord : restore ∈ parts.restoreMap) :
    RestoreOk parts.entries restore := by
  rw [laid.restoreMap] at isRecord
  have row : (restore.entryId, restore.length, restore.groupId) ∈
      (laidRows backends.digests 0 groups).map fun row =>
        (row.1, row.2.1, row.2.2.2) := by
    rw [← laidRestoreMap_rows]
    exact List.mem_map.mpr ⟨restore, isRecord, rfl⟩
  obtain ⟨⟨entryId, size, hash, groupId⟩, isRow, same⟩ := List.mem_map.mp row
  rw [← laid.rows, List.mem_filterMap] at isRow
  obtain ⟨entry, isEntry, isRow⟩ := isRow
  obtain ⟨isFile, sameId, sameSize, _⟩ := fileRow?_eq_some.mp isRow
  simp only [Prod.mk.injEq] at same sameId sameSize
  obtain ⟨rfl, rfl, rfl⟩ := same
  have found := laid.entries.getElem?_entryId isEntry
  rw [← sameId] at found
  refine ⟨entry, found, ?_, sameId,
    originalOffset_of_mem_laidRestoreMap isRecord, sameSize⟩
  rw [isFile]
  rfl

/-- The restore records of a group fill it. -/
theorem mappingsOk
    (laid : LaidOut backends limits parts groups registry)
    {position : Nat}
    {group : LaidGroup}
    (isGroup : groups[position]? = some group) :
    MappingsOk parts.restoreMap (group.record backends.digests position) := by
  have representable := laid.representable group
    (List.mem_of_getElem? isGroup)
  have filtered := @mappings_laidRestoreMap groups 0 position
    laid.length_groups_le_word group isGroup
  rw [Nat.zero_add, ← laid.restoreMap] at filtered
  have contents := @toNat_ofNat_of_lt group.contents.length
    representable.contents
  have count : (UInt32.ofNat group.members.length).toNat =
      group.members.length :=
    UInt32.toNat_ofNat_of_lt' representable.members
  have tiles := @tiles_restoreRecords position 0 group.members
    (by rw [Nat.zero_add]; exact representable.contents)
  refine ⟨?_, ?_, ?_⟩
  · rw [LaidGroup.record, filtered, length_restoreRecords, count]
  · rw [LaidGroup.record, filtered, ne_eq, ← List.length_eq_zero_iff,
      length_restoreRecords, List.length_eq_zero_iff]
    exact representable.nonempty
  · rw [LaidGroup.record, filtered, contents]
    rwa [Nat.zero_add] at tiles

/-- The codec of a group is in order exactly when there is memory for it. -/
theorem groupCodecOk_iff
    (laid : LaidOut backends limits parts groups registry)
    {group : LaidGroup}
    (isGroup : group ∈ groups)
    (number : Nat) :
    GroupCodecOk registry (group.record backends.digests number) ↔
      ∀ codecId ∈ group.codec, group.contents.length +
        (codecId.scratchBytes codecId.defaultLevel).toNat < 2 ^ 64 := by
  have representable := laid.representable group isGroup
  have contents := @toNat_ofNat_of_lt group.contents.length
    representable.contents
  have encoded := laid.encoded group isGroup
  have known := laid.registryFor
  unfold RegistryFor at known
  unfold GroupCodecOk LaidGroup.Encoded at *
  cases registry with
  | none =>
      have raw := known group isGroup
      rw [raw] at encoded ⊢
      obtain ⟨payload, single⟩ := encoded
      simp only [LaidGroup.record, raw, payload, single]
      simp
  | some registry =>
      obtain ⟨codecId, record, isCodec, isRecord, sameCodec, level⟩ :=
        known group isGroup
      have notRaw : codecId.chainId ≠ 0 := by
        cases codecId <;> decide
      have isKnown : CodecId.fromU16 record.codecId = some codecId := by
        rw [sameCodec, CodecId.fromU16_toU16]
      simp only [LaidGroup.record, isCodec, Option.map_some, Option.getD_some,
        isRecord, contents, Option.mem_some_iff, forall_eq', Option.some.injEq,
        notRaw, ne_eq, not_false_eq_true, true_and]
      constructor
      · rintro ⟨other, otherId, rfl, isOther, _, memory⟩
        obtain rfl := Option.some.inj (isKnown.symm.trans isOther)
        rwa [level] at memory
      · intro memory
        refine ⟨record, codecId, rfl, isKnown, ?_, ?_⟩
        · rw [level]
          exact codecId.levelSupported_defaultLevel
        · rwa [level]

/-- The sizes of a group are in order exactly when they stay within the
limits. -/
theorem groupOk_iff
    (laid : LaidOut backends limits parts groups registry)
    (fits : parts.payloadEnd < 2 ^ 64)
    {position : Nat}
    {group : LaidGroup}
    (isGroup : groups[position]? = some group)
    {record : GroupTableRecord}
    (isRecord : parts.groups[position]? = some record)
    {payloadEnd : UInt64}
    (isEnd : payloadEnd.toNat = parts.payloadEnd) :
    GroupOk limits (parts.tables backends.digests registry) payloadEnd position
        record ↔
      group.WithinLimits limits := by
  have member := List.mem_of_getElem? isGroup
  have representable := laid.representable group member
  have few := laid.length_groups_le_word
  have inside := (List.getElem?_eq_some_iff.mp isGroup).1
  have number := @toNat_ofNat_of_lt position (by omega)
  rw [laid.getElem?_groups, isGroup, Option.map_some, Option.some.injEq]
    at isRecord
  -- The payload splits before, in and after the group.
  obtain ⟨before, after, split, atPosition⟩ :
      ∃ before after, groups = before ++ group :: after ∧
        before.length = position := by
    obtain ⟨bound, rfl⟩ := List.getElem?_eq_some_iff.mp isGroup
    exact ⟨groups.take position, groups.drop (position + 1), by simp,
      by simp; omega⟩
  have whole := laid.payload
  rw [split, List.flatMap_append, List.flatMap_cons] at whole
  have lengths := congrArg List.length whole
  rw [List.length_append, List.length_append] at lengths
  have taken : groups.take position = before := by
    rw [split, ← atPosition, List.take_left]
  rw [taken] at isRecord
  subst isRecord
  unfold ArchiveParts.payloadEnd at fits isEnd
  have payload := @toNat_ofNat_of_lt group.payload.length (by omega)
  have contents := @toNat_ofNat_of_lt group.contents.length
    representable.contents
  have offset := @toNat_ofNat_of_lt (parts.payloadStart +
    (before.flatMap LaidGroup.payload).length) (by omega)
  have start := @toNat_ofNat_of_lt parts.payloadStart (by omega)
  have codec := laid.groupCodecOk_iff member position
  have empty : UInt64.ofNat group.payload.length = 0 ↔ group.payload = [] := by
    rw [← UInt64.toNat_inj, payload, UInt64.toNat_zero,
      List.length_eq_zero_iff]
  constructor
  · intro ok
    obtain ⟨output, allowance, compressed, expansion⟩ := ok.size
    simp only [LaidGroup.record, UInt64.le_iff_toNat_le, contents, payload,
      empty] at output compressed expansion
    exact ⟨output, allowance, compressed, expansion, codec.mp ok.codec⟩
  · intro within
    refine {
      groupId := number
      version := rfl
      flags := rfl
      descriptorLen := rfl
      size := ?_
      codec := codec.mpr within.memory
      afterStart := ?_
      beforeEnd := ?_
      mappings := laid.mappingsOk isGroup }
    · refine ⟨?_, within.allowance, ?_, ?_⟩
      all_goals
        simp only [LaidGroup.record, UInt64.le_iff_toNat_le, contents, payload,
          empty]
      · exact within.output
      · exact within.compressed
      · exact within.expansion
    · change UInt64.ofNat parts.payloadStart ≤ _
      rw [UInt64.le_iff_toNat_le, start, offset]
      omega
    · change (UInt64.ofNat _).toNat + (UInt64.ofNat _).toNat ≤ _
      rw [offset, payload, isEnd]
      omega

/-- The tables are in order exactly when the sizes stay within the limits. -/
theorem tablesOk_iff
    (laid : LaidOut backends limits parts groups registry)
    (fits : parts.payloadEnd < 2 ^ 64)
    (fewEntries : parts.entries.length < 2 ^ 64) :
    TablesOk limits (parts.header backends.digests backends.json)
        (parts.tables backends.digests registry) ↔
      originalSize parts.entries ≤ limits.maxOriginalBytes.toNat ∧
        originalSize parts.entries = parts.originalTotalSize.toNat ∧
        ∀ group ∈ groups, group.WithinLimits limits := by
  have fewGroups := laid.length_groups_le
  have restoreCount := laid.length_restoreMap
  have fewFiles := List.length_filter_le EntryRecord.isFile parts.entries
  have groupCount := congrArg List.length laid.groupTable
  rw [length_laidGroupTable] at groupCount
  have start := @toNat_ofNat_of_lt parts.payloadStart (by
    unfold ArchiveParts.payloadEnd at fits
    omega)
  have length := @toNat_ofNat_of_lt parts.payloadBytes.length (by
    unfold ArchiveParts.payloadEnd at fits
    omega)
  have payloadEnd : (UInt64.ofNat parts.payloadStart +
      UInt64.ofNat parts.payloadBytes.length).toNat = parts.payloadEnd := by
    rw [UInt64.toNat_add, start, length]
    exact Nat.mod_eq_of_lt fits
  constructor
  · intro ok
    refine ⟨ok.sizeLimit, ok.sizeTotal, ?_⟩
    intro group member
    obtain ⟨position, isGroup⟩ := List.mem_iff_getElem?.mp member
    have isRecord := laid.getElem?_groups position
    rw [isGroup, Option.map_some] at isRecord
    exact (laid.groupOk_iff fits isGroup isRecord payloadEnd).mp
      (ok.groups position _ isRecord)
  · rintro ⟨sizeLimit, sizeTotal, groupsOk⟩
    refine {
      entryCount := (toNat_ofNat_of_lt fewEntries).symm
      groupCount := (@toNat_ofNat_of_lt parts.groups.length (by omega)).symm
      restoreCount :=
        (@toNat_ofNat_of_lt parts.restoreMap.length (by omega)).symm
      indexCount := List.length_map _
      integrityCount := List.length_map _
      entries := fun position entry => laid.entryOk
      sortKeys := laid.entries.sortKeys
      sizeLimit := sizeLimit
      sizeTotal := sizeTotal
      restores := fun restore => laid.restoreOk
      restoreIds := ?_
      restoreFiles := restoreCount
      payloadEnd := ?_
      groups := ?_
      groupTiles := ?_ }
    · change (parts.restoreMap.map RestoreMapRecord.entryId).Nodup
      rw [laid.restoreIds]
      exact laid.entries.entryIds_nodup.sublist
        (List.filter_sublist.map EntryRecord.entryId)
    · change (UInt64.ofNat _).toNat + (UInt64.ofNat _).toNat < _
      rw [start, length]
      exact fits
    · intro position record isRecord
      have isSome := isRecord
      change parts.groups[position]? = _ at isRecord
      rw [laid.getElem?_groups, Option.map_eq_some_iff] at isRecord
      obtain ⟨group, isGroup, _⟩ := isRecord
      exact (laid.groupOk_iff fits isGroup isSome payloadEnd).mpr
        (groupsOk group (List.mem_of_getElem? isGroup))
    · change Tiles (UInt64.ofNat _).toNat (parts.groups.map _)
        ((UInt64.ofNat _).toNat + (UInt64.ofNat _).toNat)
      rw [start, length, laid.groupTable, laid.payload]
      refine tiles_laidGroupTable ?_
      rw [← laid.payload]
      exact fits

/-- A group is decoded to its contents. -/
theorem decodeGroup_eq
    (laid : LaidOut backends limits parts groups registry)
    (fits : parts.payloadEnd < 2 ^ 64)
    (footerBytes : List UInt8)
    {position : Nat}
    {group : LaidGroup}
    (isGroup : groups[position]? = some group)
    (within : group.WithinLimits limits)
    {record : GroupTableRecord}
    (isRecord : parts.groups[position]? = some record) :
    decodeGroup backends
        (parts.body backends.digests backends.json ++ footerBytes) record
        registry limits = .ok group.contents := by
  have member := List.mem_of_getElem? isGroup
  have representable := laid.representable group member
  rw [laid.getElem?_groups, isGroup, Option.map_some, Option.some.injEq]
    at isRecord
  obtain ⟨before, after, split, taken⟩ :
      ∃ before after, groups = before ++ group :: after ∧
        groups.take position = before := by
    obtain ⟨bound, rfl⟩ := List.getElem?_eq_some_iff.mp isGroup
    exact ⟨groups.take position, groups.drop (position + 1), by simp, rfl⟩
  have whole := laid.payload
  rw [split, List.flatMap_append, List.flatMap_cons] at whole
  have lengths := congrArg List.length whole
  rw [List.length_append, List.length_append] at lengths
  rw [taken] at isRecord
  subst isRecord
  unfold ArchiveParts.payloadEnd at fits
  have payload := @toNat_ofNat_of_lt group.payload.length (by omega)
  have contents := @toNat_ofNat_of_lt group.contents.length
    representable.contents
  have offset := @toNat_ofNat_of_lt (parts.payloadStart +
    (before.flatMap LaidGroup.payload).length) (by omega)
  obtain ⟨maximum, isMaximum, maximumValue⟩ :=
    @checkedAdd_of_lt limits.maxGroupOutput (1024 * 1024) within.allowance
  have sliced : Bytes.slice
      (parts.body backends.digests backends.json ++ footerBytes)
      (parts.payloadStart + (before.flatMap LaidGroup.payload).length)
      group.payload.length = group.payload := by
    rw [slice_payload (by omega) (by unfold ArchiveParts.payloadEnd; omega),
      whole, Nat.add_sub_cancel_left]
    exact Bytes.slice_field _ _ _ rfl rfl
  have read : readExactVec
      (parts.body backends.digests backends.json ++ footerBytes)
      (UInt64.ofNat (parts.payloadStart +
        (before.flatMap LaidGroup.payload).length))
      (group.record backends.digests position).compressedLen maximum =
      .ok group.payload := by
    rw [LaidGroup.record, readExactVec_eq_ok, UInt64.le_iff_toNat_le, offset,
      payload, sliced, maximumValue]
    exact ⟨within.compressed, rfl, rfl⟩
  have codec : ∃ codecId,
      groupCodec ⟨group.record backends.digests position, UInt64.ofNat
        (parts.payloadStart + (before.flatMap LaidGroup.payload).length)⟩
        registry = .ok codecId ∧
      backends.codecs.decode codecId group.payload
        (group.record backends.digests position).uncompressedLen =
        .ok group.contents := by
    have encoded := laid.encoded group member
    have known := laid.registryFor
    unfold RegistryFor at known
    unfold LaidGroup.Encoded at encoded
    cases registry with
    | none =>
        have raw := known group member
        rw [raw] at encoded
        refine ⟨.store, ?_, ?_⟩
        · simp [groupCodec, LaidGroup.record, raw, ensure_of]
        · simp [Codecs.decode, LaidGroup.record, encoded.1, contents,
            ensure_of]
    | some registry =>
        obtain ⟨codecId, record, isCodec, isRecord, sameCodec, _⟩ :=
          known group member
        rw [isCodec] at encoded
        have notRaw : codecId.chainId ≠ 0 := by
          cases codecId <;> decide
        refine ⟨codecId, ?_, ?_⟩
        · simp [groupCodec, LaidGroup.record, isCodec, notRaw, isRecord,
            sameCodec]
        · exact encoded
  obtain ⟨codecId, isCodec, decoded⟩ := codec
  have checksum : backends.digests.crc32c group.payload =
      (group.record backends.digests position).payloadCrc32c := rfl
  simp only [decodeGroup, isMaximum, okOr_some, ok_bind, read, isCodec]
  rw [ensure_of checksum, ok_bind, decoded]

/-- Every group is verified once it is within the limits. -/
theorem groupVerified
    (laid : LaidOut backends limits parts groups registry)
    (fits : parts.payloadEnd < 2 ^ 64)
    (footerBytes : List UInt8)
    (within : ∀ group ∈ groups, group.WithinLimits limits)
    {record : GroupTableRecord}
    (isRecord : record ∈ parts.groups) :
    GroupVerified backends
      (parts.body backends.digests backends.json ++ footerBytes) limits
      (parts.parsed backends registry) record := by
  obtain ⟨position, atPosition⟩ := List.mem_iff_getElem?.mp isRecord
  have found := atPosition
  rw [laid.getElem?_groups, Option.map_eq_some_iff] at found
  obtain ⟨group, isGroup, rfl⟩ := found
  have member := List.mem_of_getElem? isGroup
  have representable := laid.representable group member
  refine ⟨group.contents, laid.decodeGroup_eq fits footerBytes isGroup
    (within group member) atPosition, ?_⟩
  intro restore isRestore
  have filtered := @mappings_laidRestoreMap groups 0 position
    laid.length_groups_le_word group isGroup
  rw [Nat.zero_add, ← laid.restoreMap] at filtered
  change restore ∈ mappings parts.restoreMap (UInt64.ofNat position)
    at isRestore
  rw [filtered] at isRestore
  obtain ⟨place, atPlace⟩ := List.mem_iff_getElem?.mp isRestore
  have isRecord := atPlace
  rw [getElem?_restoreRecords, Option.map_eq_some_iff] at isRecord
  obtain ⟨file, isFile, rfl⟩ := isRecord
  obtain ⟨entry, isEntry, _, entryId, _, hash⟩ :=
    laid.exists_entry isGroup (List.mem_of_getElem? isFile)
  have atEntry := laid.entries.getElem?_entryId isEntry
  rw [entryId] at atEntry
  exact ⟨entry, file.bytes, atEntry,
    restoredSlice_eq representable.contents isFile atPlace, hash.symm⟩

/-- The header declares counts and a size within the limits. -/
theorem headerOk_iff
    (laid : LaidOut backends limits parts groups registry)
    (fits : parts.footerOffset backends.json + footerLen < 2 ^ 64)
    (fewEntries : parts.entries.length < 2 ^ 64) :
    HeaderOk (parts.header backends.digests backends.json)
        (parts.footerOffset backends.json + footerLen) limits ↔
      parts.sectionCount ≤ limits.maxSections ∧
        parts.entries.length ≤ limits.maxEntries.toNat ∧
        groups.length ≤ limits.maxGroups.toNat ∧
        (parts.entries.filter EntryRecord.isFile).length ≤
          limits.maxChunks.toNat ∧
        parts.originalTotalSize ≤ limits.maxOriginalBytes := by
  have fewGroups := laid.length_groups_le
  have restoreCount := laid.length_restoreMap
  have fewFiles := List.length_filter_le EntryRecord.isFile parts.entries
  have groupCount := congrArg List.length laid.groupTable
  rw [length_laidGroupTable] at groupCount
  have entries := toNat_ofNat_of_lt fewEntries
  have groupsValue := @toNat_ofNat_of_lt parts.groups.length (by omega)
  have restores := @toNat_ofNat_of_lt parts.restoreMap.length (by omega)
  have footer := @toNat_ofNat_of_lt (parts.footerOffset backends.json)
    (by omega)
  constructor
  · intro ok
    have entryCount := ok.entryCount
    have groupLimit := ok.groupCount
    have chunkCount := ok.chunkCount
    simp only [ArchiveParts.header, UInt64.le_iff_toNat_le, entries,
      groupsValue, restores] at entryCount groupLimit chunkCount
    refine ⟨ok.sectionCount, entryCount, ?_, ?_, ok.originalSize⟩
    · rwa [← groupCount]
    · rwa [← restoreCount]
  · rintro ⟨sections, entryCount, groupLimit, chunkCount, size⟩
    refine {
      flags := rfl
      sectionKind := ?_
      sectionCount := sections
      entryCount := ?_
      groupCount := ?_
      chunkCount := ?_
      originalSize := size
      footerOffset := ?_ }
    · change parts.sectionCount = _ ∨ parts.sectionCount = _
      unfold ArchiveParts.sectionCount
      cases parts.registryBytes with
      | none => exact Or.inl rfl
      | some bytes => exact Or.inr rfl
    all_goals
      simp only [ArchiveParts.header, UInt64.le_iff_toNat_le, entries,
        groupsValue, restores, footer]
    · exact entryCount
    · omega
    · omega
    · unfold footerLen
      omega

/-- An archive that is laid out is verified exactly when its sizes stay within
the limits. -/
theorem verifyOpenFile_iff
    (laid : LaidOut backends limits parts groups registry)
    (digestsLawful : backends.digests.Lawful)
    (readsBack : parts.ReadsBack backends.json)
    (fits : parts.footerOffset backends.json + footerLen < 2 ^ 64)
    (fewEntries : parts.entries.length < 2 ^ 64)
    {verified : ParsedArchive} :
    verifyOpenFile backends (parts.assemble backends.digests backends.json)
        limits = .ok verified ↔
      parts.WithinLimits backends.json limits groups ∧
        verified = (parts.parsed backends registry).withRoot := by
  have payloadFits : parts.payloadEnd < 2 ^ 64 := by
    unfold ArchiveParts.footerOffset at fits
    omega
  have tables := laid.tablesOk_iff payloadFits fewEntries
  have header := laid.headerOk_iff fits fewEntries
  unfold ArchiveParts.assemble
  rw [verifyOpenFile_parts digestsLawful readsBack fits
    (Footer.length_encode _ _) (Footer.decode_encode _ _)]
  constructor
  · rintro ⟨other, acceptable, _, rfl⟩
    obtain rfl := Except.ok.inj
      (acceptable.registryRead.symm.trans laid.registryRead)
    obtain ⟨sizeLimit, sizeTotal, groupsOk⟩ := tables.mp acceptable.tables
    obtain ⟨sections, entryCount, groupCount, chunkCount, _⟩ :=
      header.mp acceptable.header
    exact ⟨⟨sections, entryCount, groupCount, chunkCount, sizeLimit, sizeTotal,
      acceptable.metadata, groupsOk⟩, rfl⟩
  · rintro ⟨within, rfl⟩
    have size : parts.originalTotalSize ≤ limits.maxOriginalBytes := by
      rw [UInt64.le_iff_toNat_le, ← within.sizeTotal]
      exact within.sizeLimit
    refine ⟨registry, {
      header := header.mpr ⟨within.sections, within.entryCount,
        within.groupCount, within.chunkCount, size⟩
      metadata := within.metadata
      registryRead := laid.registryRead
      tables := tables.mpr ⟨within.sizeLimit, within.sizeTotal,
        within.groups⟩ }, ?_, rfl⟩
    exact fun record => laid.groupVerified payloadFits _ within.groups

/-- A file of a group is read from the archive. -/
theorem fileRead
    (laid : LaidOut backends limits parts groups registry)
    (fits : parts.payloadEnd < 2 ^ 64)
    (footerBytes : List UInt8)
    (within : ∀ group ∈ groups, group.WithinLimits limits)
    {position : Nat}
    {group : LaidGroup}
    (isGroup : groups[position]? = some group)
    {member : Member}
    (isMember : member ∈ group.members) :
    ∃ entry ∈ parts.entries, entry.entryId = member.entryId ∧
      ∃ record restore, FileRead backends
        (parts.body backends.digests backends.json ++ footerBytes) limits
        (parts.parsed backends registry).withRoot entry
        (UInt64.ofNat position) record restore group.contents
        member.bytes := by
  have isGroupMember := List.mem_of_getElem? isGroup
  have representable := laid.representable group isGroupMember
  have few := laid.length_groups_le_word
  have inside := (List.getElem?_eq_some_iff.mp isGroup).1
  have number := @toNat_ofNat_of_lt position (by omega)
  obtain ⟨entry, isEntry, kind, entryId, size, hash⟩ :=
    laid.exists_entry isGroup isMember
  have found := laid.getElem?_groups position
  rw [isGroup, Option.map_some] at found
  have filtered := @mappings_laidRestoreMap groups 0 position few group isGroup
  rw [Nat.zero_add, ← laid.restoreMap] at filtered
  obtain ⟨place, atPlace⟩ := List.mem_iff_getElem?.mp isMember
  have sameIds : (parts.restoreMap.map RestoreMapRecord.entryId).Nodup := by
    rw [laid.restoreIds]
    exact laid.entries.entryIds_nodup.sublist
      (List.filter_sublist.map EntryRecord.entryId)
  obtain ⟨restore, isRecord, restoreId, length⟩ : ∃ restore,
      (restoreRecords position 0 group.members)[place]? = some restore ∧
      restore.entryId = entry.entryId ∧ restore.length = entry.size := by
    rw [getElem?_restoreRecords, atPlace]
    exact ⟨_, rfl, entryId.symm, size.symm⟩
  have inMap : restore ∈ parts.restoreMap := by
    have inGroup := List.mem_of_getElem? isRecord
    rw [← filtered, mappings, List.mem_filter] at inGroup
    exact inGroup.1
  have search := restoreForEntry_of_mem sameIds inMap
  rw [restoreId] at search
  exact ⟨entry, isEntry, entryId, _, restore, {
    isFile := kind
    groupFound := (congrArg (fun place => parts.groups[place]?) number).trans
      found
    sameGroup := rfl
    restoreFound := search
    sameLength := length
    decodes := laid.decodeGroup_eq fits footerBytes isGroup
      (within group isGroupMember) found
    sliced := restoredSlice_eq representable.contents atPlace isRecord
    hash := hash.symm }⟩

end LaidOut

end Laid

end Pithos
