import Pithos.Engine.Pack.Packing
import Pithos.Engine.Unpack.Contents

/-!
# From the inputs to the unpacked tree

An archive that the packer's own verification has accepted is unpacked to the tree
of the scanned items and nothing else.
-/

namespace Pithos

open Fallible
open Machine
open HostPath
open FileTree
open Disk

/-- The names of an item's host path. -/
abbrev PackItem.names (item : PackItem) : List Name :=
  item.entry.archivePath.names

/-- Two items are names of one file. -/
def PackItem.SameFile (first second : PackItem) : Prop :=
  first = second ∨
    first.entry.identity.isSome ∧ first.entry.identity = second.entry.identity

/-- The tree at a location is the tree of the items. -/
structure RestoredTree
    (digests : Digests)
    (items : List PackItem)
    (output : Location)
    (disk : Disk) : Prop where
  root : ∃ metadata, disk.look output = some (.directory metadata)
  onlyItems : ∀ relative label, relative ≠ [] →
    disk.look (output ++ relative) = some label →
    ∃ item ∈ items, item.names = relative
  directories : ∀ item ∈ items, item.entry.kind = .directory →
    ∃ metadata, disk.look (output ++ item.names) = some (.directory metadata)
  links : ∀ item ∈ items, ∀ target targetIsDir,
    item.entry.kind = .symlink target targetIsDir →
    disk.look (output ++ item.names) =
      some (.symlink newFile (joinPieces target.pieces))
  files : ∀ item ∈ items, item.entry.kind = .file →
    ∃ source ∈ items, source.entry.kind = .file ∧ source.SameFile item ∧
      ∃ inode bytes, disk.look (output ++ item.names) = some (.file inode) ∧
        disk.inodes[inode]? =
          some ⟨withMode source.entry.metadata.mode newFile, bytes⟩ ∧
        bytes.length = source.size.toNat ∧
        source.Hashed digests (digests.blake3 bytes)
  sharing : ∀ first ∈ items, ∀ second ∈ items, first.entry.kind = .file →
    second.entry.kind = .file →
    (disk.look (output ++ first.names) = disk.look (output ++ second.names) ↔
      first.SameFile second)

/-- The tree may be moved. -/
theorem RestoredTree.moved
    {digests : Digests}
    {items : List PackItem}
    {source output : Location}
    {before after : Disk}
    (restored : RestoredTree digests items source before)
    (inodes : after.inodes = before.inodes)
    (same : ∀ relative, after.look (output ++ relative) =
      before.look (source ++ relative)) :
    RestoredTree digests items output after where
  root := by
    have root := same []
    rw [List.append_nil, List.append_nil] at root
    rw [root]
    exact restored.root
  onlyItems := by
    intro relative label nonempty
    rw [same]
    exact restored.onlyItems relative label nonempty
  directories := by
    intro item member
    rw [same]
    exact restored.directories item member
  links := by
    intro item member target targetIsDir
    rw [same]
    exact restored.links item member target targetIsDir
  files := by
    intro item member
    rw [same, inodes]
    exact restored.files item member
  sharing := by
    intro first isFirst second isSecond
    rw [same, same]
    exact restored.sharing first isFirst second isSecond

/-! ## The file behind an item -/

section Recorded

variable
  {json : Json}
  {digests : Digests}
  {items : List PackItem}
  {entries : List EntryRecord}

/-- The item at a position is the first name of the file of another item. -/
structure FirstName
    (items : List PackItem)
    (position first : Nat)
    (item source : PackItem) : Prop where
  isItem : items[position]? = some item
  isSource : items[first]? = some source
  sourceKind : source.entry.kind = .file
  same : first = position ∨ item.entry.identity.isSome ∧
    source.entry.identity = item.entry.identity
  fresh : ∀ (earlier : Nat) (other : PackItem), earlier < first →
    items[earlier]? = some other → other.entry.kind = .file →
    source.entry.identity.isSome →
    other.entry.identity ≠ source.entry.identity

/-- Behind every file item stands the file entry of its first name. -/
theorem Recorded.exists_source
    (recorded : Recorded json digests items entries)
    {position : Nat}
    {item : PackItem}
    {entry : EntryRecord}
    (isItem : items[position]? = some item)
    (isEntry : entries[position]? = some entry)
    (few : entries.length < 2 ^ 64)
    (kind : item.entry.kind = .file) :
    ∃ first source target, FirstName items position first item source ∧
      entries[first]? = some target ∧ target.isFile = true ∧
      fileSourceEntry entry entries = .ok target := by
  have known := recorded.recorded position item entry isItem isEntry
  cases known with
  | directory other record | symlink target targetIsDir other record =>
      rw [other] at kind
      cases kind
  | hardlink first target _ earlier met isTarget targetIsFile record =>
      obtain ⟨source, isSource, sourceKind, same⟩ := met.isFile
      have inside := (List.getElem?_eq_some_iff.mp isTarget).1
      refine ⟨first, source, target, {
        isItem := isItem
        isSource := isSource
        sourceKind := sourceKind
        same := .inr ⟨met.known, same⟩
        fresh := fun before other isBefore isOther isFile _ => by
          rw [same]
          exact met.first before other isBefore isOther isFile },
        isTarget, targetIsFile, ?_⟩
      subst record
      change okOr entries[(UInt64.ofNat first).toNat]? _ = _
      rw [toNat_ofNat_of_lt (by omega), isTarget]
      rfl
  | file groupId hash _ fresh record =>
      subst record
      exact ⟨position, item, _, ⟨isItem, isItem, kind, .inl rfl, fresh⟩,
        isEntry, rfl, rfl⟩

theorem FirstName.sameFile
    {position first : Nat}
    {item source : PackItem}
    (of : FirstName items position first item source) :
    source.SameFile item := by
  rcases of.same with rfl | ⟨known, same⟩
  · exact .inl (Option.some.inj (of.isSource.symm.trans of.isItem))
  · exact .inr ⟨same ▸ known, same⟩

theorem FirstName.identity_eq
    {position first : Nat}
    {item source : PackItem}
    (of : FirstName items position first item source) :
    source.entry.identity = item.entry.identity := by
  rcases of.same with rfl | ⟨_, same⟩
  · rw [Option.some.inj (of.isSource.symm.trans of.isItem)]
  · exact same

/-- Files that the host tells apart have one first name each. -/
theorem FirstName.place_le
    {firstPosition secondPosition firstPlace secondPlace : Nat}
    {first second firstSource secondSource : PackItem}
    (ofFirst : FirstName items firstPosition firstPlace first firstSource)
    (ofSecond : FirstName items secondPosition secondPlace second secondSource)
    (known : second.entry.identity.isSome)
    (same : first.entry.identity = second.entry.identity) :
    secondPlace ≤ firstPlace := by
  by_contra before
  refine ofSecond.fresh firstPlace firstSource (by omega) ofFirst.isSource
    ofFirst.sourceKind ?_ ?_
  · rwa [ofSecond.identity_eq]
  · rw [ofFirst.identity_eq, ofSecond.identity_eq, same]

/-- Two items have the same first name when they are names of one file. -/
theorem FirstName.place_eq_iff
    {firstPosition secondPosition firstPlace secondPlace : Nat}
    {first second firstSource secondSource : PackItem}
    (ofFirst : FirstName items firstPosition firstPlace first firstSource)
    (ofSecond : FirstName items secondPosition secondPlace second secondSource)
    (distinct : items.Nodup) :
    firstPlace = secondPlace ↔ first.SameFile second := by
  constructor
  · rintro rfl
    have sameSource := Option.some.inj
      (ofFirst.isSource.symm.trans ofSecond.isSource)
    have same : first.entry.identity = second.entry.identity := by
      rw [← ofFirst.identity_eq, ← ofSecond.identity_eq, sameSource]
    rcases ofFirst.same with atFirst | ⟨known, _⟩
    · rcases ofSecond.same with atSecond | ⟨known, _⟩
      · refine .inl (Option.some.inj ?_)
        rw [← ofFirst.isItem, ← ofSecond.isItem, ← atFirst, ← atSecond]
      · exact .inr ⟨same ▸ known, same⟩
    · exact .inr ⟨known, same⟩
  · rintro (rfl | ⟨known, same⟩)
    · have inside := (List.getElem?_eq_some_iff.mp ofFirst.isItem).1
      have samePosition := (List.getElem?_inj inside distinct).mp
        (ofFirst.isItem.trans ofSecond.isItem.symm)
      cases known : first.entry.identity with
      | none =>
          have atFirst := ofFirst.same
          have atSecond := ofSecond.same
          simp only [known, Option.isSome_none, Bool.false_eq_true, false_and,
            or_false] at atFirst atSecond
          omega
      | some identity =>
          have isSome : first.entry.identity.isSome := by rw [known]; rfl
          exact Nat.le_antisymm (ofSecond.place_le ofFirst isSome rfl)
            (ofFirst.place_le ofSecond isSome rfl)
    · exact Nat.le_antisymm (ofSecond.place_le ofFirst known same.symm)
        (ofFirst.place_le ofSecond (same ▸ known) same)

/-- A file entry has the size of its item. -/
theorem RecordedKind.size_of_isFile
    {position : Nat}
    {item : PackItem}
    {entry : EntryRecord}
    (recorded : RecordedKind json digests items entries position item entry)
    (isFile : entry.isFile = true) :
    entry.size = item.size := by
  cases recorded with
  | file groupId hash kind fresh record =>
      subst record
      rfl
  | directory kind record | symlink target targetIsDir kind record
  | hardlink first target kind earlier met isTarget targetIsFile record =>
      subst record
      cases isFile

end Recorded

theorem isOf_file_of_isFile
    {entry : EntryRecord}
    (isFile : entry.isFile = true) :
    entry.isOf .file := by
  unfold EntryRecord.isFile EntryKind.groupId? at isFile
  unfold EntryRecord.isOf archiveEntryKind
  cases kind : entry.kind <;> simp_all

/-- A file or hardlink leads to the file of its source. -/
theorem Staged.look_source
    {contents : EntryRecord → List UInt8}
    {entries done : List EntryRecord}
    {start disk : Disk}
    {staging : Location}
    (staged : Staged contents entries start staging done disk)
    {entry source : EntryRecord}
    (member : entry ∈ done)
    (isSource : fileSourceEntry entry entries = .ok source) :
    disk.look (staging ++ entry.names) = disk.look (staging ++ source.names) := by
  unfold fileSourceEntry at isSource
  cases kind : entry.kind with
  | directory | symlink target targetIsDir =>
      rw [kind] at isSource
      cases isSource
  | file groupId =>
      rw [kind] at isSource
      rw [Except.ok.inj isSource]
  | hardlink targetEntryId =>
      rw [kind] at isSource
      exact staged.hardlinks entry member _ source kind (okOr_eq_ok.mp isSource)

/-! ## The round trip -/

section RoundTrip

variable
  {backends : Backends}
  {packLimits : PackLimits}
  {profile : CompressionProfile}
  {inputs : List ScanInput}
  {items : List PackItem}
  {parts : ArchiveParts}
  {groups : List LaidGroup}
  {registry : Option CodecRegistry}

/-- What a file entry of a verified archive is restored with. -/
theorem Built.fileBytes_hash
    (built : Built backends packLimits profile items parts groups registry)
    (scanned : Scanned (packLimits.decodeLimits profile) items)
    (verifiable : parts.Verifiable backends.json
      (packLimits.decodeLimits profile) items groups)
    {entry : EntryRecord}
    (isEntry : entry ∈ parts.entries)
    (isFile : entry.isFile = true) :
    ∃ bytes, fileBytes backends
        (parts.assemble backends.digests backends.json)
        (packLimits.decodeLimits profile)
        (parts.parsed backends registry).withRoot entry = bytes ∧
      bytes.length = entry.size.toNat ∧
      backends.digests.blake3 bytes = entry.blake3 := by
  have laid := built.laidOut scanned verifiable.links
  have within := (built.withinLimits_iff scanned).mpr ⟨verifiable.sizes,
    verifiable.groupCount, verifiable.metadata, verifiable.expansion⟩
  obtain ⟨groupId, kind⟩ : ∃ groupId, entry.kind = .file groupId := by
    unfold EntryRecord.isFile EntryKind.groupId? at isFile
    cases kind : entry.kind <;> simp_all
  obtain ⟨position, group, member, isGroup, isMember, sameId, size, hash, _⟩ :=
    laid.exists_member isEntry kind
  have isGroupMember := List.mem_of_getElem? isGroup
  have payloadFits : parts.payloadEnd < 2 ^ 64 := by
    have := built.fits
    unfold ArchiveParts.footerOffset at this
    omega
  obtain ⟨found, isFound, foundId, record, restore, read⟩ :=
    laid.fileRead payloadFits (Footer.encode backends.digests
      (parts.footer backends.digests backends.json)) within.groups isGroup
      isMember
  have same : found = entry := List.inj_on_of_nodup_map
    laid.entries.entryIds_nodup isFound isEntry (foundId.trans sameId.symm)
  subst same
  refine ⟨member.bytes, read.fileBytes_eq, ?_, hash.symm⟩
  have contents := (laid.representable group isGroupMember).contents
  have shorter : member.bytes.length ≤ group.contents.length := by
    unfold LaidGroup.contents
    rw [List.length_flatMap]
    exact List.single_le_sum (fun _ _ => Nat.zero_le _) _
      (List.mem_map_of_mem isMember)
  rw [size, toNat_ofNat_of_lt (by omega)]

/-- The node of a file item is that of the file entry of its first name. -/
theorem Recorded.look_source
    {json : Json}
    {digests : Digests}
    {entries : List EntryRecord}
    (recorded : Recorded json digests items entries)
    (few : entries.length < 2 ^ 64)
    {contents : EntryRecord → List UInt8}
    {start populated : Disk}
    {staging : Location}
    (staged : Staged contents entries start staging (creationOrder entries)
      populated)
    {item : PackItem}
    (member : item ∈ items)
    (kind : item.entry.kind = .file) :
    ∃ position first source target,
      FirstName items position first item source ∧
      entries[first]? = some target ∧ target.isFile = true ∧
      populated.look (staging ++ item.names) =
        populated.look (staging ++ target.names) := by
  obtain ⟨position, isItem⟩ := List.mem_iff_getElem?.mp member
  obtain ⟨entry, isEntry, known⟩ := recorded.exists_entry isItem
  obtain ⟨first, source, target, ofFirst, isTarget, isFile, isSource⟩ :=
    recorded.exists_source isItem isEntry few kind
  refine ⟨position, first, source, target, ofFirst, isTarget, isFile, ?_⟩
  rw [← staged.look_source (mem_creationOrder.mpr
    (List.mem_of_getElem? isEntry)) isSource, EntryRecord.names, known.path_eq]

/-! ### What the staging directory holds

The disk is one that every entry was written to. -/

section Populated

variable
  {json : Json}
  {digests : Digests}
  {entries : List EntryRecord}
  {contents : EntryRecord → List UInt8}
  {start populated : Disk}
  {staging : Location}
  (recorded : Recorded json digests items entries)
  (staged : Staged contents entries start staging (creationOrder entries)
    populated)

include recorded in
/-- An entry is that of an item. -/
theorem Recorded.item_of_entry
    {entry : EntryRecord}
    (member : entry ∈ creationOrder entries) :
    ∃ item ∈ items, item.names = entry.names := by
  obtain ⟨position, isEntry⟩ :=
    List.mem_iff_getElem?.mp (mem_creationOrder.mp member)
  obtain ⟨item, isItem, known⟩ := recorded.exists_item isEntry
  exact ⟨item, List.mem_of_getElem? isItem, by
    rw [PackItem.names, ← known.path_eq]⟩

include recorded staged

/-- The node of an item is one that its entry describes. -/
theorem Recorded.exists_match
    {item : PackItem}
    (member : item ∈ items) :
    ∃ position entry label,
      RecordedKind json digests items entries position item entry ∧
      populated.look (staging ++ item.names) = some label ∧
      Matches entry label := by
  obtain ⟨position, isItem⟩ := List.mem_iff_getElem?.mp member
  obtain ⟨entry, isEntry, known⟩ := recorded.exists_entry isItem
  obtain ⟨label, found, isMatch⟩ := staged.present entry
    (mem_creationOrder.mpr (List.mem_of_getElem? isEntry))
  rw [EntryRecord.names, known.path_eq] at found
  exact ⟨position, entry, label, known, found, isMatch⟩

/-- A directory is restored as a directory. -/
theorem Recorded.restored_directory
    {item : PackItem}
    (member : item ∈ items)
    (kind : item.entry.kind = .directory) :
    ∃ metadata,
      populated.look (staging ++ item.names) = some (.directory metadata) := by
  obtain ⟨position, entry, label, known, found, isMatch⟩ :=
    recorded.exists_match staged member
  cases known with
  | directory _ record =>
      subst record
      cases label with
      | directory metadata => exact ⟨metadata, found⟩
      | file inode => cases isMatch
      | symlink metadata target => cases isMatch
  | symlink target targetIsDir other record
  | file groupId hash other fresh record
  | hardlink first target other earlier met isTarget targetIsFile record =>
      rw [kind] at other
      cases other

/-- A link is restored with the target that was scanned. -/
theorem Recorded.restored_link
    {item : PackItem}
    (member : item ∈ items)
    {target : LinkTarget}
    {targetIsDir : Bool}
    (kind : item.entry.kind = .symlink target targetIsDir) :
    populated.look (staging ++ item.names) =
      some (.symlink newFile (joinPieces target.pieces)) := by
  obtain ⟨position, entry, label, known, found, isMatch⟩ :=
    recorded.exists_match staged member
  cases known with
  | symlink foundTarget isDir other record =>
      rw [kind] at other
      cases other
      subst record
      rw [found]
      exact congrArg some isMatch
  | directory other record
  | file groupId hash other fresh record
  | hardlink first target other earlier met isTarget targetIsFile record =>
      rw [kind] at other
      cases other

/-- Nothing but the items is in the staging directory: what lies there is an
entry or above one, and every directory above an item is an item. -/
theorem Recorded.restored_onlyItems
    (scannedFrom : ScannedFrom packLimits profile inputs items)
    (host : HostPaths inputs)
    {relative : List Name}
    {label : Label}
    (nonempty : relative ≠ [])
    (found : populated.look (staging ++ relative) = some label) :
    ∃ item ∈ items, item.names = relative := by
  cases isDirectory : label.isDirectory with
  | false =>
      obtain ⟨entry, member, rfl, _⟩ :=
        staged.nodes relative label found isDirectory
      exact recorded.item_of_entry member
  | true =>
      have present : ∃ metadata, populated.look (staging ++ relative) =
          some (.directory metadata) := by
        cases label with
        | directory metadata => exact ⟨metadata, found⟩
        | file inode => cases isDirectory
        | symlink metadata target => cases isDirectory
      rcases (staged.directories relative).mp present with
        rfl | ⟨entry, member, above, _⟩
      · exact absurd rfl nonempty
      obtain ⟨item, isItem, same⟩ := recorded.item_of_entry member
      rw [← same] at above
      have names := List.prefix_iff_eq_take.mp above
      rcases Nat.lt_or_eq_of_le above.length_le with shorter | whole
      · obtain ⟨directory, isDirectory, _, isAt⟩ :=
          (scannedFrom.kept.entryTree host.paths).above item.entry
            (List.mem_map_of_mem isItem) relative.length
            (List.length_pos_iff.mpr nonempty) shorter
        obtain ⟨found, isFound, rfl⟩ := List.mem_map.mp isDirectory
        exact ⟨found, isFound, isAt.trans names.symm⟩
      · rw [whole, List.take_length] at names
        exact ⟨item, isItem, names.symm⟩

/-- Two items share a file exactly when they have the same first name. -/
theorem Recorded.restored_sharing
    (few : entries.length < 2 ^ 64)
    (ids : ∀ (position : Nat) (entry : EntryRecord),
      entries[position]? = some entry → entry.entryId.toNat = position)
    (distinct : items.Nodup)
    {first second : PackItem}
    (isFirst : first ∈ items)
    (isSecond : second ∈ items)
    (firstKind : first.entry.kind = .file)
    (secondKind : second.entry.kind = .file) :
    populated.look (staging ++ first.names) =
        populated.look (staging ++ second.names) ↔
      first.SameFile second := by
  obtain ⟨_, place, _, target, ofFirst, isTarget, isFile, look⟩ :=
    recorded.look_source few staged isFirst firstKind
  obtain ⟨_, otherPlace, _, other, ofSecond, isOther, otherIsFile,
    otherLook⟩ := recorded.look_source few staged isSecond secondKind
  rw [look, otherLook, ← ofFirst.place_eq_iff ofSecond distinct]
  constructor
  · intro same
    have sameTarget := staged.fileInodes target
      (mem_creationOrder.mpr (List.mem_of_getElem? isTarget)) other
      (mem_creationOrder.mpr (List.mem_of_getElem? isOther))
      (isOf_file_of_isFile isFile) (isOf_file_of_isFile otherIsFile) same
    rw [← ids place target isTarget, sameTarget, ids otherPlace other isOther]
  · rintro rfl
    rw [Option.some.inj (isTarget.symm.trans isOther)]

end Populated

/-- A file is restored with the bytes that were hashed and the mode of its
first name. -/
theorem Built.restored_file
    (built : Built backends packLimits profile items parts groups registry)
    (scanned : Scanned (packLimits.decodeLimits profile) items)
    (verifiable : parts.Verifiable backends.json
      (packLimits.decodeLimits profile) items groups)
    {start populated : Disk}
    {staging : Location}
    (staged : Staged (fileBytes backends
        (parts.assemble backends.digests backends.json)
        (packLimits.decodeLimits profile)
        (parts.parsed backends registry).withRoot)
      parts.entries start staging (creationOrder parts.entries) populated)
    {item : PackItem}
    (member : item ∈ items)
    (kind : item.entry.kind = .file) :
    ∃ source ∈ items, source.entry.kind = .file ∧ source.SameFile item ∧
      ∃ inode bytes,
        populated.look (staging ++ item.names) = some (.file inode) ∧
        populated.inodes[inode]? =
          some ⟨withMode source.entry.metadata.mode newFile, bytes⟩ ∧
        bytes.length = source.size.toNat ∧
        source.Hashed backends.digests (backends.digests.blake3 bytes) := by
  have recorded := built.recorded
  obtain ⟨position, first, source, target, ofFirst, isTarget, isFile, same⟩ :=
    recorded.look_source (built.fewEntries scanned) staged member kind
  have known := recorded.recorded first source target ofFirst.isSource isTarget
  have isEntry := List.mem_of_getElem? isTarget
  obtain ⟨inode, found, content⟩ := staged.files target
    (mem_creationOrder.mpr isEntry) (isOf_file_of_isFile isFile)
  obtain ⟨bytes, isBytes, length, hash⟩ := built.fileBytes_hash scanned
    verifiable isEntry isFile
  refine ⟨source, List.mem_of_getElem? ofFirst.isSource, ofFirst.sourceKind,
    ofFirst.sameFile, inode, bytes, same.trans found, ?_, ?_, ?_⟩
  · rw [content, known.mode_eq, isBytes]
  · rw [length, known.size_of_isFile isFile]
  · rw [hash]
    exact built.hashed first source target ofFirst.isSource isTarget isFile

/-- The staging directory holds the tree of the items. -/
theorem Built.restoredTree
    (built : Built backends packLimits profile items parts groups registry)
    (scannedFrom : ScannedFrom packLimits profile inputs items)
    (host : HostPaths inputs)
    (verifiable : parts.Verifiable backends.json
      (packLimits.decodeLimits profile) items groups)
    {start populated : Disk}
    {staging : Location}
    (staged : Staged (fileBytes backends
        (parts.assemble backends.digests backends.json)
        (packLimits.decodeLimits profile)
        (parts.parsed backends registry).withRoot)
      parts.entries start staging (creationOrder parts.entries) populated) :
    RestoredTree backends.digests items staging populated := by
  have scanned := scannedFrom.toScanned
  have recorded := built.recorded
  have laid := built.laidOut scanned verifiable.links
  exact {
    root := by
      have root := (staged.directories []).mpr (.inl rfl)
      rwa [List.append_nil] at root
    onlyItems := fun _ _ nonempty found =>
      recorded.restored_onlyItems staged scannedFrom host nonempty found
    directories := fun _ member kind =>
      recorded.restored_directory staged member kind
    links := fun _ member _ _ kind =>
      recorded.restored_link staged member kind
    files := fun _ member kind =>
      built.restored_file scanned verifiable staged member kind
    sharing := fun _ isFirst _ isSecond firstKind secondKind =>
      recorded.restored_sharing staged (built.fewEntries scanned)
        laid.entries.ids scanned.sortKeys.of_map isFirst isSecond firstKind
        secondKind }

end RoundTrip

/-! ## The example -/

theorem packedItems_host : HostPaths [packedInput] where
  paths := by
    intro input member
    obtain rfl := List.mem_singleton.mp member
    decide
  targets := by
    intro placed member metadata target canonical targetIsDir isLink
    have nodes : nodesToArchive [packedInput] =
        [⟨[47, 120], [120, 47, 108], [108], .symlink ⟨0o777, 0⟩ [100, 47, 102]
          [47, 120, 47, 100, 47, 102] false⟩,
         ⟨[47, 120], [120, 47, 104], [104], .file ⟨0o644, 0⟩ (some 7)⟩,
         ⟨[47, 120], [120, 47, 100], [100], .directory ⟨0o755, 0⟩
          [(letterName 102 (by decide), .file ⟨0o644, 0⟩ (some 7))]⟩,
         ⟨[47, 120], [120, 47, 100, 47, 102], [100, 47, 102],
          .file ⟨0o644, 0⟩ (some 7)⟩] := rfl
    simp only [nodes, List.mem_cons, List.not_mem_nil, or_false] at member
    rcases member with rfl | rfl | rfl | rfl
    · cases isLink
      decide
    · cases isLink
    · cases isLink
    · cases isLink

theorem packedItems_verifiable :
    packedParts.Verifiable packedBackends.json
      (PackLimits.default.decodeLimits .raw) packedItems
      (rawGroups packedItems packedParts) where
  links := by
    refine (packedItems_scanned.linksHostable_iff packedItems_host).mpr ?_
    intro item member target targetIsDir kind
    simp only [packedItems, List.mem_cons, List.not_mem_nil, or_false] at member
    rcases member with rfl | rfl | rfl | rfl
    · cases kind
    · cases kind
    · cases kind
    · cases kind
      decide
  sizes := rfl
  groupCount := by
    change 1 ≤ _
    decide
  metadata := by decide +kernel
  expansion := fun group member => expansion_rawGroups member

/-- The example is accepted. -/
theorem packedItems_selfVerified :
    SelfVerified packedBackends .default .raw [packedInput] packedItems
      (packedParts.assemble .crates packedBackends.json) := by
  have built :=
    (built_of_rawParts Digests.crates_lawful packedItems_built).1
  have readsBack : packedParts.ReadsBack packedBackends.json :=
    packedParts.readsBack_crates
  exact (selfVerified_iff_verifiable Digests.crates_lawful readsBack
    packedItems_scanned (.raw packedItems_built) built).mpr
      packedItems_verifiable

end Pithos
