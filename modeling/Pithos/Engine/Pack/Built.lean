import Pithos.Engine.Pack.Collect

/-!
# What a packer has made sure of

Before it verifies an archive, a packer knows that the entries record the items,
that the tables are those of its groups, and that most sizes stay within the
limits.  It has not checked that every link target can be written on the host,
that the names of a hardlinked file were scanned with one size, that the section
directory and the metadata together stay within their limit, that there are not
too many groups, and that no group is compressed too far.
-/

namespace Pithos

open Fallible
open Machine

/-- The sizes of a group that a packer keeps within the limits. -/
structure LaidGroup.Moderate (limits : DecodeLimits) (group : LaidGroup) :
    Prop where
  output : group.contents.length ≤ limits.maxGroupOutput.toNat
  compressed : group.payload.length ≤ group.contents.length

/-- An archive as a packer has built it. -/
structure Built
    (backends : Backends)
    (packLimits : PackLimits)
    (profile : CompressionProfile)
    (items : List PackItem)
    (parts : ArchiveParts)
    (groups : List LaidGroup)
    (registry : Option CodecRegistry) : Prop where
  recorded : Recorded backends.json backends.digests items parts.entries
  hashed : FilesHashed backends.digests items parts.entries
  rows : parts.entries.filterMap EntryRecord.fileRow? =
    laidRows backends.digests 0 groups
  representable : ∀ group ∈ groups, group.Representable
  encoded : ∀ group ∈ groups, group.Encoded backends.codecs
  moderate : ∀ group ∈ groups,
    group.Moderate (packLimits.decodeLimits profile)
  groupTable : parts.groups =
    laidGroupTable backends.digests 0 parts.payloadStart groups
  restoreMap : parts.restoreMap = laidRestoreMap 0 groups
  payload : parts.payloadBytes = groups.flatMap LaidGroup.payload
  registryRead : parts.readRegistry = .ok registry
  registryFor : RegistryFor registry groups
  total : parts.originalTotalSize.toNat =
    (items.map PackItem.countedSize).sum
  sizeLimit : parts.originalTotalSize ≤
    (packLimits.decodeLimits profile).maxOriginalBytes
  fits : parts.footerOffset backends.json + footerLen < 2 ^ 64

/-- The conditions that a packer leaves to the verification. -/
structure ArchiveParts.Verifiable
    (json : Json)
    (limits : DecodeLimits)
    (items : List PackItem)
    (parts : ArchiveParts)
    (groups : List LaidGroup) : Prop where
  links : LinksHostable items
  sizes : originalSize parts.entries = (items.map PackItem.countedSize).sum
  groupCount : groups.length ≤ limits.maxGroups.toNat
  metadata : parts.directoryLength + (parts.metadata json).length ≤
    limits.maxMetadataBytes.toNat
  expansion : ∀ group ∈ groups, group.payload = [] ∨
    group.contents.length ≤
      group.payload.length * limits.maxExpansionRatio.toNat

namespace Built

variable
  {backends : Backends}
  {packLimits : PackLimits}
  {profile : CompressionProfile}
  {items : List PackItem}
  {parts : ArchiveParts}
  {groups : List LaidGroup}
  {registry : Option CodecRegistry}

/-- The tables of the archive are those of its groups. -/
theorem laidOut
    (built : Built backends packLimits profile items parts groups registry)
    (scanned : Scanned (packLimits.decodeLimits profile) items)
    (hostable : LinksHostable items) :
    LaidOut backends (packLimits.decodeLimits profile) parts groups
      registry where
  entries := built.recorded.entriesLaid scanned hostable
  rows := built.rows
  representable := built.representable
  encoded := built.encoded
  groupTable := built.groupTable
  restoreMap := built.restoreMap
  payload := built.payload
  registryRead := built.registryRead
  registryFor := built.registryFor

theorem entryCount_le
    (built : Built backends packLimits profile items parts groups registry)
    (scanned : Scanned (packLimits.decodeLimits profile) items) :
    parts.entries.length ≤
      (packLimits.decodeLimits profile).maxEntries.toNat := by
  rw [built.recorded.length]
  exact scanned.count

theorem fewEntries
    (built : Built backends packLimits profile items parts groups registry)
    (scanned : Scanned (packLimits.decodeLimits profile) items) :
    parts.entries.length < 2 ^ 64 :=
  (built.entryCount_le scanned).trans_lt
    (packLimits.decodeLimits profile).maxEntries.toNat_lt

theorem maxGroupOutput_le (packLimits : PackLimits)
    (profile : CompressionProfile) :
    (packLimits.decodeLimits profile).maxGroupOutput.toNat ≤ 1073741824 := by
  unfold PackLimits.decodeLimits
  split
  · exact (toNat_min_le _ _).trans (by decide)
  · change DecodeLimits.default.maxGroupOutput.toNat ≤ _
    decide

theorem maxEntries_le_maxChunks (packLimits : PackLimits)
    (profile : CompressionProfile) :
    (packLimits.decodeLimits profile).maxEntries.toNat ≤
      (packLimits.decodeLimits profile).maxChunks.toNat := by
  change (min packLimits.maxEntries DecodeLimits.default.maxEntries).toNat ≤
    (min packLimits.maxEntries DecodeLimits.default.maxChunks).toNat
  rw [toNat_min, toNat_min]
  have chunks : DecodeLimits.default.maxChunks.toNat = 50000000 := by decide
  have entries : DecodeLimits.default.maxEntries.toNat = 10000000 := by decide
  omega

/-- Of the limits on an archive, the packer has not checked the sum of the sizes,
and those on its groups, on its metadata with the section directory, and on the
expansion. -/
theorem withinLimits_iff
    (built : Built backends packLimits profile items parts groups registry)
    (scanned : Scanned (packLimits.decodeLimits profile) items) :
    parts.WithinLimits backends.json (packLimits.decodeLimits profile) groups ↔
      originalSize parts.entries = (items.map PackItem.countedSize).sum ∧
      groups.length ≤ (packLimits.decodeLimits profile).maxGroups.toNat ∧
      parts.directoryLength + (parts.metadata backends.json).length ≤
        (packLimits.decodeLimits profile).maxMetadataBytes.toNat ∧
      ∀ group ∈ groups, group.payload = [] ∨ group.contents.length ≤
        group.payload.length *
          (packLimits.decodeLimits profile).maxExpansionRatio.toNat := by
  have sizeLimit := UInt64.le_iff_toNat_le.mp built.sizeLimit
  have output := maxGroupOutput_le packLimits profile
  constructor
  · intro within
    exact ⟨within.sizeTotal.trans built.total, within.groupCount,
      within.metadata, fun group member => (within.groups group member).expansion⟩
  · rintro ⟨total, groupCount, metadata, expansion⟩
    have sizes := total.trans built.total.symm
    refine {
      sections := ?_
      entryCount := built.entryCount_le scanned
      groupCount := groupCount
      chunkCount := ?_
      sizeLimit := sizes.trans_le sizeLimit
      sizeTotal := sizes
      metadata := metadata
      groups := ?_ }
    · rw [ArchiveParts.sectionCount]
      change _ ≤ DecodeLimits.default.maxSections
      cases parts.registryBytes with
      | none =>
          change requiredRawSections ≤ _
          decide
      | some bytes =>
          change requiredCompressedSections ≤ _
          decide
    · have few := List.length_filter_le EntryRecord.isFile parts.entries
      have entries := built.entryCount_le scanned
      have chunks := maxEntries_le_maxChunks packLimits profile
      omega
    · intro group member
      obtain ⟨within, shorter⟩ := built.moderate group member
      refine ⟨within, by omega, by omega, expansion group member, ?_⟩
      intro codecId isCodec
      have scratch : (codecId.scratchBytes codecId.defaultLevel).toNat ≤
          134217728 := by
        cases codecId <;> decide
      omega

/-- An archive that is verified has link targets that the host can hold. -/
theorem linksHostable_of_verified
    (built : Built backends packLimits profile items parts groups registry)
    (lawful : backends.digests.Lawful)
    (readsBack : parts.ReadsBack backends.json)
    {verified : ParsedArchive}
    (isVerified : verifyOpenFile backends
      (parts.assemble backends.digests backends.json)
      (packLimits.decodeLimits profile) = .ok verified) :
    LinksHostable items := by
  obtain ⟨_, acceptable, _, _⟩ := (verifyOpenFile_parts lawful readsBack
    built.fits (Footer.length_encode _ _)
    (Footer.decode_encode _ _)).mp isVerified
  intro item member target targetIsDir isLink
  obtain ⟨position, isItem⟩ := List.mem_iff_getElem?.mp member
  obtain ⟨entry, isEntry, recorded⟩ := built.recorded.exists_entry isItem
  have entryOk := (acceptable.tables.entries position entry isEntry).kind
  unfold KindOk at entryOk
  cases recorded with
  | directory kind record => simp [isLink] at kind
  | hardlink first other kind _ _ _ _ record => simp [isLink] at kind
  | file groupId hash kind fresh record => simp [isLink] at kind
  | symlink found foundIsDir kind record =>
      rw [isLink] at kind
      cases kind
      subst entry
      exact entryOk.2

/-- An archive that a packer has built is verified exactly when it is
verifiable, and then it is read as it was built. -/
theorem verifyOpenFile_iff
    (built : Built backends packLimits profile items parts groups registry)
    (scanned : Scanned (packLimits.decodeLimits profile) items)
    (lawful : backends.digests.Lawful)
    (readsBack : parts.ReadsBack backends.json)
    {verified : ParsedArchive} :
    verifyOpenFile backends (parts.assemble backends.digests backends.json)
        (packLimits.decodeLimits profile) = .ok verified ↔
      parts.Verifiable backends.json (packLimits.decodeLimits profile) items
        groups ∧ verified = (parts.parsed backends registry).withRoot := by
  constructor
  · intro isVerified
    have hostable := built.linksHostable_of_verified lawful readsBack
      isVerified
    obtain ⟨within, same⟩ := ((built.laidOut scanned
      hostable).verifyOpenFile_iff lawful readsBack built.fits
      (built.fewEntries scanned)).mp isVerified
    obtain ⟨sizes, groupCount, metadata, expansion⟩ :=
      (built.withinLimits_iff scanned).mp within
    exact ⟨⟨hostable, sizes, groupCount, metadata, expansion⟩, same⟩
  · rintro ⟨verifiable, same⟩
    refine ((built.laidOut scanned verifiable.links).verifyOpenFile_iff lawful
      readsBack built.fits (built.fewEntries scanned)).mpr ⟨?_, same⟩
    exact (built.withinLimits_iff scanned).mpr ⟨verifiable.sizes,
      verifiable.groupCount, verifiable.metadata, verifiable.expansion⟩

end Built

end Pithos
