import Pithos.Engine.Scan.Entries
import Pithos.Engine.Pack.Outcome
import Pithos.Engine.Unpack.Staged
import Pithos.Engine.Crates

/-!
# Packing and its own verification

A packer scans its inputs, builds an archive of what the scan has found, with or
without compression, and verifies it before it publishes it.  What it has not
checked before is exactly what can make that verification fail.
-/

namespace Pithos

open Fallible
open Machine
open HostPath
open FileTree
open Scheduler
open Utf8

/-! ## What packing does -/

/-- An archive that a packer may build of the items of a scan. -/
inductive Builds
    (backends : Backends)
    (packLimits : PackLimits)
    (items : List PackItem) :
    CompressionProfile → ArchiveParts → Prop
  | raw {parts : ArchiveParts}
      (built : rawParts backends packLimits items = .ok parts) :
      Builds backends packLimits items .raw parts
  | compressed
      {profile : CompressionProfile}
      {parallelism : { count : UInt64 // count ≠ 0 }}
      {events : List Event}
      {parts : ArchiveParts}
      (notRaw : profile ≠ .raw)
      (built : BuildsCompressed backends packLimits profile parallelism items
        events parts) :
      Builds backends packLimits items profile parts

/-- The items are those of a scan of the inputs. -/
structure ScannedFrom
    (packLimits : PackLimits)
    (profile : CompressionProfile)
    (inputs : List ScanInput)
    (items : List PackItem) : Prop where
  someInputs : inputs ≠ []
  budgets : packLimits.checkBudgets = .ok ()
  scan : ∃ final, scanInputs inputs (packLimits.decodeLimits profile) =
    .ok (items.map PackItem.entry) final

/-- An archive that a packer has built of the scanned items and that its own
verification has accepted.  Such an archive is published, unless something
stands at the output, the packer is cancelled after it has verified, or the host
fails to publish. -/
structure SelfVerified
    (backends : Backends)
    (packLimits : PackLimits)
    (profile : CompressionProfile)
    (inputs : List ScanInput)
    (items : List PackItem)
    (archive : List UInt8) : Prop where
  scanned : ScannedFrom packLimits profile inputs items
  accepted : ∃ parts, Builds backends packLimits items profile parts ∧
    archive = parts.assemble backends.digests backends.json ∧
    ∃ verified, verifyOpenFile backends archive
      (packLimits.decodeLimits profile) = .ok verified

/-- The packer without compression verifies what was scanned exactly when it
succeeds. -/
theorem packRaw_eq_ok
    {backends : Backends}
    {packLimits : PackLimits}
    {inputs : List ScanInput}
    {items : List PackItem}
    {archive : List UInt8}
    (scanned : ScannedFrom packLimits .raw inputs items) :
    packRaw backends packLimits items = .ok archive ↔
      SelfVerified backends packLimits .raw inputs items archive := by
  simp only [packRaw, bind_eq_ok, Except.ok.injEq]
  constructor
  · rintro ⟨parts, built, verified, isVerified, rfl⟩
    exact ⟨scanned, parts, .raw built, rfl, verified, isVerified⟩
  · rintro ⟨_, parts, built, rfl, verified, isVerified⟩
    cases built with
    | raw built => exact ⟨parts, built, verified, isVerified, rfl⟩
    | compressed notRaw => exact absurd rfl notRaw

/-! ## What the scan makes sure of -/

namespace ScannedFrom

variable
  {packLimits : PackLimits}
  {profile : CompressionProfile}
  {inputs : List ScanInput}
  {items : List PackItem}

theorem positive
    (scanned : ScannedFrom packLimits profile inputs items) :
    1 ≤ (packLimits.decodeLimits profile).maxEntries := by
  have budgets := (ensure_eq_ok.mp scanned.budgets).2.2.2
  have some : packLimits.maxEntries.toNat ≠ 0 := fun none =>
    budgets (UInt64.toNat_inj.mp none)
  have maximum : DecodeLimits.default.maxEntries.toNat = 10000000 := by decide
  change 1 ≤ min packLimits.maxEntries DecodeLimits.default.maxEntries
  rw [UInt64.le_iff_toNat_le, toNat_min, UInt64.toNat_one]
  omega

theorem kept
    (scanned : ScannedFrom packLimits profile inputs items) :
    Scan.Kept inputs (packLimits.decodeLimits profile)
      (items.map PackItem.entry) := by
  obtain ⟨_, ran⟩ := scanned.scan
  exact kept_of_scanInputs scanned.positive ran

theorem checked
    (scanned : ScannedFrom packLimits profile inputs items)
    {item : PackItem}
    (member : item ∈ items) :
    item.entry.Checked (packLimits.decodeLimits profile) := by
  obtain ⟨_, ran⟩ := scanned.scan
  exact checked_of_scanInputs ran item.entry (List.mem_map_of_mem member)

theorem exists_node
    (scanned : ScannedFrom packLimits profile inputs items)
    {item : PackItem}
    (member : item ∈ items) :
    ∃ placed ∈ nodesToArchive inputs, item.entry.IsOf placed :=
  scanned.kept.exists_node (List.mem_map_of_mem member)

theorem sortKey_eq
    (scanned : ScannedFrom packLimits profile inputs items)
    {item : PackItem}
    (member : item ∈ items) :
    item.entry.sortKey = item.entry.archivePath.sortKey := by
  obtain ⟨_, _, isOf⟩ := scanned.exists_node member
  exact isOf.sortKey

/-- What the packers rely on. -/
theorem toScanned
    (scanned : ScannedFrom packLimits profile inputs items) :
    Scanned (packLimits.decodeLimits profile) items where
  count := by
    have count := scanned.kept.count
    rwa [List.length_map] at count
  paths := fun item member => (scanned.checked member).path
  sortKeys := by
    have distinct := scanned.kept.sortKeys
    rw [List.pairwise_map] at distinct
    rw [List.Nodup, List.pairwise_map]
    refine distinct.imp_of_mem fun {first second} isFirst isSecond below => ?_
    rw [← scanned.sortKey_eq isFirst, ← scanned.sortKey_eq isSecond]
    intro same
    rw [same] at below
    exact List.lt_irrefl _ below
  links := fun item member => (scanned.checked member).link

end ScannedFrom

/-! ## Entries that fit in one tree -/

/-- The paths that the host has handed out can be handed back to it. -/
structure HostPaths (inputs : List ScanInput) : Prop where
  paths : ∀ input ∈ inputs, 0 ∉ input.path
  targets : ∀ placed ∈ nodesToArchive inputs,
    ∀ metadata target canonical targetIsDir,
      placed.node = .symlink metadata target canonical targetIsDir →
      0 ∉ target

namespace ScannedFrom

variable
  {packLimits : PackLimits}
  {profile : CompressionProfile}
  {inputs : List ScanInput}
  {items : List PackItem}

/-- Items with the same names are the same. -/
theorem eq_of_names_eq
    (scanned : ScannedFrom packLimits profile inputs items)
    (host : HostPaths inputs)
    {first second : PackItem}
    (isFirst : first ∈ items)
    (isSecond : second ∈ items)
    (same : first.entry.archivePath.names = second.entry.archivePath.names) :
    first = second := by
  have tree := scanned.kept.entryTree host.paths
  have firstPath := tree.paths _ (List.mem_map_of_mem isFirst)
  have secondPath := tree.paths _ (List.mem_map_of_mem isSecond)
  rw [same, ← secondPath] at firstPath
  exact List.inj_on_of_nodup_map scanned.toScanned.sortKeys isFirst isSecond
    (congrArg ArchivePath.sortKey firstPath)

/-- Nothing but a directory stands above an item. -/
theorem eq_or_directory
    (scanned : ScannedFrom packLimits profile inputs items)
    (host : HostPaths inputs)
    {first second : PackItem}
    (isFirst : first ∈ items)
    (isSecond : second ∈ items)
    (above : first.entry.archivePath.names <+:
      second.entry.archivePath.names) :
    first = second ∨ first.entry.kind = .directory := by
  have tree := scanned.kept.entryTree host.paths
  have names := List.prefix_iff_eq_take.mp above
  rcases Nat.lt_or_eq_of_le above.length_le with shorter | sameLength
  · have nonempty : first.entry.archivePath.names ≠ [] :=
      (scanned.checked isFirst).path.hostable.names_ne_nil
    obtain ⟨directory, isDirectory, kind, isAt⟩ := tree.above _
      (List.mem_map_of_mem isSecond) _
      (List.length_pos_iff.mpr nonempty) shorter
    obtain ⟨found, isFound, rfl⟩ := List.mem_map.mp isDirectory
    rw [← names] at isAt
    exact .inr (scanned.eq_of_names_eq host isFound isFirst isAt ▸ kind)
  · rw [sameLength, List.take_length] at names
    exact .inl (scanned.eq_of_names_eq host isFirst isSecond names)

/-- The link targets are targets of the host. -/
theorem exists_fromHost
    (scanned : ScannedFrom packLimits profile inputs items)
    (host : HostPaths inputs)
    {item : PackItem}
    (member : item ∈ items)
    {target : LinkTarget}
    {targetIsDir : Bool}
    (kind : item.entry.kind = .symlink target targetIsDir) :
    ∃ path, 0 ∉ path ∧ target.FromHost path := by
  obtain ⟨⟨rootScope, source, relative, node⟩, isNode, isOf⟩ :=
    scanned.exists_node member
  have known := isOf.node
  cases node with
  | file metadata identity =>
      rw [kind] at known
      cases known.2.2
  | directory metadata children =>
      rw [kind] at known
      cases known.2.2
  | symlink metadata path canonical isDir =>
      obtain ⟨_, _, read, isTarget, isKind⟩ := known
      rw [kind] at isKind
      cases isKind
      exact ⟨path, host.targets _ isNode metadata path canonical _ rfl,
        LinkTarget.fromHost_of_fromRelative isTarget⟩
  | other => exact known.elim

/-- The link targets can be written on the host unless one of their names is text
with a backslash. -/
theorem linksHostable_iff
    (scanned : ScannedFrom packLimits profile inputs items)
    (host : HostPaths inputs) :
    LinksHostable items ↔ ∀ item ∈ items, ∀ target targetIsDir,
      item.entry.kind = .symlink target targetIsDir →
      ∀ name ∈ target.pieces, isUtf8 name = true →
        PathComponent.backslash ∉ name := by
  refine forall₂_congr fun item member => forall₃_congr
    fun target targetIsDir kind => ?_
  obtain ⟨path, noNul, fromHost⟩ := scanned.exists_fromHost host member kind
  exact fromHost.hostable_iff noNul

end ScannedFrom

/-- Entries that record a scan fit in one tree. -/
theorem Recorded.restorable
    {json : Json}
    {digests : Digests}
    {packLimits : PackLimits}
    {profile : CompressionProfile}
    {inputs : List ScanInput}
    {items : List PackItem}
    {entries : List EntryRecord}
    (recorded : Recorded json digests items entries)
    (scanned : ScannedFrom packLimits profile inputs items)
    (host : HostPaths inputs) :
    Restorable entries where
  spellable := by
    intro entry member
    obtain ⟨position, isEntry⟩ := List.mem_iff_getElem?.mp member
    obtain ⟨item, isItem, kind⟩ := recorded.exists_item isEntry
    have isMember := List.mem_of_getElem? isItem
    refine ⟨?_, ?_⟩
    · have tree := scanned.kept.entryTree host.paths
      rw [EntryRecord.names, kind.path_eq]
      exact fun name isName => (tree.names _
        (List.mem_map_of_mem isMember) name isName).noNul
    · intro target targetIsDir isLink
      cases kind with
      | symlink found foundIsDir kind record =>
          subst record
          cases isLink
          obtain ⟨path, noNul, fromHost⟩ :=
            scanned.exists_fromHost host isMember kind
          exact ⟨fromHost.nonempty, fromHost.noNul noNul⟩
      | directory kind record | file groupId hash kind fresh record
      | hardlink first target kind earlier met isTarget targetIsFile record =>
          subst record
          cases isLink
  compatible := by
    have apart {first second : Nat}
        {firstEntry secondEntry : EntryRecord}
        (isFirst : entries[first]? = some firstEntry)
        (isSecond : entries[second]? = some secondEntry)
        (different : first ≠ second)
        (notDirectory : firstEntry.isOf .directory = false) :
        ¬firstEntry.names <+: secondEntry.names := by
      obtain ⟨firstItem, isFirstItem, firstKind⟩ :=
        recorded.exists_item isFirst
      obtain ⟨secondItem, isSecondItem, secondKind⟩ :=
        recorded.exists_item isSecond
      rw [EntryRecord.names, EntryRecord.names, firstKind.path_eq,
        secondKind.path_eq]
      intro above
      rcases scanned.eq_or_directory host (List.mem_of_getElem? isFirstItem)
        (List.mem_of_getElem? isSecondItem) above with rfl | isDirectory
      · have inside := (List.getElem?_eq_some_iff.mp isFirstItem).1
        have distinct := scanned.toScanned.sortKeys.of_map
        exact different ((List.getElem?_inj inside distinct).mp
          (isFirstItem.trans isSecondItem.symm))
      · cases firstKind with
        | directory kind record =>
            subst record
            cases notDirectory
        | symlink target targetIsDir kind record
        | file groupId hash kind fresh record
        | hardlink first target kind earlier met isTarget targetIsFile
            record =>
            rw [isDirectory] at kind
            cases kind
    rw [List.pairwise_iff_getElem]
    intro first second isFirst isSecond before
    have firstEntry := List.getElem?_eq_getElem isFirst
    have secondEntry := List.getElem?_eq_getElem isSecond
    exact ⟨apart firstEntry secondEntry (Nat.ne_of_lt before),
      apart secondEntry firstEntry (Nat.ne_of_gt before)⟩

/-! ## The verdict -/

section Verdict

variable
  {backends : Backends}
  {packLimits : PackLimits}
  {profile : CompressionProfile}
  {inputs : List ScanInput}
  {items : List PackItem}
  {parts : ArchiveParts}

/-- Both packers build archives of which they have made sure of the same. -/
theorem built_of_builds
    (lawful : backends.digests.Lawful)
    (crates : backends.codecs.Crates)
    (lossless : backends.codecs.Lossless)
    (scanned : Scanned (packLimits.decodeLimits profile) items)
    (builds : Builds backends packLimits items profile parts) :
    ∃ groups registry, Built backends packLimits profile items parts groups
      registry := by
  cases builds with
  | raw built => exact ⟨_, _, (built_of_rawParts lawful built).1⟩
  | compressed notRaw built =>
      obtain ⟨_, _, groups, registry, _, isBuilt⟩ :=
        built_of_buildsCompressed crates lossless notRaw scanned built
      exact ⟨groups, _, isBuilt⟩

/-- The verification accepts an archive that was built exactly when it meets the
conditions that the packer has not checked while building it. -/
theorem selfVerified_iff_verifiable
    (lawful : backends.digests.Lawful)
    (readsBack : parts.ReadsBack backends.json)
    (scanned : ScannedFrom packLimits profile inputs items)
    (builds : Builds backends packLimits items profile parts)
    {groups : List LaidGroup}
    {registry : Option CodecRegistry}
    (built : Built backends packLimits profile items parts groups registry) :
    SelfVerified backends packLimits profile inputs items
        (parts.assemble backends.digests backends.json) ↔
      parts.Verifiable backends.json (packLimits.decodeLimits profile) items
        groups := by
  have verdict {verified : ParsedArchive} :=
    @Built.verifyOpenFile_iff _ _ _ _ _ _ _ built scanned.toScanned lawful
      readsBack verified
  constructor
  · rintro ⟨_, _, _, _, verified, isVerified⟩
    exact (verdict.mp isVerified).1
  · intro verifiable
    exact ⟨scanned, parts, builds, rfl, _, verdict.mpr ⟨verifiable, rfl⟩⟩

/-- Whatever was scanned, with or without compression and in whatever order the
groups were encoded: an archive is built from groups of the scanned files, and
the packer's own verification accepts it exactly when its link targets can be
written on the host, the names of a file were scanned with one size, and its
groups, its metadata and its expansion stay within limits that the packer has not
checked. -/
theorem packing_verdict
    (lawful : backends.digests.Lawful)
    (crates : backends.codecs.Crates)
    (lossless : backends.codecs.Lossless)
    (scanned : ScannedFrom packLimits profile inputs items)
    (builds : Builds backends packLimits items profile parts)
    (readsBack : parts.ReadsBack backends.json) :
    ∃ groups registry,
      Built backends packLimits profile items parts groups registry ∧
      (SelfVerified backends packLimits profile inputs items
          (parts.assemble backends.digests backends.json) ↔
        parts.Verifiable backends.json (packLimits.decodeLimits profile) items
          groups) := by
  obtain ⟨groups, registry, built⟩ :=
    built_of_builds lawful crates lossless scanned.toScanned builds
  exact ⟨groups, registry, built,
    selfVerified_iff_verifiable lawful readsBack scanned builds built⟩

end Verdict

/-! ## A small archive -/

deriving instance DecidableEq for ArchiveParts

/-- A directory `x` that holds a directory `d` with a file `f`, another name `h`
of the file, and a link `l` to it. -/
def packedInput : ScanInput where
  path := [120]
  node := .directory ⟨0o755, 0⟩
    [(letterName 108 (by decide), .symlink ⟨0o777, 0⟩ [100, 47, 102]
      [47, 120, 47, 100, 47, 102] false),
     (letterName 104 (by decide), .file ⟨0o644, 0⟩ (some 7)),
     (letterName 100 (by decide), .directory ⟨0o755, 0⟩
      [(letterName 102 (by decide), .file ⟨0o644, 0⟩ (some 7))])]
  canonical := [47, 120]
  canonicalParent := [47]

/-- How the file looks. -/
def packedStamp : SourceStamp := ⟨1, none, some 7⟩

/-- An entry of the example as the packer meets it. -/
def packedItem
    (source : Path)
    (names : List Name)
    (mode : UInt32)
    (identity : Option Nat)
    (kind : ScannedKind) : PackItem where
  entry := ⟨source, ⟨names.map PathComponent.fromOsStr⟩,
    ArchivePath.sortKey ⟨names.map PathComponent.fromOsStr⟩, ⟨mode, 0⟩,
    identity, kind⟩
  size := 1
  modified := none
  cancelled := false
  current := .ok packedStamp
  reading := {
    cancelled := false
    initial := .ok packedStamp
    opened := .ok ()
    turns := [⟨false, .ok [97]⟩]
    final := .ok packedStamp }

/-- The target `d/f`. -/
def packedTarget : LinkTarget :=
  ⟨[.normal (utf8Component "d"), .normal (utf8Component "f")]⟩

/-- The directory `d`. -/
def packedDirectory : PackItem :=
  packedItem [120, 47, 100] [[100]] 0o755 none .directory

/-- The file `d/f`. -/
def packedFile : PackItem :=
  packedItem [120, 47, 100, 47, 102] [[100], [102]] 0o644 (some 7) .file

/-- Another name `h` of the file. -/
def packedHardlink : PackItem :=
  packedItem [120, 47, 104] [[104]] 0o644 (some 7) .file

/-- The link `l` to the file. -/
def packedLink : PackItem :=
  packedItem [120, 47, 108] [[108]] 0o777 none (.symlink packedTarget false)

/-- A directory, a file in it, another name of the file and a link to it. -/
def packedItems : List PackItem :=
  [packedDirectory, packedFile, packedHardlink, packedLink]

/-- What the RAW packer builds of them. -/
def packedParts : ArchiveParts where
  entries := [
    packedDirectory.record 0 0 (Digests.crates.blake3 directoryText) .directory,
    packedFile.record 1 1 (Digests.crates.blake3 [97]) (.file 0),
    packedHardlink.record 2 1 (Digests.crates.blake3 [97]) (.hardlink 1),
    packedLink.record 3 (UInt64.ofNat (LinkTarget.text packedTarget).length)
      (Digests.crates.blake3 (LinkTarget.text packedTarget))
      (.symlink packedTarget false)]
  groups := sampleParts.groups
  restoreMap := sampleParts.restoreMap
  registryBytes := none
  payload := [[97]]
  originalTotalSize := 2

/-- The crates around the example. -/
def packedBackends : Backends :=
  { packedParts.crates with codecs := zerosCodecs }

theorem zerosCodecs_lossless : zerosCodecs.Lossless := by
  intro codecId level input output written
  change (if _ then _ else _) = _ at written
  split at written
  · rename_i isZeros
    obtain ⟨rfl, _, rfl⟩ := isZeros
    cases written
    rfl
  · cases written

/-- What is listed in the example, and what is built of it. -/
theorem packedItems_checks :
    (match scanInputs [packedInput] (PackLimits.default.decodeLimits .raw) with
      | .ok entries _ => entries
      | .error _ _ => []) = packedItems.map PackItem.entry ∧
      rawParts packedBackends .default packedItems = .ok packedParts := by
  decide +kernel

theorem packedItems_built :
    rawParts packedBackends .default packedItems = .ok packedParts :=
  packedItems_checks.2

theorem packedItems_scanned :
    ScannedFrom .default .raw [packedInput] packedItems where
  someInputs := List.cons_ne_nil _ _
  budgets := rfl
  scan := by
    have scanned := packedItems_checks.1
    split at scanned
    · rename_i entries final ran
      exact ⟨final, scanned ▸ ran⟩
    · cases scanned

/-- The example is built, and accepted if and only if it is verifiable. -/
theorem packedItems_verdict :
    ∃ groups registry,
      Built packedBackends .default .raw packedItems packedParts groups
        registry ∧
      (SelfVerified packedBackends .default .raw [packedInput] packedItems
          (packedParts.assemble .crates packedBackends.json) ↔
        packedParts.Verifiable packedBackends.json
          (PackLimits.default.decodeLimits .raw) packedItems groups) :=
  packing_verdict Digests.crates_lawful zerosCodecs_crates zerosCodecs_lossless
    packedItems_scanned (.raw packedItems_built) packedParts.readsBack_crates

end Pithos
