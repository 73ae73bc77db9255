import Pithos.Engine.Unpack.Transaction
import Pithos.Library.Reach

/-!
# What unpacking leaves alone

The decoder counts the depth of each link target on its own, while a lookup
walks through other links of the archive.  `catalogShape` is the tree that the
entries call for; `NoEscape` says that no lookup of a link in it takes `..` at
the root.  For an archive whose links are flat, unpacking is contained exactly
when the links of a restorable archive do not escape.
-/

namespace Pithos

open Fallible
open FileTree
open HostPath
open Disk

/-! ## The tree of the entries -/

/-- The shape of the node of an entry. -/
def EntryRecord.shape (entry : EntryRecord) : Shape :=
  match entry.kind with
  | .directory => .directory
  | .file _ | .hardlink _ => .file
  | .symlink target _ => .symlink (joinPieces target.pieces)

instance (entries : List EntryRecord) (relative : Location) :
    Decidable (Implied entries relative) :=
  inferInstanceAs (Decidable (_ ∨ _))

/-- The shape of the tree that the entries call for. -/
def catalogShape (entries : List EntryRecord) (relative : Location) :
    Option Shape :=
  if Implied entries relative then some .directory
  else (entries.find? fun entry => entry.names = relative).map
    EntryRecord.shape

/-- Looking up a link of the catalog never takes `..` at the root. -/
def NoEscape (entries : List EntryRecord) : Prop :=
  ∀ link ∈ entries, link.isOf .symlink → ∀ config,
    Reaches (catalogShape entries) ⟨[], link.names.map .normal⟩ config →
    ¬config.Leaves

/-- The start of the lookup of an entry. -/
def EntryRecord.lookup (entry : EntryRecord) : Config :=
  ⟨[], entry.names.map .normal⟩

/-- Lookups that end can be followed. -/
theorem noEscape_of_traces
    {entries : List EntryRecord}
    (moves : Nat)
    (traced : ∀ link ∈ entries, link.isOf .symlink →
      (link.lookup.trace (catalogShape entries) moves).2 ∧
      ∀ config ∈ (link.lookup.trace (catalogShape entries) moves).1,
        ¬config.Leaves) :
    NoEscape entries := by
  intro link member isLink config reaches
  obtain ⟨ended, inside⟩ := traced link member isLink
  exact inside config (mem_trace_of_reaches ended reaches)

theorem NoEscape.inside_of_trace
    {entries : List EntryRecord}
    (noEscape : NoEscape entries)
    (moves : Nat) :
    ∀ link ∈ entries, link.isOf .symlink →
      ∀ config ∈ (link.lookup.trace (catalogShape entries) moves).1,
        ¬config.Leaves :=
  fun link member isLink config passed =>
    noEscape link member isLink config (reaches_of_mem_trace passed)

theorem Matches.shape_eq
    {entry : EntryRecord}
    {label : Label}
    (isMatch : Matches entry label) :
    label.shape = entry.shape := by
  unfold Matches at isMatch
  unfold EntryRecord.shape
  cases kind : entry.kind with
  | directory =>
      rw [kind] at isMatch
      cases label <;> simp_all [Label.isDirectory, Label.shape]
  | file groupId =>
      rw [kind] at isMatch
      obtain ⟨_, rfl⟩ := isMatch
      rfl
  | hardlink targetEntryId =>
      rw [kind] at isMatch
      obtain ⟨_, rfl⟩ := isMatch
      rfl
  | symlink target targetIsDir =>
      rw [kind] at isMatch
      subst isMatch
      rfl

theorem Restorable.eq_of_names_eq
    {entries : List EntryRecord}
    (restorable : Restorable entries)
    {first second : EntryRecord}
    (firstMember : first ∈ entries)
    (secondMember : second ∈ entries)
    (notDirectory : first.isOf .directory = false)
    (same : first.names = second.names) :
    first = second := by
  have symmetric : Std.Symm Compatible := ⟨fun _ _ => Compatible.symm⟩
  by_contra different
  have compatible := restorable.compatible.forall firstMember secondMember
    different
  refine compatible.1 notDirectory ?_
  exact same ▸ List.prefix_refl _

theorem implied_congr
    {first second : List EntryRecord}
    (sameMembers : ∀ entry, entry ∈ first ↔ entry ∈ second)
    (relative : Location) :
    Implied first relative ↔ Implied second relative := by
  simp only [Implied, sameMembers]

/-- The tree in the staging directory has the shape that the entries created so
far call for, however they are listed. -/
theorem Staged.shape_eq
    {contents : EntryRecord → List UInt8}
    {entries done listed : List EntryRecord}
    {start populated : Disk}
    {staging : Location}
    (staged : Staged contents entries start staging done populated)
    (sameMembers : ∀ entry, entry ∈ done ↔ entry ∈ listed)
    (relative : Location) :
    populated.shape (staging ++ relative) = catalogShape listed relative := by
  have implied : (∃ metadata, populated.look (staging ++ relative) =
      some (.directory metadata)) ↔ Implied listed relative := by
    rw [staged.directories, implied_congr sameMembers]
  unfold Disk.shape catalogShape
  by_cases isImplied : Implied listed relative
  · obtain ⟨metadata, found⟩ := implied.mpr isImplied
    simp [isImplied, found, Label.shape]
  · rw [if_neg isImplied]
    cases found : populated.look (staging ++ relative) with
    | none =>
        have absent : listed.find? (fun entry => entry.names = relative) =
            none := by
          rw [List.find?_eq_none]
          intro entry member same
          obtain ⟨label, present, _⟩ := staged.present entry
            ((sameMembers entry).mpr member)
          rw [of_decide_eq_true same, found] at present
          cases present
        rw [absent]
        rfl
    | some label =>
        have notDirectory : label.isDirectory = false := by
          cases label with
          | directory metadata => exact absurd (implied.mp ⟨_, found⟩) isImplied
          | file inode => rfl
          | symlink metadata target => rfl
        obtain ⟨entry, member, sameNames, isMatch⟩ :=
          staged.nodes relative label found notDirectory
        have entryKind : entry.isOf .directory = false := by
          cases kind : entry.isOf .directory with
          | false => rfl
          | true =>
              rw [isMatch.isDirectory_iff.mpr kind] at notDirectory
              cases notDirectory
        have isSome : (listed.find? fun entry =>
            entry.names = relative).isSome := by
          rw [List.find?_isSome]
          exact ⟨entry, (sameMembers entry).mp member, by simpa using sameNames⟩
        obtain ⟨other, search⟩ := Option.isSome_iff_exists.mp isSome
        have otherNames : other.names = relative := by
          simpa using List.find?_some search
        have same := staged.restorable.eq_of_names_eq member
          ((sameMembers other).mpr (List.mem_of_find?_eq_some search)) entryKind
          (sameNames.trans otherNames.symm)
        rw [search, ← same, Option.map_some, Option.map_some, isMatch.shape_eq]

theorem rootDir_notMem_names (names : List Name) :
    Component.rootDir ∉ names.map Component.normal := by
  simp

/-- Link targets of an archive are relative. -/
theorem linksRelative_catalogShape
    {entries : List EntryRecord}
    (hostable : ∀ entry ∈ entries, ∀ target targetIsDir,
      entry.kind = .symlink target targetIsDir → target.Hostable) :
    LinksRelative (catalogShape entries) := by
  intro relative target found
  unfold catalogShape at found
  split at found
  · cases found
  · obtain ⟨entry, search, shape⟩ := Option.map_eq_some_iff.mp found
    have member := List.mem_of_find?_eq_some search
    unfold EntryRecord.shape at shape
    cases kind : entry.kind with
    | directory => simp [kind] at shape
    | file groupId => simp [kind] at shape
    | hardlink targetEntryId => simp [kind] at shape
    | symlink linkTarget targetIsDir =>
        rw [kind] at shape
        cases shape
        by_cases empty : linkTarget.components = []
        · simp [LinkTarget.pieces, empty, joinPieces, lookupComponents,
            isAbsolute, lookupPiece, List.splitOn, List.splitOnP_nil]
        · rw [(hostable entry member linkTarget targetIsDir
            kind).lookupComponents_joinPieces empty]
          intro isRoot
          obtain ⟨component, _, isComponent⟩ := List.mem_map.mp isRoot
          cases component <;> simp [LinkComponent.toComponent] at isComponent

/-! ## Containment -/

/-- A destination given by its physical location, and a staging directory beside
it. -/
structure Placed (disk : Disk) (request : UnpackRequest) : Prop where
  linkFree : LinkFree disk.root request.outputParent
  different : request.stagingName ≠ request.outputName

/-- Unpacking creates entries only in the staging directory, and no restored
link leads a lookup out of the destination, however unpacking ends. -/
structure Contained
    (backends : Backends)
    (file : List UInt8)
    (limits : DecodeLimits)
    (maxTempBytes : UInt64)
    (request : UnpackRequest)
    (disk : Disk) : Prop where
  created : ∀ parsed prepared,
    prepareStaging backends file limits maxTempBytes request disk =
      (.ok parsed, prepared) →
    SameOutside request.staging prepared
      (populate backends file limits parsed request.staging prepared).2
  links : ∀ parsed prepared,
    prepareStaging backends file limits maxTempBytes request disk =
      (.ok parsed, prepared) →
    ∀ link ∈ parsed.entries, link.isOf .symlink → ∀ reached,
      Reaches (unpack backends file limits maxTempBytes request disk).2.shape
        ⟨request.outputDir, link.names.map .normal⟩ reached →
      request.outputDir <+: reached.location

/-- Unpacking the archive is contained, wherever it is unpacked to. -/
def UnpackContained
    (backends : Backends)
    (file : List UInt8)
    (limits : DecodeLimits) : Prop :=
  ∀ maxTempBytes request disk, Placed disk request →
    Contained backends file limits maxTempBytes request disk

section Containment

variable
  {backends : Backends}
  {file : List UInt8}
  {limits : DecodeLimits}
  {maxTempBytes : UInt64}
  {parsed : ParsedArchive}
  {request : UnpackRequest}
  {disk prepared : Disk}

/-- What `pathEntryExists` finds out when it finds nothing. -/
theorem Placed.output_of_not_exists
    (placed : Placed disk request)
    {after : Disk}
    (ran : pathEntryExists (absolute request.outputDir) disk =
      (.ok false, after)) :
    after = disk ∧ NoNul request.outputDir ∧
      disk.look request.outputDir = none := by
  have outcome := @resolveLast_outcome disk request.outputParent
    request.outputName placed.linkFree
  simp only [pathEntryExists, StateAction.inspect, symlinkMetadata, absolute,
    Prod.mk.injEq] at ran
  obtain ⟨result, rfl⟩ := ran
  refine ⟨rfl, ?_⟩
  unfold UnpackRequest.outputDir at result ⊢
  rw [resolveNoFollow_concat] at result
  generalize disk.resolveLast
    ((request.outputParent ++ [request.outputName]).map .normal) = resolved
    at outcome result
  cases outcome with
  | parentFound metadata noNul isDirectory =>
      refine ⟨noNul, ?_⟩
      cases found : disk.look (request.outputParent ++ [request.outputName]) with
      | none => rfl
      | some label => simp [found] at result
  | parentMissing noNul absent unblocked =>
      exact ⟨noNul, look_eq_none_of_isPrefix absent (List.prefix_append _ _)⟩
  | blocked failure otherFailure obstacle =>
      rw [error_bind] at result
      split at result
      · cases result
      · rename_i isNotFound
        cases isNotFound
        exact absurd rfl otherFailure
      · cases result

/-- The directories above the destination, when they have been made. -/
theorem Placed.parents_of_createOutputParent
    (placed : Placed disk request)
    {parented : Disk}
    (ran : createOutputParent request disk = (.ok (), parented)) :
    request.bare = true ∧ parented = disk ∨
      request.bare = false ∧ disk.Unblocked request.outputParent ∧
        DirectoriesAdded disk request.outputParent parented := by
  unfold createOutputParent at ran
  split at ran
  · rename_i isBare
    cases ran
    exact Or.inl ⟨isBare, rfl⟩
  · rename_i inDirectory
    rw [io, StateAction.mapError_eq_ok] at ran
    have outcome := createDirAll_outcome placed.linkFree
    rw [show request.outputParent.map Component.normal =
      absolute request.outputParent from rfl, ran] at outcome
    cases outcome with
    | made _ _ unblocked added =>
        exact Or.inr ⟨by simpa using inDirectory, unblocked, added⟩

/-- A staging directory that was made has a free name in a directory. -/
theorem staging_of_mkdir
    {parented : Disk}
    (linkFree : LinkFree parented.root request.outputParent)
    (ran : mkdir (absolute request.staging) parented = (.ok (), prepared)) :
    NoNul request.staging ∧
      (∃ metadata, parented.look request.outputParent =
        some (.directory metadata)) ∧
      parented.look request.staging = none := by
  simp only [mkdir, StateAction.attempt_eq_ok, bind_eq_ok, Except.ok.injEq,
    Prod.mk.injEq, true_and, absolute, UnpackRequest.staging] at ran
  obtain ⟨_, made, _⟩ := ran
  rcases @addAt_cases parented _ (Node.isLeaf_directory newDirectory)
    request.outputParent request.stagingName linkFree with
    ⟨_, metadata, _, noNul, isDirectory, _, labels⟩ | ⟨failed, _⟩ |
    ⟨failure, _, failed, _⟩
  · exact ⟨noNul, ⟨metadata, isDirectory⟩, labels.free⟩
  · cases made.symm.trans failed
  · cases made.symm.trans failed

/-- Preparing succeeds only at a free destination, on a verified archive. -/
theorem Placed.destination
    (placed : Placed disk request)
    (ran : prepareStaging backends file limits maxTempBytes request disk =
      (.ok parsed, prepared)) :
    Destination disk request ∧
      verifyOpenFile backends file limits = .ok parsed ∧
      parsed.report.originalBytes ≤ maxTempBytes := by
  simp only [prepareStaging, StateAction.bind_eq_ok, StateAction.lift_eq_ok,
    ensure_eq_ok, io, StateAction.mapError_eq_ok] at ran
  obtain ⟨present, checked, exists', _, _, ⟨rfl, rfl⟩, read, _,
    ⟨verified, rfl⟩, _, _, ⟨fits, rfl⟩, _, parented, madeParents, _, made,
    madeStaging, finish⟩ := ran
  cases finish
  obtain ⟨rfl, outputNoNul, outputFree⟩ := placed.output_of_not_exists exists'
  rcases placed.parents_of_createOutputParent madeParents with
    ⟨_, rfl⟩ | ⟨inDirectory, unblocked, added⟩
  · obtain ⟨noNul, ⟨metadata, isDirectory⟩, free⟩ :=
      staging_of_mkdir placed.linkFree madeStaging
    exact ⟨⟨outputNoNul, noNul, placed.different, placed.linkFree,
      unblocked_of_directory isDirectory, outputFree, free,
      fun _ => ⟨metadata, isDirectory⟩⟩, verified, fits⟩
  · have linkFree : LinkFree parented.root request.outputParent := by
      refine linkFree_of_look placed.linkFree ?_
      intro location _ metadata target found
      rw [added.look] at found
      split at found
      · cases found
      · exact found
    obtain ⟨noNul, _, free⟩ := staging_of_mkdir linkFree madeStaging
    rw [added.look] at free
    split at free
    · cases free
    · exact ⟨⟨outputNoNul, noNul, placed.different, placed.linkFree,
        unblocked, outputFree, free, fun isBare => by
          rw [inDirectory] at isBare
          cases isBare⟩, verified, fits⟩

/-- Flat links keep unpacking inside the staging directory. -/
theorem Placed.created
    (placed : Placed disk request)
    (flat : LinksFlat parsed.entries)
    (ran : prepareStaging backends file limits maxTempBytes request disk =
      (.ok parsed, prepared)) :
    SameOutside request.staging prepared
      (populate backends file limits parsed request.staging prepared).2 := by
  obtain ⟨destination, verified, fits⟩ := placed.destination ran
  obtain ⟨other, again, isPrepared⟩ :=
    @Destination.prepareStaging_ok backends file limits maxTempBytes parsed
      request disk destination verified fits
  rw [ran] at again
  cases again
  have loop := populate_run (verified_of_verifyOpenFile verified) flat
    destination.stagingNoNul prepared
    (isPrepared.staged (fileBytes backends file limits parsed) parsed.entries)
  match populating : populate backends file limits parsed request.staging
      prepared with
  | (.ok _, populated) =>
      rw [populating] at loop
      exact loop.outside
  | (.error failure, populated) =>
      rw [populating] at loop
      exact loop.1

/-- After unpacking, nothing stands at the destination, or a tree with the shape
of the catalog. -/
theorem Placed.unpacked_shape
    (placed : Placed disk request)
    (flat : LinksFlat parsed.entries)
    (ran : prepareStaging backends file limits maxTempBytes request disk =
      (.ok parsed, prepared))
    {result : Result Unit}
    {final : Disk}
    (unpacks : unpack backends file limits maxTempBytes request disk =
      (result, final)) :
    final.look request.outputDir = none ∨
      Restorable parsed.entries ∧ ∀ relative,
        final.shape (request.outputDir ++ relative) =
          catalogShape parsed.entries relative := by
  obtain ⟨destination, verified, fits⟩ := placed.destination ran
  obtain ⟨_, _, _, outcome⟩ := @Destination.unpack_outcome backends file limits
    maxTempBytes parsed request disk destination verified fits flat
  rw [unpacks] at outcome
  cases outcome with
  | failed failure _ notRestorable notPublished => exact Or.inl notPublished
  | unpacked populated _ staged published =>
      refine Or.inr
        ⟨(Restorable.perm (creationOrder_perm _)).mp staged.restorable, ?_⟩
      intro relative
      rw [Disk.shape, published.output,
        ← staged.shape_eq fun _ => mem_creationOrder]
      rfl

/-- A disk with nothing on it. -/
def emptyDisk : Disk where
  root := .directory newDirectory []
  inodes := []
  rootIsDirectory := rfl

/-- A destination and a staging directory at the root. -/
def rootRequest : UnpackRequest where
  outputParent := []
  outputName := [111]
  stagingName := [115]
  bare := false

theorem rootRequest_destination : Destination emptyDisk rootRequest where
  outputNoNul := by
    simp [NoNul, rootRequest, UnpackRequest.outputDir, nul]
  stagingNoNul := by
    simp [NoNul, rootRequest, UnpackRequest.staging, nul]
  different := by decide
  linkFree := by
    intro done isPrefix metadata target found
    rw [rootRequest, List.prefix_nil] at isPrefix
    subst isPrefix
    cases found
  unblocked := by
    intro done isPrefix inode found
    rw [rootRequest, List.prefix_nil] at isPrefix
    subst isPrefix
    cases found
  outputFree := rfl
  stagingFree := rfl
  workingDirectory := nofun

/-- Flat links that do not escape keep unpacking contained. -/
theorem unpackContained_of_noEscape
    (verified : verifyOpenFile backends file limits = .ok parsed)
    (flat : LinksFlat parsed.entries)
    (noEscape : Restorable parsed.entries → NoEscape parsed.entries) :
    UnpackContained backends file limits := by
  have relative := linksRelative_catalogShape fun entry member target
    targetIsDir isLink => ((verified_of_verifyOpenFile verified).links entry
      member target targetIsDir isLink).2
  intro maxTempBytes request disk placed
  refine ⟨?_, ?_⟩
  · intro read prepared ran
    have same := (placed.destination ran).2.1
    rw [verified] at same
    cases same
    exact placed.created flat ran
  · intro read prepared ran link member isLink reached reaches
    have same := (placed.destination ran).2.1
    rw [verified] at same
    cases same
    have start : Config.below request.outputDir
        ⟨[], link.names.map .normal⟩ =
        ⟨request.outputDir, link.names.map .normal⟩ := by
      simp [Config.below]
    rcases placed.unpacked_shape flat ran rfl with free | ⟨restorable, shapes⟩
    · cases reaches.eq_of_free fun name => Option.map_eq_none_iff.mpr
        (look_eq_none_of_isPrefix free (List.prefix_append _ _))
      exact List.prefix_refl _
    · rw [← start] at reaches
      exact Reaches.stays_below shapes relative
        (rootDir_notMem_names link.names)
        (noEscape restorable link member isLink) reaches

/-- A restorable archive is contained only if its links do not escape. -/
theorem UnpackContained.noEscape
    (contained : UnpackContained backends file limits)
    (verified : verifyOpenFile backends file limits = .ok parsed)
    (restorable : Restorable parsed.entries) :
    NoEscape parsed.entries := by
  have relative := linksRelative_catalogShape fun entry member target
    targetIsDir isLink => ((verified_of_verifyOpenFile verified).links entry
      member target targetIsDir isLink).2
  have flat := restorable.linksFlat
  intro link member isLink config reaches leaves
  have placed : Placed emptyDisk rootRequest :=
    ⟨rootRequest_destination.linkFree, rootRequest_destination.different⟩
  obtain ⟨prepared, _, preparing, outcome⟩ := @Destination.unpack_outcome
    backends file limits parsed.report.originalBytes parsed rootRequest
    emptyDisk rootRequest_destination verified (UInt64.le_refl _) flat
  have links := (contained parsed.report.originalBytes _ _ placed).links parsed
    prepared preparing link member isLink
  generalize unpack backends file limits parsed.report.originalBytes
    rootRequest emptyDisk = result at outcome links
  cases outcome with
  | failed failure final notRestorable notPublished =>
      exact notRestorable restorable
  | unpacked populated final staged published =>
      have shapes (below : Location) :
          final.shape (rootRequest.outputDir ++ below) =
            catalogShape parsed.entries below := by
        rw [Disk.shape, published.output,
        ← staged.shape_eq fun _ => mem_creationOrder]
        rfl
      obtain ⟨reached, lookup, outside⟩ := Reaches.leaves_below shapes
        relative (by decide) (rootDir_notMem_names link.names) reaches leaves
      refine outside (links reached ?_)
      simpa [Config.below] using lookup

end Containment

end Pithos
