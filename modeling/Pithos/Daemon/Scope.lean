import Pithos.Daemon.Paths

/-!
# Soundness of path scopes

On files that do not change, an authorised path stays within the scopes that it
was authorised for.  A path to read leads to a node below a root of the session,
one of the request and one of the server.  A path to write has a parent that,
once its missing directories are made, is a directory below such roots.
-/

namespace Pithos.Daemon

open HostPath
open Fallible
open FileTree

section Roots

variable {files : HostFiles}

@[simp] theorem orDenied_eq_ok
    {α : Type}
    {result : Except IoErrorKind α}
    {value : α} :
    orDenied result = .ok value ↔ result = .ok value := by
  cases result <;> simp [orDenied, Except.mapError]

/-- A canonical root: the absolute path of a directory. -/
def IsRoot (files : HostFiles) (root : Path) (location : Location) : Prop :=
  root = absolutePath location ∧
    (∃ metadata, files.look location = some (.directory metadata)) ∧
    root.length ≤ files.longestPath

theorem IsRoot.solid
    {root : Path}
    {location : Location}
    (isRoot : IsRoot files root location) :
    files.Solid location := by
  obtain ⟨_, ⟨metadata, present⟩, _⟩ := isRoot
  exact HostFiles.solid_of_directory present

theorem canonicalRoot_eq_ok
    {root result : Path}
    (canonical : canonicalRoot files root = .ok result) :
    ∃ location, IsRoot files result location := by
  simp only [canonicalRoot, bind_eq_ok, orDenied_eq_ok, ensure_eq_ok,
    exists_const] at canonical
  obtain ⟨_, _, label, stands, ⟨isDirectory, notLink⟩, canonical⟩ := canonical
  obtain ⟨location, found, rfl, short⟩ :=
    HostFiles.canonicalize_eq_ok.mp canonical
  obtain ⟨same, foundAgain, present⟩ :=
    HostFiles.lookup_of_symlinkMetadata stands notLink
  rw [found] at foundAgain
  cases foundAgain
  cases label with
  | directory metadata => exact ⟨location, rfl, ⟨metadata, present⟩, short⟩
  | file inode => cases isDirectory
  | symlink metadata target => cases isDirectory

/-- The roots of an authoriser are canonical. -/
structure AuthorizerOk (files : HostFiles) (authorizer : PathAuthorizer) :
    Prop where
  read : ∀ root ∈ authorizer.readRoots, ∃ location, IsRoot files root location
  write : ∀ root ∈ authorizer.writeRoots, ∃ location, IsRoot files root location

theorem PathAuthorizer.new_ok
    {scope : PathScope}
    {authorizer : PathAuthorizer}
    (created : PathAuthorizer.new files scope = .ok authorizer) :
    AuthorizerOk files authorizer := by
  simp only [PathAuthorizer.new, canonicalRoots, bind_eq_ok, ensure_eq_ok,
    exists_const, Except.ok.injEq] at created
  obtain ⟨_, readRoots, ⟨_, mappedRead⟩, writeRoots, ⟨_, mappedWrite⟩, rfl⟩ :=
    created
  constructor
  · intro root member
    obtain ⟨_, _, canonical⟩ := mem_of_mapM_eq_ok mappedRead member
    exact canonicalRoot_eq_ok canonical
  · intro root member
    obtain ⟨_, _, canonical⟩ := mem_of_mapM_eq_ok mappedWrite member
    exact canonicalRoot_eq_ok canonical

/-- A location below one of some roots, each of which leads to a directory. -/
def Inside (files : HostFiles) (roots : List Path) (location : Location) :
    Prop :=
  ∃ root ∈ roots, ∃ base metadata, files.lookup root = .ok base ∧
    files.look base = some (.directory metadata) ∧ base <+: location

/-- A path that begins with a canonical root lies inside it. -/
theorem inside_of_startsWith
    {roots : List Path}
    (canonical : ∀ root ∈ roots, ∃ location, IsRoot files root location)
    {location : Location}
    (pieces : ∀ name ∈ location, IsPiece name)
    (starts : roots.any (startsWith (absolutePath location)) = true) :
    ∃ root ∈ roots, ∃ base, IsRoot files root base ∧ base <+: location := by
  rw [List.any_eq_true] at starts
  obtain ⟨root, member, starts⟩ := starts
  obtain ⟨base, isRoot⟩ := canonical root member
  refine ⟨root, member, base, isRoot, ?_⟩
  rw [isRoot.1] at starts
  exact (startsWith_absolutePath pieces fun name isName =>
    (isRoot.solid.entries name isName).isPiece).mp starts

theorem IsRoot.inside
    {roots : List Path}
    {root : Path}
    {base location : Location}
    (isRoot : IsRoot files root base)
    (member : root ∈ roots)
    (isPrefix : base <+: location) :
    Inside files roots location := by
  have solid := isRoot.solid
  obtain ⟨rfl, ⟨metadata, present⟩, short⟩ := isRoot
  exact ⟨_, member, base, metadata, HostFiles.lookup_absolute solid short,
    present, isPrefix⟩

/-- The roots of a granted scope lie inside those of the granting one. -/
structure Within (files : HostFiles) (inner outer : PathAuthorizer) :
    Prop where
  read : ∀ location, Inside files inner.readRoots location →
    Inside files outer.readRoots location
  write : ∀ location, Inside files inner.writeRoots location →
    Inside files outer.writeRoots location

theorem PathAuthorizer.grant_ok
    {server session : PathAuthorizer}
    (serverOk : AuthorizerOk files server)
    {scope : PathScope}
    (granted : server.grant files scope = .ok session) :
    AuthorizerOk files session ∧ Within files session server := by
  simp only [PathAuthorizer.grant, bind_eq_ok, ensure_eq_ok, exists_const,
    Except.ok.injEq] at granted
  obtain ⟨requested, created, ⟨readWithin, writeWithin⟩, rfl⟩ := granted
  have ok := PathAuthorizer.new_ok created
  have widen (roots outer : List Path)
      (canonical : ∀ root ∈ roots, ∃ location, IsRoot files root location)
      (outerCanonical : ∀ root ∈ outer,
        ∃ location, IsRoot files root location)
      (within : (roots.all fun root => outer.any (startsWith root)) = true)
      (location : Location)
      (inside : Inside files roots location) :
      Inside files outer location := by
    obtain ⟨root, member, base, metadata, found, present, isPrefix⟩ := inside
    obtain ⟨same, isRoot⟩ := canonical root member
    have isSame := HostFiles.lookup_absolute isRoot.solid (isRoot.1 ▸ isRoot.2.2)
    rw [← isRoot.1, found] at isSame
    cases isSame
    have starts := List.all_eq_true.mp within root member
    rw [isRoot.1] at starts
    obtain ⟨outerRoot, outerMember, outerBase, isOuter, outerPrefix⟩ :=
      inside_of_startsWith outerCanonical
        (fun name isName => (isRoot.solid.entries name isName).isPiece) starts
    exact isOuter.inside outerMember (outerPrefix.trans isPrefix)
  exact ⟨ok, widen _ _ ok.read serverOk.read readWithin,
    widen _ _ ok.write serverOk.write writeWithin⟩

end Roots

/-! ## Paths to read -/

section Read

variable {files : HostFiles}

/-- A path to read that is authorised is the absolute path of what the client
path leads to, below one of the roots. -/
theorem PathAuthorizer.authorizeRead_ok
    {authorizer : PathAuthorizer}
    (ok : AuthorizerOk files authorizer)
    {path result : Path}
    (authorized : authorizer.authorizeRead files path = .ok result) :
    ∃ location, rejectUnsafeSyntax path = .ok () ∧
      files.lookup path = .ok location ∧
      result = absolutePath location ∧ result.length ≤ files.longestPath ∧
      Inside files authorizer.readRoots location := by
  simp only [PathAuthorizer.authorizeRead, bind_eq_ok, orDenied_eq_ok,
    ensure_eq_ok, exists_const, Except.ok.injEq] at authorized
  obtain ⟨_, isSafe, canonical, isCanonical, starts, _, _, rfl⟩ := authorized
  obtain ⟨location, found, rfl, short⟩ :=
    HostFiles.canonicalize_eq_ok.mp isCanonical
  have solid := HostFiles.lookup_solid found
  obtain ⟨root, member, base, isRoot, isPrefix⟩ := inside_of_startsWith ok.read
    (fun name isName => (solid.entries name isName).isPiece) starts
  exact ⟨location, isSafe, found, rfl, short, isRoot.inside member isPrefix⟩

/-- On unchanged files a canonical path passes the check before reading. -/
theorem PathAuthorizer.revalidateRead_absolute
    {location : Location}
    (solid : files.Solid location)
    (short : (absolutePath location).length ≤ files.longestPath)
    (isSafe : rejectUnsafeSyntax (absolutePath location) = .ok ()) :
    PathAuthorizer.revalidateRead files (absolutePath location) = .ok () := by
  have entries := solid.entries
  have canonical := HostFiles.canonicalize_absolute solid short
  obtain ⟨label, present, notLink⟩ := solid
  rw [PathAuthorizer.revalidateRead, isSafe, canonical,
    HostFiles.symlinkMetadata_absolute present entries short]
  simp [orDenied, Except.mapError, ensure, notLink]

/-- A path to read that stays within the scopes. -/
structure ReadSound
    (files : HostFiles)
    (server session request : PathAuthorizer)
    (result : Path) : Prop where
  leads : ∃ location, result = absolutePath location ∧
    files.lookup result = .ok location ∧ files.Solid location ∧
    Inside files session.readRoots location ∧
    Inside files request.readRoots location ∧
    Inside files server.readRoots location
  revalidates : PathAuthorizer.revalidateRead files result = .ok ()

theorem authorizeRead_sound
    {server session request : PathAuthorizer}
    (sessionOk : AuthorizerOk files session)
    (within : Within files session server)
    (requestOk : AuthorizerOk files request)
    {path result : Path}
    (authorized : authorizeRead files session request path = .ok result) :
    ReadSound files server session request result := by
  simp only [authorizeRead, bind_eq_ok] at authorized
  obtain ⟨middle, first, second⟩ := authorized
  obtain ⟨location, _, found, rfl, short, inSession⟩ :=
    PathAuthorizer.authorizeRead_ok sessionOk first
  have solid := HostFiles.lookup_solid found
  obtain ⟨again, isSafe, foundAgain, rfl, _, inRequest⟩ :=
    PathAuthorizer.authorizeRead_ok requestOk second
  have leads := HostFiles.lookup_absolute solid short
  rw [leads] at foundAgain
  cases foundAgain
  exact ⟨⟨location, rfl, leads, solid, inSession, inRequest,
    within.read location inSession⟩,
    PathAuthorizer.revalidateRead_absolute solid short isSafe⟩

end Read

/-! ## The nearest parent -/

section Nearest

variable {files : HostFiles}

/-- A location put together from a directory and the names missing in it. -/
structure Pending
    (files : HostFiles)
    (location missing : List Name) : Prop where
  isDirectory : ∃ metadata, files.look location = some (.directory metadata)
  entries : ∀ name ∈ location ++ missing, IsEntry name
  absent : ∀ name ∈ missing.head?, files.look (location ++ [name]) = none

theorem Pending.look_missing
    {location missing front : List Name}
    (pending : Pending files location missing)
    (isPrefix : front <+: missing)
    (nonempty : front ≠ []) :
    files.look (location ++ front) = none := by
  obtain ⟨first, rest, rfl⟩ := List.exists_cons_of_ne_nil nonempty
  obtain ⟨tail, rfl⟩ := isPrefix
  have absent := pending.absent first (by simp)
  exact look_eq_none_of_isPrefix absent (by simp)

/-- No link stands on the way to a pending location. -/
theorem Pending.linkFree
    {location missing : List Name}
    (pending : Pending files location missing) :
    LinkFree files.disk.root (location ++ missing) := by
  intro done isPrefix metadata target isLink
  obtain ⟨_, present⟩ := pending.isDirectory
  have free := (HostFiles.solid_of_directory present).linkFree
  rcases List.prefix_or_prefix_of_prefix isPrefix
    (List.prefix_append location missing) with shorter | ⟨front, rfl⟩
  · exact free done shorter metadata target isLink
  · by_cases nonempty : front = []
    · subst nonempty
      rw [List.append_nil] at isLink
      exact free location List.prefix_rfl metadata target isLink
    · have absent := pending.look_missing
        ((List.prefix_append_right_inj location).mp isPrefix) nonempty
      have isSame := absent.symm.trans isLink
      cases isSame

theorem Pending.unblocked
    {location missing : List Name}
    (pending : Pending files location missing) :
    files.disk.Unblocked (location ++ missing) := by
  intro done isPrefix inode isFile
  obtain ⟨_, present⟩ := pending.isDirectory
  rcases List.prefix_or_prefix_of_prefix isPrefix
    (List.prefix_append location missing) with shorter | ⟨front, rfl⟩
  · exact Disk.unblocked_of_directory present done shorter inode isFile
  · by_cases nonempty : front = []
    · subst nonempty
      rw [List.append_nil] at isFile
      have isSame := present.symm.trans isFile
      cases isSame
    · have absent := pending.look_missing
        ((List.prefix_append_right_inj location).mp isPrefix) nonempty
      have isSame := absent.symm.trans isFile
      cases isSame

/-- A lookup of the text of some components walks them. -/
theorem walk_of_lookup_pathText
    {path start : List Component}
    {names : List Name}
    (parsed : Parsed path start names)
    {location : Location}
    (found : files.lookup (pathText path) = .ok location) :
    files.walk path = .ok location := by
  simp only [HostFiles.lookup, bind_eq_ok] at found
  obtain ⟨_, _, walked⟩ := found
  by_cases isRoot : path = [.rootDir]
  · subst isRoot
    exact walked
  · rwa [parsed.lookupComponents_pathText isRoot] at walked

/-- A name reported missing is missing in the directory that the names before it
lead to. -/
theorem look_eq_none_of_notFound
    {above start : List Component}
    {names : List Name}
    {name : Name}
    (parsed : Parsed (above ++ [.normal name]) start names)
    {location : Location}
    (found : files.lookup (pathText above) = .ok location)
    (isDirectory : ∃ metadata, files.look location = some (.directory metadata))
    (missing : files.symlinkMetadata (pathText (above ++ [.normal name])) =
      .error .notFound) :
    files.look (location ++ [name]) = none := by
  obtain ⟨first, others, parsedAbove⟩ :=
    parsed.of_prefix (List.prefix_append above [.normal name])
  have walked := walk_of_lookup_pathText parsedAbove found
  have notRoot : above ++ [.normal name] ≠ [.rootDir] := by
    intro same
    have last := congrArg List.getLast? same
    simp at last
  have isParent : (files.look location).any Label.isDirectory := by
    obtain ⟨metadata, present⟩ := isDirectory
    rw [present]
    rfl
  have readBack := parsed.lookupComponents_pathText notRoot
  have nonempty : pathText (above ++ [.normal name]) ≠ [] := by
    intro empty
    rw [empty] at readBack
    have length := congrArg List.length readBack
    simp [lookupComponents, isAbsolute, lookupPiece] at length
  rw [HostFiles.symlinkMetadata, HostFiles.lookupNoFollow, readBack,
    List.getLast?_concat, List.dropLast_concat, walked] at missing
  cases admitted : files.vet (pathText (above ++ [.normal name])) with
  | error failure =>
      simp only [admitted, error_bind, Except.error.injEq] at missing
      exact absurd (missing ▸ admitted) (HostFiles.vet_ne_notFound nonempty)
  | ok value =>
      simp only [admitted, ok_bind, ensure_of isParent] at missing
      cases present : files.look (location ++ [name]) with
      | none => rfl
      | some label =>
          rw [present] at missing
          cases missing

/-- The nearest existing parent of a path, with the names missing below it. -/
theorem canonicalizeNearest_ok
    {current : List Component}
    {missing : List Name}
    {result : Path}
    {start : List Component}
    {names : List Name}
    (parsed : Parsed current.reverse start names)
    (found : canonicalizeNearest files current missing = .ok result) :
    ∃ above location dropped,
      current.reverse = above ++ dropped.map .normal ∧
        files.lookup (pathText above) = .ok location ∧
        (∃ metadata, files.look location = some (.directory metadata)) ∧
        (absolutePath location).length ≤ files.longestPath ∧
        (∀ name ∈ dropped.head?, files.look (location ++ [name]) = none) ∧
        result = (dropped ++ missing).foldl push (absolutePath location) := by
  have arrived (current : List Component) (missing : List Name)
      (label : Label)
      (stands : files.symlinkMetadata (pathText current.reverse) = .ok label)
      (found : (do
        ensure (label.isDirectory = true ∧ label.isSymlink = false) pathDenied
        let canonical ←
          orDenied (files.canonicalize (pathText current.reverse))
        .ok (missing.foldl push canonical)) = .ok result) :
      ∃ location, files.lookup (pathText current.reverse) = .ok location ∧
        (∃ metadata, files.look location = some (.directory metadata)) ∧
        (absolutePath location).length ≤ files.longestPath ∧
        result = missing.foldl push (absolutePath location) := by
    simp only [bind_eq_ok, ensure_eq_ok, orDenied_eq_ok, exists_const,
      Except.ok.injEq] at found
    obtain ⟨⟨isDirectory, notLink⟩, canonical, isCanonical, rfl⟩ := found
    obtain ⟨location, leads, rfl, short⟩ :=
      HostFiles.canonicalize_eq_ok.mp isCanonical
    obtain ⟨same, leadsAgain, present⟩ :=
      HostFiles.lookup_of_symlinkMetadata stands notLink
    rw [leads] at leadsAgain
    cases leadsAgain
    cases label with
    | directory metadata => exact ⟨location, leads, ⟨_, present⟩, short, rfl⟩
    | file inode => cases isDirectory
    | symlink metadata target => cases isDirectory
  induction current generalizing missing start names with
  | nil =>
      unfold canonicalizeNearest at found
      split at found
      · rename_i label stands
        obtain ⟨location, leads, isDirectory, short, rfl⟩ :=
          arrived _ _ label stands found
        exact ⟨_, location, [], (List.append_nil _).symm, leads, isDirectory,
          short, by rintro _ ⟨⟩, rfl⟩
      · cases found
      · cases found
  | cons last rest inductionHypothesis =>
      unfold canonicalizeNearest at found
      split at found
      · rename_i label stands
        obtain ⟨location, leads, isDirectory, short, rfl⟩ :=
          arrived _ _ label stands found
        exact ⟨_, location, [], (List.append_nil _).symm, leads, isDirectory,
          short, by rintro _ ⟨⟩, rfl⟩
      · rename_i stands
        split at found
        · rename_i name above isNormal
          cases isNormal
          rw [List.reverse_cons] at parsed stands ⊢
          obtain ⟨first, others, parsedAbove⟩ :=
            parsed.of_prefix (List.prefix_append rest.reverse [.normal name])
          obtain ⟨above, location, dropped, isRest, leads, isDirectory, short,
            absent, rfl⟩ := inductionHypothesis parsedAbove found
          refine ⟨above, location, dropped ++ [name], ?_, leads, isDirectory,
            short, ?_, by simp⟩
          · rw [isRest]
            simp
          · intro asked isHead
            cases dropped with
            | nil =>
                cases isHead
                rw [List.map_nil, List.append_nil] at isRest
                rw [isRest] at parsed stands
                exact look_eq_none_of_notFound parsed leads isDirectory stands
            | cons head tail => exact absent asked isHead
        · cases found
      · cases found

/-- A path with a NUL byte has no nearest parent. -/
theorem canonicalizeNearest_noNul
    {current : List Component}
    {missing : List Name}
    {result : Path}
    (found : canonicalizeNearest files current missing = .ok result) :
    0 ∉ pathText current.reverse := by
  intro hasNul
  unfold canonicalizeNearest at found
  simp [HostFiles.symlinkMetadata, HostFiles.lookupNoFollow,
    HostFiles.vet_of_nul hasNul] at found

/-- The nearest parent of a path is pending. -/
theorem canonicalizeNearestParent_ok
    {path result : Path}
    (found : canonicalizeNearestParent files path = .ok result) :
    ∃ above location dropped,
      components path = above ++ dropped.map .normal ∧
        files.lookup (pathText above) = .ok location ∧
        Pending files location dropped ∧
        result = absolutePath (location ++ dropped) := by
  obtain ⟨start, names, parsed⟩ := parsed_components path
  have noNul := canonicalizeNearest_noNul found
  rw [List.reverse_reverse] at noNul
  obtain ⟨above, location, dropped, isPath, leads, isDirectory, short, absent,
    rfl⟩ := canonicalizeNearest_ok (by rwa [List.reverse_reverse]) found
  rw [List.reverse_reverse] at isPath
  have solid := HostFiles.lookup_solid leads
  have droppedEntries (name : Name) (member : name ∈ dropped) :
      IsEntry name := by
    have isComponent : .normal name ∈ components path := by
      rw [isPath]
      exact List.mem_append_right _ (List.mem_map_of_mem member)
    refine ⟨parsed.isNormal_of_mem isComponent, fun hasNul => noNul ?_⟩
    exact mem_pathText isComponent hasNul (by decide)
  refine ⟨above, location, dropped, isPath, leads, ⟨isDirectory, ?_, absent⟩, ?_⟩
  · intro name member
    rcases List.mem_append.mp member with member | member
    · exact solid.entries name member
    · exact droppedEntries name member
  · rw [List.append_nil, foldl_push_absolutePath]
    · exact fun name member => (solid.entries name member).isPiece
    · exact fun name member => (droppedEntries name member).isPiece

theorem Pending.isNormal
    {location missing : List Name}
    (pending : Pending files location missing) :
    ∀ name ∈ location ++ missing, IsNormal name :=
  fun name member => (pending.entries name member).toIsNormal

/-- The nearest parent of a pending path is the path itself. -/
theorem Pending.canonicalizeNearestParent_eq
    {location missing : List Name}
    (pending : Pending files location missing)
    {result : Path}
    (found : canonicalizeNearestParent files
      (absolutePath (location ++ missing)) = .ok result) :
    result = absolutePath (location ++ missing) := by
  obtain ⟨above, other, dropped, isPath, leads, _, rfl⟩ :=
    canonicalizeNearestParent_ok found
  rw [components_absolutePath fun name member =>
    (pending.isNormal name member).isPiece,
    map_nameComponent pending.isNormal] at isPath
  cases above with
  | nil =>
      cases dropped with
      | nil => cases isPath
      | cons first rest => cases isPath
  | cons first above =>
      rw [List.cons_append, List.cons.injEq] at isPath
      obtain ⟨rfl, isRest⟩ := isPath
      obtain ⟨front, back, whole, rfl, sameBack⟩ :=
        List.map_eq_append_iff.mp isRest
      have isBack : back = dropped :=
        List.map_injective_iff.mpr (fun _ _ => Component.normal.inj) sameBack
      subst isBack
      have isPrefix : front <+: location ++ missing := ⟨back, whole.symm⟩
      have entries (name : Name) (member : name ∈ front) : IsEntry name :=
        pending.entries name (isPrefix.subset member)
      rw [← absolutePath_eq_pathText fun name member =>
        (entries name member).toIsNormal] at leads
      rw [HostFiles.lookup_linkFree entries
        (Disk.LinkFree.take pending.linkFree isPrefix) leads, whole]

/-- A pending path whose text is not too long has a nearest parent. -/
theorem Pending.canonicalizeNearest_eq
    {location missing : List Name}
    (pending : Pending files location missing)
    (short : (absolutePath (location ++ missing)).length ≤ files.longestPath)
    (rest : List Name) :
    canonicalizeNearest files
        (.rootDir :: (location ++ missing).map .normal).reverse rest =
      .ok ((missing ++ rest).foldl push (absolutePath location)) := by
  induction missing using List.reverseRecOn generalizing rest with
  | nil =>
      obtain ⟨metadata, present⟩ := pending.isDirectory
      have solid := HostFiles.solid_of_directory present
      rw [List.append_nil] at short ⊢
      have text := absolutePath_eq_pathText fun name member =>
        (solid.entries name member).toIsNormal
      unfold canonicalizeNearest
      rw [List.reverse_reverse, ← text,
        HostFiles.symlinkMetadata_absolute present solid.entries short]
      simp only [HostFiles.canonicalize_absolute solid short]
      rfl
  | append_singleton front name inductionHypothesis =>
      have isPrefix : location ++ front <+: location ++ (front ++ [name]) := by
        rw [← List.append_assoc]
        exact List.prefix_append _ _
      have above : Pending files location front := by
        refine ⟨pending.isDirectory, fun entry member =>
          pending.entries entry (isPrefix.subset member), ?_⟩
        intro entry isHead
        refine pending.absent entry ?_
        cases front with
        | nil => cases isHead
        | cons first others => exact isHead
      have entries := pending.entries
      have absent := pending.look_missing List.prefix_rfl (by simp)
      rw [← List.append_assoc] at short entries absent ⊢
      have missing := HostFiles.symlinkMetadata_missing entries
        above.linkFree above.unblocked absent short
      rw [absolutePath_eq_pathText fun entry member =>
        (entries entry member).toIsNormal] at missing
      have shorter := Nat.le_trans (length_absolutePath_le
        (List.prefix_append (location ++ front) [name])) short
      have more := inductionHypothesis above shorter (name :: rest)
      unfold canonicalizeNearest
      rw [List.reverse_reverse, missing]
      rw [List.map_append, List.map_singleton, ← List.cons_append,
        List.reverse_append, List.reverse_singleton, List.singleton_append]
      simp only
      rw [more]
      simp

end Nearest

/-! ## Paths to write -/

section Write

variable {files : HostFiles}

theorem isNormal_of_fileName
    {path : Path}
    {name : Name}
    (isName : fileName path = some name) :
    IsNormal name := by
  obtain ⟨start, names, parsed⟩ := parsed_components path
  unfold fileName at isName
  split at isName
  · rename_i isLast
    cases isName
    exact parsed.isNormal_of_mem (List.mem_of_getLast? isLast)
  all_goals cases isName

/-- A path to write that is authorised is a name in a pending location below one
of the roots. -/
theorem PathAuthorizer.authorizeWrite_ok
    {authorizer : PathAuthorizer}
    (ok : AuthorizerOk files authorizer)
    {path result : Path}
    (authorized : authorizer.authorizeWrite files path = .ok result) :
    ∃ parent location missing name, rejectUnsafeSyntax path = .ok () ∧
      HostPath.parent path = some parent ∧
      canonicalizeNearestParent files parent =
        .ok (absolutePath (location ++ missing)) ∧
      Pending files location missing ∧ fileName path = some name ∧
      result = absolutePath (location ++ missing ++ [name]) ∧
      Inside files authorizer.writeRoots (location ++ missing) := by
  simp only [PathAuthorizer.authorizeWrite, bind_eq_ok, okOr_eq_ok,
    ensure_eq_ok, exists_const, Except.ok.injEq] at authorized
  obtain ⟨_, isSafe, parent, isParent, canonical, found, starts, _, _, name,
    isName, rfl⟩ := authorized
  obtain ⟨above, location, missing, _, _, pending, rfl⟩ :=
    canonicalizeNearestParent_ok found
  have pieces (entry : Name) (member : entry ∈ location ++ missing) :
      IsPiece entry := (pending.isNormal entry member).isPiece
  obtain ⟨root, member, base, isRoot, isPrefix⟩ :=
    inside_of_startsWith ok.write pieces starts
  exact ⟨parent, location, missing, name, isSafe, isParent, found, pending,
    isName, push_absolutePath pieces (isNormal_of_fileName isName).isPiece,
    isRoot.inside member isPrefix⟩

/-- Making the missing directories of a pending location leaves a directory
there, with no link on the way. -/
theorem Pending.createDirAll
    {location missing : List Name}
    (pending : Pending files location missing) :
    ∃ after, Disk.createDirAll ((location ++ missing).map .normal) files.disk =
        (.ok (), after) ∧
      after.resolve ((location ++ missing).map .normal) =
        .ok (location ++ missing) ∧
      (∃ metadata, after.look (location ++ missing) =
        some (.directory metadata)) ∧
      ∀ other label, files.look other = some label →
        after.look other = some label := by
  have noNul : Disk.NoNul (location ++ missing) :=
    fun name member => (pending.entries name member).noNul
  have outcome := Disk.createDirAll_outcome pending.linkFree
  generalize Disk.createDirAll ((location ++ missing).map .normal) files.disk =
    result at outcome
  cases outcome with
  | failed failure obstacle =>
      rcases obstacle with hasNul | blocked
      · exact absurd noNul hasNul
      · exact absurd pending.unblocked blocked
  | made after _ _ added =>
      have kept (other : Location) (label : Label)
          (present : files.look other = some label) :
          after.look other = some label := by
        change files.disk.look other = some label at present
        rw [added.look, if_neg (by simp [present]), present]
      have made : ∃ metadata, after.look (location ++ missing) =
          some (.directory metadata) := by
        by_cases nonempty : missing = []
        · subst nonempty
          obtain ⟨metadata, present⟩ := pending.isDirectory
          rw [List.append_nil]
          exact ⟨metadata, kept _ _ present⟩
        · have absent := pending.look_missing List.prefix_rfl nonempty
          exact ⟨_, by rw [added.look, if_pos ⟨List.prefix_rfl, absent⟩]⟩
      have linkFree : LinkFree after.root (location ++ missing) := by
        refine Disk.linkFree_of_look pending.linkFree ?_
        intro done isPrefix metadata target isLink
        rw [added.look] at isLink
        split at isLink
        · cases isLink
        · exact isLink
      refine ⟨after, rfl, ?_, made, kept⟩
      obtain ⟨metadata, present⟩ := made
      refine (Disk.resolve_eq_ok linkFree).mpr ⟨noNul, ?_, rfl⟩
      rw [present]
      rfl

/-- A path with a nearest parent is not too long. -/
theorem Pending.short
    {location missing : List Name}
    (pending : Pending files location missing)
    {result : Path}
    (found : canonicalizeNearestParent files
      (absolutePath (location ++ missing)) = .ok result) :
    (absolutePath (location ++ missing)).length ≤ files.longestPath := by
  by_contra long
  rw [canonicalizeNearestParent, components_absolutePath fun entry member =>
    (pending.isNormal entry member).isPiece,
    map_nameComponent pending.isNormal] at found
  unfold canonicalizeNearest at found
  rw [List.reverse_reverse, ← absolutePath_eq_pathText pending.isNormal]
    at found
  simp [HostFiles.symlinkMetadata, HostFiles.lookupNoFollow, HostFiles.vet,
    ensure_of_not long] at found

/-- On unchanged files a name in a pending location passes the check before
writing, unless it is a link. -/
theorem Pending.revalidateWrite
    {location missing : List Name}
    (pending : Pending files location missing)
    {name : Name}
    (isNormal : IsNormal name)
    (isSafe : rejectUnsafeSyntax
      (absolutePath (location ++ missing ++ [name])) = .ok ())
    (short : (absolutePath (location ++ missing)).length ≤ files.longestPath)
    (notLink : ∀ metadata target, files.symlinkMetadata
      (absolutePath (location ++ missing ++ [name])) ≠
        .ok (.symlink metadata target)) :
    PathAuthorizer.revalidateWrite files
      (absolutePath (location ++ missing ++ [name])) = .ok () := by
  have areNormal (entry : Name)
      (member : entry ∈ location ++ missing ++ [name]) : IsNormal entry := by
    rcases List.mem_append.mp member with member | member
    · exact pending.isNormal entry member
    · rwa [List.mem_singleton.mp member]
  have pieces (entry : Name) (member : entry ∈ location ++ missing) :
      IsPiece entry := (pending.isNormal entry member).isPiece
  have found := pending.canonicalizeNearest_eq short []
  rw [List.append_nil, foldl_push_absolutePath
    (fun entry member => pieces entry (List.mem_append_left _ member))
    (fun entry member => pieces entry (List.mem_append_right _ member)),
    ← map_nameComponent pending.isNormal,
    ← components_absolutePath pieces] at found
  rw [PathAuthorizer.revalidateWrite, isSafe, ok_bind,
    parent_absolutePath areNormal, okOr_some, ok_bind,
    canonicalizeNearestParent, found, ok_bind, ensure_of rfl, ok_bind]
  split
  · rename_i metadata isMetadata
    rw [ensure_eq_ok]
    cases metadata with
    | directory metadata => rfl
    | file inode => rfl
    | symlink metadata target => exact absurd isMetadata (notLink _ _)
  · rfl

/-- A path to write that stays within the scopes. -/
structure WriteSound
    (files : HostFiles)
    (server session request : PathAuthorizer)
    (result : Path) : Prop where
  leads : ∃ location name after,
    result = absolutePath (location ++ [name]) ∧
      HostPath.parent result = some (absolutePath location) ∧
      Disk.createDirAll (location.map .normal) files.disk = (.ok (), after) ∧
      after.resolve (location.map .normal) = .ok location ∧
      (∃ metadata, after.look location = some (.directory metadata)) ∧
      (∀ other label, files.look other = some label →
        after.look other = some label) ∧
      Inside files session.writeRoots location ∧
      Inside files request.writeRoots location ∧
      Inside files server.writeRoots location
  revalidates :
    (∀ metadata target,
      files.symlinkMetadata result ≠ .ok (.symlink metadata target)) →
    PathAuthorizer.revalidateWrite files result = .ok ()

theorem authorizeWrite_sound
    {server session request : PathAuthorizer}
    (sessionOk : AuthorizerOk files session)
    (within : Within files session server)
    (requestOk : AuthorizerOk files request)
    {path result : Path}
    (authorized : authorizeWrite files session request path = .ok result) :
    WriteSound files server session request result := by
  simp only [authorizeWrite, bind_eq_ok] at authorized
  obtain ⟨middle, first, second⟩ := authorized
  obtain ⟨_, location, missing, name, _, _, _, pending, isName, rfl,
    inSession⟩ := PathAuthorizer.authorizeWrite_ok sessionOk first
  obtain ⟨parent, again, missingAgain, nameAgain, isSafe, isParent, found,
    pendingAgain, isNameAgain, rfl, inRequest⟩ :=
    PathAuthorizer.authorizeWrite_ok requestOk second
  have isNormal := isNormal_of_fileName isName
  have areNormal (entry : Name)
      (member : entry ∈ location ++ missing ++ [name]) : IsNormal entry := by
    rcases List.mem_append.mp member with member | member
    · exact pending.isNormal entry member
    · rwa [List.mem_singleton.mp member]
  -- The path authorised for the session is its own canonical form.
  rw [parent_absolutePath areNormal] at isParent
  cases isParent
  rw [fileName_absolutePath areNormal] at isNameAgain
  cases isNameAgain
  have same := absolutePath_injective
    (fun entry member => (pendingAgain.isNormal entry member).isPiece)
    (fun entry member => (pending.isNormal entry member).isPiece)
    (pending.canonicalizeNearestParent_eq found)
  rw [same] at inRequest ⊢
  obtain ⟨after, made, resolves, isDirectory, kept⟩ := pending.createDirAll
  refine ⟨⟨location ++ missing, name, after, rfl,
    parent_absolutePath areNormal, made, resolves, isDirectory, kept, inSession,
    inRequest, within.write _ inSession⟩, ?_⟩
  exact pending.revalidateWrite isNormal isSafe (pending.short found)

end Write

/-! ## The guarantee -/

/-- All authorised paths stay within the scopes. -/
structure ScopeSound
    (files : HostFiles)
    (server session request : PathAuthorizer) : Prop where
  read : ∀ path result,
    authorizeRead files session request path = .ok result →
    ReadSound files server session request result
  write : ∀ path result,
    authorizeWrite files session request path = .ok result →
    WriteSound files server session request result

/-- A directory with a link to another one. -/
def sampleTree : Node :=
  .directory newDirectory [
    (Bytes.textBytes "data", .directory newDirectory [
      (Bytes.textBytes "inner", .directory newDirectory [])]),
    (Bytes.textBytes "link", .symlink newFile (Bytes.textBytes "/data"))]

theorem sampleTree_named : Named sampleTree := by
  refine named_directory _ ?_
  simp only [List.mem_cons, List.not_mem_nil, or_false, forall_eq_or_imp,
    forall_eq]
  refine ⟨⟨?_, named_directory _ ?_⟩, ?_, named_of_isLeaf
    (Node.isLeaf_symlink _ _)⟩
  · exact ⟨⟨⟨by decide, by decide, by decide⟩, by decide⟩, by decide⟩
  · simp only [List.mem_singleton, forall_eq]
    refine ⟨?_, named_of_isLeaf (Node.isLeaf_directory _)⟩
    exact ⟨⟨⟨by decide, by decide, by decide⟩, by decide⟩, by decide⟩
  · exact ⟨⟨⟨by decide, by decide, by decide⟩, by decide⟩, by decide⟩

/-- These files, seen from the root. -/
def sampleFiles : HostFiles where
  disk := ⟨sampleTree, [], rfl⟩
  workingDirectory := []
  longestPath := 4095
  named := sampleTree_named
  isDirectory := ⟨newDirectory, rfl⟩

/-- A scope with one root to read and write below. -/
def sampleRoot (root : String) : PathScope where
  readRoots := [Bytes.textBytes root]
  writeRoots := [Bytes.textBytes root]

/-- An authoriser with one root. -/
def sampleAuthorizer (root : String) : PathAuthorizer where
  readRoots := [Bytes.textBytes root]
  writeRoots := [Bytes.textBytes root]

/-- An authorised path to read leads to a node inside a root of the session, of
the request and of the server; one to write names an entry of a directory inside
such roots, once that directory has been made.  Both pass the later checks on
unchanged files, but for a link to write at. -/
theorem pathAuthorizer_sound
    {files : HostFiles}
    {serverScope sessionScope requestScope : PathScope}
    {server session request : PathAuthorizer}
    (opened : PathAuthorizer.new files serverScope = .ok server)
    (granted : server.grant files sessionScope = .ok session)
    (requested : PathAuthorizer.new files requestScope = .ok request) :
    ScopeSound files server session request := by
  obtain ⟨sessionOk, within⟩ :=
    PathAuthorizer.grant_ok (PathAuthorizer.new_ok opened) granted
  have requestOk := PathAuthorizer.new_ok requested
  exact ⟨fun _ _ => authorizeRead_sound sessionOk within requestOk,
    fun _ _ => authorizeWrite_sound sessionOk within requestOk⟩

theorem sample_opened :
    PathAuthorizer.new sampleFiles (sampleRoot "/") =
      .ok (sampleAuthorizer "/") := rfl

theorem sample_granted :
    (sampleAuthorizer "/").grant sampleFiles (sampleRoot "/data") =
      .ok (sampleAuthorizer "/data") := rfl

/-- A path through the link is authorised as the path below the directory that
the link leads to. -/
theorem sample_sound :
    authorizeRead sampleFiles (sampleAuthorizer "/data") (sampleAuthorizer "/")
        (Bytes.textBytes "/link/inner") =
      .ok (Bytes.textBytes "/data/inner") ∧
    authorizeWrite sampleFiles (sampleAuthorizer "/data") (sampleAuthorizer "/")
        (Bytes.textBytes "/link/inner/new/file") =
      .ok (Bytes.textBytes "/data/inner/new/file") ∧
    ScopeSound sampleFiles (sampleAuthorizer "/") (sampleAuthorizer "/data")
      (sampleAuthorizer "/") :=
  ⟨rfl, rfl, pathAuthorizer_sound sample_opened sample_granted sample_opened⟩

end Pithos.Daemon
