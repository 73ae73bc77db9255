import Pithos.Library.HostPath

/-!
# Paths as texts

The text of a path with given components, and the operations of a path library
on it: the parent, the last name and whether one path lies below another.  A
path put together from components reads back as these components.
-/

namespace HostPath

/-! ## Operations -/

/-- The text of one component. -/
def componentText : Component → Name
  | .rootDir => []
  | .curDir => currentName
  | .parentDir => parentName
  | .normal name => name

/-- The text of a path with the given components. -/
def pathText : List Component → Path
  | .rootDir :: rest => separator :: joinPieces (rest.map componentText)
  | path => joinPieces (path.map componentText)

/-- The absolute path of some names. -/
def absolutePath (names : List Name) : Path :=
  separator :: joinPieces names

/-- The path without its last component.  The text is in normal form; a lookup
does not tell it from one with more separators or `.` in it. -/
def parent (path : Path) : Option Path :=
  match (components path).getLast? with
  | none | some .rootDir => none
  | some .curDir | some .parentDir | some (.normal _) =>
      some (pathText (components path).dropLast)

/-- The last component of a path, when it is a name. -/
def fileName (path : Path) : Option Name :=
  match (components path).getLast? with
  | some (.normal name) => some name
  | none | some .rootDir | some .curDir | some .parentDir => none

/-- Whether the components of a path begin with those of another one. -/
def startsWith (path base : Path) : Bool :=
  (components base).isPrefixOf (components path)

/-! ## Components of texts -/

/-- A name that reads as a normal component. -/
structure IsNormal (name : Name) : Prop where
  isPiece : IsPiece name
  notParent : name ≠ parentName

/-- The name of a directory entry. -/
structure IsEntry (name : Name) : Prop extends IsNormal name where
  noNul : 0 ∉ name

@[simp] theorem componentText_nameComponent (name : Name) :
    componentText (nameComponent name) = name := by
  unfold nameComponent
  split
  · rename_i isParent
    rw [isParent]
    rfl
  · rfl

theorem map_nameComponent
    {names : List Name}
    (areNormal : ∀ name ∈ names, IsNormal name) :
    names.map nameComponent = names.map .normal :=
  List.map_congr_left fun name member =>
    if_neg (areNormal name member).notParent

/-- The shape of the components of a path. -/
structure Parsed (path start : List Component) (names : List Name) :
    Prop where
  isStart : start = [] ∨ start = [.rootDir] ∨ start = [.curDir]
  pieces : ∀ name ∈ names, IsPiece name
  eq : path = start ++ names.map nameComponent

theorem filterMap_pieceComponent
    {pieces : List Name}
    (noSeparator : ∀ piece ∈ pieces, separator ∉ piece) :
    ∃ names : List Name, (∀ name ∈ names, IsPiece name) ∧
      pieces.filterMap pieceComponent = names.map nameComponent := by
  refine ⟨pieces.filter fun piece => piece ≠ [] ∧ piece ≠ currentName, ?_, ?_⟩
  · intro name member
    obtain ⟨isPiece, kept⟩ := List.mem_filter.mp member
    simp only [decide_eq_true_eq] at kept
    exact ⟨kept.1, noSeparator name isPiece, kept.2⟩
  · induction pieces with
    | nil => rfl
    | cons first rest inductionHypothesis =>
        have tail := inductionHypothesis fun piece member =>
          noSeparator piece (List.mem_cons_of_mem _ member)
        by_cases dropped : first = [] ∨ first = currentName
        · rw [List.filterMap_cons_none (by simp [pieceComponent, dropped]),
            List.filter_cons_of_neg (by
              rw [decide_eq_true_eq]
              tauto), tail]
        · rw [List.filterMap_cons_some (by
            simp only [pieceComponent, dropped, if_false]; rfl), tail,
            List.filter_cons_of_pos (by
              rw [decide_eq_true_eq]
              tauto)]
          rfl

theorem separator_not_mem_of_mem_splitOn
    {path : Path}
    {piece : Name}
    (member : piece ∈ path.splitOn separator) :
    separator ∉ piece := by
  induction path generalizing piece with
  | nil =>
      rw [List.splitOn_nil, List.mem_singleton] at member
      simp [member]
  | cons byte rest inductionHypothesis =>
      rw [List.splitOn_cons_eq_if_modifyHead] at member
      split at member
      · rcases List.mem_cons.mp member with rfl | member
        · simp
        · exact inductionHypothesis member
      · rename_i different
        cases pieces : rest.splitOn separator with
        | nil => exact absurd pieces (List.splitOn_ne_nil _ _)
        | cons first others =>
            rw [pieces] at member inductionHypothesis
            rcases List.mem_cons.mp member with rfl | member
            · have noSeparator := inductionHypothesis List.mem_cons_self
              simp only [beq_iff_eq] at different
              simp [noSeparator, Ne.symm different]
            · exact inductionHypothesis (List.mem_cons_of_mem _ member)

/-- The components of a path are its names after what it starts at. -/
theorem parsed_components (path : Path) :
    ∃ start names, Parsed (components path) start names := by
  have noSeparator (piece : Name) (member : piece ∈ path.splitOn separator) :
      separator ∉ piece := separator_not_mem_of_mem_splitOn member
  unfold components
  cases isSplit : path.splitOn separator with
  | nil => exact absurd isSplit (List.splitOn_ne_nil _ _)
  | cons first rest =>
      rw [isSplit] at noSeparator
      obtain ⟨names, areNames, isRest⟩ := filterMap_pieceComponent
        fun piece member => noSeparator piece (List.mem_cons_of_mem _ member)
      simp only
      split
      · exact ⟨[.rootDir], names, Or.inr (Or.inl rfl), areNames, by
          rw [isRest]; rfl⟩
      · split
        · exact ⟨[.curDir], names, Or.inr (Or.inr rfl), areNames, by
            rw [isRest]; rfl⟩
        · obtain ⟨all, areAll, isAll⟩ := filterMap_pieceComponent noSeparator
          exact ⟨[], all, Or.inl rfl, areAll, by rw [isAll]; rfl⟩

/-- The front of a path has names of the path. -/
theorem Parsed.of_prefix
    {path whole start : List Component}
    {names : List Name}
    (parsed : Parsed whole start names)
    (isPrefix : path <+: whole) :
    ∃ first others, Parsed path first others := by
  have isTake := List.prefix_iff_eq_take.mp isPrefix
  rw [parsed.eq, List.take_append, ← List.map_take] at isTake
  refine ⟨start.take path.length, names.take (path.length - start.length), ?_,
    fun name member => parsed.pieces name (List.mem_of_mem_take member), isTake⟩
  rcases parsed.isStart with rfl | rfl | rfl
  · exact Or.inl (by simp)
  · cases path.length <;> simp
  · cases path.length <;> simp

/-- A normal component of a path is a name. -/
theorem Parsed.isNormal_of_mem
    {path start : List Component}
    {names : List Name}
    (parsed : Parsed path start names)
    {name : Name}
    (member : .normal name ∈ path) :
    IsNormal name := by
  rw [parsed.eq] at member
  rcases List.mem_append.mp member with isStart | member
  · rcases parsed.isStart with rfl | rfl | rfl <;> simp at isStart
  · obtain ⟨piece, isPiece, isSame⟩ := List.mem_map.mp member
    unfold nameComponent at isSame
    split at isSame
    · cases isSame
    · rename_i notParent
      cases isSame
      exact ⟨parsed.pieces _ isPiece, notParent⟩

/-- A normal component of a path is one of its pieces. -/
theorem mem_splitOn_of_mem_components
    {path : Path}
    {name : Name}
    (member : .normal name ∈ components path) :
    name ∈ path.splitOn separator := by
  have named {pieces : List Name}
      (isNamed : .normal name ∈ pieces.filterMap pieceComponent) :
      name ∈ pieces := by
    obtain ⟨piece, isPiece, isName⟩ := List.mem_filterMap.mp isNamed
    have same : piece = name := by
      rw [pieceComponent, nameComponent] at isName
      split at isName
      · cases isName
      · split at isName <;> cases isName
        rfl
    exact same ▸ isPiece
  unfold components at member
  split at member
  · cases member
  · rename_i first rest pieces
    rw [pieces]
    split at member
    · exact List.mem_cons_of_mem _ (named (by simpa using member))
    · split at member
      · exact List.mem_cons_of_mem _ (named (by simpa using member))
      · exact named member

/-- The bytes of a normal component of a path are bytes of the path. -/
theorem mem_of_mem_components
    {path : Path}
    {name : Name}
    {byte : UInt8}
    (member : .normal name ∈ components path)
    (isByte : byte ∈ name)
    (different : byte ≠ separator) :
    byte ∈ path := by
  have joined : joinPieces (path.splitOn separator) = path :=
    List.intercalate_splitOn separator
  rw [← joined, mem_joinPieces different]
  exact ⟨name, mem_splitOn_of_mem_components member, isByte⟩

/-- The bytes of the names of a path are bytes of its text. -/
theorem mem_pathText
    {path : List Component}
    {name : Name}
    {byte : UInt8}
    (isComponent : .normal name ∈ path)
    (isByte : byte ∈ name)
    (different : byte ≠ separator) :
    byte ∈ pathText path := by
  have isText (rest : List Component) (isComponent : .normal name ∈ rest) :
      byte ∈ joinPieces (rest.map componentText) := by
    rw [mem_joinPieces different]
    exact ⟨name, List.mem_map.mpr ⟨_, isComponent, rfl⟩, isByte⟩
  unfold pathText
  split
  · rename_i rest
    rcases List.mem_cons.mp isComponent with isRoot | isComponent
    · cases isRoot
    · exact List.mem_cons_of_mem _ (isText rest isComponent)
  · exact isText path isComponent

/-! ## Reading texts back -/

/-- The pieces of the text of a path. -/
def textPieces (start : List Component) (names : List Name) : List Name :=
  start.map componentText ++ names

/-- The text of a path, but for the root alone, is its pieces between
separators. -/
theorem Parsed.pathText_eq
    {path start : List Component}
    {names : List Name}
    (parsed : Parsed path start names)
    (notRoot : path ≠ [.rootDir]) :
    pathText path = joinPieces (textPieces start names) := by
  rw [parsed.eq] at notRoot ⊢
  have texts : (names.map nameComponent).map componentText = names := by
    simp [Function.comp_def]
  rcases parsed.isStart with rfl | rfl | rfl
  · cases names with
    | nil => rfl
    | cons first rest =>
        rw [List.nil_append, textPieces, List.map_nil, List.nil_append,
          List.map_cons, nameComponent]
        split <;> simp_all [pathText, nameComponent]
  · cases names with
    | nil => exact absurd rfl notRoot
    | cons first rest =>
        change separator :: joinPieces
          (((first :: rest).map nameComponent).map componentText) = _
        rw [texts]
        unfold joinPieces textPieces
        rw [List.map_singleton, List.singleton_append,
          List.intercalate_cons_cons]
        rfl
  · simp only [List.cons_append, List.nil_append, pathText, List.map_cons,
      texts, textPieces, List.map_nil, componentText]

/-- The absolute path of some names, but for the root, is their pieces after an
empty one. -/
theorem absolutePath_eq_joinPieces
    {names : List Name}
    (nonempty : names ≠ []) :
    absolutePath names = joinPieces ([] :: names) := by
  obtain ⟨first, rest, rfl⟩ := List.exists_cons_of_ne_nil nonempty
  unfold absolutePath joinPieces
  rw [List.intercalate_cons_cons]
  rfl

theorem splitOn_absolutePath
    {names : List Name}
    (nonempty : names ≠ [])
    (pieces : ∀ name ∈ names, IsPiece name) :
    (absolutePath names).splitOn separator = [] :: names := by
  rw [absolutePath_eq_joinPieces nonempty]
  refine List.splitOn_intercalate separator ?_ (by simp)
  intro piece member
  rcases List.mem_cons.mp member with rfl | member
  · simp
  · exact (pieces piece member).noSeparator

theorem absolutePath_getLast?_ne
    {names : List Name}
    (nonempty : names ≠ [])
    (pieces : ∀ name ∈ names, IsPiece name) :
    (absolutePath names).getLast? ≠ some separator := by
  have nonemptyText := joinPieces_ne_nil nonempty pieces
  obtain ⟨first, rest, isText⟩ := List.exists_cons_of_ne_nil nonemptyText
  have last := joinPieces_getLast?_ne pieces
  rw [absolutePath, isText, List.getLast?_cons_cons, ← isText]
  exact last

theorem filterMap_lookupPiece
    {names : List Name}
    (pieces : ∀ name ∈ names, IsPiece name) :
    names.filterMap lookupPiece = names.map nameComponent := by
  rw [← List.filterMap_eq_map']
  exact List.filterMap_congr fun name member =>
    (pieces name member).lookupPiece_eq

/-- A lookup of an absolute path walks its names from the root. -/
theorem lookupComponents_absolutePath
    {names : List Name}
    (nonempty : names ≠ [])
    (pieces : ∀ name ∈ names, IsPiece name) :
    lookupComponents (absolutePath names) =
      .rootDir :: names.map nameComponent := by
  have isAbsolute : isAbsolute (absolutePath names) = true := rfl
  unfold lookupComponents
  rw [splitOn_absolutePath nonempty pieces, isAbsolute, if_pos rfl,
    if_neg (absolutePath_getLast?_ne nonempty pieces),
    List.filterMap_cons_none rfl, filterMap_lookupPiece pieces]
  simp

/-- The components of an absolute path are its names after the root. -/
theorem components_absolutePath
    {names : List Name}
    (pieces : ∀ name ∈ names, IsPiece name) :
    components (absolutePath names) = .rootDir :: names.map nameComponent := by
  by_cases nonempty : names = []
  · subst nonempty
    rfl
  · have isAbsolute : isAbsolute (absolutePath names) = true := rfl
    unfold components
    rw [splitOn_absolutePath nonempty pieces]
    simp only [isAbsolute, if_true, List.cons.injEq, true_and]
    rw [← List.filterMap_eq_map']
    exact List.filterMap_congr fun name member =>
      (pieces name member).pieceComponent_eq

/-- The text of a path, but for the root alone, reads back in a lookup. -/
theorem Parsed.lookupComponents_pathText
    {path start : List Component}
    {names : List Name}
    (parsed : Parsed path start names)
    (notRoot : path ≠ [.rootDir]) :
    lookupComponents (pathText path) = path := by
  have isText := parsed.pathText_eq notRoot
  have pieces := parsed.pieces
  rw [parsed.eq] at notRoot
  rw [isText, parsed.eq]
  rcases parsed.isStart with rfl | rfl | rfl
  · by_cases nonempty : names = []
    · subst nonempty
      rfl
    · exact lookupComponents_joinPieces nonempty pieces
  · have nonempty : names ≠ [] := by
      rintro rfl
      exact notRoot rfl
    change lookupComponents (joinPieces ([] :: names)) = _
    rw [← absolutePath_eq_joinPieces nonempty]
    exact lookupComponents_absolutePath nonempty pieces
  · change lookupComponents (joinPieces (currentName :: names)) = _
    by_cases nonempty : names = []
    · subst nonempty
      rfl
    · obtain ⟨first, rest, isNames⟩ := List.exists_cons_of_ne_nil nonempty
      have text : joinPieces (currentName :: names) =
          currentName ++ absolutePath names := by
        rw [isNames]
        unfold joinPieces absolutePath joinPieces
        rw [List.intercalate_cons_cons, List.append_assoc]
        rfl
      have split : (joinPieces (currentName :: names)).splitOn separator =
          currentName :: names := by
        refine List.splitOn_intercalate separator ?_ (by simp)
        intro piece member
        rcases List.mem_cons.mp member with rfl | member
        · decide
        · exact (pieces piece member).noSeparator
      have last : (joinPieces (currentName :: names)).getLast? ≠
          some separator := by
        rw [text, List.getLast?_append_of_ne_nil _ (by simp [absolutePath])]
        exact absolutePath_getLast?_ne nonempty pieces
      have relative : isAbsolute (joinPieces (currentName :: names)) = false := by
        rw [text]
        rfl
      unfold lookupComponents
      rw [split, relative, if_neg last, List.filterMap_cons_some
        (show lookupPiece currentName = some .curDir from rfl),
        filterMap_lookupPiece pieces]
      simp

/-! ## Absolute paths -/

theorem absolutePath_eq_pathText
    {names : List Name}
    (areNormal : ∀ name ∈ names, IsNormal name) :
    absolutePath names = pathText (.rootDir :: names.map .normal) := by
  rw [← map_nameComponent areNormal]
  simp [absolutePath, pathText, Function.comp_def]

theorem absolutePath_injective
    {names others : List Name}
    (pieces : ∀ name ∈ names, IsPiece name)
    (otherPieces : ∀ name ∈ others, IsPiece name)
    (same : absolutePath names = absolutePath others) :
    names = others := by
  have components := congrArg components same
  rw [components_absolutePath pieces, components_absolutePath otherPieces,
    List.cons.injEq] at components
  have texts := congrArg (List.map componentText) components.2
  simpa [Function.comp_def] using texts

/-- Pushing a name onto an absolute path. -/
theorem push_absolutePath
    {names : List Name}
    (pieces : ∀ name ∈ names, IsPiece name)
    {name : Name}
    (isPiece : IsPiece name) :
    push (absolutePath names) name = absolutePath (names ++ [name]) := by
  unfold push
  rw [isPiece.not_isAbsolute, if_neg Bool.false_ne_true]
  by_cases nonempty : names = []
  · subst nonempty
    simp [absolutePath, joinPieces]
  · cases isLast : (absolutePath names).getLast? with
    | none => simp [absolutePath] at isLast
    | some last =>
        have different : last ≠ separator := by
          rintro rfl
          exact absolutePath_getLast?_ne nonempty pieces isLast
        simp only [different, if_false]
        rw [absolutePath, absolutePath, joinPieces_append_piece nonempty]
        rfl

theorem foldl_push_absolutePath
    {names added : List Name}
    (pieces : ∀ name ∈ names, IsPiece name)
    (addedPieces : ∀ name ∈ added, IsPiece name) :
    added.foldl push (absolutePath names) = absolutePath (names ++ added) := by
  induction added generalizing names with
  | nil => simp
  | cons first rest inductionHypothesis =>
      have isPiece := addedPieces first List.mem_cons_self
      rw [List.foldl_cons, push_absolutePath pieces isPiece,
        inductionHypothesis]
      · simp
      · intro name member
        rcases List.mem_append.mp member with member | member
        · exact pieces name member
        · rwa [List.mem_singleton.mp member]
      · exact fun name member =>
          addedPieces name (List.mem_cons_of_mem _ member)

theorem parent_absolutePath
    {names : List Name}
    {name : Name}
    (areNormal : ∀ entry ∈ names ++ [name], IsNormal entry) :
    parent (absolutePath (names ++ [name])) = some (absolutePath names) := by
  have above : ∀ entry ∈ names, IsNormal entry :=
    fun entry member => areNormal entry (List.mem_append_left _ member)
  unfold parent
  rw [components_absolutePath fun entry member => (areNormal entry member).isPiece,
    map_nameComponent areNormal, List.map_append, ← List.cons_append,
    List.map_singleton, List.getLast?_concat, List.dropLast_concat,
    absolutePath_eq_pathText above]

theorem fileName_absolutePath
    {names : List Name}
    {name : Name}
    (areNormal : ∀ entry ∈ names ++ [name], IsNormal entry) :
    fileName (absolutePath (names ++ [name])) = some name := by
  unfold fileName
  rw [components_absolutePath fun entry member => (areNormal entry member).isPiece,
    map_nameComponent areNormal, List.map_append, ← List.cons_append,
    List.map_singleton, List.getLast?_concat]

theorem components_name
    {name : Name}
    (isNormal : IsNormal name) :
    components name = [.normal name] := by
  have joined := components_joinPieces (List.cons_ne_nil name [])
    (by simpa using isNormal.isPiece)
  have isJoined : joinPieces [name] = name := by simp [joinPieces]
  rw [isJoined] at joined
  rw [joined, map_nameComponent (by simpa using isNormal)]
  rfl

/-- The last component of a path to which a name was appended is that name. -/
theorem fileName_push
    {name : Name}
    (isNormal : IsNormal name)
    (path : Path) :
    fileName (push path name) = some name := by
  have plain := isNormal.isPiece
  have isLast (front : Path) :
      (components (front ++ separator :: name)).getLast? =
        some (.normal name) := by
    have last : pieceComponent name = some (.normal name) := by
      rw [plain.pieceComponent_eq, nameComponent, if_neg isNormal.notParent]
    unfold components
    rw [List.splitOn_append_cons_self,
      List.splitOn_eq_singleton plain.noSeparator]
    cases pieces : front.splitOn separator with
    | nil => exact absurd pieces (List.splitOn_ne_nil _ _)
    | cons first rest =>
        rw [List.cons_append]
        simp only [List.filterMap_append, List.filterMap_cons_some last,
          List.filterMap_nil, ← List.cons_append]
        split
        · exact List.getLast?_concat
        · split <;> exact List.getLast?_concat
  unfold fileName push
  rw [plain.not_isAbsolute, if_neg Bool.false_ne_true]
  cases ends : path.getLast? with
  | none =>
      simp only [components_name isNormal, List.getLast?_singleton]
  | some last =>
      by_cases separated : last = separator
      · subst separated
        obtain ⟨front, rfl⟩ := List.getLast?_eq_some_iff.mp ends
        simp only [if_true, List.append_assoc, List.singleton_append, isLast]
      · simp only [if_neg separated, isLast]
/-- One absolute path lies below another when its names begin with those of the
other. -/
theorem startsWith_absolutePath
    {names base : List Name}
    (pieces : ∀ name ∈ names, IsPiece name)
    (basePieces : ∀ name ∈ base, IsPiece name) :
    startsWith (absolutePath names) (absolutePath base) = true ↔
      base <+: names := by
  rw [startsWith, components_absolutePath pieces,
    components_absolutePath basePieces, List.isPrefixOf_iff_prefix,
    List.cons_prefix_cons, and_iff_right rfl]
  constructor
  · intro isPrefix
    have texts := isPrefix.map componentText
    simpa [Function.comp_def] using texts
  · exact fun isPrefix => isPrefix.map _

theorem length_absolutePath_le
    {names base : List Name}
    (isPrefix : base <+: names) :
    (absolutePath base).length ≤ (absolutePath names).length := by
  obtain ⟨rest, rfl⟩ := isPrefix
  induction rest generalizing base with
  | nil => simp
  | cons first rest inductionHypothesis =>
      have one : (absolutePath base).length ≤
          (absolutePath (base ++ [first])).length := by
        by_cases nonempty : base = []
        · subst nonempty
          simp [absolutePath, joinPieces]
        · simp [absolutePath, joinPieces_append_piece nonempty]
      have more := @inductionHypothesis (base ++ [first])
      rw [List.append_assoc, List.singleton_append] at more
      exact Nat.le_trans one more

end HostPath
