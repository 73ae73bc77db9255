import Mathlib.Data.List.Basic
import Mathlib.Data.List.Induction
import Mathlib.Tactic.Common

/-!
# Unix paths

A path is a byte string whose components are separated by `/`.  Two readings of
it are used.  `components` is the lexical reading of a path library: empty and
`.` components disappear, except for a leading `.`.  `lookupComponents` is the
reading of a path lookup in the kernel: every `.` and a trailing separator still
demand a directory.  On a path put together from plain names the two agree and
give the names back.
-/

namespace HostPath

/-- One name of a path. -/
abbrev Name := List UInt8

/-- A path as the byte string handed to the operating system. -/
abbrev Path := List UInt8

/-- The byte `/`. -/
def separator : UInt8 := 47

/-- The name `.`. -/
def currentName : Name := [46]

/-- The name `..`. -/
def parentName : Name := [46, 46]

/-- One component of a path. -/
inductive Component
  | rootDir
  | curDir
  | parentDir
  | normal (name : Name)
  deriving DecidableEq, Repr

/-- Whether a path starts at the root. -/
def isAbsolute (path : Path) : Bool :=
  path.head? == some separator

/-- Append a relative path below a path; an absolute one replaces it. -/
def push (path addition : Path) : Path :=
  if isAbsolute addition then addition
  else
    match path.getLast? with
    | none => addition
    | some last =>
        if last = separator then path ++ addition
        else path ++ separator :: addition

/-- The component of one nonempty piece that is not `.`. -/
def nameComponent (piece : Name) : Component :=
  if piece = parentName then .parentDir else .normal piece

/-- Lexical reading of one piece between separators. -/
def pieceComponent (piece : Name) : Option Component :=
  if piece = [] ∨ piece = currentName then none
  else some (nameComponent piece)

/-- The lexical components of a path. -/
def components (path : Path) : List Component :=
  match path.splitOn separator with
  | [] => []
  | first :: rest =>
      if isAbsolute path then
        .rootDir :: rest.filterMap pieceComponent
      else if first = currentName then
        .curDir :: rest.filterMap pieceComponent
      else
        (first :: rest).filterMap pieceComponent

/-- Reading of one piece in a lookup, where `.` keeps its demand. -/
def lookupPiece (piece : Name) : Option Component :=
  if piece = [] then none
  else if piece = currentName then some .curDir
  else some (nameComponent piece)

/-- The components that a path lookup walks.  A trailing separator demands a
directory, as a final `.` does. -/
def lookupComponents (path : Path) : List Component :=
  (if isAbsolute path then [.rootDir] else []) ++
    (path.splitOn separator).filterMap lookupPiece ++
    (if path.getLast? = some separator then [.curDir] else [])

/-- A piece that is a component of its own: nonempty, without a separator and
not `.`. -/
structure IsPiece (piece : Name) : Prop where
  nonempty : piece ≠ []
  noSeparator : separator ∉ piece
  notCurrent : piece ≠ currentName

/-- The path with the given pieces between separators. -/
def joinPieces (pieces : List Name) : Path :=
  [separator].intercalate pieces

theorem IsPiece.not_isAbsolute
    {piece : Name}
    (plain : IsPiece piece) :
    isAbsolute piece = false := by
  cases piece with
  | nil => rfl
  | cons first rest =>
      have different : first ≠ separator := by
        intro equal
        exact plain.noSeparator (by simp [equal])
      simpa [isAbsolute] using different

theorem IsPiece.getLast?_ne
    {piece : Name}
    (plain : IsPiece piece) :
    piece.getLast? ≠ some separator := by
  intro isLast
  exact plain.noSeparator (List.mem_of_getLast? isLast)

theorem joinPieces_append_piece
    {pieces : List Name}
    (nonempty : pieces ≠ [])
    (piece : Name) :
    joinPieces (pieces ++ [piece]) =
      joinPieces pieces ++ separator :: piece := by
  unfold joinPieces
  induction pieces with
  | nil => exact absurd rfl nonempty
  | cons first rest inductionHypothesis =>
      cases rest with
      | nil => simp
      | cons second rest =>
          have tail := inductionHypothesis (by simp)
          simp only [List.cons_append] at tail ⊢
          rw [List.intercalate_cons_cons, List.intercalate_cons_cons, tail]
          simp

theorem joinPieces_ne_nil
    {pieces : List Name}
    (nonempty : pieces ≠ [])
    (plain : ∀ piece ∈ pieces, IsPiece piece) :
    joinPieces pieces ≠ [] := by
  unfold joinPieces
  cases pieces with
  | nil => exact absurd rfl nonempty
  | cons first rest =>
      have firstNonempty := (plain first (by simp)).nonempty
      cases rest with
      | nil => simpa using firstNonempty
      | cons second rest => simp

theorem joinPieces_getLast?_ne
    {pieces : List Name}
    (plain : ∀ piece ∈ pieces, IsPiece piece) :
    (joinPieces pieces).getLast? ≠ some separator := by
  rcases List.eq_nil_or_concat pieces with empty | ⟨front, last, split⟩
  · subst empty
    simp [joinPieces]
  · have lastPlain : IsPiece last := plain last (by simp [split])
    have lastNonempty := lastPlain.nonempty
    rw [List.concat_eq_append] at split
    subst split
    by_cases frontEmpty : front = []
    · subst frontEmpty
      simpa [joinPieces] using lastPlain.getLast?_ne
    · rw [joinPieces_append_piece frontEmpty, List.getLast?_append_of_ne_nil]
      · obtain ⟨head, tail, rfl⟩ := List.exists_cons_of_ne_nil lastNonempty
        rw [List.getLast?_cons_cons]
        exact lastPlain.getLast?_ne
      · simp

theorem joinPieces_not_isAbsolute
    {pieces : List Name}
    (plain : ∀ piece ∈ pieces, IsPiece piece) :
    isAbsolute (joinPieces pieces) = false := by
  cases pieces with
  | nil => rfl
  | cons first rest =>
      have firstPlain := plain first (by simp)
      obtain ⟨head, tail, rfl⟩ := List.exists_cons_of_ne_nil firstPlain.nonempty
      have relative := firstPlain.not_isAbsolute
      simpa [joinPieces, isAbsolute] using relative

/-- Pushing plain pieces one after the other joins them with separators. -/
theorem foldl_push_eq_joinPieces
    {pieces : List Name}
    (plain : ∀ piece ∈ pieces, IsPiece piece) :
    pieces.foldl push [] = joinPieces pieces := by
  induction pieces using List.reverseRecOn with
  | nil => rfl
  | append_singleton front last inductionHypothesis =>
      have lastPlain := plain last (by simp)
      have frontPlain : ∀ piece ∈ front, IsPiece piece :=
        fun piece member => plain piece (by simp [member])
      rw [List.foldl_append, inductionHypothesis frontPlain]
      simp only [List.foldl_cons, List.foldl_nil, push,
        lastPlain.not_isAbsolute, Bool.false_eq_true, if_false]
      by_cases frontEmpty : front = []
      · subst frontEmpty
        simp [joinPieces]
      · rw [joinPieces_append_piece frontEmpty]
        have pathNonempty := joinPieces_ne_nil frontEmpty frontPlain
        cases final : (joinPieces front).getLast? with
        | none => exact absurd (List.getLast?_eq_none_iff.mp final) pathNonempty
        | some byte =>
            have different : byte ≠ separator := by
              intro equal
              subst equal
              exact joinPieces_getLast?_ne frontPlain final
            simp [different]

theorem splitOn_joinPieces
    {pieces : List Name}
    (nonempty : pieces ≠ [])
    (plain : ∀ piece ∈ pieces, IsPiece piece) :
    (joinPieces pieces).splitOn separator = pieces :=
  List.splitOn_intercalate separator
    (fun piece member => (plain piece member).noSeparator) nonempty

private theorem filterMap_eq_map_nameComponent
    {read : Name → Option Component}
    {pieces : List Name}
    (reads : ∀ piece ∈ pieces, read piece = some (nameComponent piece)) :
    pieces.filterMap read = pieces.map nameComponent := by
  induction pieces with
  | nil => rfl
  | cons first rest inductionHypothesis =>
      have rest := inductionHypothesis fun piece member =>
        reads piece (by simp [member])
      rw [List.filterMap_cons, reads first (by simp)]
      simp [rest]

theorem IsPiece.pieceComponent_eq
    {piece : Name}
    (plain : IsPiece piece) :
    pieceComponent piece = some (nameComponent piece) := by
  simp [pieceComponent, plain.nonempty, plain.notCurrent]

theorem IsPiece.lookupPiece_eq
    {piece : Name}
    (plain : IsPiece piece) :
    lookupPiece piece = some (nameComponent piece) := by
  simp [lookupPiece, plain.nonempty, plain.notCurrent]

/-- The lexical components of a joined path are its pieces. -/
theorem components_joinPieces
    {pieces : List Name}
    (nonempty : pieces ≠ [])
    (plain : ∀ piece ∈ pieces, IsPiece piece) :
    components (joinPieces pieces) = pieces.map nameComponent := by
  unfold components
  rw [splitOn_joinPieces nonempty plain]
  cases pieces with
  | nil => exact absurd rfl nonempty
  | cons first rest =>
      have firstPlain := plain first (by simp)
      simp only [joinPieces_not_isAbsolute plain, Bool.false_eq_true,
        if_false, firstPlain.notCurrent]
      exact filterMap_eq_map_nameComponent fun piece member =>
        (plain piece member).pieceComponent_eq

/-- A lookup of a joined path walks its pieces. -/
theorem lookupComponents_joinPieces
    {pieces : List Name}
    (nonempty : pieces ≠ [])
    (plain : ∀ piece ∈ pieces, IsPiece piece) :
    lookupComponents (joinPieces pieces) = pieces.map nameComponent := by
  unfold lookupComponents
  rw [splitOn_joinPieces nonempty plain, joinPieces_not_isAbsolute plain]
  simp only [Bool.false_eq_true, if_false, List.nil_append,
    joinPieces_getLast?_ne plain, List.append_nil]
  exact filterMap_eq_map_nameComponent fun piece member =>
    (plain piece member).lookupPiece_eq

theorem mem_joinPieces
    {byte : UInt8}
    {pieces : List Name}
    (different : byte ≠ separator) :
    byte ∈ joinPieces pieces ↔ ∃ piece ∈ pieces, byte ∈ piece := by
  induction pieces with
  | nil => simp [joinPieces]
  | cons first rest inductionHypothesis =>
      cases rest with
      | nil => simp [joinPieces]
      | cons second rest =>
          unfold joinPieces at inductionHypothesis ⊢
          rw [List.intercalate_cons_cons, List.mem_append, List.mem_append,
            inductionHypothesis]
          simp [different]

end HostPath
