import Pithos.Library.HostPath
import Pithos.Library.Utf8
import Pithos.Format.Records

/-!
# Archive paths and link targets

Paths in an archive are sequences of components, never concatenated strings.
Each component says how its bytes are encoded.  This module has the conversions
between archive paths and Unix host paths, and the lexical depth check that the
decoder applies to link targets.
-/

namespace Pithos

open Fallible
open HostPath
open Utf8

/-- How the bytes of a path component are to be read. -/
inductive PathEncoding
  | utf8
  | unixBytes
  | windowsUtf16Le
  deriving DecidableEq, Repr

/-- The number of an encoding in a sort key. -/
def PathEncoding.toU8 : PathEncoding → UInt8
  | utf8 => 0
  | unixBytes => 1
  | windowsUtf16Le => 2

/-- One component of an archive path. -/
structure PathComponent where
  encoding : PathEncoding
  bytes : List UInt8
  deriving DecidableEq, Repr

/-- Exactly one normal component. -/
def validateNormalComponent (value : Path) : Result Unit :=
  match HostPath.components value with
  | [.normal _] => .ok ()
  | _ => .error .unsafePath

namespace PathComponent

/-- The byte `\`. -/
def backslash : UInt8 := 92

/-- Encode a host name: UTF-8 where it is well formed, raw bytes otherwise. -/
def fromOsStr (value : Name) : PathComponent :=
  if isUtf8 value then ⟨.utf8, value⟩ else ⟨.unixBytes, value⟩

/-- The host name of a component on Unix. -/
def toOsString (component : PathComponent) : Result Name := do
  match component.encoding with
  | .utf8 => do
      ensure (isUtf8 component.bytes) .invalidPathEncoding
      ensure (component.bytes ≠ [] ∧ separator ∉ component.bytes ∧
        backslash ∉ component.bytes ∧ component.bytes ≠ currentName ∧
        component.bytes ≠ parentName) .unsafePath
  | .unixBytes =>
      ensure (component.bytes ≠ [] ∧ separator ∉ component.bytes ∧
        0 ∉ component.bytes) .unsafePath
  | .windowsUtf16Le => .error .invalidPathEncoding
  validateNormalComponent component.bytes
  .ok component.bytes

end PathComponent

/-- A name that can stand as a directory entry of its own. -/
structure IsName (name : Name) : Prop where
  isPiece : IsPiece name
  notParent : name ≠ parentName

theorem IsName.nameComponent_eq
    {name : Name}
    (isName : IsName name) :
    nameComponent name = .normal name := if_neg isName.notParent

theorem map_nameComponent_of_isName
    {names : List Name}
    (areNames : ∀ name ∈ names, IsName name) :
    names.map nameComponent = names.map .normal :=
  List.map_congr_left fun name member => (areNames name member).nameComponent_eq

/-- Only names pass the check for a single normal component. -/
theorem validateNormalComponent_eq_ok
    {value : Path}
    (nonempty : value ≠ [])
    (noSeparator : separator ∉ value)
    {result : Unit} :
    validateNormalComponent value = .ok result ↔ IsName value := by
  have split : value.splitOn separator = [value] :=
    List.splitOn_eq_singleton noSeparator
  have relative : isAbsolute value = false := by
    cases value with
    | nil => rfl
    | cons first rest =>
        have different : first ≠ separator := by
          intro equal
          exact noSeparator (by simp [equal])
        simpa [isAbsolute] using different
  unfold validateNormalComponent HostPath.components
  rw [split]
  simp only [relative, Bool.false_eq_true, if_false]
  by_cases current : value = currentName
  · rw [if_pos current]
    simp only [reduceCtorEq, false_iff]
    intro isName
    exact isName.isPiece.notCurrent current
  · have isPiece : IsPiece value := ⟨nonempty, noSeparator, current⟩
    rw [if_neg current]
    simp only [List.filterMap_cons, isPiece.pieceComponent_eq,
      List.filterMap_nil]
    by_cases parent : value = parentName
    · simp only [nameComponent, parent, if_true, reduceCtorEq, false_iff]
      intro isName
      exact isName.notParent rfl
    · simp only [nameComponent, parent, if_false, true_iff]
      exact ⟨isPiece, parent⟩

namespace PathComponent

/-- The components that have a host name on Unix: well-formed UTF-8 without
separators of either system, or raw bytes without separator and NUL. -/
structure Hostable (component : PathComponent) : Prop where
  isName : IsName component.bytes
  utf8 : component.encoding = .utf8 →
    isUtf8 component.bytes ∧ backslash ∉ component.bytes
  unixBytes : component.encoding = .unixBytes → 0 ∉ component.bytes
  notWindows : component.encoding ≠ .windowsUtf16Le

/-- A component converts exactly when it is hostable, and to its own bytes. -/
theorem toOsString_eq_ok
    {component : PathComponent}
    {name : Name} :
    component.toOsString = .ok name ↔
      component.Hostable ∧ name = component.bytes := by
  obtain ⟨encoding, bytes⟩ := component
  cases encoding with
  | utf8 =>
      simp only [toOsString, bind_eq_ok, ensure_eq_ok, Except.ok.injEq]
      constructor
      · rintro ⟨_, valid, _, ⟨nonempty, noSeparator, noBackslash, _, _⟩, _,
          normal, rfl⟩
        rw [validateNormalComponent_eq_ok nonempty noSeparator] at normal
        exact ⟨⟨normal, fun _ => ⟨valid, noBackslash⟩, by simp, by simp⟩, rfl⟩
      · rintro ⟨hostable, rfl⟩
        obtain ⟨valid, noBackslash⟩ := hostable.utf8 rfl
        have piece := hostable.isName.isPiece
        refine ⟨(), valid, (), ⟨piece.nonempty, piece.noSeparator, noBackslash,
          piece.notCurrent, hostable.isName.notParent⟩, (), ?_, rfl⟩
        rw [validateNormalComponent_eq_ok piece.nonempty piece.noSeparator]
        exact hostable.isName
  | unixBytes =>
      simp only [toOsString, bind_eq_ok, ensure_eq_ok, Except.ok.injEq]
      constructor
      · rintro ⟨_, ⟨nonempty, noSeparator, noNul⟩, _, normal, rfl⟩
        rw [validateNormalComponent_eq_ok nonempty noSeparator] at normal
        exact ⟨⟨normal, by simp, fun _ => noNul, by simp⟩, rfl⟩
      · rintro ⟨hostable, rfl⟩
        have piece := hostable.isName.isPiece
        refine ⟨(), ⟨piece.nonempty, piece.noSeparator,
          hostable.unixBytes rfl⟩, (), ?_, rfl⟩
        rw [validateNormalComponent_eq_ok piece.nonempty piece.noSeparator]
        exact hostable.isName
  | windowsUtf16Le =>
      simp only [toOsString, error_bind, reduceCtorEq, false_iff]
      rintro ⟨hostable, _⟩
      exact hostable.notWindows rfl

/-- Encoding a host name again gives a component back exactly when its encoding
is the canonical one for its bytes. -/
def Canonical (component : PathComponent) : Prop :=
  component.encoding = .unixBytes → isUtf8 component.bytes = false

instance (component : PathComponent) : Decidable component.Canonical :=
  inferInstanceAs (Decidable (_ → _))

theorem fromOsStr_bytes_eq_iff
    {component : PathComponent}
    (hostable : component.Hostable) :
    fromOsStr component.bytes = component ↔ component.Canonical := by
  obtain ⟨encoding, bytes⟩ := component
  cases encoding with
  | utf8 =>
      have valid := (hostable.utf8 rfl).1
      simp [fromOsStr, Canonical, valid]
  | unixBytes => cases valid : isUtf8 bytes <;> simp [fromOsStr, Canonical, valid]
  | windowsUtf16Le => exact absurd rfl hostable.notWindows

end PathComponent

/-! ## Building host paths -/

/-- Push one converted item onto a path. -/
def pushConverted
    {Item : Type}
    (convert : Item → Result Name)
    (_position : Nat)
    (item : Item)
    (path : Path) : Result Path := do
  let name ← convert item
  .ok (push path name)

/-- Push the converted items one after the other onto an empty path. -/
def pushAll {Item : Type} (convert : Item → Result Name) (items : List Item) :
    Result Path :=
  forEnum (pushConverted convert) 0 items []

/-- Pushing succeeds when every item converts, and pushes the conversions. -/
theorem pushAll_eq_ok
    {Item : Type}
    {convert : Item → Result Name}
    {good : Item → Prop}
    {spell : Item → Name}
    (converts : ∀ item name,
      convert item = .ok name ↔ good item ∧ name = spell item)
    {items : List Item}
    {path : Path} :
    pushAll convert items = .ok path ↔
      (∀ item ∈ items, good item) ∧
        path = (items.map spell).foldl push [] := by
  have exact (position : Nat) (item : Item) (path next : Path) :
      pushConverted convert position item path = .ok next ↔
        good item ∧ next = push path (spell item) := by
    simp only [pushConverted, bind_eq_ok, converts, Except.ok.injEq]
    constructor
    · rintro ⟨_, ⟨itemGood, rfl⟩, rfl⟩
      exact ⟨itemGood, rfl⟩
    · rintro ⟨itemGood, rfl⟩
      exact ⟨_, ⟨itemGood, rfl⟩, rfl⟩
  rw [pushAll, forEnum_mem_eq_ok exact, List.foldl_map]

/-! ## Archive paths -/

/-- A path relative to the archive root. -/
structure ArchivePath where
  components : List PathComponent
  deriving DecidableEq, Repr

namespace ArchivePath

/-- Take over one component of a relative host path. -/
def takeComponent
    (_position : Nat)
    (component : Component)
    (components : List PathComponent) : Result (List PathComponent) :=
  match component with
  | .normal value => .ok (components ++ [PathComponent.fromOsStr value])
  | .curDir => .ok components
  | .parentDir | .rootDir => .error .unsafePath

/-- The archive path of a relative host path. -/
def fromRelative (path : Path) : Result ArchivePath := do
  let components ← forEnum takeComponent 0 (HostPath.components path) []
  ensure (components ≠ []) .unsafePath
  .ok ⟨components⟩

/-- The host path of an archive path. -/
def toPathBuf (path : ArchivePath) : Result Path := do
  ensure (path.components ≠ []) .unsafePath
  pushAll PathComponent.toOsString path.components

/-- The key that entries are sorted by and compared with. -/
def sortKey (path : ArchivePath) : List UInt8 :=
  path.components.flatMap fun component =>
    component.encoding.toU8 ::
      (Machine.le64 (UInt64.ofNat component.bytes.length) ++ component.bytes)

/-- Number of bytes in all components. -/
def encodedLen (path : ArchivePath) : Nat :=
  (path.components.map fun component => component.bytes.length).sum

/-- The bytes of the components. -/
def names (path : ArchivePath) : List Name :=
  path.components.map (·.bytes)

/-- The paths that have a host path on Unix. -/
structure Hostable (path : ArchivePath) : Prop where
  nonempty : path.components ≠ []
  components : ∀ component ∈ path.components, component.Hostable

theorem Hostable.isName
    {path : ArchivePath}
    (hostable : path.Hostable) :
    ∀ name ∈ path.names, IsName name := by
  intro name member
  obtain ⟨component, present, rfl⟩ := List.mem_map.mp member
  exact (hostable.components component present).isName

theorem Hostable.isPiece
    {path : ArchivePath}
    (hostable : path.Hostable) :
    ∀ name ∈ path.names, IsPiece name :=
  fun name member => (hostable.isName name member).isPiece

theorem Hostable.names_ne_nil
    {path : ArchivePath}
    (hostable : path.Hostable) :
    path.names ≠ [] := by
  simpa [names] using hostable.nonempty

/-- Hostable paths convert, to their names between separators. -/
theorem toPathBuf_eq_ok
    {path : ArchivePath}
    {host : Path} :
    path.toPathBuf = .ok host ↔
      path.Hostable ∧ host = joinPieces path.names := by
  unfold toPathBuf
  rw [bind_eq_ok]
  simp only [ensure_eq_ok, pushAll_eq_ok fun component name =>
    @PathComponent.toOsString_eq_ok component name]
  constructor
  · rintro ⟨_, nonempty, hostable, rfl⟩
    have whole : path.Hostable := ⟨nonempty, hostable⟩
    exact ⟨whole, foldl_push_eq_joinPieces whole.isPiece⟩
  · rintro ⟨hostable, rfl⟩
    exact ⟨(), hostable.nonempty, hostable.components,
      (foldl_push_eq_joinPieces hostable.isPiece).symm⟩

/-- The host path of a hostable path. -/
theorem Hostable.toPathBuf_eq
    {path : ArchivePath}
    (hostable : path.Hostable) :
    path.toPathBuf = .ok (joinPieces path.names) :=
  toPathBuf_eq_ok.mpr ⟨hostable, rfl⟩

/-- The lexical components of the host path are the names. -/
theorem Hostable.components_joinPieces
    {path : ArchivePath}
    (hostable : path.Hostable) :
    HostPath.components (joinPieces path.names) = path.names.map .normal := by
  rw [HostPath.components_joinPieces hostable.names_ne_nil hostable.isPiece,
    map_nameComponent_of_isName hostable.isName]

/-- A lookup of the host path walks the names. -/
theorem Hostable.lookupComponents_joinPieces
    {path : ArchivePath}
    (hostable : path.Hostable) :
    lookupComponents (joinPieces path.names) = path.names.map .normal := by
  rw [HostPath.lookupComponents_joinPieces hostable.names_ne_nil
    hostable.isPiece, map_nameComponent_of_isName hostable.isName]

/-- Reading a host path made of names encodes each name. -/
theorem fromRelative_of_components
    {host : Path}
    {names : List Name}
    (nonempty : names ≠ [])
    (read : HostPath.components host = names.map .normal) :
    fromRelative host = .ok ⟨names.map PathComponent.fromOsStr⟩ := by
  unfold fromRelative
  rw [read]
  have loop (position : Nat) (start : List PathComponent) :
      forEnum takeComponent position (names.map .normal) start =
        .ok (start ++ names.map PathComponent.fromOsStr) := by
    clear read nonempty
    induction names generalizing position start with
    | nil => simp
    | cons name names inductionHypothesis =>
        rw [List.map_cons, forEnum_cons, takeComponent, ok_bind,
          inductionHypothesis]
        simp
  rw [loop, ok_bind, ensure_of (by simpa using nonempty), ok_bind]
  rfl

/-- Every component has the encoding that its bytes call for. -/
def Canonical (path : ArchivePath) : Prop :=
  ∀ component ∈ path.components, component.Canonical

instance (path : ArchivePath) : Decidable path.Canonical :=
  inferInstanceAs (Decidable (∀ component ∈ path.components, _))

/-- A hostable path is read back from its own host path exactly when its
components have the encodings that their bytes call for. -/
theorem fromRelative_toPathBuf_iff
    {path : ArchivePath}
    {host : Path}
    (converted : path.toPathBuf = .ok host) :
    fromRelative host = .ok path ↔ path.Canonical := by
  obtain ⟨hostable, rfl⟩ := toPathBuf_eq_ok.mp converted
  rw [fromRelative_of_components hostable.names_ne_nil
    hostable.components_joinPieces]
  obtain ⟨components⟩ := path
  have unchanged :
      components.map (PathComponent.fromOsStr ∘ (·.bytes)) = components ↔
        ∀ component ∈ components,
          PathComponent.fromOsStr component.bytes = component := by
    conv_lhs => rhs; rw [← List.map_id components]
    exact List.map_inj_left
  rw [Except.ok.injEq, ArchivePath.mk.injEq, names, List.map_map, unchanged]
  exact forall₂_congr fun component member =>
    PathComponent.fromOsStr_bytes_eq_iff (hostable.components component member)

end ArchivePath

/-! ## Link targets -/

/-- One component of a link target. -/
inductive LinkComponent
  | parent
  | normal (component : PathComponent)
  deriving DecidableEq, Repr

namespace LinkComponent

/-- The piece of the host path that a component writes. -/
def toPiece : LinkComponent → Result Name
  | parent => .ok parentName
  | normal component => component.toOsString

/-- The bytes of the piece. -/
def piece : LinkComponent → Name
  | parent => parentName
  | normal component => component.bytes

/-- The component of a lookup that a piece stands for. -/
def toComponent : LinkComponent → Component
  | parent => .parentDir
  | normal component => .normal component.bytes

/-- The components that have a piece on Unix. -/
def Hostable : LinkComponent → Prop
  | parent => True
  | normal component => component.Hostable

theorem toPiece_eq_ok
    {component : LinkComponent}
    {name : Name} :
    component.toPiece = .ok name ↔
      component.Hostable ∧ name = component.piece := by
  cases component with
  | parent => simp [toPiece, Hostable, piece, eq_comm]
  | normal component => exact PathComponent.toOsString_eq_ok

theorem Hostable.isPiece
    {component : LinkComponent}
    (hostable : component.Hostable) :
    IsPiece component.piece := by
  cases component with
  | parent =>
      refine ⟨?_, ?_, ?_⟩ <;>
        simp [piece, parentName, separator, currentName]
  | normal component => exact PathComponent.Hostable.isName hostable |>.isPiece

theorem Hostable.nameComponent_eq
    {component : LinkComponent}
    (hostable : component.Hostable) :
    nameComponent component.piece = component.toComponent := by
  cases component with
  | parent => rfl
  | normal component =>
      exact (PathComponent.Hostable.isName hostable).nameComponent_eq

end LinkComponent

/-- The target of a symbolic link, relative to the directory of the link. -/
structure LinkTarget where
  components : List LinkComponent
  deriving DecidableEq, Repr

namespace LinkTarget

/-- Take over one component of a relative link target. -/
def takeComponent
    (_position : Nat)
    (component : Component)
    (components : List LinkComponent) : Result (List LinkComponent) :=
  match component with
  | .normal value =>
      .ok (components ++ [.normal (PathComponent.fromOsStr value)])
  | .parentDir => .ok (components ++ [.parent])
  | .curDir => .ok components
  | .rootDir => .error .unsafeSymlink

/-- The link target that a host path stands for; `.` components disappear. -/
def fromRelative (path : Path) : Result LinkTarget := do
  let components ← forEnum takeComponent 0 (HostPath.components path) []
  ensure (components ≠ []) .unsafeSymlink
  .ok ⟨components⟩

/-- The host path of a target.  Unlike for an archive path, there is no check
that the target has a component. -/
def toPathBuf (target : LinkTarget) : Result Path :=
  pushAll LinkComponent.toPiece target.components

/-- Walk the components from a lexical depth, refusing to climb above zero. -/
def depthWithin : Nat → List LinkComponent → Bool
  | _, [] => true
  | 0, .parent :: _ => false
  | depth + 1, .parent :: components => depthWithin depth components
  | depth, .normal _ :: components => depthWithin (depth + 1) components

/-- The decoder's check on a link: counted from the directory of the link, the
target never climbs above the archive root. -/
def resolvesWithin (target : LinkTarget) (linkPath : ArchivePath) : Bool :=
  depthWithin (linkPath.components.length - 1) target.components

/-- The pieces of the host path. -/
def pieces (target : LinkTarget) : List Name :=
  target.components.map LinkComponent.piece

/-- The targets that have a host path on Unix. -/
def Hostable (target : LinkTarget) : Prop :=
  ∀ component ∈ target.components, component.Hostable

theorem Hostable.isPiece
    {target : LinkTarget}
    (hostable : target.Hostable) :
    ∀ name ∈ target.pieces, IsPiece name := by
  intro name member
  obtain ⟨component, present, rfl⟩ := List.mem_map.mp member
  exact (hostable component present).isPiece

/-- Hostable targets convert, to their pieces between separators. -/
theorem toPathBuf_eq_ok
    {target : LinkTarget}
    {host : Path} :
    target.toPathBuf = .ok host ↔
      target.Hostable ∧ host = joinPieces target.pieces := by
  unfold toPathBuf
  rw [pushAll_eq_ok fun component name =>
    @LinkComponent.toPiece_eq_ok component name]
  constructor
  · rintro ⟨hostable, rfl⟩
    have whole : target.Hostable := hostable
    exact ⟨whole, foldl_push_eq_joinPieces whole.isPiece⟩
  · rintro ⟨hostable, rfl⟩
    exact ⟨hostable, (foldl_push_eq_joinPieces hostable.isPiece).symm⟩

/-- A lookup of a nonempty target walks its components. -/
theorem Hostable.lookupComponents_joinPieces
    {target : LinkTarget}
    (hostable : target.Hostable)
    (nonempty : target.components ≠ []) :
    lookupComponents (joinPieces target.pieces) =
      target.components.map LinkComponent.toComponent := by
  have piecesNonempty : target.pieces ≠ [] := by
    simpa [pieces] using nonempty
  rw [HostPath.lookupComponents_joinPieces piecesNonempty hostable.isPiece,
    pieces, List.map_map]
  exact List.map_congr_left fun component member =>
    (hostable component member).nameComponent_eq

end LinkTarget

end Pithos
