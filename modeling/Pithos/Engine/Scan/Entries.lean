import Pithos.Engine.Scan.Budget
import Pithos.Engine.Catalog.Spec

/-!
# The entries of a scan

Every entry of a scan has passed the checks on its path and its link target, and
the entries form a tree: above every entry that lies deeper than the inputs stands
the entry of its directory.  The names in it are names of the host, and so are
those in the link targets.
-/

namespace Pithos

open Fallible
open Lists
open Machine
open HostPath
open FileTree
open Attempt
open Utf8

/-! ## What every entry has passed -/

/-- The checks on a node that its entry has passed. -/
structure ScannedEntry.Checked (limits : DecodeLimits) (entry : ScannedEntry) :
    Prop where
  path : PathOk limits entry.archivePath
  link : ∀ target targetIsDir, entry.kind = .symlink target targetIsDir →
    target.resolvesWithin entry.archivePath

/-- All entries so far have passed the checks. -/
def Scan.Checked (limits : DecodeLimits) (scan : Scan) : Prop :=
  ∀ entry ∈ scan.entries, entry.Checked limits

/-- A part of the scan that adds only entries that have passed the checks. -/
def KeepsChecked
    {Value : Type}
    (limits : DecodeLimits)
    (action : ScanM Value) : Prop :=
  ∀ start : Scan, start.Checked limits →
    Ends action start (fun _ final => final.Checked limits) fun _ _ => True

section Checked

variable
  {limits : DecodeLimits}
  {Value Other : Type}

theorem KeepsChecked.bind
    {action : ScanM Value}
    {next : Value → ScanM Other}
    (first : KeepsChecked limits action)
    (rest : ∀ value, KeepsChecked limits (next value)) :
    KeepsChecked limits (action >>= next) :=
  fun start checked => (first start checked).bind
    fun value _ later => rest value _ later

theorem keepsChecked_pure (value : Value) :
    KeepsChecked limits (pure value : ScanM Value) :=
  fun _ checked => checked

/-- A check that reads nothing tells the rest what it has found. -/
theorem keepsChecked_lift_bind
    {result : Result Value}
    {next : Value → ScanM Other}
    (rest : ∀ value, result = .ok value → KeepsChecked limits (next value)) :
    KeepsChecked limits (lift result >>= next) :=
  fun start checked => ends_lift_bind.mpr
    ⟨fun value isOk => rest value isOk start checked, fun _ _ => trivial⟩

theorem keepsChecked_lift (result : Result Value) :
    KeepsChecked limits (lift result : ScanM Value) :=
  fun _ checked => (ends_lift result).mpr
    ⟨fun _ _ => checked, fun _ _ => trivial⟩

theorem keepsChecked_setBudget (released : Option UInt64) (budget : ScanBudget) :
    KeepsChecked limits (setBudget released budget) :=
  fun _ checked => checked

/-- Reading the state keeps it. -/
theorem keepsChecked_get_bind
    {next : Scan → ScanM Value}
    (rest : ∀ scan, KeepsChecked limits (next scan)) :
    KeepsChecked limits (get >>= next) :=
  fun start checked => (ends_get_bind next).mpr (rest start start checked)

theorem keepsChecked_ensurePendingSlot (pending : Nat) :
    KeepsChecked limits (ensurePendingSlot pending) :=
  keepsChecked_get_bind fun _ => keepsChecked_lift _

theorem keepsChecked_reserveTransient (bytes : UInt64) :
    KeepsChecked limits (reserveTransient bytes) :=
  keepsChecked_get_bind fun _ => keepsChecked_lift_bind fun _ _ =>
    keepsChecked_setBudget _ _

theorem keepsChecked_releaseTransient (bytes : UInt64) :
    KeepsChecked limits (releaseTransient bytes) :=
  keepsChecked_get_bind fun _ => keepsChecked_setBudget _ _

theorem keepsChecked_retainEntry
    (source : Path)
    (archivePath : ArchivePath)
    (sortKey : List UInt8)
    (kindBytes : UInt64) :
    KeepsChecked limits (retainEntry source archivePath sortKey kindBytes) :=
  keepsChecked_get_bind fun _ => keepsChecked_lift_bind fun _ _ =>
    keepsChecked_setBudget _ _

theorem keepsChecked_pushEntry
    {entry : ScannedEntry}
    (isChecked : entry.Checked limits) :
    KeepsChecked limits (pushEntry entry) := by
  intro start checked
  refine (ends_modify _).mpr fun other member => ?_
  rcases List.mem_append.mp member with earlier | last
  · exact checked other earlier
  · obtain rfl := List.mem_singleton.mp last
    exact isChecked

/-- The children that a listing hands on are scanned by one of the scans that it
was given. -/
theorem ends_listChildren_scans
    {directory : Path}
    {entries : List (EntryName × NodeScan)}
    {done : List PendingChild}
    {good : NodeScan → Prop}
    (entriesGood : ∀ entry ∈ entries, good entry.2)
    (doneGood : ∀ child ∈ done, good child.scan)
    {start : Scan}
    (checked : start.Checked limits) :
    Ends (listChildren directory entries done) start
      (fun children final => final.Checked limits ∧
        ∀ child ∈ children, good child.scan) fun _ _ => True := by
  induction entries generalizing done start with
  | nil =>
      rw [listChildren, ends_pure]
      exact ⟨checked, doneGood⟩
  | cons entry entries inductionHypothesis =>
      rw [listChildren]
      refine Ends.bind (keepsChecked_ensurePendingSlot _ start checked)
        fun _ scan later => ?_
      refine ends_lift_bind.mpr ⟨fun name _ => ?_, fun _ _ => trivial⟩
      refine ends_lift_bind.mpr ⟨fun archivePath _ => ?_, fun _ _ => trivial⟩
      refine ends_lift_bind.mpr ⟨fun pathLen _ => ?_, fun _ _ => trivial⟩
      refine ends_lift_bind.mpr ⟨fun charge _ => ?_, fun _ _ => trivial⟩
      refine Ends.bind (keepsChecked_reserveTransient _ scan later)
        fun _ next last => ?_
      refine inductionHypothesis (fun other member =>
        entriesGood other (List.mem_cons_of_mem _ member)) ?_ last
      intro child member
      rcases List.mem_append.mp member with earlier | isLast
      · exact doneGood child earlier
      · obtain rfl := List.mem_singleton.mp isLast
        exact entriesGood entry List.mem_cons_self

theorem keepsChecked_scanPending
    {archivePrefix : Path}
    {children : List PendingChild}
    (scans : ∀ child ∈ children, ∀ source relative,
      KeepsChecked limits (child.scan source relative)) :
    KeepsChecked limits (scanPending archivePrefix children) := by
  induction children with
  | nil => exact keepsChecked_pure ()
  | cons child children inductionHypothesis =>
      rw [scanPending]
      refine keepsChecked_lift_bind fun name _ => ?_
      refine (scans child List.mem_cons_self _ _).bind fun _ => ?_
      refine (keepsChecked_releaseTransient _).bind fun _ => ?_
      exact inductionHypothesis fun other member =>
        scans other (List.mem_cons_of_mem _ member)

theorem keepsChecked_scanListing
    {directory archivePrefix : Path}
    {entries : List (EntryName × NodeScan)}
    (scans : ∀ entry ∈ entries, ∀ source relative,
      KeepsChecked limits (entry.2 source relative)) :
    KeepsChecked limits (scanListing directory archivePrefix entries) := by
  intro start checked
  refine (@ends_listChildren_scans limits directory entries [] (fun scan =>
    ∀ source relative, KeepsChecked limits (scan source relative)) scans
    (by simp) start checked).bind ?_
  rintro children scan ⟨later, areGood⟩
  refine keepsChecked_scanPending (fun child member => ?_) scan later
  exact areGood child ((List.perm_insertionSort _ _).mem_iff.mp member)

theorem keepsChecked_scanNode
    (limits : DecodeLimits)
    (rootScope : Path)
    (node : InputNode)
    (source relative : Path) :
    KeepsChecked limits (scanNode limits rootScope node source relative) := by
  induction node using InputNode.inductionOn generalizing source relative with
  | file metadata identity =>
      unfold scanNode
      refine keepsChecked_lift_bind fun archivePath _ =>
        keepsChecked_lift_bind fun _ valid =>
          (keepsChecked_retainEntry _ _ _ _).bind fun _ =>
            keepsChecked_pushEntry
              ⟨validateArchivePath_eq_ok.mp valid, by rintro _ _ ⟨⟩⟩
  | directory metadata children inductionHypothesis =>
      unfold scanNode
      refine keepsChecked_lift_bind fun archivePath _ =>
        keepsChecked_lift_bind fun _ valid =>
          (keepsChecked_retainEntry _ _ _ _).bind fun _ => ?_
      refine (keepsChecked_pushEntry
        ⟨validateArchivePath_eq_ok.mp valid, by rintro _ _ ⟨⟩⟩).bind
        fun _ => ?_
      rw [childScans_eq_map]
      refine keepsChecked_scanListing fun entry member => ?_
      obtain ⟨child, isChild, rfl⟩ := List.mem_map.mp member
      exact inductionHypothesis child isChild
  | symlink metadata targetPath canonicalTarget targetIsDir =>
      unfold scanNode
      refine keepsChecked_lift_bind fun archivePath _ =>
        keepsChecked_lift_bind fun _ valid => keepsChecked_lift_bind
          fun target _ => keepsChecked_lift_bind fun _ within =>
            keepsChecked_lift_bind fun _ _ => keepsChecked_lift_bind
              fun kindBytes _ => (keepsChecked_retainEntry _ _ _ _).bind
                fun _ => keepsChecked_pushEntry ?_
      refine ⟨validateArchivePath_eq_ok.mp valid, ?_⟩
      rintro _ _ ⟨⟩
      exact ensure_eq_ok.mp within
  | other =>
      unfold scanNode
      exact keepsChecked_lift_bind fun archivePath _ =>
        keepsChecked_lift_bind fun _ _ => keepsChecked_lift _

theorem keepsChecked_scanInput
    (limits : DecodeLimits)
    (single : Bool)
    (input : ScanInput) :
    KeepsChecked limits (scanInput limits single input) := by
  have named : KeepsChecked limits (do
      let name ← lift (okOr (fileName input.path) .unsafePath)
      scanNode limits input.rootScope input.node input.path name) :=
    keepsChecked_lift_bind fun name _ => keepsChecked_scanNode _ _ _ _ _
  obtain ⟨path, node, canonical, canonicalParent⟩ := input
  cases single with
  | false => cases node <;> exact named
  | true =>
      cases node with
      | file metadata identity => exact named
      | symlink metadata target canonical targetIsDir => exact named
      | other => exact named
      | directory metadata children =>
          refine keepsChecked_scanListing fun entry member => ?_
          rw [childScans_eq_map] at member
          obtain ⟨child, _, rfl⟩ := List.mem_map.mp member
          exact keepsChecked_scanNode _ _ _

theorem keepsChecked_forM
    (limits : DecodeLimits)
    (single : Bool)
    (inputs : List ScanInput) :
    KeepsChecked limits (inputs.forM (scanInput limits single)) := by
  induction inputs with
  | nil => exact keepsChecked_pure ()
  | cons input inputs inductionHypothesis =>
      exact (keepsChecked_scanInput limits single input).bind
        fun _ => inductionHypothesis

/-- Every entry of a scan has passed the checks. -/
theorem checked_of_scanInputs
    {inputs : List ScanInput}
    {entries : List ScannedEntry}
    {final : Scan}
    (ran : scanInputs inputs limits = .ok entries final) :
    ∀ entry ∈ entries, entry.Checked limits := by
  have sorted : Ends (scanSorted inputs limits) (Scan.start limits)
      (fun entries _ => ∀ entry ∈ entries, entry.Checked limits)
      fun _ _ => True := by
    refine ends_lift_bind.mpr ⟨fun _ _ => ?_, fun _ _ => trivial⟩
    refine Ends.bind (keepsChecked_forM limits _ inputs (Scan.start limits)
      (by rintro _ ⟨⟩)) fun _ scan checked => ?_
    rw [ends_get_bind]
    refine ends_lift_bind.mpr ⟨fun _ _ entry member => ?_,
      fun _ _ => trivial⟩
    exact checked entry ((List.perm_insertionSort _ _).mem_iff.mp member)
  exact sorted.of_ok ran

end Checked

/-! ## The tree of the nodes -/

/-- The path of a node is made of these names. -/
def PlacedNode.IsAt (placed : PlacedNode) (names : List Name) : Prop :=
  placed.relative = names.foldl push []

/-- The names of one of some nodes, with a directory among the nodes at each
front of the names from a depth on. -/
structure PlacedNode.Below
    (nodes : List PlacedNode)
    (base : List Name)
    (depth : Nat)
    (placed : PlacedNode)
    (names : List Name) : Prop where
  isAt : placed.IsAt names
  entries : ∀ name ∈ names, IsEntry name
  below : base <+: names
  above : ∀ length, depth ≤ length → length < names.length →
    ∃ directory ∈ nodes, directory.node.isDir = true ∧
      directory.IsAt (names.take length)

theorem isAt_push
    {names : List Name}
    {name : Name} :
    push (names.foldl push []) name = (names ++ [name]).foldl push [] := by
  rw [List.foldl_append]
  rfl

theorem entries_concat
    {base : List Name}
    (entries : ∀ name ∈ base, IsEntry name)
    (last : EntryName) :
    ∀ name ∈ base ++ [last.1], IsEntry name := by
  intro name member
  rcases List.mem_append.mp member with inBase | isLast
  · exact entries name inBase
  · obtain rfl := List.mem_singleton.mp isLast
    exact last.property

theorem placed_directory
    (rootScope : Path)
    (metadata : Metadata)
    (children : List (EntryName × InputNode))
    (source relative : Path) :
    (InputNode.directory metadata children).placed rootScope source relative =
      ⟨rootScope, source, relative, .directory metadata children⟩ ::
        placedChildren rootScope children source relative := by
  rw [InputNode.placed]

/-- The root of a tree lies at its own names. -/
theorem below_root
    {nodes : List PlacedNode}
    {base : List Name}
    {placed : PlacedNode}
    (isAt : placed.IsAt base)
    (entries : ∀ name ∈ base, IsEntry name) :
    placed.Below nodes base base.length base where
  isAt := isAt
  entries := entries
  below := List.prefix_refl base
  above := fun _ deep short => absurd short (Nat.not_lt.mpr deep)

/-- What lies below the children of a directory lies below the directory. -/
theorem exists_below_children
    {rootScope source : Path}
    {children : List (EntryName × InputNode)}
    {base : List Name}
    (inChild : ∀ child ∈ children,
      ∀ placed ∈ child.2.placed rootScope (push source child.1)
        ((base ++ [child.1.1]).foldl push []),
        ∃ names, placed.Below (child.2.placed rootScope (push source child.1)
          ((base ++ [child.1.1]).foldl push [])) (base ++ [child.1.1])
            (base.length + 1) names)
    {placed : PlacedNode}
    (member : placed ∈ placedChildren rootScope children source
      (base.foldl push [])) :
    ∃ names, placed.Below (placedChildren rootScope children source
      (base.foldl push [])) base (base.length + 1) names := by
  rw [placedChildren_eq_flatMap] at member ⊢
  obtain ⟨child, isChild, isBelow⟩ := List.mem_flatMap.mp member
  rw [isAt_push] at isBelow
  obtain ⟨names, below⟩ := inChild child isChild placed isBelow
  refine ⟨names, below.isAt, below.entries,
    (List.prefix_append _ _).trans below.below, fun length deep short => ?_⟩
  obtain ⟨directory, isNode, isDirectory⟩ := below.above length deep short
  refine ⟨directory, List.mem_flatMap.mpr ⟨child, isChild, ?_⟩, isDirectory⟩
  rw [isAt_push]
  exact isNode

/-- Every node of a tree lies below its root, with directories in between. -/
theorem exists_below
    (rootScope : Path)
    (node : InputNode)
    (source : Path)
    {base : List Name}
    (entries : ∀ name ∈ base, IsEntry name) :
    ∀ placed ∈ node.placed rootScope source (base.foldl push []),
      ∃ names, placed.Below (node.placed rootScope source
        (base.foldl push [])) base base.length names := by
  induction node using InputNode.inductionOn generalizing source base with
  | directory metadata children inductionHypothesis =>
      intro placed member
      rw [placed_directory] at member ⊢
      rcases List.mem_cons.mp member with rfl | isBelow
      · exact ⟨base, below_root rfl entries⟩
      obtain ⟨names, below⟩ := exists_below_children
        (fun child isChild placed isPlaced => by
          have found := inductionHypothesis child isChild
            (push source child.1) (entries_concat entries child.1) placed
            isPlaced
          rwa [List.length_append] at found) isBelow
      refine ⟨names, below.isAt, below.entries, below.below, ?_⟩
      intro length deep short
      rcases Nat.lt_or_eq_of_le deep with deeper | rfl
      · obtain ⟨directory, isNode, isDirectory⟩ :=
          below.above length deeper short
        exact ⟨directory, List.mem_cons_of_mem _ isNode, isDirectory⟩
      · refine ⟨_, List.mem_cons_self, rfl, ?_⟩
        rw [← List.prefix_iff_eq_take.mp below.below]
        rfl
  | file metadata identity =>
      intro placed member
      obtain rfl := List.mem_singleton.mp member
      exact ⟨base, below_root rfl entries⟩
  | symlink metadata target canonical targetIsDir =>
      intro placed member
      obtain rfl := List.mem_singleton.mp member
      exact ⟨base, below_root rfl entries⟩
  | other =>
      intro placed member
      obtain rfl := List.mem_singleton.mp member
      exact ⟨base, below_root rfl entries⟩

/-! ## The tree of the entries -/

/-- The last name of a path can stand as a directory entry. -/
theorem isEntry_of_fileName
    {path : Path}
    {name : Name}
    (noNul : 0 ∉ path)
    (isName : fileName path = some name) :
    IsEntry name := by
  have member : .normal name ∈ components path := by
    unfold fileName at isName
    split at isName
    · rename_i last
      cases isName
      exact List.mem_of_getLast? last
    all_goals cases isName
  obtain ⟨start, names, parsed⟩ := parsed_components path
  refine ⟨parsed.isNormal_of_mem member, fun isNul => noNul ?_⟩
  exact mem_of_mem_components member isNul (by decide)

/-- The nodes of one input lie in one tree. -/
theorem exists_below_input
    {input : ScanInput}
    (noNul : 0 ∉ input.path)
    (single : Bool)
    (relative : ∀ placed ∈ input.placed single, placed.relative ≠ [])
    {placed : PlacedNode}
    (member : placed ∈ input.placed single) :
    ∃ names, placed.Below (input.placed single) [] 1 names := by
  have named (relative : ∀ placed ∈ input.node.placed input.rootScope input.path
        ((fileName input.path).getD []), placed.relative ≠ [])
      (member : placed ∈ input.node.placed input.rootScope input.path
        ((fileName input.path).getD [])) :
      ∃ names, placed.Below (input.node.placed input.rootScope input.path
        ((fileName input.path).getD [])) [] 1 names := by
    cases isName : fileName input.path with
    | none =>
        refine absurd rfl (relative
          ⟨input.rootScope, input.path, [], input.node⟩ ?_)
        rw [isName]
        unfold InputNode.placed
        exact List.mem_cons_self
    | some name =>
        have isEntry := isEntry_of_fileName noNul isName
        have alone : name = [name].foldl push [] := by
          simp [push, isEntry.isPiece.not_isAbsolute]
        rw [isName, Option.getD_some, alone] at member
        rw [Option.getD_some, alone]
        obtain ⟨names, below⟩ := exists_below input.rootScope input.node
          input.path (by simpa using isEntry) placed member
        exact ⟨names, below.isAt, below.entries, List.nil_prefix, below.above⟩
  obtain ⟨path, node, canonical, canonicalParent⟩ := input
  cases single with
  | false => cases node <;> exact named relative member
  | true =>
      cases node with
      | file metadata identity => exact named relative member
      | symlink metadata target canonical targetIsDir =>
          exact named relative member
      | other => exact named relative member
      | directory metadata children =>
          exact @exists_below_children _ path children []
            (fun child _ placed isPlaced => exists_below _ child.2 _
              (entries_concat (by simp) child.1) placed isPlaced) placed member

/-- Every node to archive has names of its own, with directories to archive
above it. -/
theorem exists_names
    {inputs : List ScanInput}
    (noNul : ∀ input ∈ inputs, 0 ∉ input.path)
    (relative : ∀ placed ∈ nodesToArchive inputs, placed.relative ≠ [])
    {placed : PlacedNode}
    (member : placed ∈ nodesToArchive inputs) :
    ∃ names, placed.Below (nodesToArchive inputs) [] 1 names := by
  obtain ⟨input, isInput, inPlaced⟩ := List.mem_flatMap.mp member
  have subset : input.placed (singleDirectory inputs) ⊆ nodesToArchive inputs :=
    fun other isOther => List.mem_flatMap.mpr ⟨input, isInput, isOther⟩
  obtain ⟨names, below⟩ := exists_below_input (noNul input isInput) _
    (fun other isOther => relative other (subset isOther)) inPlaced
  refine ⟨names, below.isAt, below.entries, below.below, ?_⟩
  intro length deep short
  obtain ⟨directory, isNode, isDirectory⟩ := below.above length deep short
  exact ⟨directory, subset isNode, isDirectory⟩

/-- The entries of a tree: their names can be handed to the host, and at each
front of the names of an entry there is the entry of a directory. -/
structure EntryTree (entries : List ScannedEntry) : Prop where
  paths : ∀ entry ∈ entries, entry.archivePath =
    ⟨entry.archivePath.names.map PathComponent.fromOsStr⟩
  names : ∀ entry ∈ entries, ∀ name ∈ entry.archivePath.names, IsEntry name
  above : ∀ entry ∈ entries, ∀ length, 1 ≤ length →
    length < entry.archivePath.names.length → ∃ directory ∈ entries,
      directory.kind = .directory ∧
        directory.archivePath.names = entry.archivePath.names.take length

theorem bytes_fromOsStr (name : Name) :
    (PathComponent.fromOsStr name).bytes = name := by
  unfold PathComponent.fromOsStr
  split <;> rfl

/-- The archive path of a node at some names. -/
theorem archivePath_of_isAt
    {entry : ScannedEntry}
    {placed : PlacedNode}
    (isOf : entry.IsOf placed)
    {names : List Name}
    (isAt : placed.IsAt names)
    (entries : ∀ name ∈ names, IsEntry name) :
    entry.archivePath = ⟨names.map PathComponent.fromOsStr⟩ ∧
      entry.archivePath.names = names := by
  have pieces : ∀ name ∈ names, IsPiece name :=
    fun name member => (entries name member).isPiece
  have isPath := isOf.archivePath
  rw [isAt, foldl_push_eq_joinPieces pieces] at isPath
  have nonempty : names ≠ [] := by
    rintro rfl
    cases isPath
  rw [ArchivePath.fromRelative_of_components nonempty (by
    rw [components_joinPieces nonempty pieces, map_nameComponent
      fun name member => (entries name member).toIsNormal])] at isPath
  have isPath := Except.ok.inj isPath
  refine ⟨isPath.symm, ?_⟩
  rw [← isPath, ArchivePath.names, List.map_map]
  exact (List.map_congr_left fun name _ => bytes_fromOsStr name).trans
    (List.map_id names)

/-- A scan keeps one entry for every node, in the order of their keys. -/
structure Scan.Kept
    (inputs : List ScanInput)
    (limits : DecodeLimits)
    (entries : List ScannedEntry) : Prop where
  nodes : ∃ order, order.Perm (nodesToArchive inputs) ∧
    List.Forall₂ ScannedEntry.IsOf entries order
  sortKeys : entries.Pairwise fun left right => left.sortKey < right.sortKey
  count : entries.length ≤ limits.maxEntries.toNat

theorem kept_of_scanInputs
    {inputs : List ScanInput}
    {limits : DecodeLimits}
    {entries : List ScannedEntry}
    {final : Scan}
    (positive : 1 ≤ limits.maxEntries)
    (ran : scanInputs inputs limits = .ok entries final) :
    Scan.Kept inputs limits entries := by
  obtain ⟨visited, rfl, distinct⟩ := (ends_scanSorted positive).of_ok ran
  obtain ⟨kept, order, isKept, isOrder, areOf⟩ := visited.entries
  have isAll : final.entries = kept := isKept
  have isPerm := List.perm_insertionSort
    (fun left right : ScannedEntry => left.sortKey ≤ right.sortKey)
    final.entries
  rw [← isAll] at areOf
  obtain ⟨sorted, areSorted, sortedPerm⟩ := List.perm_comp_forall₂ isPerm areOf
  refine ⟨⟨sorted, sortedPerm.trans isOrder, areSorted⟩,
    pairwise_lt_insertionSort distinct, ?_⟩
  have room := visited.fits UInt64.zero_le
  have count := visited.retained
  rw [UInt64.le_iff_toNat_le, visited.maxEntries] at room
  simp only [Scan.start, ScanBudget.new, UInt64.toNat_zero] at room count
  rw [isPerm.length_eq, areOf.length_eq, isOrder.length_eq]
  omega

/-- Every entry stands for a node. -/
theorem Scan.Kept.exists_node
    {inputs : List ScanInput}
    {limits : DecodeLimits}
    {entries : List ScannedEntry}
    (kept : Scan.Kept inputs limits entries)
    {entry : ScannedEntry}
    (member : entry ∈ entries) :
    ∃ placed ∈ nodesToArchive inputs, entry.IsOf placed := by
  obtain ⟨order, isOrder, areOf⟩ := kept.nodes
  obtain ⟨placed, isPlaced, isOf⟩ :=
    exists_left_of_forall₂ areOf.flip member
  exact ⟨placed, isOrder.mem_iff.mp isPlaced, isOf⟩

/-- Every node has an entry. -/
theorem Scan.Kept.exists_entry
    {inputs : List ScanInput}
    {limits : DecodeLimits}
    {entries : List ScannedEntry}
    (kept : Scan.Kept inputs limits entries)
    {placed : PlacedNode}
    (member : placed ∈ nodesToArchive inputs) :
    ∃ entry ∈ entries, entry.IsOf placed := by
  obtain ⟨order, isOrder, areOf⟩ := kept.nodes
  exact exists_left_of_forall₂ areOf (isOrder.mem_iff.mpr member)

/-- The entries of a scan are a tree. -/
theorem Scan.Kept.entryTree
    {inputs : List ScanInput}
    {limits : DecodeLimits}
    {entries : List ScannedEntry}
    (kept : Scan.Kept inputs limits entries)
    (noNul : ∀ input ∈ inputs, 0 ∉ input.path) :
    EntryTree entries := by
  have relative : ∀ placed ∈ nodesToArchive inputs, placed.relative ≠ [] := by
    intro placed member isRoot
    obtain ⟨entry, _, isOf⟩ := kept.exists_entry member
    have isPath := isOf.archivePath
    rw [isRoot] at isPath
    cases isPath
  have located {entry : ScannedEntry} (member : entry ∈ entries) :
      ∃ placed names, entry.IsOf placed ∧
        placed.Below (nodesToArchive inputs) [] 1 names ∧
        entry.archivePath = ⟨names.map PathComponent.fromOsStr⟩ ∧
          entry.archivePath.names = names := by
    obtain ⟨placed, isNode, isOf⟩ := kept.exists_node member
    obtain ⟨names, below⟩ := exists_names noNul relative isNode
    exact ⟨placed, names, isOf, below,
      archivePath_of_isAt isOf below.isAt below.entries⟩
  refine ⟨fun entry member => ?_, fun entry member => ?_,
    fun entry member => ?_⟩
  · obtain ⟨_, names, _, _, isPath, isNames⟩ := located member
    rw [isNames]
    exact isPath
  · obtain ⟨_, names, _, below, _, isNames⟩ := located member
    rw [isNames]
    exact below.entries
  · obtain ⟨_, names, _, below, _, isNames⟩ := located member
    rw [isNames]
    intro length deep short
    obtain ⟨directory, isNode, isDirectory, isAt⟩ :=
      below.above length deep short
    obtain ⟨found, isEntry, isOf⟩ := kept.exists_entry isNode
    refine ⟨found, isEntry, ?_, (archivePath_of_isAt isOf isAt fun name isName =>
      below.entries name (List.mem_of_mem_take isName)).2⟩
    obtain ⟨rootScope, source, relative, node⟩ := directory
    cases node with
    | directory metadata children => exact isOf.node.2.2
    | file metadata identity => cases isDirectory
    | symlink metadata target canonical targetIsDir => cases isDirectory
    | other => cases isDirectory

/-! ## Link targets -/

/-- A link target from the host: every component climbs or is a name of the
path, as the host writes it. -/
structure LinkTarget.FromHost (path : Path) (target : LinkTarget) : Prop where
  nonempty : target.components ≠ []
  components : ∀ component ∈ target.components, component = .parent ∨
    ∃ name, IsNormal name ∧ (0 ∉ path → 0 ∉ name) ∧
      component = .normal (PathComponent.fromOsStr name)

theorem LinkTarget.fromHost_of_fromRelative
    {path : Path}
    {target : LinkTarget}
    (read : LinkTarget.fromRelative path = .ok target) :
    target.FromHost path := by
  unfold LinkTarget.fromRelative at read
  obtain ⟨components, looped, checked⟩ := bind_eq_ok.mp read
  obtain ⟨_, nonempty, isTarget⟩ := bind_eq_ok.mp checked
  cases isTarget
  refine ⟨ensure_eq_ok.mp nonempty, ?_⟩
  refine forEnum_invariant (fun done (components : List LinkComponent) =>
    done <+: HostPath.components path → ∀ component ∈ components,
      component = .parent ∨ ∃ name, IsNormal name ∧ (0 ∉ path → 0 ∉ name) ∧
        component = .normal (PathComponent.fromOsStr name))
    (fun _ component member => absurd member List.not_mem_nil) ?_ looped
    (List.prefix_refl _)
  intro done item components next held stepped isPrefix component member
  have earlier := held ((List.prefix_append _ _).trans isPrefix)
  cases item with
  | normal value =>
      cases stepped
      rcases List.mem_append.mp member with before | isLast
      · exact earlier component before
      · obtain rfl := List.mem_singleton.mp isLast
        have isComponent : .normal value ∈ HostPath.components path :=
          isPrefix.subset (by simp)
        obtain ⟨start, names, parsed⟩ := parsed_components path
        exact .inr ⟨value, parsed.isNormal_of_mem isComponent,
          fun noNul isNul => noNul
            (mem_of_mem_components isComponent isNul (by decide)), rfl⟩
  | parentDir =>
      cases stepped
      rcases List.mem_append.mp member with before | isLast
      · exact earlier component before
      · exact .inl (List.mem_singleton.mp isLast)
  | curDir =>
      cases stepped
      exact earlier component member
  | rootDir => cases stepped

/-- A link target from the host can be written back to it unless one of its
names is text with a backslash. -/
theorem LinkTarget.FromHost.hostable_iff
    {path : Path}
    {target : LinkTarget}
    (fromHost : target.FromHost path)
    (noNul : 0 ∉ path) :
    target.Hostable ↔ ∀ name ∈ target.pieces, isUtf8 name = true →
      PathComponent.backslash ∉ name := by
  rw [LinkTarget.pieces, List.forall_mem_map]
  refine forall₂_congr fun component member => ?_
  rcases fromHost.components component member with
    rfl | ⟨name, isNormal, isFree, rfl⟩
  · simp only [LinkComponent.Hostable, LinkComponent.piece, true_iff]
    decide
  rw [LinkComponent.piece, bytes_fromOsStr, LinkComponent.Hostable]
  have isName : IsName name := ⟨isNormal.isPiece, isNormal.notParent⟩
  cases text : isUtf8 name with
  | true =>
      simp only [PathComponent.fromOsStr, text, if_true, forall_const]
      exact ⟨fun hostable => (hostable.utf8 rfl).2,
        fun free => ⟨isName, fun _ => ⟨text, free⟩, by simp, by simp⟩⟩
  | false =>
      simp only [PathComponent.fromOsStr, text, Bool.false_eq_true, if_false,
        false_implies, iff_true]
      exact ⟨isName, by simp, fun _ => isFree noNul, by simp⟩

theorem LinkTarget.FromHost.noNul
    {path : Path}
    {target : LinkTarget}
    (fromHost : target.FromHost path)
    (noNul : 0 ∉ path) :
    ∀ name ∈ target.pieces, 0 ∉ name := by
  intro name member
  obtain ⟨component, isComponent, rfl⟩ := List.mem_map.mp member
  rcases fromHost.components component isComponent with
    rfl | ⟨value, _, isFree, rfl⟩
  · decide
  · rw [LinkComponent.piece, bytes_fromOsStr]
    exact isFree noNul

end Pithos
