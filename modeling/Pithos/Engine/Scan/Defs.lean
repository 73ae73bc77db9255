import Pithos.Engine.Catalog.Defs
import Pithos.Library.Attempt
import Pithos.Library.PathText
import Mathlib.Data.List.Sort

/-!
# Scanning the inputs

`scanInputs` walks the trees that are to be packed and keeps one entry for every
node.  A budget counts the entries and the memory they take, and charges the
children of a directory while they wait for their turn.  The scan keeps a record
of every change to the budget.  What the host reports about a node is part of
the node; reading it does not fail, and nothing cancels the scan.
-/

namespace Pithos

open Fallible
open Machine
open HostPath
open FileTree
open Attempt

/-! ## What is scanned -/

/-- The name of a directory entry, as a directory listing gives it. -/
abbrev EntryName := { name : Name // IsEntry name }

/-- A node below an input, as the host reports it.  A directory lists its
children in the order of the host.  A symbolic link comes with the canonical
path of what it leads to. -/
inductive InputNode
  | file (metadata : Metadata) (identity : Option Nat)
  | directory (metadata : Metadata) (children : List (EntryName × InputNode))
  | symlink (metadata : Metadata) (target canonical : Path)
      (targetIsDir : Bool)
  | other

/-- Whether a node is a directory. -/
def InputNode.isDir : InputNode → Bool
  | directory _ _ => true
  | file _ _ | symlink _ _ _ _ | other => false

/-- An input path with the node at it, its canonical path and that of its
parent. -/
structure ScanInput where
  path : Path
  node : InputNode
  canonical : Path
  canonicalParent : Path

/-- The directory that the links of an input must not leave. -/
def ScanInput.rootScope (input : ScanInput) : Path :=
  if input.node.isDir then input.canonical else input.canonicalParent

/-- What a scanned entry is. -/
inductive ScannedKind
  | file
  | directory
  | symlink (target : LinkTarget) (targetIsDir : Bool)
  deriving DecidableEq

/-- What the scanner keeps of an entry. -/
structure ScannedEntry where
  source : Path
  archivePath : ArchivePath
  sortKey : List UInt8
  metadata : Metadata
  identity : Option Nat
  kind : ScannedKind
  deriving DecidableEq

/-! ## The budget -/

/-- `SCANNED_ENTRY_MEMORY_OVERHEAD`. -/
def scannedEntryMemoryOverhead : UInt64 := 512

/-- `PENDING_CHILD_MEMORY_OVERHEAD`. -/
def pendingChildMemoryOverhead : UInt64 := 128

/-- A checked sum of charges. -/
def sumCharges (charges : List UInt64) : Result UInt64 :=
  charges.foldlM
    (fun total charge => okOr (checkedAdd total charge) .integerOverflow) 0

/-- A length as a word. -/
def wordOfLength (length : Nat) : Result UInt64 := do
  ensure (length < 2 ^ 64) .integerOverflow
  .ok (UInt64.ofNat length)

/-- The bytes of a path on this host. -/
def encodedPathLen (path : Path) : Result UInt64 := wordOfLength path.length

/-- The bytes that a component of a link target holds. -/
def LinkComponent.heldBytes : LinkComponent → Result UInt64
  | .parent => .ok 1
  | .normal component => wordOfLength component.bytes.length

/-- What a link target takes in memory. -/
def linkTargetMemoryBytes (target : LinkTarget) : Result UInt64 :=
  target.components.foldlM (fun total component => do
    let bytes ← component.heldBytes
    let value ← okOr (checkedAdd total 32) .integerOverflow
    okOr (checkedAdd value bytes) .integerOverflow) 0

/-- The limits of a scan, what it has retained and what it holds for a while. -/
structure ScanBudget where
  maxEntries : UInt64
  maxBytes : UInt64
  retainedEntries : UInt64
  retainedBytes : UInt64
  transientBytes : UInt64
  deriving DecidableEq, Repr

namespace ScanBudget

/-- Nothing is held. -/
def new (limits : DecodeLimits) : ScanBudget where
  maxEntries := limits.maxEntries
  maxBytes := limits.maxMetadataBytes
  retainedEntries := 0
  retainedBytes := 0
  transientBytes := 0

/-- There is room for one more entry beside those that are pending. -/
def ensurePendingSlot (budget : ScanBudget) (pending : Nat) : Result Unit := do
  ensure (pending < 2 ^ 64) .integerOverflow
  let total ← okOr (checkedAdd budget.retainedEntries (UInt64.ofNat pending))
    .integerOverflow
  ensure (total < budget.maxEntries) (.resourceLimit "entry count")

/-- Bytes that are to be held beside all that is held now. -/
def ensureBytes (budget : ScanBudget) (bytes : UInt64) : Result Unit := do
  let next ← sumCharges [budget.retainedBytes, budget.transientBytes, bytes]
  ensure (next ≤ budget.maxBytes) (.resourceLimit "scan memory")

/-- Hold some bytes for a while. -/
def reserveTransient (bytes : UInt64) (budget : ScanBudget) :
    Result ScanBudget := do
  budget.ensureBytes bytes
  let transientBytes ← okOr (checkedAdd budget.transientBytes bytes)
    .integerOverflow
  .ok { budget with transientBytes := transientBytes }

/-- Let go of bytes that were held, never below zero. -/
def releaseTransient (bytes : UInt64) (budget : ScanBudget) : ScanBudget :=
  { budget with transientBytes :=
      UInt64.ofNat (budget.transientBytes.toNat - bytes.toNat) }

/-- Charge an entry: its record, its paths, its sort key and what its kind
needs. -/
def retainEntry
    (source : Path)
    (archivePath : ArchivePath)
    (sortKey : List UInt8)
    (kindBytes : UInt64)
    (budget : ScanBudget) : Result ScanBudget := do
  ensure (budget.retainedEntries < budget.maxEntries)
    (.resourceLimit "entry count")
  let pathLen ← encodedPathLen source
  let bytes ← sumCharges [scannedEntryMemoryOverhead, pathLen,
    UInt64.ofNat archivePath.encodedLen,
    UInt64.ofNat archivePath.components.length * 32,
    UInt64.ofNat sortKey.length, kindBytes]
  budget.ensureBytes bytes
  let retainedBytes ← okOr (checkedAdd budget.retainedBytes bytes)
    .integerOverflow
  .ok { budget with
    retainedEntries := budget.retainedEntries + 1
    retainedBytes := retainedBytes }

end ScanBudget

/-- One change to the budget.  For a release of transient bytes it says how
many. -/
structure BudgetStep where
  before : ScanBudget
  released : Option UInt64
  after : ScanBudget
  deriving DecidableEq, Repr

/-! ## The scan -/

/-- The entries found so far, the budget and the changes made to it. -/
structure Scan where
  entries : List ScannedEntry
  budget : ScanBudget
  history : List BudgetStep

/-- Nothing has been scanned. -/
def Scan.start (limits : DecodeLimits) : Scan := ⟨[], ScanBudget.new limits, []⟩

/-- A step of the scan. -/
abbrev ScanM := EStateM PithosError Scan

/-- Put a changed budget into place. -/
def setBudget (released : Option UInt64) (budget : ScanBudget) : ScanM Unit :=
  modify fun scan =>
    { scan with
      budget := budget
      history := scan.history ++ [⟨scan.budget, released, budget⟩] }

/-- `ensure_pending_slot` on the budget of the scan. -/
def ensurePendingSlot (pending : Nat) : ScanM Unit := do
  lift ((← get).budget.ensurePendingSlot pending)

/-- `reserve_transient` on the budget of the scan. -/
def reserveTransient (bytes : UInt64) : ScanM Unit := do
  let budget ← lift ((← get).budget.reserveTransient bytes)
  setBudget none budget

/-- `release_transient` on the budget of the scan. -/
def releaseTransient (bytes : UInt64) : ScanM Unit := do
  setBudget (some bytes) ((← get).budget.releaseTransient bytes)

/-- `retain_entry` on the budget of the scan. -/
def retainEntry
    (source : Path)
    (archivePath : ArchivePath)
    (sortKey : List UInt8)
    (kindBytes : UInt64) : ScanM Unit := do
  let budget ← lift
    ((← get).budget.retainEntry source archivePath sortKey kindBytes)
  setBudget none budget

/-- Keep an entry. -/
def pushEntry (entry : ScannedEntry) : ScanM Unit :=
  modify fun scan => { scan with entries := scan.entries ++ [entry] }

/-- How a node is scanned once its source path and its path in the archive are
known. -/
abbrev NodeScan := Path → Path → ScanM Unit

/-- A child of a directory that waits for its turn. -/
structure PendingChild where
  path : Path
  sortKey : List UInt8
  memoryCharge : UInt64
  scan : NodeScan

/-- List a directory and charge every child. -/
def listChildren (directory : Path) :
    List (EntryName × NodeScan) → List PendingChild → ScanM (List PendingChild)
  | [], children => pure children
  | entry :: entries, children => do
      ensurePendingSlot children.length
      let path := push directory entry.1
      let name ← lift (okOr (fileName path) .unsafePath)
      let archivePath ← lift (ArchivePath.fromRelative name)
      let sortKey := archivePath.sortKey
      let pathLen ← lift (encodedPathLen path)
      let memoryCharge ← lift (sumCharges [pendingChildMemoryOverhead, pathLen,
        UInt64.ofNat sortKey.length])
      reserveTransient memoryCharge
      listChildren directory entries
        (children ++ [⟨path, sortKey, memoryCharge, entry.2⟩])

/-- Scan the children of a directory one after the other. -/
def scanPending (archivePrefix : Path) : List PendingChild → ScanM Unit
  | [] => pure ()
  | child :: children => do
      let name ← lift (okOr (fileName child.path) .unsafePath)
      child.scan child.path (push archivePrefix name)
      releaseTransient child.memoryCharge
      scanPending archivePrefix children

/-- Scan the children of a listed directory in the order of their names. -/
def scanListing
    (directory archivePrefix : Path)
    (entries : List (EntryName × NodeScan)) : ScanM Unit := do
  let children ← listChildren directory entries []
  scanPending archivePrefix (children.insertionSort fun left right =>
    left.sortKey ≤ right.sortKey)

mutual

/-- Scan one node and, in a directory, what lies below it. -/
def scanNode (limits : DecodeLimits) (rootScope : Path) (node : InputNode) :
    NodeScan := fun source relative => do
  let archivePath ← lift (ArchivePath.fromRelative relative)
  lift (validateArchivePath archivePath limits)
  let sortKey := archivePath.sortKey
  match node with
  | .symlink metadata targetPath canonicalTarget targetIsDir => do
      let target ← lift (LinkTarget.fromRelative targetPath)
      lift (ensure (target.resolvesWithin archivePath) .unsafeSymlink)
      lift (ensure (startsWith canonicalTarget rootScope) .unsafeSymlink)
      let kindBytes ← lift (linkTargetMemoryBytes target)
      retainEntry source archivePath sortKey kindBytes
      pushEntry ⟨source, archivePath, sortKey, metadata, none,
        .symlink target targetIsDir⟩
  | .directory metadata children => do
      retainEntry source archivePath sortKey 0
      pushEntry ⟨source, archivePath, sortKey, metadata, none, .directory⟩
      scanListing source relative (childScans limits rootScope children)
  | .file metadata identity => do
      retainEntry source archivePath sortKey 0
      pushEntry ⟨source, archivePath, sortKey, metadata, identity, .file⟩
  | .other => lift (.error .unsupportedFileType)

/-- How the children of a directory are scanned. -/
def childScans (limits : DecodeLimits) (rootScope : Path) :
    List (EntryName × InputNode) → List (EntryName × NodeScan)
  | [] => []
  | (name, node) :: children =>
      (name, scanNode limits rootScope node) ::
        childScans limits rootScope children

end

/-- The children of a directory, in the order of their names. -/
def scanDirectoryChildren
    (limits : DecodeLimits)
    (rootScope : Path)
    (children : List (EntryName × InputNode))
    (directory archivePrefix : Path) : ScanM Unit :=
  scanListing directory archivePrefix (childScans limits rootScope children)

/-- Whether the inputs are one directory, whose children are then packed
without it. -/
def singleDirectory (inputs : List ScanInput) : Bool :=
  match inputs with
  | [input] => input.node.isDir
  | _ => false

/-- Scan one input: the children of a single directory, any other one under its
own name. -/
def scanInput (limits : DecodeLimits) (single : Bool) (input : ScanInput) :
    ScanM Unit :=
  match single, input.node with
  | true, .directory _ children =>
      scanDirectoryChildren limits input.rootScope children input.path []
  | _, node => do
      let name ← lift (okOr (fileName input.path) .unsafePath)
      scanNode limits input.rootScope node input.path name

/-- Scan all inputs, sort the entries and look for a path that occurs twice. -/
def scanSorted (inputs : List ScanInput) (limits : DecodeLimits) :
    ScanM (List ScannedEntry) := do
  lift (ensure (inputs.length ≤ limits.maxEntries.toNat)
    (.resourceLimit "entry count"))
  inputs.forM (scanInput limits (singleDirectory inputs))
  let entries := (← get).entries.insertionSort fun left right =>
    left.sortKey ≤ right.sortKey
  lift (ensure (entries.IsChain fun left right =>
    left.sortKey ≠ right.sortKey) (.invalidMetadata "duplicate input path"))
  pure entries

/-- The entries below all inputs, within the limits. -/
def scanInputs (inputs : List ScanInput) (limits : DecodeLimits) :
    EStateM.Result PithosError Scan (List ScannedEntry) :=
  scanSorted inputs limits (Scan.start limits)

end Pithos
