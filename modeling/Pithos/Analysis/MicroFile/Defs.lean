import Pithos.Format.Records
import Pithos.Analysis.ChunkIds
import Pithos.Library.FrontCoding
import Mathlib.Data.List.Lex

/-!
# Micro files

Small files are packed together.  The planner sees their metadata only: it puts
the files in one order, cuts them into packs, and writes the metadata of a pack
in columns, with front-coded paths, times as distances from the earliest one and
a dictionary of modes.  The validators check the limits and the columns of packs
and plans of any origin.

The checkpoints between the steps are taken as passing and memory as available.
-/

namespace Pithos

open Fallible
open Machine
open MergeSort
open FrontCoding

/-! ## Data -/

/-- What the planner is told of a file. -/
structure MicroFileInput where
  entryId : UInt64
  path : List UInt8
  size : UInt64
  modifiedNs : Int64
  mode : UInt32
  fileHash : Digest
  familyKey : UInt64
  pathPrefixKey : List UInt8
  extensionKey : List UInt8
  similarityKey : UInt64
  requiresIsolatedAccess : Bool
  deriving DecidableEq

/-- Why a file stays out of the packs. -/
inductive MicroFileExclusionReason
  | tooLarge
  | requiresIsolatedAccess
  deriving DecidableEq, Repr

/-- A file that stays out, with the reason. -/
structure MicroFileExclusion where
  entryId : UInt64
  reason : MicroFileExclusionReason
  deriving DecidableEq, Repr

/-- A path, given the one before it in the pack. -/
structure FrontCodedPath where
  sharedPrefixLen : UInt32
  suffix : List UInt8
  deriving DecidableEq, Repr

/-- The row of a member: its mode by its place in the dictionary, its place in
the pack and the hash of its bytes. -/
structure MicroFileMetadataRecord where
  entryId : UInt64
  modeIndex : UInt32
  contentOffset : UInt64
  length : UInt32
  fileHash : Digest
  deriving DecidableEq

/-- The columns of the metadata of a pack. -/
structure MicroFilePackMetadata where
  paths : List FrontCodedPath
  baseModifiedNs : Int64
  modifiedNsDeltas : List UInt64
  modeDictionary : List UInt32
  records : List MicroFileMetadataRecord
  deriving DecidableEq

/-- Where a member lies in its pack. -/
structure MicroFilePackMember where
  entryId : UInt64
  contentOffset : UInt64
  length : UInt32
  deriving DecidableEq, Repr

/-- A pack: its members one after the other and their metadata by columns. -/
structure MicroFilePack where
  packId : UInt64
  members : List MicroFilePackMember
  uncompressedLen : UInt64
  metadata : MicroFilePackMetadata
  deriving DecidableEq

/-- All packs, and the files that stay out of them. -/
structure MicroFilePackPlan where
  packs : List MicroFilePack
  excluded : List MicroFileExclusion
  deriving DecidableEq

/-! ## Checks shared by the planner and the validators -/

/-- The metadata is within its limit. -/
def ensureMetadataSize (size : UInt64) (config : ChunkingConfig) :
    Result Unit :=
  ensure (size ≤ config.maxMetadataBytes) (.resourceLimit "metadata bytes")

/-- Check that no value repeats: the values are sorted and neighbours
compared. -/
def ensureUnique
    {Item Key : Type}
    [LinearOrder Key]
    (key : Item → Key)
    (items : List Item)
    (what : String) : Result Unit :=
  ensure ((sortByKey key items).IsChain fun left right =>
    key left ≠ key right) (.invalidMetadata what)

/-- No two files have one id. -/
def ensureUniqueIds (ids : List UInt64) : Result Unit :=
  ensureUnique UInt64.toNat ids "duplicate microfile entry id"

/-- A byte string in the order of slices. -/
def bytesKey (bytes : List UInt8) : List ℕ :=
  bytes.map UInt8.toNat

/-- No two files have one path. -/
def ensureUniquePaths (paths : List (List UInt8)) : Result Unit :=
  ensureUnique bytesKey paths "duplicate microfile path"

/-! ## Metadata of a pack -/

/-- What is known after some rows of the columns. -/
structure ExpandedColumns where
  paths : List (List UInt8)
  previous : List UInt8
  entryIds : List UInt64
  expectedOffset : UInt64
  expandedPathBytes : UInt64

namespace ExpandedColumns

/-- No row has been read. -/
def empty : ExpandedColumns := ⟨[], [], [], 0, 0⟩

end ExpandedColumns

namespace MicroFilePackMetadata

/-- The rows of the parallel columns. -/
def rows (metadata : MicroFilePackMetadata) :
    List ((FrontCodedPath × UInt64) × MicroFileMetadataRecord) :=
  (metadata.paths.zip metadata.modifiedNsDeltas).zip metadata.records

/-- Check one row and take its path. -/
def expandRow
    (metadata : MicroFilePackMetadata)
    (config : ChunkingConfig)
    (columnBytes : UInt64)
    (row : (FrontCodedPath × UInt64) × MicroFileMetadataRecord)
    (columns : ExpandedColumns) : Result ExpandedColumns := do
  let path := row.1.1
  let delta := row.1.2
  let record := row.2
  let shared := path.sharedPrefixLen.toNat
  ensure (shared ≤ columns.previous.length)
    (.invalidMetadata "front-coded microfile path")
  let pathLen ← tryU64 (shared + path.suffix.length)
  ensure (pathLen ≤ config.maxPathBytes) (.resourceLimit "path bytes")
  let expandedPathBytes ← addU64 columns.expandedPathBytes pathLen
  let bytes ← addU64 columnBytes expandedPathBytes
  ensureMetadataSize bytes config
  let expanded := columns.previous.take shared ++ path.suffix
  ensure (expanded ≠ []) (.invalidMetadata "empty microfile path")
  ensure (metadata.baseModifiedNs.toInt + delta.toNat < 2 ^ 63)
    .integerOverflow
  ensure (record.modeIndex.toNat < metadata.modeDictionary.length ∧
      record.contentOffset = columns.expectedOffset)
    (.invalidMetadata "microfile metadata record")
  let expectedOffset ← addU64 columns.expectedOffset record.length.toUInt64
  .ok {
    paths := columns.paths ++ [expanded]
    previous := expanded
    entryIds := columns.entryIds ++ [record.entryId]
    expectedOffset := expectedOffset
    expandedPathBytes := expandedPathBytes }

/-- The bytes of the columns without the paths. -/
def baseColumnBytes (metadata : MicroFilePackMetadata) : Result UInt64 := do
  let recordCount ← tryU64 metadata.records.length
  let dictionaryCount ← tryU64 metadata.modeDictionary.length
  let dictionaryBytes ← okOr (checkedMul dictionaryCount 4) .integerOverflow
  let recordBytes ← okOr (checkedMul recordCount 72) .integerOverflow
  addU64 recordBytes dictionaryBytes

/-- Count the suffix of one path. -/
def countSuffix
    (config : ChunkingConfig)
    (baseColumnBytes : UInt64)
    (path : FrontCodedPath)
    (suffixBytes : UInt64) : Result UInt64 := do
  let suffixLen ← tryU64 path.suffix.length
  let suffixBytes ← addU64 suffixBytes suffixLen
  let bytes ← addU64 baseColumnBytes suffixBytes
  ensureMetadataSize bytes config
  .ok suffixBytes

/-- Check the columns and read the paths. -/
def expandedPaths
    (cdc : FastCdc)
    (metadata : MicroFilePackMetadata)
    (config : ChunkingConfig) : Result (List (List UInt8)) := do
  config.validate cdc
  let recordCount ← tryU64 metadata.records.length
  ensureChunkCount recordCount config.maxChunks
  ensure (metadata.paths.length = metadata.records.length ∧
      metadata.modifiedNsDeltas.length = metadata.records.length)
    (.invalidMetadata "microfile metadata columns")
  ensure (metadata.records = [] ∨ metadata.modeDictionary ≠ [])
    (.invalidMetadata "microfile mode dictionary")
  ensure (metadata.modeDictionary.length ≤ metadata.records.length)
    (.invalidMetadata "microfile mode dictionary")
  ensure (metadata.modeDictionary.IsChain (· < ·))
    (.invalidMetadata "microfile mode dictionary")
  let baseColumnBytes ← metadata.baseColumnBytes
  ensureMetadataSize baseColumnBytes config
  let suffixBytes ← forEnum (fun _ => countSuffix config baseColumnBytes)
    0 metadata.paths 0
  let columnBytes ← addU64 baseColumnBytes suffixBytes
  let columns ← forEnum (fun _ => metadata.expandRow config columnBytes)
    0 metadata.rows .empty
  ensureUniqueIds columns.entryIds
  ensureUniquePaths columns.paths
  .ok columns.paths

end MicroFilePackMetadata

/-! ## Validation -/

namespace MicroFilePack

/-- Check that a member is the one its record describes. -/
def checkMember
    (config : ChunkingConfig)
    (row : MicroFilePackMember × MicroFileMetadataRecord)
    (expectedOffset : UInt64) : Result UInt64 := do
  ensure (row.1.entryId = row.2.entryId ∧
      row.1.contentOffset = row.2.contentOffset ∧
      row.1.length = row.2.length ∧ row.1.contentOffset = expectedOffset ∧
      row.1.length ≤ config.microFileMax)
    (.invalidMetadata "microfile member mapping")
  addU64 expectedOffset row.1.length.toUInt64

/-- Check a pack on its own. -/
def validate
    (cdc : FastCdc)
    (pack : MicroFilePack)
    (config : ChunkingConfig) : Result Unit := do
  config.validate cdc
  let memberCount ← tryU64 pack.members.length
  ensureChunkCount memberCount config.maxChunks
  ensure (pack.members ≠ [] ∧
      pack.members.length = pack.metadata.records.length ∧
      pack.uncompressedLen ≤ config.microPackTarget.toUInt64 ∧
      pack.uncompressedLen ≤ config.maxLogicalBytes)
    (.invalidMetadata "microfile pack layout")
  let _ ← pack.metadata.expandedPaths cdc config
  let expectedOffset ← forEnum (fun _ => checkMember config)
    0 (pack.members.zip pack.metadata.records) (0 : UInt64)
  ensure (expectedOffset = pack.uncompressedLen)
    (.invalidMetadata "microfile pack length")

end MicroFilePack

namespace MicroFilePackPlan

/-- Count the members and the bytes of one pack. -/
def countPack
    (config : ChunkingConfig)
    (pack : MicroFilePack)
    (totals : UInt64 × UInt64) : Result (UInt64 × UInt64) := do
  let memberCount ← tryU64 pack.members.length
  let totalMembers ← addU64 totals.1 memberCount
  ensureChunkCount totalMembers config.maxChunks
  let totalContent ← addU64 totals.2 pack.uncompressedLen
  ensureLogicalSize totalContent config
  .ok (totalMembers, totalContent)

/-- Check one pack and collect the ids of its members. -/
def checkPack
    (cdc : FastCdc)
    (config : ChunkingConfig)
    (index : Nat)
    (pack : MicroFilePack)
    (entryIds : List UInt64) : Result (List UInt64) := do
  let packId ← tryU64 index
  ensure (pack.packId = packId) (.invalidMetadata "microfile pack ID")
  pack.validate cdc config
  .ok (entryIds ++ pack.members.map (·.entryId))

/-- Check a plan: the limits, the ids of the packs, every pack and that no entry
id repeats. -/
def validate
    (cdc : FastCdc)
    (plan : MicroFilePackPlan)
    (config : ChunkingConfig) : Result Unit := do
  config.validate cdc
  let packCount ← tryU64 plan.packs.length
  ensureChunkCount packCount config.maxChunks
  let (totalMembers, _) ← forEnum (fun _ => countPack config) 0 plan.packs
    ((0 : UInt64), (0 : UInt64))
  let excludedCount ← tryU64 plan.excluded.length
  let totalIds ← addU64 totalMembers excludedCount
  ensureChunkCount totalIds config.maxChunks
  let entryIds ← forEnum (checkPack cdc config) 0 plan.packs []
  ensureUniqueIds (entryIds ++ plan.excluded.map (·.entryId))

end MicroFilePackPlan

/-! ## Logical chunks -/

/-- The chunk of a member: a file of its own. -/
def MicroFilePackMember.draft
    (objectId : UInt64)
    (member : MicroFilePackMember) : LogicalChunkDraft where
  entryId := member.entryId
  objectId := objectId
  logicalOffset := 0
  length := member.length
  method := .microFile

/-- One chunk for each member of a plan. -/
def microFileLogicalChunks
    (cdc : FastCdc)
    (plan : MicroFilePackPlan)
    (objectId : UInt64)
    (config : ChunkingConfig) : Result (List LogicalChunkDraft) := do
  plan.validate cdc config
  let _ ← forEnum
    (fun _ (pack : MicroFilePack) count => do
      ensure (count + pack.members.length < 2 ^ 64) .integerOverflow
      .ok (count + pack.members.length))
    0 plan.packs 0
  .ok (plan.packs.flatMap fun pack => pack.members.map (·.draft objectId))

end Pithos
