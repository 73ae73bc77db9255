import Pithos.Analysis.MicroFile.Defs

/-!
# The micro-file planner

The inputs are checked, put in canonical order and split into the files that are
packed and those that are not.  One loop counts the packs, a second builds them,
and the plan is validated before it is returned.
-/

namespace Pithos

open Fallible
open Machine
open MergeSort
open FrontCoding

/-! ## Inputs -/

namespace MicroFileInput

/-- What the files are ordered by: first by what makes them alike. -/
def canonicalKey (input : MicroFileInput) :
    ℕ ×ₗ List ℕ ×ₗ List ℕ ×ₗ ℕ ×ₗ ℕ ×ₗ List ℕ ×ₗ ℕ :=
  toLex (input.familyKey.toNat, toLex (bytesKey input.pathPrefixKey,
    toLex (bytesKey input.extensionKey, toLex (input.mode.toNat,
      toLex (input.similarityKey.toNat, toLex (bytesKey input.path,
        input.entryId.toNat))))))

/-- Why a file is not packed. -/
def exclusionReason (config : ChunkingConfig) (input : MicroFileInput) :
    Option MicroFileExclusionReason :=
  if input.requiresIsolatedAccess then some .requiresIsolatedAccess
  else if config.microFileMax.toUInt64 < input.size then some .tooLarge
  else none

/-- Check the keys of one input and count their bytes. -/
def checkKeys
    (config : ChunkingConfig)
    (baseMetadataBytes : UInt64)
    (input : MicroFileInput)
    (inputMetadataBytes : UInt64) : Result UInt64 := do
  ensure (input.path ≠ []) (.invalidMetadata "empty microfile path")
  let pathLen ← tryU64 input.path.length
  let prefixLen ← tryU64 input.pathPrefixKey.length
  let extensionLen ← tryU64 input.extensionKey.length
  ensure (pathLen ≤ config.maxPathBytes ∧ prefixLen ≤ config.maxPathBytes ∧
      extensionLen ≤ config.maxPathBytes)
    (.resourceLimit "path bytes")
  let bytes ← addU64 inputMetadataBytes pathLen
  let bytes ← addU64 bytes prefixLen
  let bytes ← addU64 bytes extensionLen
  let size ← addU64 baseMetadataBytes bytes
  ensureMetadataSize size config
  .ok bytes

end MicroFileInput

/-- Every file is in order, and no id and no path comes twice. -/
def validateUniqueInputs
    (inputs : List MicroFileInput)
    (config : ChunkingConfig) : Result Unit := do
  let inputCount ← tryU64 inputs.length
  let baseMetadataBytes ← okOr (checkedMul inputCount 76) .integerOverflow
  ensureMetadataSize baseMetadataBytes config
  let _ ← forEnum
    (fun _ (input : MicroFileInput) =>
      input.checkKeys config baseMetadataBytes) 0 inputs (0 : UInt64)
  ensureUniqueIds (inputs.map (·.entryId))
  ensureUniquePaths (inputs.map (·.path))

/-! ## One pack -/

/-- The columns of a pack as far as they are built. -/
structure PackColumns where
  members : List MicroFilePackMember
  paths : List FrontCodedPath
  modifiedNsDeltas : List UInt64
  records : List MicroFileMetadataRecord
  contentOffset : UInt64
  previousPath : List UInt8

namespace PackColumns

/-- No member has been written. -/
def empty : PackColumns := ⟨[], [], [], [], 0, []⟩

/-- Append one file to every column. -/
def push
    (baseModifiedNs : Int64)
    (modeDictionary : List UInt32)
    (input : MicroFileInput)
    (columns : PackColumns) : Result PackColumns := do
  let length ← tryU32 input.size.toNat
  let sharedPrefixLen ←
    tryU32 (commonPrefixLen columns.previousPath input.path)
  let delta := input.modifiedNs.toInt - baseModifiedNs.toInt
  ensure (0 ≤ delta ∧ delta < 2 ^ 64) .integerOverflow
  let modeIndex ← okOr (modeDictionary.idxOf? input.mode)
    (.invalidMetadata "microfile mode dictionary")
  let modeIndex ← tryU32 modeIndex
  let contentOffset ← addU64 columns.contentOffset input.size
  .ok {
    members := columns.members ++ [{
      entryId := input.entryId
      contentOffset := columns.contentOffset
      length := length }]
    paths := columns.paths ++ [{
      sharedPrefixLen := sharedPrefixLen
      suffix := input.path.drop sharedPrefixLen.toNat }]
    modifiedNsDeltas :=
      columns.modifiedNsDeltas ++ [UInt64.ofNat delta.toNat]
    records := columns.records ++ [{
      entryId := input.entryId
      modeIndex := modeIndex
      contentOffset := columns.contentOffset
      length := length
      fileHash := input.fileHash }]
    contentOffset := contentOffset
    previousPath := input.path }

end PackColumns

/-- The modes of the files, sorted and each of them once. -/
def modeDictionary (inputs : List MicroFileInput) : List UInt32 :=
  (sortByKey UInt32.toNat (inputs.map (·.mode))).destutter (· ≠ ·)

/-- A pack of the files in their order: times are kept relative to the earliest
one, modes by their place in the dictionary, and paths front coded. -/
def buildPack (packId : UInt64) (inputs : List MicroFileInput) :
    Result MicroFilePack :=
  match inputs with
  | [] => .error (.invalidMetadata "empty microfile pack")
  | first :: rest => do
      let baseModifiedNs := rest.foldl
        (fun earliest input => min earliest input.modifiedNs) first.modifiedNs
      let dictionary := modeDictionary (first :: rest)
      let columns ← forEnum
        (fun _ => PackColumns.push baseModifiedNs dictionary)
        0 (first :: rest) .empty
      .ok {
        packId := packId
        members := columns.members
        uncompressedLen := columns.contentOffset
        metadata := {
          paths := columns.paths
          baseModifiedNs := baseModifiedNs
          modifiedNsDeltas := columns.modifiedNsDeltas
          modeDictionary := dictionary
          records := columns.records } }

/-- Build the next pack.  Its length has to be the one the loop has counted. -/
def pushPack
    (packs : List MicroFilePack)
    (inputs : List MicroFileInput)
    (expectedLen : UInt64)
    (config : ChunkingConfig) : Result (List MicroFilePack) := do
  let packId ← tryU64 packs.length
  let nextCount ← addU64 packId 1
  ensureChunkCount nextCount config.maxChunks
  let pack ← buildPack packId inputs
  ensure (pack.uncompressedLen = expectedLen)
    (.invalidMetadata "microfile pack length")
  .ok (packs ++ [pack])

/-! ## All packs -/

/-- The state of the loop that counts the packs. -/
structure PackCount where
  count : Nat
  currentLen : UInt64
  hasMembers : Bool

/-- A file that would exceed the target opens the next pack. -/
def PackCount.next
    (target : UInt64)
    (input : MicroFileInput)
    (state : PackCount) : Result PackCount := do
  let nextLen ← addU64 state.currentLen input.size
  if state.hasMembers ∧ target < nextLen then do
    ensure (state.count + 1 < 2 ^ 64) .integerOverflow
    .ok ⟨state.count + 1, input.size, true⟩
  else .ok ⟨state.count, nextLen, true⟩

/-- How many packs the files need. -/
def requiredPackCount (inputs : List MicroFileInput) (target : UInt64) :
    Result Nat := do
  let state ← forEnum (fun _ => PackCount.next target) 0 inputs ⟨0, 0, false⟩
  if state.hasMembers then do
    ensure (state.count + 1 < 2 ^ 64) .integerOverflow
    .ok (state.count + 1)
  else .ok state.count

/-- The state of the loop that builds the packs. -/
structure Packing where
  packs : List MicroFilePack
  packStart : Nat
  packLen : UInt64

/-- Take the next file into the current pack, or build the pack and begin
another. -/
def Packing.next
    (eligible : List MicroFileInput)
    (config : ChunkingConfig)
    (index : Nat)
    (candidate : MicroFileInput)
    (state : Packing) : Result Packing := do
  let nextLen ← addU64 state.packLen candidate.size
  if state.packStart < index ∧ config.microPackTarget.toUInt64 < nextLen then do
    let packs ← pushPack state.packs
      ((eligible.take index).drop state.packStart) state.packLen config
    .ok ⟨packs, index, candidate.size⟩
  else .ok { state with packLen := nextLen }

/-- Pack the files in their order. -/
def packEligible (eligible : List MicroFileInput) (config : ChunkingConfig) :
    Result (List MicroFilePack) := do
  let state ← forEnum (Packing.next eligible config) 0 eligible ⟨[], 0, 0⟩
  if state.packStart < eligible.length then
    pushPack state.packs (eligible.drop state.packStart) state.packLen config
  else .ok state.packs

/-! ## The plan -/

/-- The files to pack and the others, as far as they are told apart. -/
structure Selection where
  eligible : List MicroFileInput
  excluded : List MicroFileExclusion
  eligibleBytes : UInt64

/-- A file is excluded for a reason, or counts towards the logical bytes. -/
def Selection.next
    (config : ChunkingConfig)
    (candidate : MicroFileInput)
    (state : Selection) : Result Selection :=
  match candidate.exclusionReason config with
  | some reason =>
      .ok { state with excluded :=
        state.excluded ++ [⟨candidate.entryId, reason⟩] }
  | none => do
      let eligibleBytes ← addU64 state.eligibleBytes candidate.size
      ensureLogicalSize eligibleBytes config
      .ok { state with
        eligible := state.eligible ++ [candidate]
        eligibleBytes := eligibleBytes }

/-- Plan the packs of some files. -/
def planMicroFilePacks
    (cdc : FastCdc)
    (inputs : List MicroFileInput)
    (config : ChunkingConfig) : Result MicroFilePackPlan := do
  config.validate cdc
  let inputCount ← tryU64 inputs.length
  ensureChunkCount inputCount config.maxChunks
  let minimumMetadataBytes ← okOr (checkedMul inputCount 76) .integerOverflow
  ensureMetadataSize minimumMetadataBytes config
  validateUniqueInputs inputs config
  let selection ← forEnum (fun _ => Selection.next config) 0
    (sortByKey MicroFileInput.canonicalKey inputs) ⟨[], [], 0⟩
  let requiredPacks ← requiredPackCount selection.eligible
    config.microPackTarget.toUInt64
  let requiredPacks ← tryU64 requiredPacks
  ensureChunkCount requiredPacks config.maxChunks
  let packs ← packEligible selection.eligible config
  let plan : MicroFilePackPlan := ⟨packs, selection.excluded⟩
  plan.validate cdc config
  .ok plan

end Pithos
