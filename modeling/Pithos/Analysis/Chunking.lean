import Pithos.Library.Layout
import Pithos.Core

/-!
# Logical chunking

The configuration of the chunker and the chunkers over data in memory: FastCDC
over a whole object, blocks of one size for content that does not compress, and
regions whose ends a scanner gives.

The FastCDC crate is a parameter: its bounds on the sizes and the cuts it makes.
The checkpoints between the steps are taken as passing and memory as available.
-/

namespace Pithos

open Fallible
open Machine

/-! ## Conversions -/

/-- A count as a 64-bit number. -/
def tryU64 (value : Nat) : Result UInt64 := do
  ensure (value < 2 ^ 64) .integerOverflow
  .ok (UInt64.ofNat value)

/-- A length as a 32-bit number. -/
def tryU32 (value : Nat) : Result UInt32 := do
  ensure (value < 2 ^ 32) .integerOverflow
  .ok (UInt32.ofNat value)

/-- A sum that has to fit 64 bits. -/
def addU64 (left right : UInt64) : Result UInt64 :=
  okOr (checkedAdd left right) .integerOverflow

@[simp] theorem tryU64_eq_ok {value : Nat} {word : UInt64} :
    tryU64 value = .ok word ↔ word.toNat = value := by
  simp only [tryU64, bind_eq_ok, ensure_eq_ok, exists_const, Except.ok.injEq]
  constructor
  · rintro ⟨fits, rfl⟩
    exact toNat_ofNat_of_lt fits
  · rintro rfl
    exact ⟨word.toNat_lt, UInt64.ofNat_toNat⟩

@[simp] theorem tryU32_eq_ok {value : Nat} {word : UInt32} :
    tryU32 value = .ok word ↔ word.toNat = value := by
  simp only [tryU32, bind_eq_ok, ensure_eq_ok, exists_const, Except.ok.injEq]
  constructor
  · rintro ⟨fits, rfl⟩
    rw [UInt32.toNat_ofNat', Nat.mod_eq_of_lt fits]
  · rintro rfl
    exact ⟨word.toNat_lt, UInt32.ofNat_toNat⟩

@[simp] theorem addU64_eq_ok {left right sum : UInt64} :
    addU64 left right = .ok sum ↔
      left.toNat + right.toNat = sum.toNat := by
  rw [addU64, okOr_eq_ok, checkedAdd_eq_some]

theorem exists_addU64_eq_ok {left right : UInt64} :
    (∃ sum, addU64 left right = .ok sum) ↔
      left.toNat + right.toNat < 2 ^ 64 := by
  simp only [addU64, okOr_eq_ok, checkedAdd_isSome_iff]

/-! ## Configuration -/

/-- Policy and resource limits of logical chunking. -/
structure ChunkingConfig where
  fastcdcMin : UInt32
  fastcdcAvg : UInt32
  fastcdcMax : UInt32
  highEntropyFixed : UInt32
  microFileMax : UInt32
  microPackTarget : UInt32
  maxChunks : UInt64
  maxLogicalBytes : UInt64
  maxMetadataBytes : UInt64
  maxPathBytes : UInt64
  deriving DecidableEq, Repr

/-- One KiB. -/
def ChunkingConfig.kib : UInt32 := 1024

/-- One MiB. -/
def ChunkingConfig.mib : UInt32 := 1024 * 1024

/-- The configuration used when the caller gives none. -/
def ChunkingConfig.default : ChunkingConfig where
  fastcdcMin := 64 * kib
  fastcdcAvg := 256 * kib
  fastcdcMax := mib
  highEntropyFixed := mib
  microFileMax := 64 * kib
  microPackTarget := 4 * mib
  maxChunks := DecodeLimits.default.maxChunks
  maxLogicalBytes := DecodeLimits.default.maxOriginalBytes
  maxMetadataBytes := DecodeLimits.default.maxMetadataBytes
  maxPathBytes := DecodeLimits.default.maxPathBytes

/-- A chunk as the FastCDC crate describes it. -/
structure FastCdcChunk where
  offset : Nat
  length : Nat
  deriving DecidableEq, Repr

/-- The FastCDC crate: the bounds it puts on its sizes, and the chunks of some
data for a minimal, an average and a maximal size. -/
structure FastCdc where
  minimumMin : Nat
  minimumMax : Nat
  averageMin : Nat
  averageMax : Nat
  maximumMin : Nat
  maximumMax : Nat
  chunks : Nat → Nat → Nat → List UInt8 → List FastCdcChunk

namespace ChunkingConfig

/-- Check every value before it reaches the chunker. -/
def validate (cdc : FastCdc) (config : ChunkingConfig) : Result Unit := do
  ensure (cdc.minimumMin ≤ config.fastcdcMin.toNat ∧
      config.fastcdcMin.toNat ≤ cdc.minimumMax ∧
      cdc.averageMin ≤ config.fastcdcAvg.toNat ∧
      config.fastcdcAvg.toNat ≤ cdc.averageMax ∧
      cdc.maximumMin ≤ config.fastcdcMax.toNat ∧
      config.fastcdcMax.toNat ≤ cdc.maximumMax ∧
      config.fastcdcMin < config.fastcdcAvg ∧
      config.fastcdcAvg < config.fastcdcMax)
    (.invalidMetadata "FastCDC sizes")
  ensure (mib ≤ config.highEntropyFixed ∧ config.highEntropyFixed ≤ 4 * mib)
    (.invalidMetadata "high entropy block size")
  ensure (config.microFileMax ≠ 0 ∧ config.microFileMax ≤ 64 * kib)
    (.invalidMetadata "microfile size limit")
  ensure (mib ≤ config.microPackTarget ∧ config.microPackTarget ≤ 16 * mib ∧
      config.microFileMax ≤ config.microPackTarget)
    (.invalidMetadata "microfile pack target")
  ensure (config.maxChunks ≠ 0 ∧ config.maxLogicalBytes ≠ 0 ∧
      config.maxMetadataBytes ≠ 0 ∧ config.maxPathBytes ≠ 0)
    (.invalidMetadata "chunking resource limit")

end ChunkingConfig

/-! ## Chunks -/

/-- Identity and offset of an object that is chunked on its own. -/
structure ChunkOrigin where
  entryId : UInt64
  objectId : UInt64
  baseOffset : UInt64
  deriving DecidableEq, Repr

/-- The algorithm that produced a chunk boundary. -/
inductive ChunkingMethod
  | fastCdcV2020
  | fixedHighEntropy
  | structural
  | microFile
  deriving DecidableEq, Repr

/-- A chunk before it has an id. -/
structure LogicalChunkDraft where
  entryId : UInt64
  objectId : UInt64
  logicalOffset : UInt64
  length : UInt32
  method : ChunkingMethod
  deriving DecidableEq, Repr

/-- The number of chunks is within its limit. -/
def ensureChunkCount (count maxChunks : UInt64) : Result Unit :=
  ensure (count ≤ maxChunks) (.resourceLimit "chunk count")

/-- The size of the object is within its limit. -/
def ensureLogicalSize (size : UInt64) (config : ChunkingConfig) :
    Result Unit :=
  ensure (size ≤ config.maxLogicalBytes) (.resourceLimit "logical bytes")

/-- Append the chunk that starts `relativeOffset` after the origin. -/
def pushRelativeChunk
    (chunks : List LogicalChunkDraft)
    (origin : ChunkOrigin)
    (relativeOffset : UInt64)
    (length : Nat)
    (method : ChunkingMethod)
    (maxChunks : UInt64) : Result (List LogicalChunkDraft) := do
  let count ← tryU64 chunks.length
  let nextCount ← addU64 count 1
  ensureChunkCount nextCount maxChunks
  let length ← tryU32 length
  ensure (length ≠ 0) (.invalidMetadata "zero-length chunk")
  let logicalOffset ← addU64 origin.baseOffset relativeOffset
  let _ ← addU64 logicalOffset length.toUInt64
  .ok (chunks ++ [{
    entryId := origin.entryId
    objectId := origin.objectId
    logicalOffset := logicalOffset
    length := length
    method := method }])

/-- Check that a chunk starts at the cursor and move the cursor past it. -/
def coverChunk
    (origin : ChunkOrigin)
    (expectedEnd : UInt64)
    (chunk : LogicalChunkDraft)
    (cursor : UInt64) : Result UInt64 := do
  ensure (chunk.entryId = origin.entryId ∧ chunk.objectId = origin.objectId ∧
      chunk.logicalOffset = cursor ∧ chunk.length ≠ 0)
    (.invalidMetadata "chunk coverage")
  let next ← addU64 cursor chunk.length.toUInt64
  ensure (next ≤ expectedEnd) (.invalidMetadata "chunk coverage")
  .ok next

/-- Check that the chunks cover one object exactly and in order. -/
def validateChunkCoverage
    (chunks : List LogicalChunkDraft)
    (origin : ChunkOrigin)
    (logicalSize : UInt64) : Result Unit := do
  let expectedEnd ← addU64 origin.baseOffset logicalSize
  if logicalSize = 0 then
    match chunks with
    | [] => .ok ()
    | [chunk] =>
        ensure (chunk.entryId = origin.entryId ∧
            chunk.objectId = origin.objectId ∧
            chunk.logicalOffset = origin.baseOffset ∧ chunk.length = 0 ∧
            chunk.method = .microFile)
          (.invalidMetadata "empty chunk coverage")
    | _ => .error (.invalidMetadata "empty chunk coverage")
  else do
    ensure (chunks ≠ []) (.invalidMetadata "missing chunk coverage")
    let cursor ← forEnum (fun _ chunk => coverChunk origin expectedEnd chunk)
      0 chunks origin.baseOffset
    ensure (cursor = expectedEnd) (.invalidMetadata "chunk coverage")

/-! ## FastCDC -/

/-- FastCDC over an object in memory. -/
def chunkFastcdc
    (cdc : FastCdc)
    (data : List UInt8)
    (origin : ChunkOrigin)
    (config : ChunkingConfig) : Result (List LogicalChunkDraft) := do
  config.validate cdc
  let logicalSize ← tryU64 data.length
  ensureLogicalSize logicalSize config
  let _ ← addU64 origin.baseOffset logicalSize
  let chunks ← forEnum
    (fun _ (chunk : FastCdcChunk) chunks => do
      let offset ← tryU64 chunk.offset
      pushRelativeChunk chunks origin offset chunk.length .fastCdcV2020
        config.maxChunks)
    0 (cdc.chunks config.fastcdcMin.toNat config.fastcdcAvg.toNat
      config.fastcdcMax.toNat data) []
  validateChunkCoverage chunks origin logicalSize
  .ok chunks

/-! ## Blocks of one size -/

theorem pushRelativeChunk_length_pos
    {chunks result : List LogicalChunkDraft}
    {origin : ChunkOrigin}
    {relativeOffset maxChunks : UInt64}
    {length : Nat}
    {method : ChunkingMethod}
    (pushed : pushRelativeChunk chunks origin relativeOffset length method
      maxChunks = .ok result) :
    0 < length := by
  simp only [pushRelativeChunk, bind_eq_ok, tryU32_eq_ok, ensure_eq_ok]
    at pushed
  obtain ⟨_, _, _, _, _, _, word, rfl, _, nonzero, _⟩ := pushed
  refine Nat.pos_of_ne_zero fun isZero => nonzero ?_
  rw [← UInt32.toNat_inj, isZero]
  rfl

/-- A whole block, or what remains of the object. -/
def fixedBlockLength
    (config : ChunkingConfig)
    (logicalSize relativeOffset : UInt64) : UInt64 :=
  if logicalSize - relativeOffset ≤ config.highEntropyFixed.toUInt64 then
    logicalSize - relativeOffset
  else config.highEntropyFixed.toUInt64

/-- Push blocks from `relativeOffset` to the end of the object. -/
def pushFixedBlocks
    (origin : ChunkOrigin)
    (config : ChunkingConfig)
    (logicalSize relativeOffset : UInt64)
    (chunks : List LogicalChunkDraft) : Result (List LogicalChunkDraft) :=
  if relativeOffset < logicalSize then
    match _pushed : pushRelativeChunk chunks origin relativeOffset
        (fixedBlockLength config logicalSize relativeOffset).toNat
        .fixedHighEntropy config.maxChunks with
    | .error failure => .error failure
    | .ok chunks =>
        match _added : addU64 relativeOffset
            (fixedBlockLength config logicalSize relativeOffset) with
        | .error failure => .error failure
        | .ok next => pushFixedBlocks origin config logicalSize next chunks
  else .ok chunks
termination_by logicalSize.toNat - relativeOffset.toNat
decreasing_by
  rename_i inside
  have advanced := addU64_eq_ok.mp _added
  have positive := pushRelativeChunk_length_pos _pushed
  rw [UInt64.lt_iff_toNat_lt] at inside
  omega

/-- Blocks of one size over content that is known not to compress. -/
def chunkFixedHighEntropy
    (cdc : FastCdc)
    (logicalSize : UInt64)
    (origin : ChunkOrigin)
    (config : ChunkingConfig) : Result (List LogicalChunkDraft) := do
  config.validate cdc
  ensureLogicalSize logicalSize config
  let _ ← addU64 origin.baseOffset logicalSize
  if logicalSize = 0 then .ok []
  else do
    ensure (config.highEntropyFixed ≠ 0) .integerOverflow
    let chunkCount ←
      addU64 ((logicalSize - 1) / config.highEntropyFixed.toUInt64) 1
    ensureChunkCount chunkCount config.maxChunks
    let chunks ← pushFixedBlocks origin config logicalSize 0 []
    validateChunkCoverage chunks origin logicalSize
    .ok chunks

/-! ## Regions -/

/-- Check that the ends of the regions increase up to the end of the object. -/
def validateBoundaryEnds
    (boundaryEnds : List UInt64)
    (logicalSize : UInt64) : Result Unit := do
  ensure (boundaryEnds ≠ [] ∧ boundaryEnds.getLast? = some logicalSize)
    (.invalidMetadata "structural boundaries")
  let _ ← forEnum
    (fun _ (boundary : UInt64) previous => do
      ensure (previous < boundary ∧ boundary ≤ logicalSize)
        (.invalidMetadata "structural boundaries")
      .ok boundary)
    0 boundaryEnds (0 : UInt64)
  .ok ()

/-- The chunks of the region that ends at `regionEnd`: one when it is small
enough, and otherwise those of FastCDC over the region alone. -/
def chunkRegion
    (cdc : FastCdc)
    (data : List UInt8)
    (origin : ChunkOrigin)
    (config : ChunkingConfig)
    (regionEnd regionStart : UInt64)
    (chunks : List LogicalChunkDraft) : Result (List LogicalChunkDraft) := do
  let regionLen ← okOr (checkedSub regionEnd regionStart) .integerOverflow
  if regionLen ≤ config.fastcdcMax.toUInt64 then
    pushRelativeChunk chunks origin regionStart regionLen.toNat .structural
      config.maxChunks
  else do
    let count ← tryU64 chunks.length
    let remainingLimit ← okOr (checkedSub config.maxChunks count)
      .integerOverflow
    ensure (remainingLimit ≠ 0) (.resourceLimit "chunk count")
    let baseOffset ← addU64 origin.baseOffset regionStart
    let subchunks ← chunkFastcdc cdc
      (Bytes.slice data regionStart.toNat regionLen.toNat)
      { origin with baseOffset := baseOffset }
      { config with maxChunks := remainingLimit, maxLogicalBytes := regionLen }
    .ok (chunks ++ subchunks.map fun chunk => { chunk with
      method := .structural })

/-- Chunks that keep the ends of the regions a scanner found. -/
def chunkStructural
    (cdc : FastCdc)
    (data : List UInt8)
    (origin : ChunkOrigin)
    (boundaryEnds : List UInt64)
    (config : ChunkingConfig) : Result (List LogicalChunkDraft) := do
  config.validate cdc
  let logicalSize ← tryU64 data.length
  ensureLogicalSize logicalSize config
  let _ ← addU64 origin.baseOffset logicalSize
  if data = [] then do
    ensure (boundaryEnds = []) (.invalidMetadata "structural boundaries")
    .ok []
  else do
    let count ← tryU64 boundaryEnds.length
    ensureChunkCount count config.maxChunks
    validateBoundaryEnds boundaryEnds logicalSize
    let (_, chunks) ← forEnum
      (fun _ regionEnd (state : UInt64 × List LogicalChunkDraft) => do
        let chunks ← chunkRegion cdc data origin config regionEnd state.1
          state.2
        .ok (regionEnd, chunks))
      0 boundaryEnds ((0 : UInt64), [])
    validateChunkCoverage chunks origin logicalSize
    .ok chunks

end Pithos
