import Pithos.Format.Records
import Pithos.Analysis.ChunkIds
import Pithos.Analysis.Readers

/-!
# Fingerprints

The fingerprint of one logical chunk that is read from a stream: its hashes and
its superfeatures, which come from a rolling hash over regions of the chunk.

The hash functions are parameters, applied to all the bytes they were fed, and
so are the sizes of the types that the memory limits count.  The checkpoints
between the steps are taken as passing and memory as available.
-/

namespace Pithos

open Fallible
open Machine
open FileTree
open Reader

/-- `READ_BUFFER_BYTES`: how much is read at a time. -/
def readBufferBytes : Nat := 64 * 1024

/-- `ROLLING_BASE`: the base of the rolling polynomial, modulo 2^64. -/
def rollingBase : UInt64 := 0x00000100000001b3

/-- What a worker needs beside its chunk. -/
def fingerprintWorkerMarginBytes : UInt64 := 64 * 1024

/-- What a batch needs whatever its size. -/
def fingerprintFixedWorkingBytes : UInt64 := 4 * 1024

/-- What a chunk needs beside its records. -/
def fingerprintPerChunkMarginBytes : UInt64 := 64

/-- When the whole BLAKE3 value is kept. -/
inductive FullHashPolicy
  | standard
  | paranoid
  deriving DecidableEq, Repr

/-- Parameters and resource limits of fingerprints. -/
structure FingerprintConfig where
  fullHashPolicy : FullHashPolicy
  subchunkCount : UInt8
  superfeatureCount : UInt8
  rollingWindow : UInt16
  maxChunkBytes : UInt64
  maxChunks : UInt64
  maxTotalBytes : UInt64
  maxMetadataBytes : UInt64
  maxWorkingBytes : UInt64
  parallelism : UInt16
  deriving DecidableEq, Repr

namespace FingerprintConfig

/-- One MiB. -/
def mib : UInt64 := 1024 * 1024

/-- The configuration used when the caller gives none. -/
def default : FingerprintConfig where
  fullHashPolicy := .standard
  subchunkCount := 12
  superfeatureCount := 4
  rollingWindow := 48
  maxChunkBytes := 4 * mib
  maxChunks := DecodeLimits.default.maxChunks
  maxTotalBytes := DecodeLimits.default.maxOriginalBytes
  maxMetadataBytes := DecodeLimits.default.maxMetadataBytes
  maxWorkingBytes := DecodeLimits.default.maxMetadataBytes
  parallelism := 64

/-- Refuse a configuration outside the bounds of the format. -/
def validate (config : FingerprintConfig) : Result Unit :=
  ensure (4 ≤ config.subchunkCount ∧ config.subchunkCount ≤ 64 ∧
      (config.superfeatureCount = 3 ∨ config.superfeatureCount = 4) ∧
      config.subchunkCount.toNat % config.superfeatureCount.toNat = 0 ∧
      1 ≤ config.rollingWindow ∧ config.rollingWindow ≤ 4096 ∧
      config.maxChunkBytes ≠ 0 ∧ config.maxChunkBytes ≤ 4 * mib ∧
      config.maxChunks ≠ 0 ∧ config.maxTotalBytes ≠ 0 ∧
      config.maxMetadataBytes ≠ 0 ∧ config.maxWorkingBytes ≠ 0 ∧
      1 ≤ config.parallelism ∧ config.parallelism ≤ 64)
    (.invalidMetadata "fingerprint configuration")

end FingerprintConfig

/-- What is known of one chunk. -/
structure ChunkFingerprint where
  chunkId : UInt64
  length : UInt32
  xxh3 : UInt64
  blake3_128 : List UInt8
  fullBlake3 : Option Digest
  crc32c : UInt32
  superfeatures : List UInt64
  deriving DecidableEq

/-- The hash functions of fingerprints. -/
structure FingerprintHashes extends Digests where
  xxh3 : List UInt8 → UInt64

/-! ## Superfeatures -/

/-- The rolling hash over one region of a chunk. -/
structure RollingRegion where
  window : Nat
  ring : List UInt8
  cursor : Nat
  hash : UInt64
  basePower : UInt64
  maximum : UInt64
  bytesSeen : UInt64
  expected : UInt64

namespace RollingRegion

/-- A region of `expected` bytes, whose window is not longer than the region. -/
def new (expected : UInt64) (configuredWindow : UInt16) : RollingRegion where
  window := min expected.toNat configuredWindow.toNat
  ring := []
  cursor := 0
  hash := 0
  basePower := rollingBase ^ min expected.toNat configuredWindow.toNat
  maximum := 0
  bytesSeen := 0
  expected := expected

/-- Take in one byte.  All arithmetic on the hash wraps. -/
def push (region : RollingRegion) (byte : UInt8) : Result RollingRegion := do
  ensure (region.bytesSeen < region.expected ∧ region.window ≠ 0)
    (.invalidMetadata "superfeature region length")
  let value := byte.toUInt64 + 1
  let bytesSeen ← addU64 region.bytesSeen 1
  if region.ring.length < region.window then
    let ring := region.ring ++ [byte]
    let hash := region.hash * rollingBase + value
    .ok { region with
      ring := ring
      hash := hash
      maximum := if ring.length = region.window then hash else region.maximum
      bytesSeen := bytesSeen }
  else
    let removed := (region.ring.getD region.cursor 0).toUInt64 + 1
    let hash := region.hash * rollingBase + value - removed * region.basePower
    .ok { region with
      ring := region.ring.set region.cursor byte
      cursor := (region.cursor + 1) % region.window
      hash := hash
      maximum := if region.maximum ≤ hash then hash else region.maximum
      bytesSeen := bytesSeen }

end RollingRegion

/-- The rolling hashes over the regions of a chunk. -/
structure SuperfeatureAccumulator where
  totalLen : UInt64
  position : UInt64
  regionEnds : List UInt64
  regions : List RollingRegion
  currentRegion : Nat

namespace SuperfeatureAccumulator

/-- Where the given region of a chunk starts. -/
def regionBound (totalLen : UInt64) (subchunkCount : UInt8) (index : Nat) :
    Result UInt64 := do
  let product ← okOr (checkedMul totalLen (UInt64.ofNat index))
    .integerOverflow
  ensure (subchunkCount ≠ 0) .integerOverflow
  .ok (product / subchunkCount.toUInt64)

/-- One region for each subchunk, with the ends that the total length gives. -/
def new (totalLen : UInt64) (config : FingerprintConfig) :
    Result SuperfeatureAccumulator := do
  let (regionEnds, regions) ← forEnum
    (fun index _ (done : List UInt64 × List RollingRegion) => do
      let start ← regionBound totalLen config.subchunkCount index
      let stop ← regionBound totalLen config.subchunkCount (index + 1)
      .ok (done.1 ++ [stop],
        done.2 ++ [RollingRegion.new (stop - start) config.rollingWindow]))
    0 (List.range config.subchunkCount.toNat) ([], [])
  .ok {
    totalLen := totalLen
    position := 0
    regionEnds := regionEnds
    regions := regions
    currentRegion := 0 }

/-- The first region, from the current one on, that ends after the position. -/
def advance (regionEnds : List UInt64) (position : UInt64) (current : Nat) :
    Nat :=
  current + ((regionEnds.drop current).takeWhile (· ≤ position)).length

/-- Take in one byte. -/
def push (accumulator : SuperfeatureAccumulator) (byte : UInt8) :
    Result SuperfeatureAccumulator := do
  let current := advance accumulator.regionEnds accumulator.position
    accumulator.currentRegion
  let region ← okOr accumulator.regions[current]?
    (.invalidMetadata "superfeature byte count")
  let region ← region.push byte
  let position ← addU64 accumulator.position 1
  .ok { accumulator with
    position := position
    regions := accumulator.regions.set current region
    currentRegion := current }

/-- Push the bytes one by one. -/
def update (accumulator : SuperfeatureAccumulator) (bytes : List UInt8) :
    Result SuperfeatureAccumulator :=
  forEnum (fun _ byte (accumulator : SuperfeatureAccumulator) =>
    accumulator.push byte) 0 bytes accumulator

/-- Hash the maxima of the regions, group by group.  An empty chunk has no
superfeatures. -/
def finish
    (hashes : FingerprintHashes)
    (accumulator : SuperfeatureAccumulator)
    (config : FingerprintConfig) : Result (List UInt64) := do
  ensure (accumulator.position = accumulator.totalLen)
    (.invalidMetadata "superfeature byte count")
  if accumulator.totalLen = 0 then .ok []
  else
    let groupCount := config.superfeatureCount.toNat
    let count := accumulator.regions.length
    .ok ((List.range groupCount).map fun group =>
      let start := group * count / groupCount
      let stop := (group + 1) * count / groupCount
      hashes.xxh3 (((accumulator.regions.take stop).drop start).flatMap
        fun region => le64 region.maximum))

end SuperfeatureAccumulator

/-! ## One chunk -/

/-- What has been seen of a chunk.  The hashers are fed `hashed`. -/
structure FingerprintAccumulator where
  hashed : List UInt8
  crc32c : UInt32
  superfeatures : SuperfeatureAccumulator
  bytesSeen : UInt64

namespace FingerprintAccumulator

/-- Nothing has been read yet. -/
def new (expected : UInt64) (config : FingerprintConfig) :
    Result FingerprintAccumulator := do
  let superfeatures ← SuperfeatureAccumulator.new expected config
  .ok {
    hashed := []
    crc32c := 0
    superfeatures := superfeatures
    bytesSeen := 0 }

/-- Pass a block to the hashes and to the regions. -/
def update
    (hashes : FingerprintHashes)
    (bytes : List UInt8)
    (accumulator : FingerprintAccumulator) : Result FingerprintAccumulator := do
  let superfeatures ← accumulator.superfeatures.update bytes
  let count ← tryU64 bytes.length
  let bytesSeen ← addU64 accumulator.bytesSeen count
  .ok {
    hashed := accumulator.hashed ++ bytes
    crc32c := hashes.crc32cAppend accumulator.crc32c bytes
    superfeatures := superfeatures
    bytesSeen := bytesSeen }

/-- The fingerprint, once the expected number of bytes was seen. -/
def finish
    (hashes : FingerprintHashes)
    (accumulator : FingerprintAccumulator)
    (chunkId : UInt64)
    (config : FingerprintConfig) : Result ChunkFingerprint := do
  ensure (accumulator.bytesSeen = accumulator.superfeatures.totalLen)
    (.invalidMetadata "fingerprint byte count")
  let length ← tryU32 accumulator.bytesSeen.toNat
  let full := hashes.blake3 accumulator.hashed
  let superfeatures ← accumulator.superfeatures.finish hashes config
  .ok {
    chunkId := chunkId
    length := length
    xxh3 := hashes.xxh3 accumulator.hashed
    blake3_128 := full.val.take 16
    fullBlake3 :=
      if config.fullHashPolicy = .paranoid then some full else none
    crc32c := accumulator.crc32c
    superfeatures := superfeatures }

end FingerprintAccumulator

/-! ## Limits -/

/-- The sizes of the types that the memory limits count. -/
structure FingerprintSizes where
  chunkFingerprint : UInt64
  inputReference : UInt64
  resultSlot : UInt64
  collisionCandidate : UInt64
  bool : UInt64
  rollingRegion : UInt64
  word : UInt64
  accumulator : UInt64

/-- The length of a chunk is within the format and the configuration. -/
def ensureChunkSize (length : UInt64) (config : FingerprintConfig) :
    Result Unit := do
  ensure (length ≤ 0xFFFFFFFF) .integerOverflow
  ensure (length ≤ config.maxChunkBytes)
    (.resourceLimit "fingerprint chunk bytes")

/-- The working memory of one worker. -/
def fingerprintWorkerScratchBytes
    (sizes : FingerprintSizes)
    (length : UInt64)
    (config : FingerprintConfig) : Result UInt64 := do
  let regions := config.subchunkCount.toUInt64
  let capacity ← okOr (checkedMul regions config.rollingWindow.toUInt64)
    .integerOverflow
  let totalRingCapacity := if capacity ≤ length then capacity else length
  let perRegion ← addU64 sizes.rollingRegion sizes.word
  let perRegion ← addU64 perRegion fingerprintPerChunkMarginBytes
  let regionStructures ← okOr (checkedMul perRegion regions) .integerOverflow
  let bytes ← addU64 totalRingCapacity regionStructures
  let bytes ← addU64 bytes sizes.accumulator
  addU64 bytes fingerprintWorkerMarginBytes

/-- The records of a batch and the memory of its workers are within their
limits. -/
def ensureBatchMemoryLimits
    (sizes : FingerprintSizes)
    (count largestChunk : UInt64)
    (config : FingerprintConfig) : Result Unit := do
  if count = 0 then .ok ()
  else do
    let metadataBytes ← okOr (checkedMul count sizes.chunkFingerprint)
      .integerOverflow
    ensure (metadataBytes ≤ config.maxMetadataBytes)
      (.resourceLimit "fingerprint metadata bytes")
    let perChunk ← addU64 sizes.inputReference sizes.resultSlot
    let perChunk ← addU64 perChunk sizes.chunkFingerprint
    let perChunk ← addU64 perChunk sizes.collisionCandidate
    let perChunk ← addU64 perChunk sizes.bool
    let perChunk ← addU64 perChunk fingerprintPerChunkMarginBytes
    let workers := if count ≤ config.parallelism.toUInt64 then count
      else config.parallelism.toUInt64
    let workerScratch ← fingerprintWorkerScratchBytes sizes largestChunk config
    let bytes ← okOr (checkedMul count perChunk) .integerOverflow
    let scratch ← okOr (checkedMul workers workerScratch) .integerOverflow
    let bytes ← addU64 bytes scratch
    let workingBytes ← addU64 bytes fingerprintFixedWorkingBytes
    ensure (workingBytes ≤ config.maxWorkingBytes)
      (.resourceLimit "fingerprint working bytes")

/-- The limits of a request for one chunk. -/
def ensureSingleRequestLimits
    (sizes : FingerprintSizes)
    (length : UInt64)
    (config : FingerprintConfig) : Result Unit := do
  ensureChunkSize length config
  ensure (length ≤ config.maxTotalBytes)
    (.resourceLimit "fingerprint total bytes")
  ensureBatchMemoryLimits sizes 1 length config

/-! ## Streams -/

/-- Check that nothing is left of the stream.  A read that is interrupted is
made again. -/
def probeFingerprintEnd (source : Source) : Result Unit :=
  match _read : scripted.read 1 source with
  | (.ok [], _) => .ok ()
  | (.ok _, _) => .error (.invalidMetadata "trailing fingerprint data")
  | (.error kind, next) =>
      if kind = .interrupted then probeFingerprintEnd next
      else .error (.io kind)
termination_by source.script.length
decreasing_by exact script_lt_of_fails _read

/-- The fingerprint of the chunk that a stream holds. -/
def fingerprintReader
    (hashes : FingerprintHashes)
    (sizes : FingerprintSizes)
    (chunk : LogicalChunk)
    (source : Source)
    (config : FingerprintConfig) : Result ChunkFingerprint := do
  config.validate
  let expected := chunk.length.toUInt64
  ensureSingleRequestLimits sizes expected config
  let accumulator ← FingerprintAccumulator.new expected config
  let (accumulator, source) ← readPieces
    (.invalidMetadata "short fingerprint stream")
    (FingerprintAccumulator.update hashes) source expected accumulator
  probeFingerprintEnd source
  accumulator.finish hashes chunk.chunkId config

end Pithos
