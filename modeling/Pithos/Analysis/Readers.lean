import Pithos.Library.Reader
import Pithos.Analysis.Regions

/-!
# Chunking of streams

The chunkers over a reader: FastCDC over a stream, and regions of a stream whose
ends a scanner gives.  The streaming chunker of the FastCDC crate is a parameter;
it is given a reader and reads it to the end.

The streams have a script that says how each read goes.  A chunk needs reads
that give something, so that the loops end with the script and the bytes.
-/

namespace Pithos

open Fallible
open Machine
open Layout
open FileTree
open Reader

/-- A chunk as the streaming chunker of the crate gives it. -/
structure StreamChunk where
  offset : UInt64
  length : Nat
  data : List UInt8
  deriving DecidableEq

/-- The streaming chunker of the crate: the chunks and errors it gives for a
reader, and what it leaves of the reader. -/
structure StreamCdc where
  chunks : ∀ {State : Type}, Reader State UInt8 IoErrorKind →
    Nat → Nat → Nat → State →
    List (Except IoErrorKind StreamChunk) × State

/-- Reads no more than what remains, and nothing into an empty buffer. -/
def boundedReader
    {State : Type}
    (reader : Reader State UInt8 IoErrorKind) :
    Reader (Limited State) UInt8 IoErrorKind where
  read want state :=
    if state.limit = 0 ∨ want = 0 then (.ok [], state)
    else reader.take.read want state
  length_le want state piece next gave := by
    split at gave
    · cases gave
      exact Nat.zero_le _
    · exact reader.take.length_le _ _ _ _ gave

/-- Take the next chunk of a stream. -/
def streamChunk
    (origin : ChunkOrigin)
    (config : ChunkingConfig)
    (next : Except IoErrorKind StreamChunk)
    (chunks : List LogicalChunkDraft)
    (logicalSize : UInt64) : Result (List LogicalChunkDraft × UInt64) :=
  match next with
  | .error kind => .error (.io kind)
  | .ok chunk => do
      ensure (chunk.offset = logicalSize ∧ chunk.data.length = chunk.length)
        (.invalidMetadata "FastCDC stream layout")
      let length ← tryU64 chunk.length
      let nextSize ← addU64 logicalSize length
      ensureLogicalSize nextSize config
      let chunks ← pushRelativeChunk chunks origin chunk.offset chunk.length
        .fastCdcV2020 config.maxChunks
      .ok (chunks, nextSize)

/-- FastCDC over a stream.  One byte more than the limit is read, so that a
stream that is too long is noticed. -/
def chunkFastcdcReader
    {State : Type}
    (cdc : FastCdc)
    (stream : StreamCdc)
    (reader : Reader State UInt8 IoErrorKind)
    (state : State)
    (origin : ChunkOrigin)
    (config : ChunkingConfig) : Result (List LogicalChunkDraft × State) := do
  config.validate cdc
  let remaining := min (config.maxLogicalBytes.toNat + 1) (2 ^ 64 - 1)
  let (items, final) := stream.chunks (boundedReader reader)
    config.fastcdcMin.toNat config.fastcdcAvg.toNat config.fastcdcMax.toNat
    ⟨state, remaining⟩
  let (chunks, logicalSize) ← forEnum
    (fun _ next (done : List LogicalChunkDraft × UInt64) =>
      streamChunk origin config next done.1 done.2)
    0 items ([], (0 : UInt64))
  validateChunkCoverage chunks origin logicalSize
  .ok (chunks, final.inner)

/-- What the crate documents of its streaming chunker: it reads to the end, and
gives the chunks of what it read with their bytes. -/
structure StreamCdc.Follows (stream : StreamCdc) (cdc : FastCdc) : Prop where
  chunks : ∀ {State : Type} (reader : Reader State UInt8 IoErrorKind)
    (holds : List UInt8 → State → Prop), reader.Delivers holds →
    ∀ minimum average maximum,
      ChunkingConfig.FastCdcSizes cdc minimum average maximum →
    ∀ data state, holds data state →
      ∃ final, holds [] final ∧
        stream.chunks reader minimum average maximum state =
          ((cdc.chunks minimum average maximum data).map fun chunk =>
            .ok ⟨UInt64.ofNat chunk.offset, chunk.length,
              Bytes.slice data chunk.offset chunk.length⟩, final)

/-- A stream with a script. -/
abbrev Source := Scripted UInt8 IoErrorKind

/-- What a read that gives something leaves to be read. -/
theorem rest_lt_of_read
    {source next : Source}
    {remaining rest : UInt64}
    {piece : List UInt8}
    (gave : scripted.read (min remaining.toNat (64 * 1024)) source =
      (.ok piece, next))
    (nonempty : piece ≠ [])
    (isRest : checkedSub remaining (UInt64.ofNat piece.length) = some rest) :
    next.script.length + rest.toNat <
      source.script.length + remaining.toNat := by
  have bounded := scripted.length_le _ _ _ _ gave
  have positive := List.length_pos_iff.mpr nonempty
  have fewer := script_le_of_gives gave
  have value := checkedSub_eq_some.mp isRest
  rw [toNat_ofNat_of_lt (by omega)] at value
  omega

/-- Read so many bytes and take them in piece by piece, at most 64 KiB at a
time.  A read that is interrupted is made again. -/
def readPieces
    {Value : Type}
    (short : PithosError)
    (update : List UInt8 → Value → Result Value)
    (source : Source)
    (remaining : UInt64)
    (value : Value) : Result (Value × Source) :=
  if remaining = 0 then .ok (value, source)
  else
    match _read : scripted.read (min remaining.toNat (64 * 1024)) source with
    | (.ok piece, next) =>
        if _empty : piece = [] then .error short
        else
          match update piece value with
          | .error failure => .error failure
          | .ok value =>
              match _rest :
                  checkedSub remaining (UInt64.ofNat piece.length) with
              | none => .error .integerOverflow
              | some rest => readPieces short update next rest value
    | (.error kind, next) =>
        if kind = .interrupted then
          readPieces short update next remaining value
        else .error (.io kind)
termination_by source.script.length + remaining.toNat
decreasing_by
  · exact rest_lt_of_read _read _empty _rest
  · exact Nat.add_lt_add_right (script_lt_of_fails _read) _

/-- Read a region to its end. -/
def consumeExactRegion (source : Source) (length : UInt64) :
    Result Source := do
  let (_, source) ← readPieces
    (.invalidMetadata "short structural stream") (fun _ done => .ok done)
    source length ()
  .ok source

/-- Check that nothing is left of the stream. -/
def probeTrailing (source : Source) : Result Unit :=
  match scripted.read 1 source with
  | (.ok [], _) => .ok ()
  | (.ok _, _) => .error (.invalidMetadata "trailing structural data")
  | (.error kind, _) => .error (.io kind)

/-- The chunks of the region of a stream that ends at `regionEnd`. -/
def chunkRegionReader
    (cdc : FastCdc)
    (stream : StreamCdc)
    (source : Source)
    (origin : ChunkOrigin)
    (config : ChunkingConfig)
    (regionEnd regionStart : UInt64)
    (chunks : List LogicalChunkDraft) :
    Result (List LogicalChunkDraft × Source) := do
  let regionLen ← okOr (checkedSub regionEnd regionStart) .integerOverflow
  if regionLen ≤ config.fastcdcMax.toUInt64 then do
    let source ← consumeExactRegion source regionLen
    let chunks ← pushRelativeChunk chunks origin regionStart regionLen.toNat
      .structural config.maxChunks
    .ok (chunks, source)
  else do
    let count ← tryU64 chunks.length
    let remainingLimit ← okOr (checkedSub config.maxChunks count)
      .integerOverflow
    ensure (remainingLimit ≠ 0) (.resourceLimit "chunk count")
    let baseOffset ← addU64 origin.baseOffset regionStart
    let subOrigin := { origin with baseOffset := baseOffset }
    let (subchunks, limited) ← chunkFastcdcReader cdc stream scripted.take
      ⟨source, regionLen.toNat⟩ subOrigin
      { config with maxChunks := remainingLimit, maxLogicalBytes := regionLen }
    ensure (limited.limit = 0) (.invalidMetadata "short structural stream")
    validateChunkCoverage subchunks subOrigin regionLen
    .ok (chunks ++ subchunks.map fun chunk => { chunk with
      method := .structural }, limited.inner)

/-- Chunks of a stream that keep the ends of the regions a scanner found.  The
last end is the expected size, so that short and trailing input is refused. -/
def chunkStructuralReader
    (cdc : FastCdc)
    (stream : StreamCdc)
    (source : Source)
    (origin : ChunkOrigin)
    (boundaryEnds : List UInt64)
    (config : ChunkingConfig) : Result (List LogicalChunkDraft) := do
  config.validate cdc
  let logicalSize := boundaryEnds.getLast?.getD 0
  ensureLogicalSize logicalSize config
  let _ ← addU64 origin.baseOffset logicalSize
  if logicalSize = 0 then do
    ensure (boundaryEnds = []) (.invalidMetadata "structural boundaries")
    probeTrailing source
    .ok []
  else do
    let count ← tryU64 boundaryEnds.length
    ensureChunkCount count config.maxChunks
    validateBoundaryEnds boundaryEnds logicalSize
    let (_, chunks, source) ← forEnum
      (fun _ regionEnd
          (state : UInt64 × List LogicalChunkDraft × Source) => do
        let (chunks, source) ← chunkRegionReader cdc stream state.2.2 origin
          config regionEnd state.1 state.2.1
        .ok (regionEnd, chunks, source))
      0 boundaryEnds ((0 : UInt64), [], source)
    probeTrailing source
    validateChunkCoverage chunks origin logicalSize
    .ok chunks

end Pithos
