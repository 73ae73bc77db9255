import Pithos.Core

/-!
# Codecs

The codec portfolio: STORE, and three compressed codecs whose backends are
other crates.  A backend is a pair of functions on whole byte strings; the
decoder of the archiver bounds what a backend may produce by the declared
length.
-/

namespace Pithos

open Fallible
open Machine

/-- The codecs of the portfolio. -/
inductive CodecId
  | store
  | zstd
  | brotli
  | lzma2
  deriving DecidableEq, Repr

namespace CodecId

/-- The number of a codec in the registry. -/
def toU16 : CodecId → UInt16
  | store => 0
  | zstd => 1
  | brotli => 2
  | lzma2 => 3

/-- The codec with a given number. -/
def fromU16 (value : UInt16) : Option CodecId :=
  match value.toNat with
  | 0 => some store
  | 1 => some zstd
  | 2 => some brotli
  | 3 => some lzma2
  | _ => none

@[simp] theorem fromU16_toU16 (codecId : CodecId) :
    fromU16 codecId.toU16 = some codecId := by
  cases codecId <;> rfl

/-- The level used when packing. -/
def defaultLevel : CodecId → Int32
  | store => 0
  | zstd => 9
  | brotli => 9
  | lzma2 => 6

/-- Whether a codec knows a level. -/
def levelSupported (codecId : CodecId) (level : Int32) : Prop :=
  match codecId with
  | store => 0 ≤ level ∧ level ≤ 0
  | zstd => -7 ≤ level ∧ level ≤ 22
  | brotli => 0 ≤ level ∧ level ≤ 11
  | lzma2 => 0 ≤ level ∧ level ≤ 9

instance (codecId : CodecId) (level : Int32) :
    Decidable (codecId.levelSupported level) := by
  cases codecId <;> exact inferInstanceAs (Decidable (_ ∧ _))

theorem levelSupported_defaultLevel (codecId : CodecId) :
    codecId.levelSupported codecId.defaultLevel := by
  cases codecId <;> decide

/-- Refuse a level that the codec does not know. -/
def validateLevel (codecId : CodecId) (level : Int32) : Result Unit :=
  ensure (codecId.levelSupported level)
    (.invalidMetadata "unsupported codec level")

/-- Working memory besides the input. -/
def scratchBytes (codecId : CodecId) (level : Int32) : UInt64 :=
  match codecId with
  | store => 1
  | zstd => 128 * 1024 * 1024
  | brotli => 32 * 1024 * 1024
  | lzma2 => UInt64.ofNat (2 ^ (level.toInt.toNat + 20))

/-- Bound on the memory of one codec call. -/
def memoryBound (codecId : CodecId) (inputLen : UInt64) (level : Int32) :
    Result UInt64 := do
  codecId.validateLevel level
  okOr (checkedAdd inputLen (codecId.scratchBytes level)) .integerOverflow

end CodecId

/-- The compression crates: what they write for an input, and what they read
from a stream. -/
structure Codecs where
  compress : CodecId → Int32 → List UInt8 → Result (List UInt8)
  decompress : CodecId → List UInt8 → Result (List UInt8)

/-- The compression crates are lossless. -/
def Codecs.Lossless (codecs : Codecs) : Prop :=
  ∀ codecId level input output,
    codecs.compress codecId level input = .ok output →
    codecs.decompress codecId output = .ok input

namespace Codecs

/-- Encode with a codec; STORE writes the input itself. -/
def encode
    (codecs : Codecs)
    (codecId : CodecId)
    (level : Int32)
    (input : List UInt8) : Result (List UInt8) := do
  codecId.validateLevel level
  match codecId with
  | .store => .ok input
  | compressed => codecs.compress compressed level input

/-- Pass on a decoded stream that has exactly the declared length. -/
def copyDecodedLimited
    (stream : List UInt8)
    (expectedLen : UInt64) : Result (List UInt8) := do
  ensure (stream.length ≤ expectedLen.toNat)
    (.resourceLimit "decoded output exceeds declared group length")
  ensure (stream.length = expectedLen.toNat) .invalidRange
  .ok stream

/-- Decode a payload to exactly `expectedLen` bytes.  STORE reads that many
bytes and leaves the rest of its input alone. -/
def decode
    (codecs : Codecs)
    (codecId : CodecId)
    (payload : List UInt8)
    (expectedLen : UInt64) : Result (List UInt8) :=
  match codecId with
  | .store => do
      ensure (expectedLen.toNat ≤ payload.length) .invalidRange
      .ok (payload.take expectedLen.toNat)
  | compressed => do
      let stream ← codecs.decompress compressed payload
      copyDecodedLimited stream expectedLen

/-- A decoded group has exactly the declared length. -/
theorem length_of_decode
    {codecs : Codecs}
    {codecId : CodecId}
    {payload output : List UInt8}
    {expectedLen : UInt64}
    (decoded : codecs.decode codecId payload expectedLen = .ok output) :
    output.length = expectedLen.toNat := by
  have limited (stream : List UInt8)
      (copied : copyDecodedLimited stream expectedLen = .ok output) :
      output.length = expectedLen.toNat := by
    simp only [copyDecodedLimited, bind_eq_ok, ensure_eq_ok,
      Except.ok.injEq] at copied
    obtain ⟨_, _, _, exact, rfl⟩ := copied
    exact exact
  cases codecId with
  | store =>
      simp only [decode, bind_eq_ok, ensure_eq_ok, Except.ok.injEq] at decoded
      obtain ⟨_, enough, rfl⟩ := decoded
      rw [List.length_take]
      omega
  | zstd | brotli | lzma2 =>
      obtain ⟨stream, _, copied⟩ := bind_eq_ok.mp decoded
      exact limited stream copied

/-- A lossless codec decodes what it encoded. -/
theorem decode_of_encode
    {codecs : Codecs}
    (lossless : codecs.Lossless)
    {codecId : CodecId}
    {level : Int32}
    {input output : List UInt8}
    (encoded : codecs.encode codecId level input = .ok output)
    {expectedLen : UInt64}
    (exact : input.length = expectedLen.toNat) :
    codecs.decode codecId output expectedLen = .ok input := by
  obtain ⟨_, _, written⟩ := bind_eq_ok.mp encoded
  have limited : copyDecodedLimited input expectedLen = .ok input := by
    simp [copyDecodedLimited, exact, ensure_of]
  cases codecId with
  | store =>
      cases written
      simp [decode, ← exact, ensure_of]
  | zstd | brotli | lzma2 =>
      simp only [decode, lossless _ _ _ _ written, ok_bind, limited]

end Codecs

end Pithos
