import Pithos.Engine.Crates
import Pithos.Engine.Read
import Pithos.Library.ByteStream

/-!
# Decoding in pieces

The decoders of the codecs as loops over reads.  A read may give less than it is
asked for, so a decoder sees its stream in pieces of any size.  The decoders of
the compression crates are streams themselves; the two loops are those of
`StoreCodec` and of the function that the other codecs share.
-/

namespace Pithos

open Fallible
open Machine

/-- A stream of bytes that ends or fails. -/
abbrev Stream := ByteStream UInt8 FileTree.IoErrorKind

namespace Decoding

/-- `COPY_BUFFER_SIZE`: the buffer that decoded bytes are copied through. -/
def bufferSize : Nat := 8192

/-- Pass on a stream that has exactly the expected length.  The schedule says how
much each read gives. -/
def copyDecodedLimited
    (schedule : Nat → Nat)
    (expectedLen : UInt64)
    (turn : Nat)
    (input : Stream)
    (written : UInt64) : Writer Unit :=
  match _ : input.read (schedule turn) bufferSize with
  | .error kind => StateAction.fail (.io kind)
  | .ok (piece, rest) =>
      if _ : piece = [] then
        StateAction.lift (ensure (written = expectedLen) .invalidRange)
      else
        match checkedAdd written (UInt64.ofNat piece.length) with
        | none => StateAction.fail .integerOverflow
        | some written =>
            if written ≤ expectedLen then do
              emit piece
              copyDecodedLimited schedule expectedLen (turn + 1) rest written
            else StateAction.fail
              (.resourceLimit "decoded output exceeds declared group length")
termination_by input.bytes.length
decreasing_by exact ByteStream.length_lt_of_read ‹_› ‹_›

/-- Pass on as many bytes as are left to read. -/
def storeDecode
    (schedule : Nat → Nat)
    (turn : Nat)
    (input : Stream)
    (remaining : UInt64) : Writer Unit :=
  if remaining = 0 then pure ()
  else
    match _ : input.read (schedule turn)
        (min bufferSize remaining.toNat) with
    | .error kind => StateAction.fail (.io kind)
    | .ok (piece, rest) =>
        if _ : piece = [] then StateAction.fail .invalidRange
        else do
          emit piece
          storeDecode schedule (turn + 1) rest
            (remaining - UInt64.ofNat piece.length)
termination_by input.bytes.length
decreasing_by exact ByteStream.length_lt_of_read ‹_› ‹_›

/-- The stream that a codec decodes to, given what the crates do. -/
def decodedStream (crates : CodecId → Stream → Stream) :
    CodecId → Stream → Stream
  | .store, input => input
  | compressed, input => crates compressed input

/-- The decoder of a codec over a stream that gives short reads. -/
def decode
    (crates : CodecId → Stream → Stream)
    (schedule : Nat → Nat)
    (codecId : CodecId)
    (input : Stream)
    (expectedLen : UInt64) : Writer Unit :=
  match codecId with
  | .store => storeDecode schedule 0 input expectedLen
  | compressed =>
      copyDecodedLimited schedule expectedLen 0 (crates compressed input) 0

/-! ## What the loops pass on -/

/-- What a loop that may pass on so many bytes has passed on, and when it
succeeds. -/
structure Passed
    (stream : Stream)
    (limit : Nat)
    (accepts : Prop)
    (front : List UInt8)
    (result : Result Unit) : Prop where
  isPrefix : front <+: stream.bytes
  bounded : front.length ≤ limit
  ok_iff : result = .ok () ↔ accepts
  whole : result = .ok () → front = stream.bytes.take limit

section Passed

variable
  {stream rest : Stream}
  {piece front : List UInt8}
  {limit : Nat}
  {accepts restAccepts : Prop}
  {result : Result Unit}

/-- A loop that stops before it passes on anything. -/
theorem Passed.nothing
    (ok_iff : result = .ok () ↔ accepts)
    (none : accepts → stream.bytes.take limit = []) :
    Passed stream limit accepts [] result where
  isPrefix := List.nil_prefix
  bounded := Nat.zero_le _
  ok_iff := ok_iff
  whole := fun isOk => (none (ok_iff.mp isOk)).symm

/-- A loop that passes on a piece and goes on. -/
theorem Passed.more
    (split : stream.bytes = piece ++ rest.bytes)
    (fits : piece.length ≤ limit)
    (passed : Passed rest (limit - piece.length) restAccepts front result)
    (same : accepts ↔ restAccepts) :
    Passed stream limit accepts (piece ++ front) result where
  isPrefix := by
    rw [split]
    exact (List.prefix_append_right_inj piece).mpr passed.isPrefix
  bounded := by
    have := passed.bounded
    rw [List.length_append]
    omega
  ok_iff := passed.ok_iff.trans same.symm
  whole := by
    intro isOk
    rw [split, List.take_append, List.take_of_length_le fits,
      passed.whole isOk]

end Passed

section Loops

variable {schedule : Nat → Nat} {output : List UInt8}

theorem copyDecodedLimited_of_error
    {expectedLen written : UInt64}
    {turn : Nat}
    {input : Stream}
    {kind : FileTree.IoErrorKind}
    (failed : input.read (schedule turn) bufferSize = .error kind) :
    copyDecodedLimited schedule expectedLen turn input written =
      StateAction.fail (.io kind) := by
  rw [copyDecodedLimited]
  split
  · rename_i isError
    rw [failed] at isError
    cases isError
    rfl
  · rename_i gave
    rw [failed] at gave
    cases gave

theorem copyDecodedLimited_of_ok
    {expectedLen written : UInt64}
    {turn : Nat}
    {input rest : Stream}
    {piece : List UInt8}
    (gave : input.read (schedule turn) bufferSize = .ok (piece, rest)) :
    copyDecodedLimited schedule expectedLen turn input written =
      if piece = [] then
        StateAction.lift (ensure (written = expectedLen) .invalidRange)
      else
        match checkedAdd written (UInt64.ofNat piece.length) with
        | none => StateAction.fail .integerOverflow
        | some written =>
            if written ≤ expectedLen then do
              emit piece
              copyDecodedLimited schedule expectedLen (turn + 1) rest written
            else StateAction.fail
              (.resourceLimit
                "decoded output exceeds declared group length") := by
  rw [copyDecodedLimited]
  split
  · rename_i isError
    rw [gave] at isError
    cases isError
  · rename_i isOk
    rw [gave] at isOk
    cases isOk
    rfl

/-- The shared loop accepts a stream that ends where it should. -/
theorem copyDecodedLimited_passed
    {expectedLen written : UInt64}
    {turn : Nat}
    {input : Stream}
    (below : written ≤ expectedLen) :
    ∃ front result,
      copyDecodedLimited schedule expectedLen turn input written output =
        (result, output ++ front) ∧
      Passed input (expectedLen.toNat - written.toNat)
        (input.fault = none ∧
          input.bytes.length = expectedLen.toNat - written.toNat)
        front result := by
  rw [UInt64.le_iff_toNat_le] at below
  induction count : input.bytes.length using Nat.strong_induction_on
    generalizing input written turn output with
  | _ count inductionHypothesis =>
      subst count
      by_cases empty : input.bytes = []
      · have given := ByteStream.read_of_nil (schedule turn) bufferSize empty
        cases fault : input.fault with
        | some kind =>
            rw [fault] at given
            rw [copyDecodedLimited_of_error given]
            refine ⟨[], _, by rw [List.append_nil]; rfl,
              Passed.nothing (by simp) (by simp)⟩
        | none =>
            rw [fault] at given
            rw [copyDecodedLimited_of_ok given, if_pos rfl]
            refine ⟨[], _, by rw [List.append_nil]; rfl,
              Passed.nothing ?_ (by simp [empty])⟩
            rw [ensure_eq_ok, ← UInt64.toNat_inj, empty, List.length_nil,
              eq_self, true_and]
            omega
      · obtain ⟨piece, rest, gave, some, small, split, sameFault⟩ :=
          ByteStream.read_of_ne_nil (schedule turn)
            (by decide : 0 < bufferSize) empty
        have value : (UInt64.ofNat piece.length).toNat = piece.length :=
          toNat_ofNat_of_lt (small.trans_lt (by decide))
        have positive := List.length_pos_iff.mpr some
        have lengths := congrArg List.length split
        rw [List.length_append] at lengths
        rw [copyDecodedLimited_of_ok gave, if_neg some]
        cases added : checkedAdd written (UInt64.ofNat piece.length) with
        | none =>
            have overflow : ¬ written.toNat + piece.length < 2 ^ 64 := by
              rw [← value, ← checkedAdd_isSome_iff, added]
              simp
            have := expectedLen.toNat_lt
            refine ⟨[], _, by rw [List.append_nil]; rfl,
              Passed.nothing (by simp; omega) (by omega)⟩
        | some next =>
            have sum := checkedAdd_eq_some.mp added
            rw [value] at sum
            dsimp only
            by_cases within : next ≤ expectedLen
            · rw [if_pos within]
              rw [UInt64.le_iff_toNat_le] at within
              obtain ⟨front, result, ran, passed⟩ :=
                @inductionHypothesis rest.bytes.length (by omega)
                  (output ++ piece) next (turn + 1) rest within rfl
              have left : expectedLen.toNat - next.toNat =
                  expectedLen.toNat - written.toNat - piece.length := by omega
              rw [left] at passed
              refine ⟨piece ++ front, result, ?_,
                passed.more split (by omega) ?_⟩
              · rw [← List.append_assoc, ← ran]
                rfl
              · rw [sameFault]
                refine and_congr_right fun _ => ?_
                omega
            · rw [if_neg within]
              rw [UInt64.le_iff_toNat_le] at within
              refine ⟨[], _, by rw [List.append_nil]; rfl,
                Passed.nothing (by simp; omega) (by omega)⟩

theorem storeDecode_of_error
    {remaining : UInt64}
    (some : remaining ≠ 0)
    {turn : Nat}
    {input : Stream}
    {kind : FileTree.IoErrorKind}
    (failed : input.read (schedule turn) (min bufferSize remaining.toNat) =
      .error kind) :
    storeDecode schedule turn input remaining =
      StateAction.fail (.io kind) := by
  rw [storeDecode, if_neg some]
  split
  · rename_i isError
    rw [failed] at isError
    cases isError
    rfl
  · rename_i gave
    rw [failed] at gave
    cases gave

theorem storeDecode_of_ok
    {remaining : UInt64}
    (some : remaining ≠ 0)
    {turn : Nat}
    {input rest : Stream}
    {piece : List UInt8}
    (gave : input.read (schedule turn) (min bufferSize remaining.toNat) =
      .ok (piece, rest)) :
    storeDecode schedule turn input remaining =
      if piece = [] then StateAction.fail .invalidRange
      else (do
        emit piece
        storeDecode schedule (turn + 1) rest
          (remaining - UInt64.ofNat piece.length)) := by
  rw [storeDecode, if_neg some]
  split
  · rename_i isError
    rw [gave] at isError
    cases isError
  · rename_i isOk
    rw [gave] at isOk
    cases isOk
    rfl

/-- The loop of STORE accepts every stream that is long enough. -/
theorem storeDecode_passed
    {remaining : UInt64}
    {turn : Nat}
    {input : Stream} :
    ∃ front result,
      storeDecode schedule turn input remaining output =
        (result, output ++ front) ∧
      Passed input remaining.toNat (remaining.toNat ≤ input.bytes.length)
        front result := by
  induction count : input.bytes.length using Nat.strong_induction_on
    generalizing input remaining turn output with
  | _ count inductionHypothesis =>
      subst count
      by_cases none : remaining = 0
      · subst none
        rw [storeDecode, if_pos rfl]
        exact ⟨[], _, by rw [List.append_nil]; rfl,
          Passed.nothing (by simp) (by simp)⟩
      · have positive : remaining.toNat ≠ 0 :=
          fun zero => none (UInt64.toNat_inj.mp zero)
        by_cases empty : input.bytes = []
        · have given := ByteStream.read_of_nil (schedule turn)
            (min bufferSize remaining.toNat) empty
          have short : ¬ remaining.toNat ≤ input.bytes.length := by
            rw [empty, List.length_nil]
            omega
          cases fault : input.fault with
          | some kind =>
              rw [fault] at given
              rw [storeDecode_of_error none given]
              exact ⟨[], _, by rw [List.append_nil]; rfl,
                Passed.nothing (by simpa using short) (by simp [empty])⟩
          | none =>
              rw [fault] at given
              rw [storeDecode_of_ok none given, if_pos rfl]
              exact ⟨[], _, by rw [List.append_nil]; rfl,
                Passed.nothing (by simpa using short) (by simp [empty])⟩
        · have wanted : 0 < min bufferSize remaining.toNat :=
            Nat.lt_min.mpr ⟨by decide, by omega⟩
          obtain ⟨piece, rest, gave, some, small, split, _⟩ :=
            ByteStream.read_of_ne_nil (schedule turn) wanted empty
          obtain ⟨inBuffer, fits⟩ := Nat.le_min.mp small
          have value : (UInt64.ofNat piece.length).toNat = piece.length :=
            toNat_ofNat_of_lt (inBuffer.trans_lt (by decide))
          have left : (remaining - UInt64.ofNat piece.length).toNat =
              remaining.toNat - piece.length := by
            rw [UInt64.toNat_sub_of_le _ _ (by
              rw [UInt64.le_iff_toNat_le, value]
              exact fits), value]
          have lengths := congrArg List.length split
          have notEmpty := List.length_pos_iff.mpr some
          rw [List.length_append] at lengths
          obtain ⟨front, result, ran, passed⟩ :=
            @inductionHypothesis rest.bytes.length (by omega)
              (output ++ piece) (remaining - UInt64.ofNat piece.length)
              (turn + 1) rest rfl
          rw [left] at passed
          rw [storeDecode_of_ok none gave, if_neg some]
          refine ⟨piece ++ front, result, ?_, passed.more split fits (by omega)⟩
          rw [← List.append_assoc, ← ran]
          rfl

end Loops

/-! ## Exactness -/

/-- A decoder accepts exactly the streams of the expected length, and passes on
no more than that of any other. -/
structure Exact
    (stream : Stream)
    (expectedLen : Nat)
    (result : Result Unit)
    (written : List UInt8) : Prop where
  ok_iff : result = .ok () ↔
    stream.fault = none ∧ stream.bytes.length = expectedLen
  whole : result = .ok () → written = stream.bytes
  bounded : written.length ≤ expectedLen
  isPrefix : written <+: stream.bytes

/-- A decoder is exact when it accepts exactly the streams of the expected
length. -/
theorem Passed.exact_iff
    {stream : Stream}
    {limit : Nat}
    {accepts : Prop}
    {front : List UInt8}
    {result : Result Unit}
    (passed : Passed stream limit accepts front result) :
    Exact stream limit result front ↔
      (accepts ↔ stream.fault = none ∧ stream.bytes.length = limit) := by
  constructor
  · intro exact
    exact passed.ok_iff.symm.trans exact.ok_iff
  · intro same
    have ok_iff := passed.ok_iff.trans same
    refine ⟨ok_iff, ?_, passed.bounded, passed.isPrefix⟩
    intro isOk
    rw [passed.whole isOk, List.take_of_length_le (ok_iff.mp isOk).2.le]

/-- STORE accepts every input that is long enough; the other codecs accept what
decodes to the expected length. -/
def Accepts
    (codecId : CodecId)
    (stream : Stream)
    (expectedLen : Nat) : Prop :=
  match codecId with
  | .store => expectedLen ≤ stream.bytes.length
  | _ => stream.fault = none ∧ stream.bytes.length = expectedLen

theorem decode_passed
    (crates : CodecId → Stream → Stream)
    (schedule : Nat → Nat)
    (codecId : CodecId)
    (input : Stream)
    (expectedLen : UInt64)
    (output : List UInt8) :
    ∃ front result,
      decode crates schedule codecId input expectedLen output =
        (result, output ++ front) ∧
      Passed (decodedStream crates codecId input) expectedLen.toNat
        (Accepts codecId (decodedStream crates codecId input)
          expectedLen.toNat) front result := by
  have shared (stream : Stream) :=
    @copyDecodedLimited_passed schedule output expectedLen 0 0 stream
      UInt64.zero_le
  cases codecId with
  | store => exact storeDecode_passed
  | zstd | brotli | lzma2 => exact shared _

/-- The decoder that the engine is modelled with is that of the loops, however
the payload is read. -/
def codecs
    (crates : CodecId → Stream → Stream)
    (compress : CodecId → Int32 → List UInt8 → Result (List UInt8)) :
    Codecs where
  compress := compress
  decompress codecId payload :=
    match (crates codecId ⟨payload, none⟩).fault with
    | none => .ok (crates codecId ⟨payload, none⟩).bytes
    | some kind => .error (.io kind)

theorem codecs_decode_eq_ok
    {crates : CodecId → Stream → Stream}
    {compress : CodecId → Int32 → List UInt8 → Result (List UInt8)}
    {codecId : CodecId}
    {payload bytes : List UInt8}
    {expectedLen : UInt64} :
    (codecs crates compress).decode codecId payload expectedLen = .ok bytes ↔
      Accepts codecId (decodedStream crates codecId ⟨payload, none⟩)
        expectedLen.toNat ∧
      bytes = (decodedStream crates codecId ⟨payload, none⟩).bytes.take
        expectedLen.toNat := by
  have shared (stream : Stream) :
      ((match stream.fault with
        | none => .ok stream.bytes
        | some kind => .error (.io kind)) >>= fun bytes =>
          Codecs.copyDecodedLimited bytes expectedLen) = .ok bytes ↔
        (stream.fault = none ∧ stream.bytes.length = expectedLen.toNat) ∧
          bytes = stream.bytes.take expectedLen.toNat := by
    cases fault : stream.fault with
    | some kind => simp
    | none =>
        simp only [ok_bind, Codecs.copyDecodedLimited, bind_eq_ok,
          ensure_eq_ok, exists_const, Except.ok.injEq, true_and]
        constructor
        · rintro ⟨_, exact, rfl⟩
          exact ⟨exact, (List.take_of_length_le exact.le).symm⟩
        · rintro ⟨exact, rfl⟩
          exact ⟨exact.le, exact, (List.take_of_length_le exact.le).symm⟩
  cases codecId with
  | store =>
      simp only [Codecs.decode, bind_eq_ok, ensure_eq_ok, exists_const,
        Except.ok.injEq, Accepts, decodedStream]
      exact and_congr_right fun _ => eq_comm
  | zstd | brotli | lzma2 => exact shared _

/-- However the payload is read, the loops give what the engine's decoder
gives. -/
theorem codecs_decode_eq_ok_iff
    (crates : CodecId → Stream → Stream)
    (compress : CodecId → Int32 → List UInt8 → Result (List UInt8))
    (schedule : Nat → Nat)
    (codecId : CodecId)
    (payload bytes : List UInt8)
    (expectedLen : UInt64) :
    (codecs crates compress).decode codecId payload expectedLen = .ok bytes ↔
      decode crates schedule codecId ⟨payload, none⟩ expectedLen [] =
        (.ok (), bytes) := by
  obtain ⟨front, result, ran, passed⟩ :=
    decode_passed crates schedule codecId ⟨payload, none⟩ expectedLen []
  rw [codecs_decode_eq_ok, ran, Prod.mk.injEq, passed.ok_iff,
    List.nil_append]
  refine and_congr_right fun accepted => ?_
  rw [passed.whole (passed.ok_iff.mpr accepted)]
  exact eq_comm

end Decoding

open Decoding

/-- A group of STORE has at least the payload that it announces. -/
theorem uncompressedLen_le_of_store
    {backends : Backends}
    {file decoded : List UInt8}
    {record : GroupTableRecord}
    {registry : Option CodecRegistry}
    {limits : DecodeLimits}
    (isDecoded : decodeGroup backends file record registry limits =
      .ok decoded)
    (stored : groupCodec record registry = .ok .store) :
    record.group.uncompressedLen ≤ record.group.compressedLen := by
  simp only [decodeGroup, bind_eq_ok, readExactVec_eq_ok, ensure_eq_ok,
    exists_const] at isDecoded
  obtain ⟨_, _, payload, ⟨_, complete, rfl⟩, _, codecId, isCodec, rest⟩ :=
    isDecoded
  obtain rfl := Except.ok.inj (stored.symm.trans isCodec)
  simp only [Codecs.decode, bind_eq_ok, ensure_eq_ok, exists_const] at rest
  rw [UInt64.le_iff_toNat_le, ← complete]
  exact rest.1

/-- Decoding is exact but for STORE, which leaves what its input has beyond the
expected length.  A STORE group of a verified archive has no byte that is not
accounted for exactly when its payload is not longer than its output. -/
theorem decode_exact_iff
    (crates : CodecId → Stream → Stream)
    (schedule : Nat → Nat) :
    (∀ codecId input (expectedLen : UInt64),
      Exact (decodedStream crates codecId input) expectedLen.toNat
          (decode crates schedule codecId input expectedLen []).1
          (decode crates schedule codecId input expectedLen []).2 ↔
        (codecId = .store → input.bytes.length ≤ expectedLen.toNat ∧
          (input.bytes.length = expectedLen.toNat → input.fault = none))) ∧
    ∀ backends file limits parsed,
      verifyOpenFile backends file limits = .ok parsed →
      ∀ record ∈ parsed.groups,
        groupCodec record parsed.codecRegistry = .ok .store →
        (record.group.compressedLen = record.group.uncompressedLen ↔
          record.group.compressedLen ≤ record.group.uncompressedLen) := by
  refine ⟨?_, ?_⟩
  · intro codecId input expectedLen
    obtain ⟨front, result, ran, passed⟩ :=
      decode_passed crates schedule codecId input expectedLen []
    rw [ran, List.nil_append, passed.exact_iff]
    cases codecId with
    | store =>
        simp only [Accepts, decodedStream, true_imp_iff]
        constructor
        · intro same
          refine ⟨?_, fun full => (same.mp full.ge).1⟩
          by_contra longer
          exact longer (same.mp (Nat.le_of_not_le longer)).2.le
        · rintro ⟨short, sound⟩
          constructor
          · intro long
            have full := Nat.le_antisymm short long
            exact ⟨sound full, full⟩
          · rintro ⟨_, full⟩
            exact full.ge
    | zstd | brotli | lzma2 => simp [Accepts]
  · intro backends file limits parsed verified record member stored
    obtain ⟨catalog, _, payload, rfl⟩ := verifyOpenFile_eq_ok.mp verified
    obtain ⟨decoded, isDecoded, _⟩ := payload.groups record member
    have atLeast := uncompressedLen_le_of_store isDecoded stored
    refine ⟨?_, fun atMost => UInt64.le_antisymm atMost atLeast⟩
    intro same
    rw [same]
    exact UInt64.le_refl _

/-! ## A payload that is longer than its group -/

/-- A file of one byte in a STORE group with two bytes of payload. -/
def excessParts : ArchiveParts where
  entries := [
    { entryId := 0
      path := ⟨[utf8Component "f"]⟩
      size := 1
      modifiedNs := 0
      mode := 0o644
      blake3 := Digests.crates.blake3 [0x61]
      kind := .file 0 }]
  groups := [
    { group := {
        version := 1
        flags := 0
        groupId := 0
        codecChainId := 1
        chunkCount := 1
        uncompressedLen := 1
        compressedLen := 2
        descriptorLen := 0
        payloadCrc32c := Digests.crates.crc32c [0x61, 0x62] }
      payloadOffset := 320 }]
  restoreMap := [
    { entryId := 0
      originalOffset := 0
      length := 1
      groupId := 0
      groupOffset := 0 }]
  registryBytes := some (le32 1 ++ CodecRegistryRecord.encode
    { chainId := 1
      codecId := CodecId.store.toU16
      codecVersion := 1
      level := 0
      flags := codecFlagRequired })
  payload := [[0x61, 0x62]]
  originalTotalSize := 1

/-- The registry of the archive. -/
def excessRegistry : CodecRegistry :=
  ⟨[{ chainId := 1
      codecId := CodecId.store.toU16
      codecVersion := 1
      level := 0
      flags := codecFlagRequired }]⟩

theorem excessParts_registry :
    excessParts.readRegistry = .ok (some excessRegistry) := by
  decide

set_option maxRecDepth 10000 in
theorem excessParts_crc :
    Digests.crates.crc32c [0x61, 0x62] = 0xE2A22936 := by
  have first : Crc32c.feed 0xFFFFFFFF 0x61 = 0x3E2FBCCF := by decide
  have second : Crc32c.feed 0x3E2FBCCF 0x62 = 0x1D5DD6C9 := by decide
  change ~~~(Crc32c.feed (Crc32c.feed 0xFFFFFFFF 0x61) 0x62) = _
  rw [first, second]
  rfl

set_option maxRecDepth 100000 in
theorem excessParts_checks : excessParts.catalogChecks .default = .ok () := by
  unfold excessParts
  rw [sampleDigest, excessParts_crc]
  decide

theorem excessParts_verified :
    verifyOpenFile excessParts.crates excessParts.archive .default =
      .ok (excessParts.parsed excessParts.crates
        (some excessRegistry)).withRoot := by
  obtain ⟨registry, isRegistry, verified⟩ :=
    ArchiveParts.verifyOpenFile_of_catalogChecks excessParts_checks (by
      intro registry isRegistry record member
      obtain rfl := Except.ok.inj (excessParts_registry.symm.trans isRegistry)
      obtain rfl := List.mem_singleton.mp member
      refine ⟨[0x61], ?_, ?_⟩
      · refine bind_eq_ok.mpr ⟨1074790400, by decide, bind_eq_ok.mpr
          ⟨[0x61, 0x62], by decide, bind_eq_ok.mpr
            ⟨(), ensure_of rfl _, by decide⟩⟩⟩
      · intro restore isMapped
        obtain rfl := List.mem_singleton.mp (List.mem_filter.mp isMapped).1
        exact ⟨_, [0x61], rfl, by decide, rfl⟩)
  obtain rfl := Except.ok.inj (excessParts_registry.symm.trans isRegistry)
  exact verified

/-- STORE does not see that its input goes on, and an archive with such a group
is verified. -/
theorem store_leavesExcess :
    (¬ ∀ crates schedule codecId input (expectedLen : UInt64),
      Exact (decodedStream crates codecId input) expectedLen.toNat
        (decode crates schedule codecId input expectedLen []).1
        (decode crates schedule codecId input expectedLen []).2) ∧
    ¬ ∀ backends file limits parsed,
      verifyOpenFile backends file limits = .ok parsed →
      ∀ record ∈ parsed.groups,
        groupCodec record parsed.codecRegistry = .ok .store →
        record.group.compressedLen = record.group.uncompressedLen := by
  constructor
  · intro always
    obtain ⟨front, result, ran, passed⟩ := decode_passed (fun _ input => input)
      (fun _ => bufferSize) .store ⟨[0x61, 0x62], none⟩ 1 []
    have exact := always (fun _ input => input) (fun _ => bufferSize) .store
      ⟨[0x61, 0x62], none⟩ 1
    rw [ran, List.nil_append, passed.exact_iff] at exact
    exact absurd (exact.mp (by decide : 1 ≤ 2)).2 (by decide)
  · intro always
    have same := always _ _ _ _ excessParts_verified _ List.mem_cons_self
      (by decide)
    exact absurd same (by decide)

/-- A verified archive in which STORE accounts for every byte. -/
theorem sampleParts_accounted :
    ∀ record ∈ sampleParts.verified.groups,
      groupCodec record sampleParts.verified.codecRegistry = .ok .store →
      (record.group.compressedLen = record.group.uncompressedLen ↔
        record.group.compressedLen ≤ record.group.uncompressedLen) :=
  (decode_exact_iff (fun _ input => input) (fun _ => bufferSize)).2 _ _ _ _
    sampleParts_verified

end Pithos
