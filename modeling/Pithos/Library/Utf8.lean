/-!
# UTF-8

Which byte strings are well-formed UTF-8, and the conversion of any byte string
to text that replaces what is not.
-/

namespace Utf8

/-- Whether a byte is a UTF-8 continuation byte. -/
def isContinuation (byte : UInt8) : Bool :=
  0x80 ≤ byte && byte ≤ 0xBF

/-- Whether a second byte may follow the lead byte of a three-byte or four-byte
sequence: no overlong forms, no surrogates, nothing above U+10FFFF. -/
def secondByteAllowed (lead second : UInt8) : Bool :=
  isContinuation second &&
    (lead != 0xE0 || 0xA0 ≤ second) && (lead != 0xED || second ≤ 0x9F) &&
    (lead != 0xF0 || 0x90 ≤ second) && (lead != 0xF4 || second ≤ 0x8F)

/-- Well-formed UTF-8. -/
def isUtf8 : List UInt8 → Bool
  | [] => true
  | lead :: rest =>
      if lead < 0x80 then isUtf8 rest
      else if 0xC2 ≤ lead && lead ≤ 0xDF then
        match rest with
        | second :: rest => isContinuation second && isUtf8 rest
        | _ => false
      else if 0xE0 ≤ lead && lead ≤ 0xEF then
        match rest with
        | second :: third :: rest =>
            secondByteAllowed lead second && isContinuation third &&
              isUtf8 rest
        | _ => false
      else if 0xF0 ≤ lead && lead ≤ 0xF4 then
        match rest with
        | second :: third :: fourth :: rest =>
            secondByteAllowed lead second && isContinuation third &&
              isContinuation fourth && isUtf8 rest
        | _ => false
      else false

/-! ## Lossy conversion -/

/-- The replacement character. -/
def replacement : List UInt8 := [0xEF, 0xBF, 0xBD]

/-- Whether the bytes begin with a well-formed character, and how many bytes it
has.  What is not well formed ends before the first byte that cannot go on with
it. -/
def leadingSequence : List UInt8 → Bool × Nat
  | [] => (false, 1)
  | lead :: rest =>
      if lead < 0x80 then (true, 1)
      else if 0xC2 ≤ lead && lead ≤ 0xDF then
        match rest with
        | second :: _ => if isContinuation second then (true, 2) else (false, 1)
        | [] => (false, 1)
      else if 0xE0 ≤ lead && lead ≤ 0xEF then
        match rest with
        | second :: rest =>
            if secondByteAllowed lead second then
              match rest with
              | third :: _ =>
                  if isContinuation third then (true, 3) else (false, 2)
              | [] => (false, 2)
            else (false, 1)
        | [] => (false, 1)
      else if 0xF0 ≤ lead && lead ≤ 0xF4 then
        match rest with
        | second :: rest =>
            if secondByteAllowed lead second then
              match rest with
              | third :: rest =>
                  if isContinuation third then
                    match rest with
                    | fourth :: _ =>
                        if isContinuation fourth then (true, 4) else (false, 3)
                    | [] => (false, 3)
                  else (false, 2)
              | [] => (false, 2)
            else (false, 1)
        | [] => (false, 1)
      else (false, 1)

/-- The text of at most a number of characters. -/
def lossyCharacters : Nat → List UInt8 → List UInt8
  | _, [] => []
  | 0, _ => []
  | count + 1, bytes =>
      (if (leadingSequence bytes).1 then bytes.take (leadingSequence bytes).2
        else replacement) ++
        lossyCharacters count (bytes.drop (leadingSequence bytes).2)

/-- Bytes as text: what is not UTF-8 is replaced. -/
def toStringLossy (bytes : List UInt8) : List UInt8 :=
  lossyCharacters bytes.length bytes

example : toStringLossy [0x61, 0xE2, 0x82, 0x62] =
    [0x61, 0xEF, 0xBF, 0xBD, 0x62] := by decide

end Utf8
