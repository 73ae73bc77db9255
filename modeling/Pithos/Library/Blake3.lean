import Pithos.Library.Machine

/-!
# BLAKE3

The hash function in its default mode: chunks of 1024 bytes, compressed block
by block, and a binary tree over the chunks.
-/

namespace Blake3

/-- The state words of the compression function, and its message words. -/
abbrev Words := List UInt32

/-- The initial chaining value. -/
def initial : Words :=
  [0x6A09E667, 0xBB67AE85, 0x3C6EF372, 0xA54FF53A,
    0x510E527F, 0x9B05688C, 0x1F83D9AB, 0x5BE0CD19]

/-- The flag of the first block of a chunk. -/
def chunkStart : UInt32 := 1

/-- The flag of the last block of a chunk. -/
def chunkEnd : UInt32 := 2

/-- The flag of a parent node. -/
def parent : UInt32 := 4

/-- The flag of the root node. -/
def root : UInt32 := 8

/-- The order in which the next round reads the message words. -/
def permutation : List Nat :=
  [2, 6, 3, 10, 7, 0, 4, 13, 1, 11, 12, 5, 9, 14, 15, 8]

/-- The order of the message words in the next round. -/
def permute (message : Words) : Words :=
  permutation.map fun index => message.getD index 0

/-- A word rotated to the right. -/
def rotateRight (word : UInt32) (count : UInt32) : UInt32 :=
  (word >>> count) ||| (word <<< (32 - count))

/-- The quarter round on four words with two message words. -/
def quarter : Words → UInt32 → UInt32 → Words
  | [a, b, c, d], x, y =>
      let a := a + b + x
      let d := rotateRight (d ^^^ a) 16
      let c := c + d
      let b := rotateRight (b ^^^ c) 12
      let a := a + b + y
      let d := rotateRight (d ^^^ a) 8
      let c := c + d
      let b := rotateRight (b ^^^ c) 7
      [a, b, c, d]
  | words, _, _ => words

/-- Mix four words of the state, given by their places. -/
def mix (state : Words) (places : List Nat) (x y : UInt32) : Words :=
  (places.zip (quarter (places.map fun place => state.getD place 0) x y)).foldl
    (fun state item => state.set item.1 item.2) state

/-- The columns of the state, then its diagonals. -/
def lanes : List (List Nat) :=
  [[0, 4, 8, 12], [1, 5, 9, 13], [2, 6, 10, 14], [3, 7, 11, 15],
    [0, 5, 10, 15], [1, 6, 11, 12], [2, 7, 8, 13], [3, 4, 9, 14]]

/-- One round: the mixing function on every lane. -/
def round (state message : Words) : Words :=
  lanes.zipIdx.foldl (fun state lane => mix state lane.1
    (message.getD (2 * lane.2) 0) (message.getD (2 * lane.2 + 1) 0)) state

/-- A number of rounds, the message permuted between them. -/
def rounds : Nat → Words → Words → Words
  | 0, state, _ => state
  | count + 1, state, message =>
      rounds count (round state message) (permute message)

/-- The inputs of one compression. -/
structure Node where
  chaining : Words
  block : Words
  counter : UInt64
  blockLength : UInt32
  flags : UInt32

/-- The first eight words of the compression function's output. -/
def Node.compress (node : Node) : Words :=
  let state := node.chaining ++ initial.take 4 ++
    [node.counter.toUInt32, (node.counter >>> 32).toUInt32,
      node.blockLength, node.flags]
  let mixed := rounds 7 state node.block
  (mixed.take 8).zipWith (· ^^^ ·) (mixed.drop 8)

/-- The words of a block, with zeros after its last byte. -/
def blockWords (bytes : List UInt8) : Words :=
  (List.range 16).map fun index =>
    Machine.readU32 (bytes ++ List.replicate (64 - bytes.length) 0) (4 * index)

/-- Compress the blocks of a chunk but the last. -/
def chunkNode (counter : UInt64) :
    (fuel : Nat) → (chaining : Words) → (flags : UInt32) → List UInt8 → Node
  | fuel + 1, chaining, flags, bytes =>
      if 64 < bytes.length then
        let node : Node :=
          ⟨chaining, blockWords (bytes.take 64), counter, 64, flags⟩
        chunkNode counter fuel node.compress 0 (bytes.drop 64)
      else
        ⟨chaining, blockWords bytes, counter, UInt32.ofNat bytes.length,
          flags ||| chunkEnd⟩
  | 0, chaining, flags, bytes =>
      ⟨chaining, blockWords bytes, counter, UInt32.ofNat bytes.length,
        flags ||| chunkEnd⟩

/-- The chunks of an input; the empty input has one, empty chunk. -/
def chunks : (fuel : Nat) → (counter : UInt64) → List UInt8 → List Node
  | fuel + 1, counter, bytes =>
      if 1024 < bytes.length then
        chunkNode counter 16 initial chunkStart (bytes.take 1024) ::
          chunks fuel (counter + 1) (bytes.drop 1024)
      else
        [chunkNode counter 16 initial chunkStart bytes]
  | 0, _, _ => []

/-- The parent of two nodes. -/
def Node.join (left right : Node) : Node :=
  ⟨initial, left.compress ++ right.compress, 0, 64, parent⟩

/-- Join neighbours; a last node without one moves up alone. -/
def level : List Node → List Node
  | left :: right :: rest => left.join right :: level rest
  | rest => rest

/-- The root of the tree over some chunks. -/
def tree : (fuel : Nat) → List Node → Option Node
  | _, [] => none
  | _, [node] => some node
  | fuel + 1, nodes => tree fuel (level nodes)
  | 0, _ => none

/-- The hash of some bytes. -/
def hash (bytes : List UInt8) : List UInt8 :=
  match tree bytes.length (chunks (bytes.length + 1) 0 bytes) with
  | some node =>
      let final : Node := { node with
        counter := 0
        flags := node.flags ||| root }
      final.compress.flatMap Machine.le32
  | none => []

theorem hash_nil : hash [] =
    [0xAF, 0x13, 0x49, 0xB9, 0xF5, 0xF9, 0xA1, 0xA6,
      0xA0, 0x40, 0x4D, 0xEA, 0x36, 0xDC, 0xC9, 0x49,
      0x9B, 0xCB, 0x25, 0xC9, 0xAD, 0xC1, 0x12, 0xB7,
      0xCC, 0x9A, 0x93, 0xCA, 0xE4, 0x1F, 0x32, 0x62] := by
  decide +kernel

end Blake3
