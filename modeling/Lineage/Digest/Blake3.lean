import Lineage.Number.Word

set_option autoImplicit false

/-!
# The BLAKE3 digest

The digest of a byte string as a tree of compressed chunks: chunks of 1024 bytes are chained from
blocks of 64 bytes, and two subtrees are joined by one further compression. The left subtree of a
join holds the largest power of two of chunks that leaves a rest.

## Main definitions

* `Lineage.Blake3.compress`: the compression of one block.
* `Lineage.Blake3.Output`: a compression that is still to be run, as a node or as the root.
* `Lineage.Blake3.digest`: the 32 bytes of a byte string.
-/

namespace Lineage.Blake3

/-- The initial chaining value. -/
def initial : Vector UInt32 8 :=
  #v[0x6A09E667, 0xBB67AE85, 0x3C6EF372, 0xA54FF53A, 0x510E527F, 0x9B05688C, 0x1F83D9AB, 0x5BE0CD19]

/-- Where the words of a block go between rounds. -/
def schedule : Vector (Fin 16) 16 :=
  #v[2, 6, 3, 10, 7, 0, 4, 13, 1, 11, 12, 5, 9, 14, 15, 8]

/-- Marks the first block of a chunk. -/
def chunkStart : UInt32 := 1

/-- Marks the last block of a chunk. -/
def chunkEnd : UInt32 := 2

/-- Marks a join of two subtrees. -/
def parent : UInt32 := 4

/-- Marks the compression that yields the digest. -/
def root : UInt32 := 8

/-- Rotate a word to the right. -/
def rotateRight (x : UInt32) (n : UInt32) : UInt32 :=
  (x >>> n) ||| (x <<< (32 - n))

/-- Mix two words of the block into four words of the state. -/
def mix (s : Vector UInt32 16) (a b c d : Fin 16) (x y : UInt32) : Vector UInt32 16 :=
  let s := s.set a (s[a] + s[b] + x)
  let s := s.set d (rotateRight (s[d] ^^^ s[a]) 16)
  let s := s.set c (s[c] + s[d])
  let s := s.set b (rotateRight (s[b] ^^^ s[c]) 12)
  let s := s.set a (s[a] + s[b] + y)
  let s := s.set d (rotateRight (s[d] ^^^ s[a]) 8)
  let s := s.set c (s[c] + s[d])
  s.set b (rotateRight (s[b] ^^^ s[c]) 7)

/-- Mix the columns and then the diagonals of the state. -/
def round (s m : Vector UInt32 16) : Vector UInt32 16 :=
  let s := mix s 0 4 8 12 m[0] m[1]
  let s := mix s 1 5 9 13 m[2] m[3]
  let s := mix s 2 6 10 14 m[4] m[5]
  let s := mix s 3 7 11 15 m[6] m[7]
  let s := mix s 0 5 10 15 m[8] m[9]
  let s := mix s 1 6 11 12 m[10] m[11]
  let s := mix s 2 7 8 13 m[12] m[13]
  mix s 3 4 9 14 m[14] m[15]

/-- Rounds with the block rearranged after each. -/
def rounds : Nat → Vector UInt32 16 → Vector UInt32 16 → Vector UInt32 16
  | 0, s, _ => s
  | n + 1, s, m => rounds n (round s m) (schedule.map fun i => m[i])

/-- The compression of one block: seven rounds, then the halves of the state are combined. -/
def compress (chain : Vector UInt32 8) (block : Vector UInt32 16) (counter : Nat) (length : Nat)
    (flags : UInt32) : Vector UInt32 8 :=
  let s : Vector UInt32 16 :=
    #v[chain[0], chain[1], chain[2], chain[3], chain[4], chain[5], chain[6], chain[7],
      initial[0], initial[1], initial[2], initial[3],
      UInt32.ofNat (counter % Number.word32), UInt32.ofNat (counter / Number.word32),
      UInt32.ofNat length, flags]
  let s := rounds 7 s block
  #v[s[0] ^^^ s[8], s[1] ^^^ s[9], s[2] ^^^ s[10], s[3] ^^^ s[11],
    s[4] ^^^ s[12], s[5] ^^^ s[13], s[6] ^^^ s[14], s[7] ^^^ s[15]]

/-- The word of four bytes, the least significant first; missing bytes are zero. -/
def wordOfBytes (bytes : List UInt8) (i : Nat) : UInt32 :=
  let byte (k : Nat) : UInt32 := ((bytes[4 * i + k]?).getD 0).toUInt32
  byte 0 ||| (byte 1 <<< 8) ||| (byte 2 <<< 16) ||| (byte 3 <<< 24)

/-- The sixteen words of a block of at most 64 bytes. -/
def blockOfBytes (bytes : List UInt8) : Vector UInt32 16 :=
  Vector.ofFn fun i => wordOfBytes bytes i.val

/-- A compression that is still to be run. -/
structure Output where
  /-- The chaining value that goes in. -/
  chain : Vector UInt32 8
  /-- The block. -/
  block : Vector UInt32 16
  /-- The number of the chunk. -/
  counter : Nat
  /-- The bytes of the block that count. -/
  length : Nat
  /-- The marks. -/
  flags : UInt32

/-- Run it as an inner node. -/
def Output.chaining (o : Output) : Vector UInt32 8 :=
  compress o.chain o.block o.counter o.length o.flags

/-- Run it as the root. -/
def Output.final (o : Output) : Vector UInt32 8 :=
  compress o.chain o.block 0 o.length (o.flags ||| root)

/-- The last compression of a chunk; `fuel` bounds its blocks. -/
def chunkOutput (counter : Nat) : Nat → Vector UInt32 8 → UInt32 → List UInt8 → Output
  | 0, chain, start, bytes => ⟨chain, blockOfBytes bytes, counter, bytes.length, start ||| chunkEnd⟩
  | fuel + 1, chain, start, bytes =>
    if bytes.length ≤ 64 then
      ⟨chain, blockOfBytes bytes, counter, bytes.length, start ||| chunkEnd⟩
    else
      chunkOutput counter fuel
        (compress chain (blockOfBytes (bytes.take 64)) counter 64 start) 0 (bytes.drop 64)

/-- The join of two subtrees. -/
def joinOutput (left right : Vector UInt32 8) : Output :=
  ⟨initial, (left ++ right).cast (by decide), 0, 64, parent⟩

/-- The largest power of two of chunks that is less than the number of chunks. -/
def leftChunks (length : Nat) : Nat :=
  Number.pow2 (Nat.log2 ((length - 1) / 1024))

/-- The last compression of the tree over a byte string whose first chunk has number `counter`;
`fuel` bounds its depth. -/
def treeOutput : Nat → Nat → List UInt8 → Output
  | 0, counter, bytes => chunkOutput counter 16 initial chunkStart bytes
  | fuel + 1, counter, bytes =>
    if bytes.length ≤ 1024 then chunkOutput counter 16 initial chunkStart bytes
    else
      let chunks := leftChunks bytes.length
      let left := treeOutput fuel counter (bytes.take (1024 * chunks))
      let right := treeOutput fuel (counter + chunks) (bytes.drop (1024 * chunks))
      joinOutput left.chaining right.chaining

/-- The four bytes of a word, the least significant first. -/
def bytesOfWord (w : UInt32) : List UInt8 :=
  [w.toUInt8, (w >>> 8).toUInt8, (w >>> 16).toUInt8, (w >>> 24).toUInt8]

/-- The 32 bytes of the digest. -/
def digest (bytes : List UInt8) : List UInt8 :=
  (treeOutput 64 0 bytes).final.toList.flatMap bytesOfWord

end Lineage.Blake3
