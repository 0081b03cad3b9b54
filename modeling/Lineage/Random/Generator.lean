import Lineage.Number.Word

set_option autoImplicit false

/-!
# Seeded random words

The words of a generator are those of the ChaCha stream cipher with twelve rounds, under a key that
is stretched from a 64-bit seed. Blocks are numbered from zero and each gives sixteen words.

## Main definitions

* `Lineage.Generator`: a key and the words still to come of the current block.
* `Lineage.Generator.ofSeed`: the generator of a seed.
* `Lineage.Generator.next`: the next word.
-/

namespace Lineage

/-- A key, the number of the next block and the words left of the last one. -/
structure Generator where
  /-- The key, of eight words. -/
  key : List UInt32
  /-- The number of the next block. -/
  block : Nat
  /-- Words that are still to come before the next block. -/
  left : List UInt32

namespace Generator

/-- Rotate a word to the left. -/
def rotateLeft (x : UInt32) (n : UInt32) : UInt32 := (x <<< n) ||| (x >>> (32 - n))

/-- The word at a place. -/
def wordAt (s : List UInt32) (i : Nat) : UInt32 := (s[i]?).getD 0

/-- Mix four words of the state. -/
def quarter (s : List UInt32) (a b c d : Nat) : List UInt32 :=
  let s := s.set a (wordAt s a + wordAt s b)
  let s := s.set d (rotateLeft (wordAt s d ^^^ wordAt s a) 16)
  let s := s.set c (wordAt s c + wordAt s d)
  let s := s.set b (rotateLeft (wordAt s b ^^^ wordAt s c) 12)
  let s := s.set a (wordAt s a + wordAt s b)
  let s := s.set d (rotateLeft (wordAt s d ^^^ wordAt s a) 8)
  let s := s.set c (wordAt s c + wordAt s d)
  s.set b (rotateLeft (wordAt s b ^^^ wordAt s c) 7)

/-- Mix the columns and then the diagonals. -/
def doubleRound (s : List UInt32) : List UInt32 :=
  let s := quarter s 0 4 8 12
  let s := quarter s 1 5 9 13
  let s := quarter s 2 6 10 14
  let s := quarter s 3 7 11 15
  let s := quarter s 0 5 10 15
  let s := quarter s 1 6 11 12
  let s := quarter s 2 7 8 13
  quarter s 3 4 9 14

/-- The sixteen words of a block: constants, the key, the number of the block, and zeros; twelve
rounds; and the words of the start added. -/
def blockWords (key : List UInt32) (block : Nat) : List UInt32 :=
  let s : List UInt32 := [0x61707865, 0x3320646E, 0x79622D32, 0x6B206574] ++ key
    ++ [UInt32.ofNat (block % Number.word32), UInt32.ofNat (block / Number.word32), 0, 0]
  List.zipWith (fun a b => a + b) s (Nat.repeat doubleRound 6 s)

/-- The word that a state of the key stretcher gives. -/
def keyWord (state : UInt64) : UInt32 :=
  let word := (((state >>> 18) ^^^ state) >>> 27).toUInt32
  let turn := (state >>> 59).toUInt32
  if turn = 0 then word else (word >>> turn) ||| (word <<< (32 - turn))

/-- The words of a key, each from the next state of the stretcher. -/
def keyWords : Nat → UInt64 → List UInt32
  | 0, _ => []
  | n + 1, state =>
    let next := state * 6364136223846793005 + 11634580027462260723
    keyWord next :: keyWords n next

/-- The generator of a seed. -/
def ofSeed (seed : Nat) : Generator :=
  ⟨keyWords 8 (UInt64.ofNat seed), 0, []⟩

/-- The next word and the generator after it. -/
def next (g : Generator) : UInt32 × Generator :=
  match g.left with
  | word :: rest => (word, ⟨g.key, g.block, rest⟩)
  | [] =>
    match blockWords g.key g.block with
    | word :: rest => (word, ⟨g.key, g.block + 1, rest⟩)
    | [] => (0, g)

end Generator

end Lineage
