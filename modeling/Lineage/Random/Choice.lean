import Lineage.Number.Binary64
import Lineage.Random.Generator

set_option autoImplicit false

/-!
# Random places and orders

Samples without repetition and random orders, from draws of numbers below a bound. The source of
the draws is a parameter; how samples are taken depends on how many rows are taken out of how many.

## Main definitions

* `Lineage.Draws`: a source of draws.
* `Lineage.Draws.ofWords`: draws from the words of a generator.
* `Lineage.Draws.sample`: distinct numbers below a bound, in increasing order.
* `Lineage.Draws.shuffle`: the numbers below a bound in random order.
-/

namespace Lineage

/-- A source of numbers below a bound: for a single draw and for repeated draws from one bound. -/
structure Draws (σ : Type) where
  /-- A number below a bound. -/
  single : Nat → σ → Nat × σ
  /-- A number below a bound, for draws that are repeated with this bound. -/
  repeated : Nat → σ → Nat × σ

namespace Draws

/-- Take words until the low half of the product with the bound is at most `zone`; the high half is
the draw. `fuel` bounds the number of words. -/
def accept (zone bound : Nat) : Nat → Generator → Nat × Generator
  | 0, g => (0, g)
  | fuel + 1, g =>
    let (word, g) := g.next
    let product := word.toNat * bound
    if product % Number.word32 ≤ zone then (product / Number.word32, g)
    else accept zone bound fuel g

/-- The zone of a single draw: the largest multiple of the bound by a power of two, less one. -/
def singleZone (bound : Nat) : Nat := bound * Number.pow2 (31 - Nat.log2 bound) - 1

/-- The zone of repeated draws: the largest multiple of the bound, less one. -/
def repeatedZone (bound : Nat) : Nat := Number.word32 - 1 - (Number.word32 - bound) % bound

/-- Draws from the words of a generator. -/
def ofWords : Draws Generator where
  single bound g := accept (singleZone bound) bound 1024 g
  repeated bound g := accept (repeatedZone bound) bound 1024 g

variable {σ : Type} (draws : Draws σ)

/-- Exchange the item at each place from `i` on with one at or after it. -/
def exchangeFrom (length : Nat) : Nat → Nat → Array Nat → σ → Array Nat × σ
  | 0, _, places, s => (places, s)
  | count + 1, i, places, s =>
    let (k, s) := draws.single (length - i) s
    exchangeFrom length count (i + 1) (places.swapIfInBounds i (i + k)) s

/-- The first `amount` of all numbers below `length` after exchanges. -/
def inPlace (length amount : Nat) (s : σ) : List Nat :=
  ((exchangeFrom draws length amount 0 (Array.range length) s).1.toList).take amount

/-- For each of the last `amount` numbers below a bound draw one up to it, or take it itself if that
one is taken already. -/
def floydFrom : Nat → Nat → List Nat → σ → List Nat
  | 0, _, taken, _ => taken
  | count + 1, j, taken, s =>
    let (t, s) := draws.single (j + 1) s
    floydFrom count (j + 1) ((if taken.contains t then j else t) :: taken) s

/-- The first number below `bound` that is not taken. -/
def firstFree (bound : Nat) (taken : List Nat) : Nat :=
  ((List.range bound).find? fun i => !taken.contains i).getD 0

/-- Draw until a number is not taken; after `fuel` draws take the first that is free. -/
def untilFree (bound : Nat) (taken : List Nat) : Nat → σ → Nat × σ
  | 0, s => (firstFree bound taken, s)
  | fuel + 1, s =>
    let (t, s) := draws.repeated bound s
    if taken.contains t then untilFree bound taken fuel s else (t, s)

/-- Draw `amount` numbers, each until it is new. -/
def rejectionFrom (length : Nat) : Nat → List Nat → σ → List Nat
  | 0, taken, _ => taken
  | count + 1, taken, s =>
    let (t, s) := untilFree draws length taken 4096 s
    rejectionFrom length count (t :: taken) s

/-- The bounds beyond which exchanges among all numbers cost too much, which grow from half a
million numbers on. -/
structure Bounds where
  /-- What the share of the numbers starts from, for few numbers. -/
  base : Float
  /-- By how much it grows with each number that is taken. -/
  slope : Float
  /-- The share of the numbers, for many numbers. -/
  many : Float

/-- The bounds for a length. -/
def boundsOf (length : Nat) : Bounds :=
  if length < 500000 then ⟨10.0, 1.6, 270.0⟩ else ⟨70.0 / 9.0, 8.0 / 45.0, 330.0 / 9.0⟩

/-- Single-precision arithmetic decides whether few numbers are worth exchanging in place. -/
def fewInPlace (length amount : Nat) : Bool :=
  let single := Binary64.toSingle
  let bounds := boundsOf length
  let a := Float.ofNat amount
  let growth := single (single bounds.slope * a)
  let limit := single (single (single bounds.base + growth) * a)
  decide (11 < amount) && decide (single (Float.ofNat length) < limit)

/-- Whether many numbers are worth exchanging in place. -/
def manyInPlace (length amount : Nat) : Bool :=
  let single := Binary64.toSingle
  let limit := single (single (boundsOf length).many * single (Float.ofNat amount))
  decide (single (Float.ofNat length) < limit)

/-- How a sample is taken. -/
inductive Method where
  /-- By exchanges among all numbers. -/
  | inPlace
  /-- By one draw for each of the last numbers. -/
  | floyd
  /-- By draws until each is new. -/
  | rejection
  deriving DecidableEq, Repr

/-- How a sample of `amount` out of `length` is taken. -/
def method (length amount : Nat) : Method :=
  if amount < 163 then (if fewInPlace length amount then .inPlace else .floyd)
  else if manyInPlace length amount then .inPlace
  else .rejection

/-- Distinct numbers below `length`, `amount` of them, in increasing order. -/
def sample (length amount : Nat) (s : σ) : List Nat :=
  let taken := match method length amount with
    | .inPlace => inPlace draws length amount s
    | .floyd => floydFrom draws amount (length - amount) [] s
    | .rejection => rejectionFrom draws length amount [] s
  taken.mergeSort fun a b => decide (a ≤ b)

/-- Exchange the item at each place from `i` down with one at or before it. -/
def exchangeDown : Nat → Array Nat → σ → Array Nat
  | 0, places, _ => places
  | i + 1, places, s =>
    let (k, s) := draws.single (i + 2) s
    exchangeDown i (places.swapIfInBounds (i + 1) k) s

/-- The numbers below `length` in random order. -/
def shuffle (length : Nat) (s : σ) : List Nat :=
  (exchangeDown draws (length - 1) (Array.range length) s).toList

end Draws

end Lineage
