import Lineage.Number.Binary64

set_option autoImplicit false

/-!
# Reading decimal numbers

Grammars of whole numbers and of decimals, each read as one value by exact arithmetic.

## Main definitions

* `Lineage.Number.natOfDigits?`, `Lineage.Number.intOfText?`: whole numbers.
* `Lineage.Number.Parts`: the pieces of a decimal text.
* `Lineage.Number.floatOfText?`: the double nearest to a decimal text.
* `Lineage.Number.singleOfText?`: the single-precision number nearest to a decimal text.
-/

namespace Lineage.Number

/-- Decimal digits only. -/
def isDigit (c : Char) : Bool := '0' ≤ c && c ≤ '9'

/-- The value of a digit. -/
def digitValue (c : Char) : Nat := c.toNat - 48

/-- The number that a row of digits writes. -/
def natOfDigits (cs : List Char) : Nat :=
  cs.foldl (fun n c => 10 * n + digitValue c) 0

/-- A whole number without sign: at least one digit and nothing else. -/
def natOfDigits? (cs : List Char) : Option Nat :=
  if cs.isEmpty || !cs.all isDigit then none else some (natOfDigits cs)

/-- A whole number with an optional sign of either kind. -/
def intOfChars? : List Char → Option Int
  | '-' :: rest => (natOfDigits? rest).map fun n => -(n : Int)
  | '+' :: rest => (natOfDigits? rest).map Int.ofNat
  | cs => (natOfDigits? cs).map Int.ofNat

/-- A whole number without sign or with a plus, at most `limit`. -/
def natOfText? (limit : Nat) (s : String) : Option Nat :=
  let digits := match s.toList with
    | '+' :: rest => rest
    | cs => cs
  (natOfDigits? digits).bind fun n => if n ≤ limit then some n else none

/-- The pieces of a decimal: sign, digits before and after the point, power of ten. -/
structure Parts where
  /-- Whether a minus stands first. -/
  negative : Bool
  /-- Digits before the point. -/
  whole : List Char
  /-- Digits after the point. -/
  fraction : List Char
  /-- Whether there is a point. -/
  point : Bool
  /-- The written power of ten. -/
  power : Option Int
  deriving DecidableEq, Repr

/-- Cut off a sign. -/
def splitSign : List Char → Bool × List Char
  | '-' :: rest => (true, rest)
  | '+' :: rest => (false, rest)
  | cs => (false, cs)

/-- Read the pieces of a decimal; the rest must be a power of ten or nothing. -/
def partsOfChars? (cs : List Char) : Option Parts :=
  let (negative, body) := splitSign cs
  let whole := body.takeWhile isDigit
  let afterWhole := body.dropWhile isDigit
  let (point, fraction, rest) := match afterWhole with
    | '.' :: more => (true, more.takeWhile isDigit, more.dropWhile isDigit)
    | _ => (false, [], afterWhole)
  if whole.isEmpty && fraction.isEmpty then none
  else
    match rest with
    | [] => some ⟨negative, whole, fraction, point, none⟩
    | c :: more =>
      if c = 'e' ∨ c = 'E' then
        (intOfChars? more).map fun power => ⟨negative, whole, fraction, point, some power⟩
      else none

/-- The double nearest to `± digits * 10 ^ power`; far out it is an infinity or a zero. -/
def nearest (negative : Bool) (digits : Nat) (power : Int) : Float :=
  let size : Float :=
    if digits = 0 then 0.0
    else
      let count := ((Nat.toDigits 10 digits).length : Int)
      if power + count > 400 then Binary64.infinity
      else if power + count < -400 then 0.0
      else Float.ofScientific digits (decide (power < 0)) power.natAbs
  if negative then -size else size

/-- The double nearest to a decimal. -/
def Parts.toFloat (p : Parts) : Float :=
  nearest p.negative (natOfDigits (p.whole ++ p.fraction))
    (p.power.getD 0 - (p.fraction.length : Int))

/-- The power of two of the first bit of `numerator / denominator`, both positive. -/
def firstBit (numerator denominator : Nat) : Int :=
  let guess : Int := (Nat.log2 numerator : Int) - (Nat.log2 denominator : Int)
  if denominator * pow2 guess.toNat ≤ numerator * pow2 (-guess).toNat then guess else guess - 1

/-- The single-precision number nearest to `numerator / denominator`, both positive; a half goes to
the even mantissa. -/
def nearestSingleRatio (numerator denominator : Nat) : Float :=
  let unit := max (firstBit numerator denominator - 23) (-149)
  let rounded := Binary64.divRoundEven (numerator * pow2 (-unit).toNat)
    (denominator * pow2 unit.toNat)
  if (Nat.log2 rounded : Int) + unit > 127 then Binary64.infinity
  else Binary64.ofScaled false rounded unit

/-- The single-precision number nearest to `± digits * 10 ^ power`; far out it is an infinity or a
zero. -/
def nearestSingle (negative : Bool) (digits : Nat) (power : Int) : Float :=
  let size : Float :=
    if digits = 0 then 0.0
    else
      let count := ((Nat.toDigits 10 digits).length : Int)
      if power + count > 60 then Binary64.infinity
      else if power + count < -60 then 0.0
      else nearestSingleRatio (digits * pow10 power.toNat) (pow10 (-power).toNat)
  if negative then -size else size

/-- The single-precision number nearest to a decimal. -/
def Parts.toSingle (p : Parts) : Float :=
  nearestSingle p.negative (natOfDigits (p.whole ++ p.fraction))
    (p.power.getD 0 - (p.fraction.length : Int))

/-- Words for infinities and for not a number, in any letter case. -/
def specialOfChars? (cs : List Char) : Option Float :=
  let (negative, body) := splitSign cs
  let word := String.ofList (body.map Char.toLower)
  let value? : Option Float :=
    if word = "inf" ∨ word = "infinity" then some Binary64.infinity
    else if word = "nan" then some Binary64.notANumber
    else none
  value?.map fun v => if negative then -v else v

/-- A decimal, an infinity or not a number, as the nearest double. -/
def floatOfText? (s : String) : Option Float :=
  match partsOfChars? s.toList with
  | some p => some p.toFloat
  | none => specialOfChars? s.toList

/-- A decimal, an infinity or not a number, in single precision. -/
def singleOfText? (s : String) : Option Float :=
  match partsOfChars? s.toList with
  | some p => some p.toSingle
  | none => specialOfChars? s.toList

end Lineage.Number
