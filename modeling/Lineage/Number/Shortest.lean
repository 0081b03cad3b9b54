import Lineage.Number.Binary64

set_option autoImplicit false

/-!
# The fewest digits that read back

A finite double is written with the fewest decimal digits that lie nearer to it than to any other
double, and of these with the nearest. All arithmetic is on whole numbers.

## Main definitions

* `Lineage.Shortest.Decimal`: the number `digits * 10 ^ exponent`.
* `Lineage.Shortest.Precision`: a binary format.
* `Lineage.Shortest.ofScaled`: the shortest decimal of a positive scaled mantissa.
* `Lineage.Shortest.Layout`: where a text form writes plain digits and where an exponent.
* `Lineage.Shortest.render`: the text of a double in a layout.
-/

namespace Lineage.Shortest

open Binary64
open Number (pow2 pow10)

/-- The number `digits * 10 ^ exponent`. -/
structure Decimal where
  /-- The significant digits as one whole number. -/
  digits : Nat
  /-- The power of ten of the last digit. -/
  exponent : Int
  deriving DecidableEq, Repr

/-- How many decimal digits a whole number has; zero has one. -/
def digitCount (n : Nat) : Nat :=
  (Nat.toDigits 10 n).length

/-- The power of ten of the first digit of the positive number `num / den`. -/
def leadingPower (num den : Nat) : Int :=
  if den ≤ num then (digitCount (num / den) : Int) - 1
  else
    let d := digitCount (den / num)
    if num * pow10 (d - 1) = den then -((d : Int) - 1) else -(d : Int)

/-- The numbers that read back as a scaled mantissa: `low/den ≤ x ≤ high/den` around `mid/den`. -/
structure Interval where
  /-- Numerator of the lower end. -/
  low : Nat
  /-- Numerator of the number itself. -/
  mid : Nat
  /-- Numerator of the upper end. -/
  high : Nat
  /-- The common denominator. -/
  den : Nat
  /-- Whether the ends read back too. -/
  closed : Bool
  deriving Repr

/-- A format of binary numbers, as far as it decides which numbers are neighbours. -/
structure Precision where
  /-- The least mantissa of a number that is not close to zero. -/
  leading : Nat
  /-- The least exponent. -/
  leastExponent : Int

/-- The format of doubles. -/
def double : Precision := ⟨pow2 52, -1074⟩

/-- The format of single-precision numbers. -/
def single : Precision := ⟨pow2 23, -149⟩

/-- Half way to the neighbours on either side; below a power of two the gap is half as wide. -/
def Interval.ofScaled (p : Precision) (d : Scaled) : Interval :=
  let gap := if d.mantissa = p.leading ∧ d.exponent ≠ p.leastExponent then 1 else 2
  let up : Nat := if d.exponent ≥ 2 then pow2 (d.exponent - 2).toNat else 1
  let down : Nat := if d.exponent ≥ 2 then 1 else pow2 (2 - d.exponent).toNat
  ⟨(4 * d.mantissa - gap) * up, 4 * d.mantissa * up, (4 * d.mantissa + 2) * up, down,
    d.mantissa % 2 = 0⟩

/-- Whether `digits * 10 ^ power` reads back. -/
def Interval.holds (i : Interval) (digits : Nat) (power : Int) : Bool :=
  let scaledDigits := if power ≥ 0 then digits * pow10 power.toNat * i.den else digits * i.den
  let scale := if power ≥ 0 then 1 else pow10 (-power).toNat
  if i.closed then i.low * scale ≤ scaledDigits && scaledDigits ≤ i.high * scale
  else i.low * scale < scaledDigits && scaledDigits < i.high * scale

/-- The best decimal on the grid of multiples of `10 ^ power`, if one reads back: the nearer of the
two neighbours, the even one of two equally near. -/
def Interval.onGrid (i : Interval) (power : Int) : Option Decimal :=
  let num := if power ≥ 0 then i.mid else i.mid * pow10 (-power).toNat
  let den := if power ≥ 0 then i.den * pow10 power.toNat else i.den
  let below := num / den
  let rest := num % den
  match i.holds below power, i.holds (below + 1) power with
  | true, true =>
    if 2 * rest < den ∨ (2 * rest = den ∧ below % 2 = 0) then some ⟨below, power⟩
    else some ⟨below + 1, power⟩
  | true, false => some ⟨below, power⟩
  | false, true => some ⟨below + 1, power⟩
  | false, false => none

/-- Try grids from `power` downwards, at most `steps` of them. -/
def Interval.search (i : Interval) : Nat → Int → Decimal
  | 0, power => ⟨i.mid / i.den, power⟩
  | steps + 1, power =>
    match i.onGrid power with
    | some d => if d.digits = 0 then search i steps (power - 1) else d
    | none => search i steps (power - 1)

/-- The same number without zeros at the end of its digits. -/
def Decimal.trim : Nat → Decimal → Decimal
  | 0, d => d
  | fuel + 1, d =>
    if d.digits ≠ 0 ∧ d.digits % 10 = 0 then trim fuel ⟨d.digits / 10, d.exponent + 1⟩ else d

/-- The shortest decimal that reads back as the positive scaled mantissa `d`. -/
def ofScaled (p : Precision) (d : Scaled) : Decimal :=
  if d.mantissa = 0 then ⟨0, 0⟩
  else
    let i := Interval.ofScaled p d
    (i.search 20 (leadingPower i.mid i.den)).trim 20

/-- Where a text form of doubles puts plain digits, exponents and signs. -/
structure Layout where
  /-- The least power of the first digit that is still written without exponent, if any is. -/
  plainFrom : Option Int
  /-- The greatest power of the first digit that is still written without exponent, if any is. -/
  plainTo : Option Int
  /-- Whether a whole number ends in `.0` where no exponent is written. -/
  pointZero : Bool
  /-- Whether a positive exponent has a sign. -/
  plus : Bool
  /-- Whether a single digit before an exponent is followed by `.0`. -/
  mantissaZero : Bool := false
  /-- The text of not a number. -/
  nan : String
  /-- The text of the positive infinity; the negative one has a minus before it. -/
  infinity : String
  deriving Repr

/-- The characters of a whole number in base ten. -/
def natChars (n : Nat) : List Char :=
  Nat.toDigits 10 n

/-- The characters of a whole number with sign. -/
def intChars (n : Int) : List Char :=
  if n < 0 then '-' :: natChars n.natAbs else natChars n.natAbs

/-- Digits with a point and no exponent. -/
def plainChars (layout : Layout) (d : Decimal) : List Char :=
  let ds := natChars d.digits
  if d.exponent ≥ 0 then
    ds ++ List.replicate d.exponent.toNat '0' ++ (if layout.pointZero then ['.', '0'] else [])
  else
    let places := (-d.exponent).toNat
    if places < ds.length then
      ds.take (ds.length - places) ++ '.' :: ds.drop (ds.length - places)
    else '0' :: '.' :: List.replicate (places - ds.length) '0' ++ ds

/-- One digit, a point where more follow, and an exponent. -/
def exponentChars (layout : Layout) (d : Decimal) : List Char :=
  let ds := natChars d.digits
  let power := d.exponent + (ds.length : Int) - 1
  let lead := match ds with
    | [] => []
    | [c] => if layout.mantissaZero then [c, '.', '0'] else [c]
    | c :: rest => c :: '.' :: rest
  lead ++ 'e' :: (if layout.plus ∧ power ≥ 0 then ['+'] else []) ++ intChars power

/-- Whether a decimal is written without exponent. -/
def Layout.isPlain (layout : Layout) (d : Decimal) : Bool :=
  let power := d.exponent + (digitCount d.digits : Int) - 1
  (match layout.plainFrom with | some lo => lo ≤ power | none => true)
    && (match layout.plainTo with | some hi => power ≤ hi | none => true)

/-- The text of a decimal with a sign. -/
def renderDecimal (layout : Layout) (negative : Bool) (d : Decimal) : String :=
  let body := if d.digits = 0 ∨ layout.isPlain d then plainChars layout d
    else exponentChars layout d
  String.ofList (if negative then '-' :: body else body)

/-- The same number with the mantissa of a single-precision number, for a number of that format. -/
def narrow (d : Scaled) : Scaled :=
  let exponent := max (d.exponent + 29) (-149)
  ⟨d.negative, d.mantissa / pow2 (exponent - d.exponent).toNat, exponent⟩

/-- The text of a double. -/
def render (layout : Layout) (x : Float) : String :=
  match decode x with
  | .nan => layout.nan
  | .infinite negative => if negative then "-" ++ layout.infinity else layout.infinity
  | .finite d => renderDecimal layout d.negative (ofScaled double d)

/-- The text of a single-precision number, given as a double. -/
def renderSingle (layout : Layout) (x : Float) : String :=
  match decode x with
  | .nan => layout.nan
  | .infinite negative => if negative then "-" ++ layout.infinity else layout.infinity
  | .finite d => renderDecimal layout d.negative (ofScaled single (narrow d))

end Lineage.Shortest
