import Lineage.Number.Word

set_option autoImplicit false

/-!
# Double-precision numbers as exact values

A finite double is a sign, a whole mantissa and a power of two. The functions here decode that form
and derive from it what the bits determine: whole parts, order, and nearest single-precision value.

## Main definitions

* `Lineage.Binary64.Scaled`: the number `± mantissa * 2 ^ exponent`.
* `Lineage.Binary64.decode`: a double as a scaled mantissa, an infinity or not a number.
* `Lineage.Binary64.truncate`, `Lineage.Binary64.floor`, `Lineage.Binary64.ceil`: whole numbers
  next to a double, clamped to an interval.
* `Lineage.Binary64.totalLE`: the total order of all doubles by sign and magnitude.
* `Lineage.Binary64.toSingle`: the nearest value of single precision.
-/

namespace Lineage.Binary64

open Number (pow2)

/-- The number `± mantissa * 2 ^ exponent`. -/
structure Scaled where
  /-- Whether the sign bit is set. -/
  negative : Bool
  /-- A whole number below `2 ^ 53`. -/
  mantissa : Nat
  /-- The power of two. -/
  exponent : Int
  deriving DecidableEq, Repr

/-- What the bits of a double stand for. -/
inductive Decoded where
  /-- Not a number. -/
  | nan
  /-- An infinity. -/
  | infinite (negative : Bool)
  /-- A finite number. -/
  | finite (value : Scaled)
  deriving DecidableEq, Repr

/-- Read sign, exponent and fraction off the bits. -/
def decode (x : Float) : Decoded :=
  let bits : Nat := x.toBits.toNat
  let negative := decide (pow2 63 ≤ bits)
  let biased : Nat := bits / pow2 52 % 2048
  let fraction : Nat := bits % pow2 52
  if biased = 2047 then
    if fraction = 0 then .infinite negative else .nan
  else if biased = 0 then .finite ⟨negative, fraction, -1074⟩
  else .finite ⟨negative, fraction + pow2 52, (biased : Int) - 1075⟩

/-- The sign bit. -/
def isNegative (x : Float) : Bool :=
  x.toBits.toNat ≥ pow2 63

/-- Neither an infinity nor not a number. -/
def isFinite (x : Float) : Bool :=
  match decode x with
  | .finite _ => true
  | _ => false

/-- The positive infinity. -/
def infinity : Float := Float.ofBits 0x7FF0000000000000

/-- The negative infinity. -/
def negInfinity : Float := Float.ofBits 0xFFF0000000000000

/-- Not a number. -/
def notANumber : Float := Float.ofBits 0x7FF8000000000000

/-- The largest finite double. -/
def largest : Float := Float.ofBits 0x7FEFFFFFFFFFFFFF

/-- The smallest finite double. -/
def smallest : Float := Float.ofBits 0xFFEFFFFFFFFFFFFF

/-- The size of a scaled mantissa, rounded down to a whole number. -/
def Scaled.floorAbs (d : Scaled) : Nat :=
  if d.exponent ≥ 0 then d.mantissa * pow2 d.exponent.toNat
  else d.mantissa / pow2 (-d.exponent).toNat

/-- The size of a scaled mantissa, rounded up to a whole number. -/
def Scaled.ceilAbs (d : Scaled) : Nat :=
  if d.exponent ≥ 0 then d.mantissa * pow2 d.exponent.toNat
  else (d.mantissa + (pow2 (-d.exponent).toNat - 1)) / pow2 (-d.exponent).toNat

/-- The size of a scaled mantissa, rounded to the nearest whole number, a half going up. -/
def Scaled.roundAbs (d : Scaled) : Nat :=
  if d.exponent ≥ 0 then d.mantissa * pow2 d.exponent.toNat
  else (2 * d.mantissa + pow2 (-d.exponent).toNat) / (2 * pow2 (-d.exponent).toNat)

/-- A scaled mantissa without a part below one. -/
def Scaled.isWhole (d : Scaled) : Bool :=
  d.exponent ≥ 0 || d.mantissa % pow2 (-d.exponent).toNat = 0

/-- A whole number with a sign. -/
def signed (negative : Bool) (n : Nat) : Int :=
  if negative then -(n : Int) else n

/-- The whole part of `x` toward zero, moved into `lo..hi`; not a number gives zero. -/
def truncate (lo hi : Int) (x : Float) : Int :=
  match decode x with
  | .nan => 0
  | .infinite negative => if negative then lo else hi
  | .finite d => max lo (min hi (signed d.negative d.floorAbs))

/-- The whole part of `x` toward zero, where it lies in `lo..hi`. -/
def truncate? (lo hi : Int) (x : Float) : Option Int :=
  match decode x with
  | .finite d =>
    let n := signed d.negative d.floorAbs
    if lo ≤ n ∧ n ≤ hi then some n else none
  | _ => none

/-- The greatest whole number up to `x`, moved into `lo..hi`; not a number gives zero. -/
def floor (lo hi : Int) (x : Float) : Int :=
  match decode x with
  | .nan => 0
  | .infinite negative => if negative then lo else hi
  | .finite d =>
    max lo (min hi (signed d.negative (if d.negative then d.ceilAbs else d.floorAbs)))

/-- The least whole number from `x` on, moved into `lo..hi`; not a number gives zero. -/
def ceil (lo hi : Int) (x : Float) : Int :=
  match decode x with
  | .nan => 0
  | .infinite negative => if negative then lo else hi
  | .finite d =>
    max lo (min hi (signed d.negative (if d.negative then d.floorAbs else d.ceilAbs)))

/-- The nearest whole number, a half away from zero, moved into `lo..hi`. -/
def round (lo hi : Int) (x : Float) : Int :=
  match decode x with
  | .nan => 0
  | .infinite negative => if negative then lo else hi
  | .finite d => max lo (min hi (signed d.negative d.roundAbs))

/-- Whether a double is not a number. -/
def isNaN (x : Float) : Bool := decide (decode x = .nan)

/-- The first of two numbers unless the second is greater; one that is not a number does not
count. -/
def greater (x y : Float) : Float :=
  if isNaN x then y else if isNaN y then x else if x < y then y else x

/-- The first of two numbers unless the second is less; one that is not a number does not count. -/
def lesser (x y : Float) : Float :=
  if isNaN x then y else if isNaN y then x else if y < x then y else x

/-- The place of a double in the order by sign and magnitude of the bits. -/
def totalKey (x : Float) : Int :=
  let bits : Nat := x.toBits.toNat
  if bits ≥ pow2 63 then pow2 63 - 1 - (bits : Int) else bits

/-- The total order of all doubles, with `-0.0` below `0.0` and not a number on top. -/
def totalLE (x y : Float) : Bool :=
  totalKey x ≤ totalKey y

/-- `numerator / denominator` rounded to the nearest whole number, a half to the even one. -/
def divRoundEven (numerator denominator : Nat) : Nat :=
  let q := numerator / denominator
  let r := numerator % denominator
  if 2 * r < denominator then q
  else if 2 * r > denominator then q + 1
  else if q % 2 = 0 then q else q + 1

/-- The double `2 ^ exponent`, for an exponent from -1022 to 1023. -/
def powerOfTwo (exponent : Int) : Float :=
  Float.ofBits (UInt64.ofNat ((exponent + 1023).toNat * pow2 52))

/-- The double `± mantissa * 2 ^ exponent`, where mantissa and product are representable. -/
def ofScaled (negative : Bool) (mantissa : Nat) (exponent : Int) : Float :=
  let scaled := Float.ofNat mantissa * powerOfTwo exponent
  if negative then -scaled else scaled

/-- The nearest value of single precision, a half to the even mantissa. -/
def toSingle (x : Float) : Float :=
  match decode x with
  | .finite d =>
    if d.mantissa = 0 then x
    else
      let top : Int := (Nat.log2 d.mantissa : Int) + d.exponent
      let unit := max (top - 23) (-149)
      let shift := unit - d.exponent
      if shift ≤ 0 then
        if top > 127 then (if d.negative then negInfinity else infinity) else x
      else
        let rounded := divRoundEven d.mantissa (pow2 shift.toNat)
        if (Nat.log2 rounded : Int) + unit > 127 then
          (if d.negative then negInfinity else infinity)
        else ofScaled d.negative rounded unit
  | _ => x

end Lineage.Binary64
