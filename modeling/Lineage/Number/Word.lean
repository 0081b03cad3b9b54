set_option autoImplicit false

/-!
# Powers and words

Powers of two and ten, and the bounds of whole numbers that are kept in words of 32 and 64 bits.

## Main definitions

* `Lineage.Number.pow2`, `Lineage.Number.pow10`: powers.
* `Lineage.Number.word32`, `Lineage.Number.word64`: how many numbers a word holds.
* `Lineage.Number.least64`, `Lineage.Number.greatest64`: the bounds of numbers with sign.
-/

namespace Lineage.Number

/-- A power of two. -/
def pow2 (n : Nat) : Nat := Nat.pow 2 n

/-- A power of ten. -/
def pow10 (n : Nat) : Nat := Nat.pow 10 n

/-- How many numbers 32 bits hold. -/
def word32 : Nat := 4294967296

/-- How many numbers 64 bits hold. -/
def word64 : Nat := 18446744073709551616

/-- The least whole number with sign in 64 bits. -/
def least64 : Int := -9223372036854775808

/-- The greatest whole number with sign in 64 bits. -/
def greatest64 : Int := 9223372036854775807

end Lineage.Number
