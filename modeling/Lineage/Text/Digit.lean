set_option autoImplicit false

/-!
# Digits

Many scripts have ten decimal digits of their own, from zero to nine in a row. Bytes are written
with two hexadecimal digits each.

## Main definitions

* `Lineage.Text.zeros`: the zeros of the scripts.
* `Lineage.Text.isDecimalDigit`: membership in the general category `Nd`.
* `Lineage.Text.withPlainDigits`: a text with the digits zero to nine in place of others.
* `Lineage.Text.hexOfBytes`: two lower-case hexadecimal digits a byte.
* `Lineage.Text.bytesOfHex?`: the bytes of such a text, in either case.
-/

namespace Lineage.Text

/-! ### Decimal digits -/

/-- The zeros of the scripts that have digits of their own. -/
def zeros : List Nat :=
  [0x30, 0x660, 0x6F0, 0x7C0, 0x966, 0x9E6, 0xA66, 0xAE6, 0xB66, 0xBE6, 0xC66, 0xCE6, 0xD66, 0xDE6,
    0xE50, 0xED0, 0xF20, 0x1040, 0x1090, 0x17E0, 0x1810, 0x1946, 0x19D0, 0x1A80, 0x1A90, 0x1B50,
    0x1BB0, 0x1C40, 0x1C50, 0xA620, 0xA8D0, 0xA900, 0xA9D0, 0xA9F0, 0xAA50, 0xABF0, 0xFF10, 0x104A0,
    0x10D30, 0x10D40, 0x11066, 0x110F0, 0x11136, 0x111D0, 0x112F0, 0x11450, 0x114D0, 0x11650,
    0x116C0, 0x116D0, 0x116DA, 0x11730, 0x118E0, 0x11950, 0x11BF0, 0x11C50, 0x11D50, 0x11DA0,
    0x11F50, 0x16130, 0x16A60, 0x16AC0, 0x16B50, 0x16D70, 0x1CCF0, 0x1D7CE, 0x1D7D8, 0x1D7E2,
    0x1D7EC, 0x1D7F6, 0x1E140, 0x1E2F0, 0x1E4F0, 0x1E5F1, 0x1E950, 0x1FBF0]

/-- The value of a decimal digit of any script. -/
def decimalDigit? (c : Char) : Option Nat :=
  (zeros.find? fun least => decide (least ≤ c.toNat) && decide (c.toNat < least + 10)).map
    fun least => c.toNat - least

/-- Whether a character is a decimal digit of any script. -/
def isDecimalDigit (c : Char) : Bool := (decimalDigit? c).isSome

/-- A character, or the plain digit of its value if it is a digit of another script. -/
def plainDigit (c : Char) : Char :=
  if c.toNat < 128 then c
  else
    match decimalDigit? c with
    | some d => Char.ofNat (48 + d)
    | none => c

/-- A text with plain digits in place of those of other scripts. -/
def withPlainDigits (cs : List Char) : List Char := cs.map plainDigit

/-! ### Hexadecimal digits -/

/-- The digit of a number below sixteen. -/
def hexDigit (n : Nat) : Char :=
  if n < 10 then Char.ofNat (48 + n) else Char.ofNat (87 + n)

/-- The number of a hexadecimal digit, of either case. -/
def hexValue? (c : Char) : Option Nat :=
  if '0' ≤ c ∧ c ≤ '9' then some (c.toNat - 48)
  else if 'a' ≤ c ∧ c ≤ 'f' then some (c.toNat - 87)
  else if 'A' ≤ c ∧ c ≤ 'F' then some (c.toNat - 55)
  else none

/-- Two digits for one byte. -/
def hexOfByte (b : UInt8) : List Char :=
  [hexDigit (b.toNat / 16), hexDigit (b.toNat % 16)]

/-- Two lower-case digits for each byte. -/
def hexOfBytes (bytes : List UInt8) : String :=
  String.ofList (bytes.flatMap hexOfByte)

/-- The bytes of pairs of digits. -/
def bytesOfDigits? : List Char → Option (List UInt8)
  | [] => some []
  | [_] => none
  | a :: b :: rest => do
    let hi ← hexValue? a
    let lo ← hexValue? b
    let tail ← bytesOfDigits? rest
    some (UInt8.ofNat (16 * hi + lo) :: tail)

/-- The bytes of a text of pairs of digits. -/
def bytesOfHex? (s : String) : Option (List UInt8) :=
  bytesOfDigits? s.toList

/-- The number written by hexadecimal digits; `none` for no digit or a foreign character. -/
def natOfHex? (cs : List Char) : Option Nat :=
  if cs.isEmpty then none
  else cs.foldl (fun acc c => do some (16 * (← acc) + (← hexValue? c))) (some 0)

end Lineage.Text
