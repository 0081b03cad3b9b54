import Lineage.Json.Basic
import Lineage.Number.Reader
import Lineage.Text.Digit

set_option autoImplicit false

/-!
# Numbers, texts and words of values

What stands in a text for a value that is no list and no object. A whole number beyond 64 bits is
read as a double. A double is read as a whole number of at most 64 bits, further digits being
dropped, which is scaled by a power of ten. What need not be read can be passed over: then only its
form matters.

## Main definitions

* `Lineage.Json.NumberParts`, `Lineage.Json.NumberParts.value?`: numbers in pieces.
* `Lineage.Json.readNumber`, `Lineage.Json.readString`, `Lineage.Json.readWord`: reading.
* `Lineage.Json.skipNumber`, `Lineage.Json.skipString`, `Lineage.Json.skipWord`: passing over.
-/

namespace Lineage.Json

/-- Drop the four blank characters of the grammar. -/
def skipBlank (cs : List Char) : List Char :=
  cs.dropWhile fun c => c == ' ' || c == '\n' || c == '\t' || c == '\r'

/-- The digits in front, and what follows. -/
def takeDigits (cs : List Char) : List Char × List Char :=
  (cs.takeWhile Number.isDigit, cs.dropWhile Number.isDigit)

/-- Append digits to a number as long as it fits 64 bits; the number and the digits that
are left. -/
def absorb (n : Nat) : List Char → Nat × List Char
  | [] => (n, [])
  | c :: rest =>
    let next := 10 * n + Number.digitValue c
    if next < Number.word64 then absorb next rest else (n, c :: rest)

/-- The power of ten as a double. -/
def tenTo (k : Nat) : Float := Float.ofScientific 1 false k

/-- Divide by `10 ^ k`, in steps of at most `10 ^ 308`. -/
def scaleDown (x : Float) (k : Nat) : Float :=
  if h : k ≤ 308 then x / tenTo k
  else if x == 0.0 then x
  else scaleDown (x / tenTo 308) (k - 308)
termination_by k
decreasing_by omega

/-- The double `n * 10 ^ power`; `none` if it is too large. -/
def scale? (n : Nat) (power : Int) : Option Float :=
  let x := Float.ofNat n
  if power < 0 then some (scaleDown x (-power).toNat)
  else if power ≤ 308 then
    let y := x * tenTo power.toNat
    if Binary64.isFinite y then some y else none
  else if n = 0 then some x
  else none

/-- The pieces of a number. -/
structure NumberParts where
  /-- Whether a minus stands first. -/
  negative : Bool
  /-- The digits before the point. -/
  whole : List Char
  /-- The digits after the point, if there is one. -/
  fraction : Option (List Char)
  /-- The written power of ten. -/
  power : Option Int
  deriving DecidableEq, Repr

/-- The value of a number. -/
def NumberParts.value? (p : NumberParts) : Option Json :=
  let (n, left) := absorb 0 p.whole
  let signed (x : Float) : Json := .float (if p.negative then -x else x)
  match p.fraction, p.power with
  | none, none =>
    if left.isEmpty then
      if p.negative then
        if n = 0 ∨ n > Number.pow2 63 then some (signed (Float.ofNat n))
        else some (.int (-(n : Int)))
      else some (.int n)
    else (scale? n left.length).map signed
  | _, _ =>
    let digits := p.fraction.getD []
    let (m, dropped) := absorb n digits
    let shift := (left.length : Int) - ((digits.length - dropped.length : Nat) : Int)
    (scale? m (shift + p.power.getD 0)).map signed

/-- Read an optional power of ten. -/
def readPower : List Char → Option (Option Int × List Char)
  | c :: more =>
    if c = 'e' ∨ c = 'E' then
      let (negative, body) := Number.splitSign more
      let (digits, after) := takeDigits body
      if digits.isEmpty then none
      else
        let n : Int := Number.natOfDigits digits
        some (some (if negative then -n else n), after)
    else some (none, c :: more)
  | [] => some (none, [])

/-- Read the pieces of a number: no zero in front of other digits, digits on both sides of a
point. -/
def readParts (cs : List Char) : Option (NumberParts × List Char) := do
  let (negative, body) := match cs with
    | '-' :: rest => (true, rest)
    | _ => (false, cs)
  let (whole, rest) := takeDigits body
  if whole.isEmpty then none
  if whole.length > 1 ∧ whole.head? = some '0' then none
  let (fraction, rest) ← match rest with
    | '.' :: more =>
      let (digits, after) := takeDigits more
      if digits.isEmpty then none else some (some digits, after)
    | _ => some (none, rest)
  let (power, rest) ← readPower rest
  some (⟨negative, whole, fraction, power⟩, rest)

/-- Read a number. -/
def readNumber (cs : List Char) : Option (Json × List Char) := do
  let (parts, rest) ← readParts cs
  some (← parts.value?, rest)

/-- Pass over a number, which may be too large to be read. -/
def skipNumber (cs : List Char) : Option (List Char) := (readParts cs).map Prod.snd

/-- Four hexadecimal digits. -/
def readHex4 : List Char → Option (Nat × List Char)
  | a :: b :: c :: d :: rest => (Text.natOfHex? [a, b, c, d]).map fun n => (n, rest)
  | _ => none

/-- The character after a backslash, where it is a single one. -/
def simpleEscape? (c : Char) : Option Char :=
  if c = '"' ∨ c = '\\' ∨ c = '/' then some c
  else if c = 'n' then some '\n'
  else if c = 't' then some '\t'
  else if c = 'r' then some '\r'
  else if c = 'b' then some (Char.ofNat 8)
  else if c = 'f' then some (Char.ofNat 12)
  else none

/-- A code point written with four digits, or with two groups of four as a pair of surrogates. -/
def readEscapedPoint (cs : List Char) : Option (Char × List Char) := do
  let (hi, rest) ← readHex4 cs
  if 0xDC00 ≤ hi ∧ hi < 0xE000 then none
  else if 0xD800 ≤ hi ∧ hi < 0xDC00 then
    match rest with
    | '\\' :: 'u' :: more =>
      let (lo, after) ← readHex4 more
      if 0xDC00 ≤ lo ∧ lo < 0xE000 then
        some (Char.ofNat (0x10000 + (hi - 0xD800) * 0x400 + (lo - 0xDC00)), after)
      else none
    | _ => none
  else some (Char.ofNat hi, rest)

/-- The characters up to the closing quote; `fuel` bounds their number. -/
def readQuoted : Nat → List Char → Option (List Char × List Char)
  | 0, _ => none
  | fuel + 1, cs =>
    match cs with
    | [] => none
    | '"' :: rest => some ([], rest)
    | '\\' :: 'u' :: rest => do
      let (c, after) ← readEscapedPoint rest
      let (tail, after) ← readQuoted fuel after
      some (c :: tail, after)
    | '\\' :: e :: rest => do
      let c ← simpleEscape? e
      let (tail, after) ← readQuoted fuel rest
      some (c :: tail, after)
    | c :: rest =>
      if c.toNat < 32 ∨ c = '\\' then none
      else do
        let (tail, after) ← readQuoted fuel rest
        some (c :: tail, after)

/-- A text, after its opening quote. -/
def readString (cs : List Char) : Option (String × List Char) :=
  (readQuoted (cs.length + 1) cs).map fun r => (String.ofList r.1, r.2)

/-- Pass over the characters up to the closing quote, escapes of surrogates included; `fuel` bounds
their number. -/
def skipQuoted : Nat → List Char → Option (List Char)
  | 0, _ => none
  | fuel + 1, cs =>
    match cs with
    | [] => none
    | '"' :: rest => some rest
    | '\\' :: 'u' :: rest => do
      let (_, after) ← readHex4 rest
      skipQuoted fuel after
    | '\\' :: e :: rest => do
      let _ ← simpleEscape? e
      skipQuoted fuel rest
    | c :: rest => if c.toNat < 32 ∨ c = '\\' then none else skipQuoted fuel rest

/-- Pass over a text, after its opening quote. -/
def skipString (cs : List Char) : Option (List Char) := skipQuoted (cs.length + 1) cs

/-- Read a fixed word. -/
def readWord (word : List Char) (value : Json) (cs : List Char) : Option (Json × List Char) :=
  if word.isPrefixOf cs then some (value, cs.drop word.length) else none

/-- Pass over a fixed word. -/
def skipWord (word : List Char) (cs : List Char) : Option (List Char) :=
  if word.isPrefixOf cs then some (cs.drop word.length) else none

end Lineage.Json
