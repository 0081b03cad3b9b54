import Lineage.Json.Basic
import Lineage.Number.Shortest

set_option autoImplicit false

/-!
# Values as compact text

The one text form that is digested for identifiers: no blank space, members in their order,
characters outside ASCII as they are, doubles with the fewest digits.

## Main definitions

* `Lineage.Json.floatLayout`: how doubles are laid out.
* `Lineage.Json.quote`: a text between quotes.
* `Lineage.Json.render`: the compact text of a value.
-/

namespace Lineage.Json

/-- Doubles are written without exponent while the power of the first digit is in `-5..15`, always
with a point or an exponent, and exponents carry their sign. -/
def floatLayout : Shortest.Layout where
  plainFrom := some (-5)
  plainTo := some 15
  pointZero := true
  plus := true
  nan := "null"
  infinity := "null"

/-- The hexadecimal digit of a number below sixteen. -/
def escapeDigit (n : Nat) : Char :=
  if n < 10 then Char.ofNat (48 + n) else Char.ofNat (87 + n)

/-- A character inside quotes: quote, backslash and control characters are escaped. -/
def escapeChar (c : Char) : List Char :=
  if c = '"' then ['\\', '"']
  else if c = '\\' then ['\\', '\\']
  else if c = '\n' then ['\\', 'n']
  else if c = '\r' then ['\\', 'r']
  else if c = '\t' then ['\\', 't']
  else if c.toNat = 8 then ['\\', 'b']
  else if c.toNat = 12 then ['\\', 'f']
  else if c.toNat < 32 then
    ['\\', 'u', '0', '0', escapeDigit (c.toNat / 16), escapeDigit (c.toNat % 16)]
  else [c]

/-- A text between quotes. -/
def quoteChars (s : String) : List Char :=
  '"' :: s.toList.flatMap escapeChar ++ ['"']

/-- A text between quotes, as text. -/
def quote (s : String) : String :=
  String.ofList (quoteChars s)

/-- The text of a double. -/
def floatText (x : Float) : String :=
  if Binary64.isFinite x then Shortest.render floatLayout x else "null"

mutual

/-- The characters of a value. -/
def renderChars : Json → List Char
  | .null => "null".toList
  | .bool b => (if b then "true" else "false").toList
  | .int n => Shortest.intChars n
  | .float x => (floatText x).toList
  | .string s => quoteChars s
  | .array items => '[' :: renderItems items ++ [']']
  | .object members => '{' :: renderMembers members ++ ['}']

/-- The characters of list items, with commas between them. -/
def renderItems : List Json → List Char
  | [] => []
  | [item] => renderChars item
  | item :: rest => renderChars item ++ ',' :: renderItems rest

/-- The characters of members, with commas between them. -/
def renderMembers : List (String × Json) → List Char
  | [] => []
  | [(key, value)] => quoteChars key ++ ':' :: renderChars value
  | (key, value) :: rest => quoteChars key ++ ':' :: renderChars value ++ ',' :: renderMembers rest

end

/-- The compact text of a value. -/
def render (value : Json) : String :=
  String.ofList (renderChars value)

end Lineage.Json
