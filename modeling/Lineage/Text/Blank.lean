set_option autoImplicit false

/-!
# Blank space in text

The characters with the Unicode property `White_Space`, and cutting them off both ends of a text.

## Main definitions

* `Lineage.Text.isBlank`: membership in the property.
* `Lineage.Text.strip`: the text without blank characters at either end.
-/

namespace Lineage.Text

/-- The Unicode property `White_Space`. -/
def isBlank (c : Char) : Bool :=
  let n := c.toNat
  (0x09 ≤ n && n ≤ 0x0D) || n == 0x20 || n == 0x85 || n == 0xA0 || n == 0x1680
    || (0x2000 ≤ n && n ≤ 0x200A) || n == 0x2028 || n == 0x2029 || n == 0x202F || n == 0x205F
    || n == 0x3000

/-- Drop blank characters from the front. -/
def stripLeft (cs : List Char) : List Char :=
  cs.dropWhile isBlank

/-- Drop blank characters from the back. -/
def stripRight (cs : List Char) : List Char :=
  (cs.reverse.dropWhile isBlank).reverse

/-- Drop blank characters from both ends. -/
def stripChars (cs : List Char) : List Char :=
  stripRight (stripLeft cs)

/-- The text without blank characters at either end. -/
def strip (s : String) : String :=
  String.ofList (stripChars s.toList)

/-- Cut a text at every `sep`; there is one piece more than separators. -/
def splitChars (sep : Char) : List Char → List (List Char)
  | [] => [[]]
  | c :: rest =>
    if c = sep then [] :: splitChars sep rest
    else
      match splitChars sep rest with
      | [] => [[c]]
      | piece :: pieces => (c :: piece) :: pieces

/-- The pieces of `s` between the occurrences of `sep`. -/
def splitAt (sep : Char) (s : String) : List String :=
  (splitChars sep s.toList).map String.ofList

/-- ASCII capitals in lower case, all else unchanged. -/
def lowerAscii (s : String) : String :=
  String.ofList (s.toList.map Char.toLower)

/-- ASCII small letters in upper case, all else unchanged. -/
def upperAscii (s : String) : String :=
  String.ofList (s.toList.map Char.toUpper)

end Lineage.Text
