set_option autoImplicit false

/-!
# The characters of documents

A document is read as a list of characters with one kind of line end. Positions count bytes, lines
and columns.

## Main definitions

* `Lineage.Yaml.characters?`: the characters of a text, if all of them may occur.
* `Lineage.Yaml.Cursor`: what is left of a text, and where.
* `Lineage.Yaml.Gap`: the blank space between two words of a scalar.
-/

namespace Lineage.Yaml

/-- The characters that may occur in a document. -/
def isAllowed (c : Char) : Bool :=
  let n := c.toNat
  n == 0x09 || n == 0x0A || n == 0x0D || (0x20 ≤ n && n ≤ 0x7E) || n == 0x85
    || (0xA0 ≤ n && n ≤ 0xFFFD) || 0x10000 ≤ n

/-- The end of a line. -/
def isBreak (c : Char) : Bool :=
  c == '\n' || c == '\u2028' || c == '\u2029'

/-- A blank or a tab. -/
def isBlank (c : Char) : Bool := c == ' ' || c == '\t'

/-- Whether a text is at its end, or goes on with a blank, a tab or the end of a line. -/
def blankNext : List Char → Bool
  | [] => true
  | c :: _ => isBlank c || isBreak c

/-- One character for every end of a line. -/
def joinBreaks : List Char → List Char
  | '\r' :: '\n' :: rest => '\n' :: joinBreaks rest
  | '\r' :: rest => '\n' :: joinBreaks rest
  | '\u0085' :: rest => '\n' :: joinBreaks rest
  | c :: rest => c :: joinBreaks rest
  | [] => []

/-- The mark of a byte order, which may stand at the start of a line. -/
def byteOrderMark : Char := '\uFEFF'

/-- The characters of a text, if all of them may occur. -/
def characters? (text : String) : Option (List Char) :=
  let cs := text.toList
  if cs.all isAllowed then some (joinBreaks cs) else none

/-- How many bytes characters take up. -/
def byteCount (cs : List Char) : Nat := cs.foldl (fun n c => n + c.utf8Size) 0

/-- What is left of a text, and where. -/
structure Cursor where
  /-- The characters that are left. -/
  rest : List Char
  /-- How many bytes came before. -/
  index : Nat
  /-- How many lines came before. -/
  line : Nat
  /-- How many characters came before on this line. -/
  column : Nat

namespace Cursor

/-- The start of a text. -/
def start (cs : List Char) : Cursor := ⟨cs, 0, 0, 0⟩

/-- The place after characters that do not end the line. -/
def advance (n : Nat) (c : Cursor) : Cursor :=
  ⟨c.rest.drop n, c.index + byteCount (c.rest.take n), c.line, c.column + n⟩

/-- The place in front of a later part of the text, on a given line and column. -/
def jump (c : Cursor) (rest : List Char) (line column : Nat) : Cursor :=
  ⟨rest, c.index + (byteCount c.rest - byteCount rest), line, column⟩

/-- Whether a text starts with three equal characters that stand alone. -/
def startsWithMark (mark : Char) : List Char → Bool
  | a :: b :: c :: rest => a == mark && b == mark && c == mark && blankNext rest
  | _ => false

/-- Whether a line starts with a mark of the start or the end of a document. -/
def isDocumentMark (cs : List Char) : Bool := startsWithMark '-' cs || startsWithMark '.' cs

end Cursor

/-- The blank space between two words of a scalar. -/
inductive Gap where
  /-- Blanks and tabs, the last first; there may be none. -/
  | blanks (chars : List Char)
  /-- Ends of lines: the first, unless it was escaped, and the others, the last first. -/
  | lines (first : Option Char) (others : List Char)
  deriving DecidableEq, Repr

namespace Gap

/-- No blank space. -/
def none : Gap := .blanks []

/-- Whether there is any blank space. -/
def isSome : Gap → Bool
  | .blanks chars => !chars.isEmpty
  | .lines .. => true

/-- Whether the blank space goes over the end of a line. -/
def hasBreak : Gap → Bool
  | .blanks _ => false
  | .lines .. => true

/-- Add a blank or a tab; at the start of a line they do not count. -/
def addBlank (c : Char) : Gap → Gap
  | .blanks chars => .blanks (c :: chars)
  | gap => gap

/-- Add the end of a line; blanks before it do not count. -/
def addBreak (c : Char) : Gap → Gap
  | .blanks _ => .lines (some c) []
  | .lines first others => .lines first (c :: others)

/-- What a gap stands for, the last character first: one end of a line is a blank, of several all
but the first stay. -/
def folded : Gap → List Char
  | .blanks chars => chars
  | .lines (some '\n') [] => [' ']
  | .lines (some '\n') others => others
  | .lines (some c) others => others ++ [c]
  | .lines Option.none others => others

end Gap

end Lineage.Yaml
