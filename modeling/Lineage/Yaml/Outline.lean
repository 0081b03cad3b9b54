import Lineage.Json.Basic
import Lineage.Number.Shortest
import Lineage.Yaml.Value

set_option autoImplicit false

/-!
# Block text of nested values

An outline is a value with optional tags on its parts, as a document shows it: one entry of a
mapping or one item of a sequence on a line, parts further in. A text stands as it is wherever it
reads back as the same text, else between quotes; a text of several lines is a block of lines.

## Main definitions

* `Lineage.Yaml.Outline`: the values.
* `Lineage.Yaml.textStyle`: how a text is written.
* `Lineage.Yaml.Outline.render`: the text of an outline.
* `Lineage.Yaml.Outline.ofJson`: the outline of a value without tags.
-/

namespace Lineage.Yaml

/-- A value with tags, as a document shows it. -/
inductive Outline where
  /-- A number or a word, written as it is. -/
  | word (written : String)
  /-- A text. -/
  | text (content : String)
  /-- Items in order. -/
  | sequence (items : List Outline)
  /-- Entries in order. -/
  | mapping (entries : List (String × Outline))
  /-- A value with a tag. -/
  | tagged (tag : String) (content : Outline)

/-- The ways to write a text. -/
inductive TextStyle where
  /-- As it is. -/
  | plain
  /-- Between single quotes. -/
  | single
  /-- Between double quotes, with escapes. -/
  | double
  /-- As a block of lines. -/
  | block
  deriving DecidableEq, Repr

/-! ### Texts -/

/-- Whether a plain scalar with this text would be read as something else, or looks as if. -/
def isMisread (content : String) : Bool :=
  isPaddedDigits content.toList
    || (match Value.ofPlain? content with
      | some (.text _) => false
      | _ => true)

/-- Whether a character can stand in a document without an escape. -/
def isPrintable (c : Char) : Bool :=
  let n := c.toNat
  n == 0x0A || (0x20 ≤ n && n ≤ 0x7E)
    || (0xA0 ≤ n && n != 0xFEFF && n != 0xFFFE && n != 0xFFFF)

/-- Characters that mean something else at the start of a plain scalar. -/
def isIndicator (c : Char) : Bool :=
  isFlowIndicator c || ['#', '&', '*', '!', '|', '>', '\'', '"', '%', '@', '\x60'].contains c

/-- Whether the start of a text keeps it from being plain. -/
def startsSpecial (cs : List Char) : Bool :=
  Cursor.isDocumentMark cs || cs.take 3 == ['-', '-', '-'] || cs.take 3 == ['.', '.', '.']
    || match cs with
      | [] => true
      | c :: rest =>
        c == ' ' || isIndicator c
          || ((c == '?' || c == ':' || c == '-') && blankNext rest)

/-- Whether a colon before a blank or a hash after one stands further on in a text. -/
def hasMark : List Char → Bool
  | ':' :: rest => blankNext rest || hasMark rest
  | ' ' :: '#' :: _ => true
  | _ :: rest => hasMark rest
  | [] => false

/-- Whether a blank stands at the end of a line that is not the last. -/
def hasBlankAtBreak : List Char → Bool
  | ' ' :: c :: rest => isBreak c || hasBlankAtBreak (c :: rest)
  | _ :: rest => hasBlankAtBreak rest
  | [] => false

/-- Whether a blank stands at the start of a line that is not the first. -/
def hasBlankAfterBreak : List Char → Bool
  | c :: ' ' :: rest => isBreak c || hasBlankAfterBreak rest
  | _ :: rest => hasBlankAfterBreak rest
  | [] => false

/-- How a text is written; `lines` tells whether more than one line is possible. -/
def textStyle (lines : Bool) (content : String) : TextStyle :=
  let cs := content.toList
  let broken := cs.any isBreak
  let trailing := cs.getLast? == some ' '
  if !cs.all isPrintable || hasBlankAtBreak cs || (broken && !lines) then .double
  else if cs.contains '\n' then (if trailing then .double else .block)
  else if hasBlankAfterBreak cs then .double
  else if isMisread content || startsSpecial cs || hasMark cs || trailing || broken then .single
  else .plain

/-- The hexadecimal digits of a number, with zeros in front up to a width. -/
def hexPadded (width n : Nat) : List Char :=
  let digits := (Nat.toDigits 16 n).map Char.toUpper
  List.replicate (width - digits.length) '0' ++ digits

/-- A character between double quotes. -/
def escapeDouble (c : Char) : List Char :=
  let single : Option Char :=
    match c.toNat with
    | 0 => some '0'
    | 7 => some 'a'
    | 8 => some 'b'
    | 9 => some 't'
    | 10 => some 'n'
    | 11 => some 'v'
    | 12 => some 'f'
    | 13 => some 'r'
    | 27 => some 'e'
    | 0x22 => some '"'
    | 0x5C => some '\\'
    | 0x85 => some 'N'
    | 0x2028 => some 'L'
    | 0x2029 => some 'P'
    | _ => none
  match single with
  | some e => ['\\', e]
  | none =>
    if isPrintable c then [c]
    else if c.toNat ≤ 0xFF then '\\' :: 'x' :: hexPadded 2 c.toNat
    else if c.toNat ≤ 0xFFFF then '\\' :: 'u' :: hexPadded 4 c.toNat
    else '\\' :: 'U' :: hexPadded 8 c.toNat

/-- A text between double quotes. -/
def doubleQuoted (content : String) : String :=
  String.ofList ('"' :: content.toList.flatMap escapeDouble ++ ['"'])

/-- Blanks up to a column. -/
def blanksTo (column : Nat) : String := String.ofList (List.replicate column ' ')

/-- Characters, with blanks up to a column at the start of every line that is not empty. -/
def indented (column : Nat) : (lineStart : Bool) → List Char → List Char
  | _, [] => []
  | lineStart, c :: rest =>
    if isBreak c then c :: indented column true rest
    else
      (if lineStart then List.replicate column ' ' else []) ++ c :: indented column false rest

/-- Whether characters end with the end of a line. -/
def endsLine (cs : List Char) : Bool := (cs.getLast?.map isBreak).getD false

/-- A text between single quotes, each of its own doubled; further lines start at a column. -/
def singleQuoted (column : Nat) (content : String) : String :=
  let cs := content.toList
  let body := (indented column false cs).flatMap fun c => if c = '\'' then ['\'', '\''] else [c]
  "'" ++ String.ofList body ++ (if endsLine cs then blanksTo column else "") ++ "'"

/-- The header of a block of lines: an indentation if the first line starts with blank space, and
what happens to the ends of lines at the end. -/
def blockHeaderOf (cs : List Char) : String :=
  let increment := match cs with
    | c :: _ => if c == ' ' || isBreak c then "2" else ""
    | [] => ""
  let chomping :=
    if !endsLine cs then "-"
    else if cs.length == 1 || endsLine cs.dropLast then "+"
    else ""
  "|" ++ increment ++ chomping

/-- The lines of a block at a column; empty lines have no blanks. -/
def blockText (column : Nat) (content : String) : String :=
  let cs := content.toList
  blockHeaderOf cs ++ "\n" ++ String.ofList (indented column true cs)
    ++ (if endsLine cs then "" else "\n")

/-- A text that is no block of lines; further lines start at a column. -/
def inlineText (style : TextStyle) (column : Nat) (content : String) : String :=
  match style with
  | .plain => content
  | .single => singleQuoted column content
  | _ => doubleQuoted content

/-- A text on one line. -/
def lineText (content : String) : String := inlineText (textStyle false content) 0 content

/-- A text at the end of a line, with the end of the line; further lines start at a column. -/
def textAt (column : Nat) (content : String) : String :=
  match textStyle true content with
  | .block => blockText column content
  | style => inlineText style column content ++ "\n"

namespace Outline

/-! ### Outlines -/

mutual

/-- What follows the mark of an entry or an item up to the end of its last line. Entries of mappings
start at `column`, items of sequences at `dashes`; with `inline` set the first of them follows on
the same line. -/
def follow (inline : Bool) (column dashes : Nat) : Outline → String
  | .word written => " " ++ written ++ "\n"
  | .text content => " " ++ textAt column content
  | .sequence [] => " []\n"
  | .sequence (item :: rest) =>
    (if inline then " -" else "\n" ++ blanksTo dashes ++ "-")
      ++ follow true (dashes + 2) (dashes + 2) item ++ itemLines dashes rest
  | .mapping [] => " \x7b\x7d\n"
  | .mapping ((key, value) :: rest) =>
    (if inline then " " else "\n" ++ blanksTo column) ++ lineText key ++ ":"
      ++ follow false (column + 2) column value ++ entryLines column rest
  | .tagged tag content => " !" ++ tag ++ follow false column dashes content

/-- Items on lines of their own. -/
def itemLines (dashes : Nat) : List Outline → String
  | [] => ""
  | item :: rest =>
    blanksTo dashes ++ "-" ++ follow true (dashes + 2) (dashes + 2) item ++ itemLines dashes rest

/-- Entries on lines of their own. -/
def entryLines (column : Nat) : List (String × Outline) → String
  | [] => ""
  | (key, value) :: rest =>
    blanksTo column ++ lineText key ++ ":" ++ follow false (column + 2) column value
      ++ entryLines column rest

end

/-- The document of a mapping. -/
def render (entries : List (String × Outline)) : String := entryLines 0 entries

/-- Doubles are written without exponent while the power of the first digit is in `-5..15`, always
with a point or an exponent; exponents have no plus. -/
def floatLayout : Shortest.Layout where
  plainFrom := some (-5)
  plainTo := some 15
  pointZero := true
  plus := false
  nan := ".nan"
  infinity := ".inf"

/-- A double. -/
def ofFloat (x : Float) : Outline := .word (Shortest.render floatLayout x)

mutual

/-- A value without tags. -/
def ofJson : Json → Outline
  | .null => .word "null"
  | .bool b => .word (if b then "true" else "false")
  | .int n => .word (toString n)
  | .float x => ofFloat x
  | .string s => .text s
  | .array items => .sequence (ofItems items)
  | .object members => .mapping (ofMembers members)

/-- Items. -/
def ofItems : List Json → List Outline
  | [] => []
  | item :: rest => ofJson item :: ofItems rest

/-- Members. -/
def ofMembers : List (String × Json) → List (String × Outline)
  | [] => []
  | (key, value) :: rest => (key, ofJson value) :: ofMembers rest

end

end Outline

end Lineage.Yaml
