import Lineage.Yaml.Text

set_option autoImplicit false

/-!
# The texts of scalars

A scalar is plain, between quotes of either kind, or a block of lines. Each form is read from the
characters after its start up to its end.

## Main definitions

* `Lineage.Yaml.plainScalar?`: a scalar without quotes.
* `Lineage.Yaml.quotedScalar?`: a scalar between quotes.
* `Lineage.Yaml.blockScalar?`: a scalar that is a block of lines.
-/

namespace Lineage.Yaml

/-- The forms of scalars. -/
inductive ScalarForm where
  /-- Without quotes. -/
  | plain
  /-- Between quotes of either kind. -/
  | quoted
  /-- A block of lines as they are. -/
  | literal
  /-- A block of lines that are joined. -/
  | folded
  deriving DecidableEq, Repr

/-- A scalar that has been read: its text, and where the reading stopped. -/
structure ScalarText where
  /-- The text. -/
  text : String
  /-- Where the reading stopped. -/
  cursor : Cursor
  /-- Whether it stopped after the end of a line. -/
  brokeLine : Bool

/-- The characters that end a plain scalar in a flow collection. -/
def isFlowIndicator (c : Char) : Bool :=
  c == ',' || c == '[' || c == ']' || c == '\x7b' || c == '\x7d'

/-- A colon that a flow collection does not allow inside a plain scalar. -/
def isStrayColon : List Char → Bool
  | ':' :: c :: _ => c == '?' || isFlowIndicator c
  | _ => false

/-- Whether a plain scalar ends in front of the given characters. -/
def endsPlain (inFlow : Bool) : List Char → Bool
  | [] => true
  | ':' :: rest => blankNext rest
  | c :: _ => inFlow && isFlowIndicator c

/-- Whether a plain scalar ends after a gap: at a lower column, a mark of a document or a
comment. -/
def endsAfterGap (inFlow : Bool) (minColumn column : Nat) (cs : List Char) : Bool :=
  (!inFlow && decide (column < minColumn)) || (column == 0 && Cursor.isDocumentMark cs)
    || cs.head? == some '#'

/-- Read a plain scalar on; `text` is what has been read, the last character first. -/
def plainFrom (origin : Cursor) (inFlow : Bool) (minColumn : Nat) :
    List Char → (line column : Nat) → (text : List Char) → Gap → Option ScalarText
  | [], line, column, text, gap =>
    some ⟨String.ofList text.reverse, origin.jump [] line column, gap.hasBreak⟩
  | c :: rest, line, column, text, gap =>
    if isBreak c then plainFrom origin inFlow minColumn rest (line + 1) 0 text (gap.addBreak c)
    else if isBlank c then
      if gap.hasBreak && decide (column < minColumn) && c == '\t' then none
      else plainFrom origin inFlow minColumn rest line (column + 1) text (gap.addBlank c)
    else if (gap.isSome && endsAfterGap inFlow minColumn column (c :: rest)) then
      some ⟨String.ofList text.reverse, origin.jump (c :: rest) line column, gap.hasBreak⟩
    else if inFlow && isStrayColon (c :: rest) then none
    else if endsPlain inFlow (c :: rest) then
      some ⟨String.ofList text.reverse, origin.jump (c :: rest) line column, gap.hasBreak⟩
    else
      plainFrom origin inFlow minColumn rest line (column + 1) (c :: (gap.folded ++ text)) Gap.none

/-- The plain scalar at a place; its further lines start at `minColumn` or later. -/
def plainScalar? (inFlow : Bool) (minColumn : Nat) (c : Cursor) : Option ScalarText :=
  plainFrom c inFlow minColumn c.rest c.line c.column [] Gap.none

/-- The value of a hexadecimal digit. -/
def hexValue? (c : Char) : Option Nat :=
  if '0' ≤ c ∧ c ≤ '9' then some (c.toNat - 48)
  else if 'a' ≤ c ∧ c ≤ 'f' then some (c.toNat - 87)
  else if 'A' ≤ c ∧ c ≤ 'F' then some (c.toNat - 55)
  else none

/-- The number that hexadecimal digits write. -/
def hexNumber? (cs : List Char) : Option Nat :=
  cs.foldlM (fun n c => (hexValue? c).map fun d => 16 * n + d) 0

/-- The character with a number; surrogates are none. -/
def characterOf? (n : Nat) : Option Char :=
  if n < 0xD800 ∨ (0xDFFF < n ∧ n ≤ 0x10FFFF) then some (Char.ofNat n) else none

/-- The character of a number with so many digits, and how many characters write it. -/
def numberedEscape? (count : Nat) (cs : List Char) : Option (Char × Nat) :=
  if cs.length < count then none
  else do some (← characterOf? (← hexNumber? (cs.take count)), count + 1)

/-- What an escape stands for, and how many characters follow the backslash. -/
def escape? : List Char → Option (Char × Nat)
  | 'x' :: rest => numberedEscape? 2 rest
  | 'u' :: rest => numberedEscape? 4 rest
  | 'U' :: rest => numberedEscape? 8 rest
  | c :: _ =>
    let single : Option Nat :=
      match c with
      | '0' => some 0
      | 'a' => some 7
      | 'b' => some 8
      | 't' | '\t' => some 9
      | 'n' => some 10
      | 'v' => some 11
      | 'f' => some 12
      | 'r' => some 13
      | 'e' => some 27
      | ' ' | '"' | '/' | '\\' => some c.toNat
      | 'N' => some 0x85
      | '_' => some 0xA0
      | 'L' => some 0x2028
      | 'P' => some 0x2029
      | _ => none
    single.map fun n => (Char.ofNat n, 1)
  | [] => none

/-- Read a scalar between quotes on. `skip` characters belong to an escape that has been read;
`text` is what has been read, the last character first. -/
def quotedFrom (origin : Cursor) (quote : Char) :
    List Char → (skip line column : Nat) → (text : List Char) → Gap → Option ScalarText
  | [], _, _, _, _, _ => none
  | _ :: rest, skip + 1, line, column, text, gap =>
    quotedFrom origin quote rest skip line (column + 1) text gap
  | c :: rest, 0, line, column, text, gap =>
    let before : List Char := gap.folded ++ text
    if isBreak c then quotedFrom origin quote rest 0 (line + 1) 0 text (gap.addBreak c)
    else if isBlank c then quotedFrom origin quote rest 0 line (column + 1) text (gap.addBlank c)
    else if gap.hasBreak && column == 0 && Cursor.isDocumentMark (c :: rest) then none
    else if c = quote then
      if quote = '\'' ∧ rest.head? = some '\'' then
        quotedFrom origin quote rest 1 line (column + 1) ('\'' :: before) Gap.none
      else some ⟨String.ofList before.reverse, origin.jump rest line (column + 1), false⟩
    else if quote = '"' ∧ c = '\\' then
      match rest with
      | [] => none
      | e :: more =>
        if isBreak e then quotedFrom origin quote more 0 (line + 1) 0 before (.lines none [])
        else
          match escape? (e :: more) with
          | some (written, count) =>
            quotedFrom origin quote (e :: more) count line (column + 1) (written :: before) Gap.none
          | none => none
    else quotedFrom origin quote rest 0 line (column + 1) (c :: before) Gap.none

/-- The scalar between quotes at a place. -/
def quotedScalar? (quote : Char) (c : Cursor) : Option ScalarText :=
  quotedFrom c quote (c.rest.drop 1) 0 c.line (c.column + 1) [] Gap.none

/-- What happens to the ends of lines at the end of a block of lines. -/
inductive Chomping where
  /-- All are dropped. -/
  | strip
  /-- One stays. -/
  | clip
  /-- All stay. -/
  | keep
  deriving DecidableEq, Repr

/-- The header of a block of lines. -/
structure BlockHeader where
  /-- What happens to the ends of lines at the end. -/
  chomping : Chomping
  /-- By how much the lines are indented, if that is written. -/
  increment : Option Nat
  deriving DecidableEq, Repr

/-- The mark for what happens at the end of a block. -/
def chompingOf? (c : Char) : Option Chomping :=
  if c = '-' then some .strip else if c = '+' then some .keep else none

/-- An indentation that is written. -/
def isIncrement (c : Char) : Bool := '1' ≤ c && c ≤ '9'

/-- Read an optional indentation. -/
def readIncrement : List Char → Option Nat × List Char
  | c :: rest => if isIncrement c then (some (c.toNat - 48), rest) else (none, c :: rest)
  | [] => (none, [])

/-- Read an optional mark for the end. -/
def readChomping : List Char → Option Chomping × List Char
  | c :: rest =>
    match chompingOf? c with
    | some chomping => (some chomping, rest)
    | none => (none, c :: rest)
  | [] => (none, [])

/-- Read a header: a mark for the end and an indentation, in either order. -/
def readHeader (cs : List Char) : BlockHeader × List Char :=
  match readChomping cs with
  | (some chomping, rest) =>
    let (increment, rest) := readIncrement rest
    (⟨chomping, increment⟩, rest)
  | (none, rest) =>
    let (increment, rest) := readIncrement rest
    match increment with
    | none => (⟨.clip, none⟩, rest)
    | some n =>
      let (chomping, rest) := readChomping rest
      (⟨chomping.getD .clip, some n⟩, rest)

/-- What follows a header: blanks and a comment; there must be nothing else on the line. -/
def afterHeader? (cs : List Char) : Option (List Char) :=
  let rest := cs.dropWhile isBlank
  let rest := if rest.head? = some '#' then rest.dropWhile fun c => !isBreak c else rest
  match rest with
  | [] => some []
  | c :: more => if isBreak c then some more else none

/-- The empty lines in front of a line of a block. -/
structure BlockGap where
  /-- What is left, from the first character that is no indentation. -/
  rest : List Char
  /-- The line. -/
  line : Nat
  /-- The column. -/
  column : Nat
  /-- The ends of the empty lines. -/
  breaks : List Char
  /-- The furthest column that was reached. -/
  furthest : Nat

/-- Read indentation and empty lines; an indentation of zero is not known yet. -/
def blockGap? (indent : Nat) :
    List Char → (line column : Nat) → (breaks : List Char) → (furthest : Nat) → Option BlockGap
  | [], line, column, breaks, furthest =>
    some ⟨[], line, column, breaks.reverse, max furthest column⟩
  | c :: rest, line, column, breaks, furthest =>
    let inside := indent == 0 || decide (column < indent)
    if inside && c == ' ' then blockGap? indent rest line (column + 1) breaks furthest
    else if inside && c == '\t' then none
    else if isBreak c then blockGap? indent rest (line + 1) 0 (c :: breaks) (max furthest column)
    else some ⟨c :: rest, line, column, breaks.reverse, max furthest column⟩

/-- What separates a line from the one before: an end of line between lines that do not start with
blank space is folded. -/
def blockSeparator (literal : Bool) (leading : Option Char) (blankBefore blankNow : Bool)
    (breaks : List Char) : List Char :=
  if !literal && leading == some '\n' && !blankBefore && !blankNow then
    if breaks.isEmpty then [' '] else breaks
  else leading.toList ++ breaks

/-- What stays at the end of a block. -/
def blockEnd (chomping : Chomping) (leading : Option Char) (breaks : List Char) : List Char :=
  match chomping with
  | .strip => []
  | .clip => leading.toList
  | .keep => leading.toList ++ breaks

/-- Read the lines of a block; `fuel` bounds their number. -/
def blockLines? (origin : Cursor) (literal : Bool) (chomping : Chomping) (indent : Nat) :
    (fuel : Nat) → BlockGap → (leading : Option Char) → (blankBefore : Bool) →
      (text : List Char) → Option ScalarText
  | 0, _, _, _, _ => none
  | fuel + 1, gap, leading, blankBefore, text =>
    if gap.column = indent ∧ gap.rest ≠ [] then
      let blankNow := (gap.rest.head?.map isBlank).getD false
      let content := gap.rest.takeWhile fun c => !isBreak c
      let text := text ++ blockSeparator literal leading blankBefore blankNow gap.breaks ++ content
      match gap.rest.dropWhile fun c => !isBreak c with
      | [] =>
        let next : BlockGap := ⟨[], gap.line, gap.column + content.length, [], 0⟩
        some ⟨String.ofList (text ++ blockEnd chomping none next.breaks),
          origin.jump [] next.line next.column, true⟩
      | c :: rest => do
        let next ← blockGap? indent rest (gap.line + 1) 0 [] 0
        blockLines? origin literal chomping indent fuel next (some c) blankNow text
    else
      some ⟨String.ofList (text ++ blockEnd chomping leading gap.breaks),
        origin.jump gap.rest gap.line gap.column, true⟩

/-- The block of lines at a place. `outer` is the indentation of the collection around it, with one
added; the lines are indented by at least as much. -/
def blockScalar? (literal : Bool) (outer : Nat) (c : Cursor) : Option ScalarText := do
  let (header, rest) := readHeader (c.rest.drop 1)
  let rest ← afterHeader? rest
  let written : Nat := match header.increment with
    | some n => outer - 1 + n
    | none => 0
  let gap ← blockGap? written rest (c.line + 1) 0 [] 0
  let indent := if written = 0 then max 1 (max gap.furthest outer) else written
  blockLines? c literal header.chomping indent (c.rest.length + 1) gap none false []

end Lineage.Yaml
