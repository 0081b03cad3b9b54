import Lineage.Yaml.Tag

set_option autoImplicit false

/-!
# The tokens of documents

Indentation opens and closes block collections; brackets open and close flow collections. What
turns out to be the key of a mapping when its colon is read has its token put in front of it
afterwards.

## Main definitions

* `Lineage.Yaml.Token`: the tokens.
* `Lineage.Yaml.KeyCandidate`: a place where a key may have started.
* `Lineage.Yaml.Scan`: what is known while tokens are read.
* `Lineage.Yaml.Token.ofText?`: the tokens of a text.
-/

namespace Lineage.Yaml

/-- The tokens of documents. -/
inductive Token where
  /-- A line that says how a document is to be read. -/
  | directive (content : Directive)
  /-- The mark of the start of a document. -/
  | documentStart
  /-- The mark of the end of a document. -/
  | documentEnd
  /-- A block sequence starts. -/
  | blockSequence
  /-- A block mapping starts. -/
  | blockMapping
  /-- A block collection ends. -/
  | blockEnd
  /-- A flow sequence starts. -/
  | flowSequence
  /-- A flow sequence ends. -/
  | flowSequenceEnd
  /-- A flow mapping starts. -/
  | flowMapping
  /-- A flow mapping ends. -/
  | flowMappingEnd
  /-- The mark of an item of a block sequence. -/
  | blockEntry
  /-- The mark between items of a flow collection. -/
  | flowEntry
  /-- A key of a mapping follows. -/
  | key
  /-- The value of a key follows. -/
  | value
  /-- A reference to a named node. -/
  | alias (name : String)
  /-- The name of the next node. -/
  | anchor (name : String)
  /-- The tag of the next node. -/
  | tag (name : TagName)
  /-- A scalar, and its form. -/
  | scalar (form : ScalarForm) (text : String)
  deriving DecidableEq, Repr

/-- A place where a key may have started. -/
structure KeyCandidate where
  /-- Whether there must be a key: at the indentation of a block mapping. -/
  required : Bool
  /-- How many tokens came before. -/
  place : Nat
  /-- How many bytes came before. -/
  index : Nat
  /-- The line. -/
  line : Nat
  /-- The column. -/
  column : Nat

/-- What is known while tokens are read. -/
structure Scan where
  /-- What is left of the text. -/
  cursor : Cursor
  /-- The tokens so far. -/
  tokens : Array Token
  /-- The columns of the open block collections, the innermost first. -/
  indents : List Nat
  /-- For the block context and every open flow collection, where its next key may have started,
  the innermost first. -/
  keys : List (Option KeyCandidate)
  /-- Whether a key may start here. -/
  keyAllowed : Bool

namespace Scan

/-- The start of a text. -/
def start (cs : List Char) : Scan := ⟨.start cs, #[], [], [none], true⟩

/-- Whether a flow collection is open. -/
def inFlow (s : Scan) : Bool := decide (1 < s.keys.length)

/-- The first column after the innermost block collection. -/
def outer (s : Scan) : Nat :=
  match s.indents with
  | [] => 0
  | column :: _ => column + 1

/-- Add a token. -/
def emit (s : Scan) (t : Token) : Scan := { s with tokens := s.tokens.push t }

/-- Go on after characters that do not end the line. -/
def advance (s : Scan) (n : Nat) : Scan := { s with cursor := s.cursor.advance n }

/-- Set whether a key may start. -/
def allowKey (s : Scan) (allowed : Bool) : Scan := { s with keyAllowed := allowed }

/-- Blank space and comments are read up to the next token; a new line allows a key. The mark of a
byte order may stand in front of a line. -/
def skipFrom (origin : Cursor) (inFlow : Bool) :
    List Char → (line column : Nat) → (keyAllowed comment : Bool) → Cursor × Bool
  | [], line, column, keyAllowed, _ => (origin.jump [] line column, keyAllowed)
  | c :: rest, line, column, keyAllowed, comment =>
    if isBreak c then
      skipFrom origin inFlow rest (line + 1) 0 (keyAllowed || !inFlow) false
    else if comment || c == ' ' || (c == '\t' && (inFlow || !keyAllowed)) then
      skipFrom origin inFlow rest line (column + 1) keyAllowed comment
    else if c = '#' then skipFrom origin inFlow rest line (column + 1) keyAllowed true
    else if column == 0 && c == byteOrderMark then
      skipFrom origin inFlow rest line (column + 1) keyAllowed false
    else (origin.jump (c :: rest) line column, keyAllowed)

/-- Go to the next token. -/
def skipBlank (s : Scan) : Scan :=
  let c := s.cursor
  let (cursor, keyAllowed) := skipFrom c s.inFlow c.rest c.line c.column s.keyAllowed false
  { s with cursor := cursor, keyAllowed := keyAllowed }

/-- A candidate for a key is given up after its line or after 1024 bytes; one that must be a
key may not be. -/
def refresh? (c : Cursor) : Option KeyCandidate → Option (Option KeyCandidate)
  | none => some none
  | some k =>
    if k.line < c.line ∨ k.index + 1024 < c.index then
      if k.required then none else some none
    else some (some k)

/-- Give up candidates for keys that are too far back. -/
def dropStale (s : Scan) : Option Scan :=
  (s.keys.mapM (refresh? s.cursor)).map fun keys => { s with keys := keys }

/-- Close the block collections that are further to the right than a column. -/
def closeBlocks (column : Nat) : List Nat → Array Token → List Nat × Array Token
  | [], tokens => ([], tokens)
  | indent :: rest, tokens =>
    if column < indent then closeBlocks column rest (tokens.push .blockEnd)
    else (indent :: rest, tokens)

/-- Close block collections in front of a token at a column. -/
def unroll (s : Scan) (column : Nat) : Scan :=
  if s.inFlow then s
  else
    let (indents, tokens) := closeBlocks column s.indents s.tokens
    { s with indents := indents, tokens := tokens }

/-- Close all block collections. -/
def unrollAll (s : Scan) : Scan :=
  if s.inFlow then s
  else
    { s with indents := [], tokens := s.tokens ++ (s.indents.map fun _ => Token.blockEnd).toArray }

/-- Open a block collection at a column, unless the innermost one is there already; its token goes
to a place among the tokens. -/
def roll (s : Scan) (column place : Nat) (t : Token) : Scan :=
  if s.inFlow || decide (column < s.outer) then s
  else
    { s with
      indents := column :: s.indents
      tokens := s.tokens.insertIdxIfInBounds place t }

/-- Give up the candidate for a key of the innermost collection. -/
def dropKey (s : Scan) : Option Scan :=
  match s.keys with
  | some k :: rest => if k.required then none else some { s with keys := none :: rest }
  | _ => some s

/-- Take this place as a candidate for a key, if one may start here. -/
def markKey (s : Scan) : Option Scan :=
  if !s.keyAllowed then some s
  else do
    let c := s.cursor
    let required := !s.inFlow && s.indents.head? == some c.column
    let s ← s.dropKey
    match s.keys with
    | _ :: rest =>
      some { s with keys := some ⟨required, s.tokens.size, c.index, c.line, c.column⟩ :: rest }
    | [] => none

/-- A directive line. -/
def directive (s : Scan) : Option Scan := do
  let s ← s.unrollAll.dropKey
  let cs := s.cursor.rest
  let (content, rest) ← Directive.read? (cs.drop 1)
  some (((s.advance (cs.length - rest.length)).emit (.directive content)).allowKey false)

/-- The mark of the start or the end of a document. -/
def documentMark (s : Scan) (t : Token) : Option Scan := do
  let s ← s.unrollAll.dropKey
  some (((s.advance 3).emit t).allowKey false)

/-- A flow collection starts. -/
def openFlow (s : Scan) (t : Token) : Option Scan := do
  let s ← s.markKey
  some ((({ s with keys := none :: s.keys }).advance 1).emit t |>.allowKey true)

/-- A flow collection ends. -/
def closeFlow (s : Scan) (t : Token) : Option Scan := do
  let s ← s.dropKey
  let s := if s.inFlow then { s with keys := s.keys.drop 1 } else s
  some (((s.advance 1).emit t).allowKey false)

/-- The mark between items of a flow collection. -/
def flowEntry (s : Scan) : Option Scan := do
  let s ← s.dropKey
  some (((s.advance 1).emit .flowEntry).allowKey true)

/-- The mark of an item of a block sequence. -/
def blockEntry (s : Scan) : Option Scan := do
  if !s.inFlow && !s.keyAllowed then none
  let s := s.roll s.cursor.column s.tokens.size .blockSequence
  let s ← s.dropKey
  some (((s.advance 1).emit .blockEntry).allowKey true)

/-- The mark of a key that may have parts. -/
def explicitKey (s : Scan) : Option Scan := do
  if !s.inFlow && !s.keyAllowed then none
  let s := s.roll s.cursor.column s.tokens.size .blockMapping
  let s ← s.dropKey
  some (((s.advance 1).emit .key).allowKey !s.inFlow)

/-- The mark of a value: what came before it on the line was its key. -/
def valueMark (s : Scan) : Option Scan :=
  match s.keys with
  | some k :: rest =>
    let s : Scan := { s with
      keys := none :: rest
      tokens := s.tokens.insertIdxIfInBounds k.place .key }
    let s := s.roll k.column k.place .blockMapping
    some (((s.advance 1).emit .value).allowKey false)
  | _ => do
    if !s.inFlow && !s.keyAllowed then none
    let s := s.roll s.cursor.column s.tokens.size .blockMapping
    some (((s.advance 1).emit .value).allowKey !s.inFlow)

/-- Whether a name may end in front of a text. -/
def endsName : List Char → Bool
  | [] => true
  | c :: _ => isBlank c || isBreak c || ['?', ':', ',', ']', '\x7d', '%', '@', '\x60'].contains c

/-- The name of a node, or a reference to one. -/
def nodeName (s : Scan) (t : String → Token) : Option Scan := do
  let s ← s.markKey
  let cs := s.cursor.rest.drop 1
  let name := cs.takeWhile isNameChar
  if name.isEmpty ∨ !endsName (cs.drop name.length) then none
  else some (((s.advance (name.length + 1)).emit (t (String.ofList name))).allowKey false)

/-- The tag of a node. -/
def nodeTag (s : Scan) : Option Scan := do
  let s ← s.markKey
  let cs := s.cursor.rest
  let (name, rest) ← TagName.read? cs
  if blankNext rest || (s.inFlow && rest.head? == some ',') then
    some (((s.advance (cs.length - rest.length)).emit (.tag name)).allowKey false)
  else none

/-- Go on after a scalar. -/
def take (s : Scan) (form : ScalarForm) (t : ScalarText) : Scan :=
  ({ s with cursor := t.cursor }).emit (.scalar form t.text)

/-- A scalar between quotes. -/
def quoted (s : Scan) (quote : Char) : Option Scan := do
  let s ← s.markKey
  let t ← quotedScalar? quote s.cursor
  some ((s.take .quoted t).allowKey false)

/-- A scalar that is a block of lines. -/
def block (s : Scan) (literal : Bool) : Option Scan := do
  let s ← s.dropKey
  let t ← blockScalar? literal s.outer s.cursor
  some ((s.take (if literal then .literal else .folded) t).allowKey true)

/-- A plain scalar. -/
def plain (s : Scan) : Option Scan := do
  let s ← s.markKey
  let t ← plainScalar? s.inFlow s.outer s.cursor
  some ((s.take .plain t).allowKey t.brokeLine)

/-- Whether a plain scalar may start with a character. -/
def startsPlain (inFlow : Bool) (c : Char) (rest : List Char) : Bool :=
  if ['?', ':'].contains c then !inFlow && !blankNext rest
  else if c = '-' then !((rest.head?.map isBlank).getD false)
  else !(['\t', ',', '[', ']', '\x7b', '\x7d', '#', '&', '*', '!', '|', '>', '\'', '"', '%', '@',
    '\x60'].contains c)

/-- Read the token at a place. -/
def token (s : Scan) (c : Char) (rest : List Char) : Option Scan :=
  let lineStart := s.cursor.column == 0
  let mark (c : Char) : Bool := lineStart && Cursor.startsWithMark c s.cursor.rest
  let alone := blankNext rest
  if lineStart && c == '%' then s.directive
  else if mark '-' then s.documentMark .documentStart
  else if mark '.' then s.documentMark .documentEnd
  else if c = '[' then s.openFlow .flowSequence
  else if c = '\x7b' then s.openFlow .flowMapping
  else if c = ']' then s.closeFlow .flowSequenceEnd
  else if c = '\x7d' then s.closeFlow .flowMappingEnd
  else if c = ',' then s.flowEntry
  else if c == '-' && alone then s.blockEntry
  else if c == '?' && (s.inFlow || alone) then s.explicitKey
  else if c == ':' && (s.inFlow || alone) then s.valueMark
  else if c = '*' then s.nodeName .alias
  else if c = '&' then s.nodeName .anchor
  else if c = '!' then s.nodeTag
  else if c == '|' && !s.inFlow then s.block true
  else if c == '>' && !s.inFlow then s.block false
  else if c = '\'' ∨ c = '"' then s.quoted c
  else if startsPlain s.inFlow c rest then s.plain
  else none

/-- Read all tokens; `fuel` bounds their number. -/
def run : (fuel : Nat) → Scan → Option (List Token)
  | 0, _ => none
  | fuel + 1, s => do
    let s ← s.skipBlank.dropStale
    match s.cursor.rest with
    | [] =>
      let s ← s.unrollAll.dropKey
      some s.tokens.toList
    | c :: rest => run fuel (← (s.unroll s.cursor.column).token c rest)

end Scan

/-- The tokens of a text; none if it is ill-formed. -/
def Token.ofText? (text : String) : Option (List Token) := do
  let cs ← characters? text
  Scan.run (2 * cs.length + 2) (.start cs)

end Lineage.Yaml
