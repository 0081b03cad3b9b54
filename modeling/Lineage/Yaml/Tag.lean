import Lineage.Yaml.Scalar

set_option autoImplicit false

/-!
# Tags and directives

The tag of a node is written in full, or as a handle and what follows it. A handle stands for the
text that a directive has declared for it. Characters of tags may be written as escapes, a percent
sign and two hexadecimal digits for each byte.

## Main definitions

* `Lineage.Yaml.TagName`, `Lineage.Yaml.TagName.read?`: tags as they are written.
* `Lineage.Yaml.Directive`, `Lineage.Yaml.Directive.read?`: directives.
* `Lineage.Yaml.Handles.ofDirectives?`: what the handles of a document stand for.
* `Lineage.Yaml.Handles.resolve?`: the tag that is meant.
-/

namespace Lineage.Yaml

/-- A tag as it is written. -/
structure TagName where
  /-- The handle; it is empty where the tag is written in full. -/
  handle : String
  /-- What follows the handle. -/
  suffix : String
  deriving DecidableEq, Repr

/-- A line that says how a document is to be read. -/
inductive Directive where
  /-- The version of the language. -/
  | version (major minor : Nat)
  /-- What a handle stands for. -/
  | handle (name text : String)
  deriving DecidableEq, Repr

/-- The characters of names. -/
def isNameChar (c : Char) : Bool := c.isAlphanum || c == '-' || c == '_'

/-- The characters of tags that stand for themselves; where a tag is written in full, some more. -/
def isTagChar (full : Bool) (c : Char) : Bool :=
  isNameChar c || [';', '/', '?', ':', '@', '&', '=', '+', '$', '.', '~', '*', '\'', '(', ')',
    '!'].contains c || (full && [',', '[', ']'].contains c)

namespace TagName

/-- How many bytes follow the first byte of a character, and what the first byte adds to it. -/
def leadByte? (byte : Nat) : Option (Nat × Nat) :=
  if byte < 0x80 then some (0, byte)
  else if 0xC0 ≤ byte ∧ byte < 0xE0 then some (1, byte - 0xC0)
  else if 0xE0 ≤ byte ∧ byte < 0xF0 then some (2, byte - 0xE0)
  else if 0xF0 ≤ byte ∧ byte < 0xF8 then some (3, byte - 0xF0)
  else none

/-- The character of escaped bytes. -/
def escaped (value : Nat) : Char := (characterOf? value).getD '\uFFFD'

/-- Read the characters of a tag. `pending` bytes of an escaped character are still to come after
those in `value`. -/
def readChars (full : Bool) : List Char → (pending value : Nat) → Option (List Char × List Char)
  | '%' :: a :: b :: rest, pending, value => do
    let byte ← hexNumber? [a, b]
    let (pending, value) ←
      match pending with
      | 0 => leadByte? byte
      | p + 1 => if 0x80 ≤ byte ∧ byte < 0xC0 then some (p, 64 * value + (byte - 0x80)) else none
    let (chars, after) ← readChars full rest pending value
    some (if pending = 0 then escaped value :: chars else chars, after)
  | c :: rest, 0, _ => do
    if c = '%' then none
    if isTagChar full c then
      let (chars, after) ← readChars full rest 0 0
      some (c :: chars, after)
    else some ([], c :: rest)
  | [], 0, _ => some ([], [])
  | _, _ + 1, _ => none

/-- The text of characters; it ends in front of a character with the number zero. -/
def textOf (cs : List Char) : String := String.ofList (cs.takeWhile fun c => c.toNat != 0)

/-- Read a text of tag characters that is not empty. -/
def readText (full : Bool) (cs : List Char) : Option (String × List Char) := do
  let (chars, rest) ← readChars full cs 0 0
  if chars.isEmpty then none else some (textOf chars, rest)

/-- Read a handle: an exclamation mark, and a name between that and another one. What has no second
mark is a handle only by itself. -/
def readHandle : List Char → Option (List Char × Bool × List Char)
  | '!' :: rest =>
    let name := rest.takeWhile isNameChar
    match rest.dropWhile isNameChar with
    | '!' :: after => some (name, true, after)
    | after => some (name, false, after)
  | _ => none

/-- The text of a handle with a second mark. -/
def closedHandle (name : List Char) : String := String.ofList ('!' :: name ++ ['!'])

/-- Read a tag. -/
def read? : List Char → Option (TagName × List Char)
  | '!' :: '<' :: rest => do
    let (text, rest) ← readText true rest
    match rest with
    | '>' :: after => some (⟨"", text⟩, after)
    | _ => none
  | cs => do
    let (name, closed, rest) ← readHandle cs
    if closed then
      let (text, rest) ← readText false rest
      some (⟨closedHandle name, text⟩, rest)
    else
      let (chars, rest) ← readChars false rest 0 0
      let suffix := textOf (name ++ chars)
      some (if suffix = "" then ⟨"", "!"⟩ else ⟨"!", suffix⟩, rest)

end TagName

namespace Directive

/-- Read a number of at most nine digits. -/
def readNumber (cs : List Char) : Option (Nat × List Char) :=
  let digits := cs.takeWhile Char.isDigit
  if digits.isEmpty ∨ 9 < digits.length then none
  else some (digits.foldl (fun n c => 10 * n + (c.toNat - 48)) 0, cs.dropWhile Char.isDigit)

/-- Read a version. -/
def readVersion (cs : List Char) : Option (Directive × List Char) := do
  let (major, rest) ← readNumber cs
  match rest with
  | '.' :: rest =>
    let (minor, rest) ← readNumber rest
    some (.version major minor, rest)
  | _ => none

/-- Read a handle and what it stands for. -/
def readDeclaration (cs : List Char) : Option (Directive × List Char) := do
  let (name, closed, rest) ← TagName.readHandle cs
  if !closed && !name.isEmpty then none
  if !(rest.head?.map isBlank).getD false then none
  let (text, rest) ← TagName.readText true (rest.dropWhile isBlank)
  if blankNext rest then
    some (.handle (if closed then TagName.closedHandle name else "!") text, rest)
  else none

/-- Read the words of a directive after its percent sign; blanks and a comment may follow up to the
end of the line. -/
def read? (cs : List Char) : Option (Directive × List Char) := do
  let name := String.ofList (cs.takeWhile isNameChar)
  let rest := cs.dropWhile isNameChar
  if !blankNext rest then none
  let words := rest.dropWhile isBlank
  let (directive, rest) ←
    if name = "YAML" then readVersion words
    else if name = "TAG" then readDeclaration words
    else none
  let rest := rest.dropWhile isBlank
  let rest := if rest.head? = some '#' then rest.dropWhile fun c => !isBreak c else rest
  match rest with
  | [] => some (directive, [])
  | c :: _ => if isBreak c then some (directive, rest) else none

end Directive

/-- What handles stand for. -/
abbrev Handles := List (String × String)

namespace Handles

/-- What handles stand for without directives. -/
def default : Handles := [("!", "!"), ("!!", "tag:yaml.org,2002:")]

/-- The version that a directive asks for. -/
def versionOf? : Directive → Option (Nat × Nat)
  | .version major minor => some (major, minor)
  | .handle .. => none

/-- The handle that a directive declares. -/
def declared? : Directive → Option (String × String)
  | .version .. => none
  | .handle name text => some (name, text)

/-- What handles stand for under directives. There may be one version, and one declaration of each
handle. -/
def ofDirectives? (directives : List Directive) : Option Handles :=
  let versions := directives.filterMap versionOf?
  let handles := directives.filterMap declared?
  let known := versions.all fun version => [(1, 1), (1, 2)].contains version
  if known ∧ versions.length ≤ 1 ∧ (handles.map Prod.fst).Nodup then some (handles ++ default)
  else none

/-- The tag that is meant; its handle has to be known. -/
def resolve? (handles : Handles) (tag : TagName) : Option String :=
  if tag.handle = "" then some tag.suffix
  else (handles.find? fun entry => entry.1 == tag.handle).map fun entry => entry.2 ++ tag.suffix

end Handles

end Lineage.Yaml
