import Lineage.Number.Reader
import Lineage.Yaml.Node

set_option autoImplicit false

/-!
# The values of nodes

A plain scalar may be a number, a truth value or null. Where the reader of a document knows what it
wants, a scalar is read as that; otherwise its form decides. References are followed where they are
met. Their number is limited, as they may stand for one another again and again.

## Main definitions

* `Lineage.Yaml.boolOfText?`, `Lineage.Yaml.wholeOfText?`, `Lineage.Yaml.floatOfText?`: the forms
  of plain scalars.
* `Lineage.Yaml.Resolve`, `Lineage.Yaml.Node.follow`: reading with references.
* `Lineage.Yaml.Node.readText` and the like: nodes read as what is wanted.
* `Lineage.Yaml.Value`, `Lineage.Yaml.Value.ofNode`: nodes read by their form.
-/

namespace Lineage.Yaml

open Number (isDigit natOfDigits?)

/-- The words for null. -/
def isNullText (text : String) : Bool := ["null", "Null", "NULL", "~"].contains text

/-- A word for a truth value. -/
def boolOfText? (text : String) : Option Bool :=
  if ["true", "True", "TRUE"].contains text then some true
  else if ["false", "False", "FALSE"].contains text then some false
  else none

/-- Without a plus in front. -/
def withoutPlus : List Char → List Char
  | '+' :: rest => rest
  | cs => cs

/-- Whether a sign stands first. -/
def hasSign : List Char → Bool
  | '+' :: _ | '-' :: _ => true
  | _ => false

/-- Digits after a zero in front, which are no number. -/
def isPaddedDigits (cs : List Char) : Bool :=
  match (if hasSign cs then cs.drop 1 else cs) with
  | '0' :: c :: rest => (c :: rest).all isDigit
  | _ => false

/-- The digit of a base. -/
def digitOf? (base : Nat) (c : Char) : Option Nat :=
  (hexValue? c).filter fun d => d < base

/-- The number that digits of a base write; there is at least one. -/
def natOfBase? (base : Nat) (cs : List Char) : Option Nat :=
  if cs.isEmpty then none
  else cs.foldlM (fun n c => (digitOf? base c).map fun d => base * n + d) 0

/-- A number with the mark of its base in front. -/
def natOfMarked? : List Char → Option Nat
  | '0' :: 'x' :: rest => natOfBase? 16 rest
  | '0' :: 'o' :: rest => natOfBase? 8 rest
  | '0' :: 'b' :: rest => natOfBase? 2 rest
  | _ => none

/-- A whole number without minus. -/
def natOfChars? (cs : List Char) : Option Nat :=
  let body := withoutPlus cs
  if hasSign body then none
  else
    match natOfMarked? body with
    | some n => some n
    | none => if isPaddedDigits cs then none else natOfDigits? body

/-- The size of a whole number with a minus. -/
def negativeOfChars? : List Char → Option Nat
  | '-' :: rest =>
    match natOfMarked? rest with
    | some n => some n
    | none => if isPaddedDigits rest then none else natOfDigits? rest
  | _ => none

/-- A whole number: whether it is written with a minus, and its size. -/
def wholeOfText? (text : String) : Option (Bool × Nat) :=
  match natOfChars? text.toList with
  | some n => some (false, n)
  | none => (negativeOfChars? text.toList).map fun n => (true, n)

/-- The words for numbers that are not finite. -/
def specialOfText? (text : String) : Option Float :=
  if [".inf", ".Inf", ".INF", "+.inf", "+.Inf", "+.INF"].contains text then some Binary64.infinity
  else if ["-.inf", "-.Inf", "-.INF"].contains text then some Binary64.negInfinity
  else if [".nan", ".NaN", ".NAN"].contains text then some Binary64.notANumber
  else none

/-- A decimal, which must be finite, or a word for a number that is not. -/
def floatOfText? (text : String) : Option Float :=
  match specialOfText? text with
  | some x => some x
  | none =>
    let body := withoutPlus text.toList
    if text.toList.head? == some '+' && hasSign body then none
    else (Number.floatOfText? (String.ofList body)).filter Binary64.isFinite

/-- The tags of the standard. -/
def standardTag (name : String) : String := "tag:yaml.org,2002:" ++ name

/-- The tag of null. -/
def nullTag : String := standardTag "null"

/-- Computations that read a document, may follow references, and may fail; the state is how many
references have been followed. -/
abbrev Resolve (α : Type) := ReaderT Tree (StateT Nat Option) α

/-- How many references may be followed for every part of a document. -/
def referencesPerPart : Nat := 100

/-- The document that is read. -/
def Resolve.tree : Resolve Tree := read

/-- What does not depend on the document. -/
def Resolve.ofOption {α : Type} : Option α → Resolve α
  | some a => pure a
  | none => failure

/-- The result of a computation on a document. -/
def Tree.read? {α : Type} (tree : Tree) (read : Node → Resolve α) : Option α :=
  ((read tree.root).run tree).run' 0

namespace Node

/-- The node that a reference stands for. -/
def follow (node : Node) : Resolve Node := do
  match node with
  | .reference number => do
    let tree ← Resolve.tree
    let count := (← get) + 1
    if referencesPerPart * tree.root.size < count then failure
    set count
    Resolve.ofOption (tree.find? number)
  | _ => return node

/-- A scalar of any form, as a text. -/
def readText (node : Node) : Resolve String := do
  match ← node.follow with
  | .scalar _ _ text => return text
  | _ => failure

/-- A scalar that is plain, or a literal block with the tag of a sort. -/
def readSort {α : Type} (sort : String) (parse : String → Option α) (node : Node) : Resolve α := do
  match ← node.follow with
  | .scalar tag form text =>
    if form = .plain ∨ (form = .literal ∧ tag = some (standardTag sort)) then
      Resolve.ofOption (parse text)
    else failure
  | _ => failure

/-- A truth value. -/
def readBool : Node → Resolve Bool := readSort "bool" boolOfText?

/-- A whole number of 64 bits without sign. -/
def readNat64 : Node → Resolve Nat :=
  readSort "int" fun text => (natOfChars? text.toList).filter fun n => n < Number.word64

/-- A double. -/
def readFloat : Node → Resolve Float := readSort "float" floatOfText?

/-- Something that may be absent: a plain scalar that is empty or a word for null. -/
def readOption {α : Type} (read : Node → Resolve α) (node : Node) : Resolve (Option α) := do
  let node ← node.follow
  match node with
  | .scalar none .plain text =>
    if text = "" ∨ isNullText text then return none else some <$> read node
  | .scalar (some tag) .plain text =>
    if tag = nullTag then (if isNullText text then return none else failure)
    else some <$> read node
  | _ => some <$> read node

/-- A sequence; nothing at all counts as one without items. -/
def readList {α : Type} (read : Node → Resolve α) (node : Node) : Resolve (List α) := do
  match ← node.follow with
  | .sequence _ items => items.mapM read
  | .scalar _ .plain "" => return []
  | _ => failure

/-- The entries of a mapping whose keys are texts; nothing at all counts as one without entries. -/
def readEntries (node : Node) : Resolve (List (String × Node)) := do
  match ← node.follow with
  | .mapping _ entries => entries.mapM fun entry => return (← entry.1.readText, entry.2)
  | .scalar _ .plain "" => return []
  | _ => failure

/-- The members of a record with known names: the entries under them, each at most once. Other
entries are ignored. -/
def readRecord (names : List String) (node : Node) : Resolve (List (String × Node)) := do
  let known := (← node.readEntries).filter fun entry => names.contains entry.1
  if (known.map Prod.fst).Nodup then return known else failure

end Node

/-- A node read by its form. -/
inductive Value where
  /-- Nothing. -/
  | null
  /-- A truth value. -/
  | bool (value : Bool)
  /-- A whole number: whether it is written with a minus, and its size. -/
  | int (negative : Bool) (size : Nat)
  /-- A double. -/
  | float (value : Float)
  /-- A text. -/
  | text (value : String)
  /-- A list. -/
  | list (items : List Value)
  /-- Entries in order. -/
  | map (entries : List (Value × Value))

namespace Value

/-- A whole number of 64 bits; longer ones of up to 128 bits are refused, still longer ones are no
whole numbers. -/
def ofWhole? : Bool × Nat → Option (Option Value)
  | (negative, size) =>
    if size < (if negative then Number.pow2 63 + 1 else Number.word64) then
      some (some (.int negative size))
    else if size < (if negative then Number.pow2 127 + 1 else Number.pow2 128) then some none
    else none

/-- The value of a plain scalar. -/
def ofPlain? (text : String) : Option Value :=
  if text = "" ∨ isNullText text then some .null
  else
    match boolOfText? text with
    | some b => some (.bool b)
    | none =>
      match (wholeOfText? text).bind ofWhole? with
      | some value => value
      | none =>
        if isPaddedDigits text.toList then some (.text text)
        else
          match floatOfText? text with
          | some x => some (.float x)
          | none => some (.text text)

/-- The value of a scalar with a tag of the standard. -/
def ofTagged? (tag text : String) : Option Value :=
  if tag = standardTag "bool" then (boolOfText? text).map .bool
  else if tag = standardTag "int" then ((wholeOfText? text).bind ofWhole?).bind id
  else if tag = standardTag "float" then (floatOfText? text).map .float
  else if tag = nullTag then (if isNullText text then some .null else none)
  else some (.text text)

/-- Whether a tag names an alternative of the document's own. -/
def isLocal (tag : Option String) : Bool :=
  (tag.map fun text => text.toList.head? == some '!').getD false

/-- The value of a scalar; one with a tag of its own has none. -/
def ofScalar? (tag : Option String) (form : ScalarForm) (text : String) : Option Value :=
  match tag with
  | none => if form = .plain then ofPlain? text else some (.text text)
  | some name => if isLocal tag then none else ofTagged? name text

/-- The value of a node whose collections nest at most so deep; nodes with tags of their own have
none. -/
def ofNode : (depth : Nat) → Node → Resolve Value
  | 0, node => do
    match ← node.follow with
    | .scalar tag form content => Resolve.ofOption (ofScalar? tag form content)
    | _ => failure
  | depth + 1, node => do
    match ← node.follow with
    | .scalar tag form content => Resolve.ofOption (ofScalar? tag form content)
    | .sequence tag items =>
      if isLocal tag then failure else .list <$> items.mapM (ofNode depth)
    | .mapping tag entries =>
      if isLocal tag then failure
      else
        .map <$> entries.mapM fun entry => do
          return (← ofNode depth entry.1, ← ofNode depth entry.2)
    | .reference _ => failure

/-- A text. -/
def asText? : Value → Option String
  | .text value => some value
  | _ => none

/-- A whole number. -/
def asInt? : Value → Option Int
  | .int negative size => some (if negative then -(size : Int) else size)
  | _ => none

/-- A whole number in an interval. -/
def asIntIn? (lo hi : Int) (value : Value) : Option Int :=
  value.asInt?.filter fun n => lo ≤ n ∧ n ≤ hi

/-- A whole number of 64 bits without sign. -/
def asNat64? (value : Value) : Option Nat := (asIntIn? 0 (Number.word64 - 1) value).map Int.toNat

/-- A whole number of 64 bits with sign. -/
def asInt64? : Value → Option Int := asIntIn? Number.least64 Number.greatest64

/-- A double; a whole number counts as the nearest one. -/
def asFloat? : Value → Option Float
  | .float x => some x
  | value => value.asInt?.map Float.ofInt

/-- Something that may be absent. -/
def asOption? {α : Type} (read : Value → Option α) : Value → Option (Option α)
  | .null => some none
  | value => (read value).map some

/-- A list. -/
def asList? {α : Type} (read : Value → Option α) : Value → Option (List α)
  | .list items => items.mapM read
  | _ => none

/-- The members of a record with known names: entries under their names or the numbers of their
places, each at most once; or a list with the members in order, not more than there are names. -/
def asRecord? (names : List String) : Value → Option (List (String × Value))
  | .list items => if items.length ≤ names.length then some (names.zip items) else none
  | .map entries => do
    let named ← entries.mapM fun entry =>
      match entry.1 with
      | .text name => some (if names.contains name then some (name, entry.2) else none)
      | .int false place => some ((names[place]?).map fun name => (name, entry.2))
      | _ => none
    let known := named.filterMap id
    if (known.map Prod.fst).Nodup then some known else none
  | _ => none

end Value

end Lineage.Yaml
