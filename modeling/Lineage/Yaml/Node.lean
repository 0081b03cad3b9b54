import Lineage.Dict
import Lineage.Yaml.Token

set_option autoImplicit false

/-!
# The nodes of documents

A document is one node: a scalar, a sequence of nodes, or a mapping of nodes to nodes. A reference
stands for a named node, which may contain the reference. Named nodes are numbered: a node has the
number of names that are in use when it starts. When a name is used again, its node can so get the
number of an earlier node, and then stands for that everywhere.

## Main definitions

* `Lineage.Yaml.Node`: nodes.
* `Lineage.Yaml.Tree`: a document with its named nodes.
* `Lineage.Yaml.Tree.ofText?`: the tree of a text with one document.
-/

namespace Lineage.Yaml

/-- A node of a document. -/
inductive Node where
  /-- A text, and the form in which it is written. -/
  | scalar (tag : Option String) (form : ScalarForm) (text : String)
  /-- A sequence. -/
  | sequence (tag : Option String) (items : List Node)
  /-- A mapping, its entries in order. -/
  | mapping (tag : Option String) (entries : List (Node × Node))
  /-- A reference to the named node with a number. -/
  | reference (number : Nat)

/-- A document with its named nodes. -/
structure Tree where
  /-- The node of the document. -/
  root : Node
  /-- The named nodes with their numbers; of two with one number the first counts. -/
  named : List (Nat × Node)

namespace Node

mutual

/-- How many parts a node has: one for a scalar or a reference, a start and an end for a
collection. -/
def size : Node → Nat
  | .scalar .. | .reference _ => 1
  | .sequence _ items => 2 + itemsSize items
  | .mapping _ entries => 2 + entriesSize entries

/-- How many parts items have. -/
def itemsSize : List Node → Nat
  | [] => 0
  | node :: rest => size node + itemsSize rest

/-- How many parts entries have. -/
def entriesSize : List (Node × Node) → Nat
  | [] => 0
  | (key, value) :: rest => size key + size value + entriesSize rest

end

/-- The node that is written with nothing. -/
def empty : Node := .scalar none .plain ""

/-- What is left of the tokens, and what is known of names and handles. -/
structure Reading where
  /-- The tokens that are left. -/
  tokens : List Token
  /-- What handles stand for. -/
  handles : Handles
  /-- The names in use with the numbers of their nodes. -/
  names : Dict Nat
  /-- The numbers of the named nodes, the latest start first. -/
  numbers : List Nat
  /-- The named nodes that are finished, each with how many started before it. -/
  finished : List (Nat × Node)

/-- Computations that read tokens and may fail. -/
abbrev Reader (α : Type) := StateT Reading Option α

/-- The next token. -/
def peek : Reader (Option Token) := do return (← get).tokens.head?

/-- Go on after the next token. -/
def skip : Reader Unit := modify fun r => { r with tokens := r.tokens.drop 1 }

/-- Start a node with a name; how many started before it. -/
def start (name : String) : Reader Nat := do
  let r ← get
  let number := r.names.length
  set { r with
    names := r.names.insert name number
    numbers := number :: r.numbers }
  return r.numbers.length

/-- Finish a node with a name. -/
def finish (place : Nat) (node : Node) : Reader Unit :=
  modify fun r => { r with finished := (place, node) :: r.finished }

/-- A reference to a name in use. -/
def referTo (name : String) : Reader Node := do
  match (← get).names.find? name with
  | some number => return .reference number
  | none => failure

/-- Read an optional name. -/
def readAnchor : Reader (Option String) := do
  match ← peek with
  | some (.anchor name) => skip; return some name
  | _ => return none

/-- Read an optional tag. -/
def readTag : Reader (Option String) := do
  match ← peek with
  | some (.tag name) =>
    skip
    match (← get).handles.resolve? name with
    | some text => return some text
    | none => failure
  | _ => return none

/-- Read an optional name and an optional tag, in either order. -/
def readProperties : Reader (Option String × Option String) := do
  match ← readAnchor with
  | some name => return (some name, ← readTag)
  | none =>
    let tag ← readTag
    return (← readAnchor, tag)

/-- The tag of a scalar; a mark without name is none. -/
def scalarTag (tag : Option String) : Option String := tag.filter fun text => text ≠ "!"

/-- Whether the value or key at a place of a block mapping is written with nothing. -/
def endsBlockPart : Option Token → Bool
  | some .key | some .value | some .blockEnd => true
  | _ => false

/-- Whether the item at a place of a block sequence is written with nothing. -/
def endsBlockItem : Option Token → Bool
  | some .blockEntry | some .blockEnd => true
  | _ => false

/-- Whether the item at a place of an indentless sequence is written with nothing. -/
def endsIndentlessItem (t : Option Token) : Bool := endsBlockPart t || t == some .blockEntry

/-- Whether the key or value at a place of a flow collection is written with nothing. -/
def endsFlowPart (close : Token) (t : Option Token) : Bool :=
  t == some .flowEntry || t == some close

mutual

/-- Read a node; `fuel` bounds the number of steps. A block collection counts where `block` is set,
a sequence without indentation of its own where `indentless` is. -/
def read : (fuel : Nat) → (block indentless : Bool) → Reader Node
  | 0, _, _ => failure
  | fuel + 1, block, indentless => do
    match ← peek with
    | some (.alias name) => skip; referTo name
    | _ => do
      let (anchor, tag) ← readProperties
      match anchor with
      | none => readContent fuel block indentless tag tag.isSome
      | some name => do
        let place ← start name
        let node ← readContent fuel block indentless tag true
        finish place node
        return node

/-- Read the content of a node after its name and tag. -/
def readContent : (fuel : Nat) → (block indentless : Bool) → (tag : Option String) →
    (hasProperties : Bool) → Reader Node
  | 0, _, _, _, _ => failure
  | fuel + 1, block, indentless, tag, hasProperties => do
    match ← peek with
    | some (.scalar form text) =>
      skip
      return .scalar (scalarTag tag) form text
    | some .flowSequence => do
      skip
      return .sequence tag (← readFlowItems fuel true)
    | some .flowMapping => do
      skip
      return .mapping tag (← readFlowEntries fuel true)
    | some .blockEntry =>
      if indentless then return .sequence tag (← readIndentless fuel)
      else if hasProperties then return .scalar tag .plain ""
      else failure
    | some .blockSequence =>
      if block then
        skip
        return .sequence tag (← readBlockItems fuel)
      else if hasProperties then return .scalar tag .plain ""
      else failure
    | some .blockMapping =>
      if block then
        skip
        return .mapping tag (← readBlockEntries fuel)
      else if hasProperties then return .scalar tag .plain ""
      else failure
    | _ => if hasProperties then return .scalar tag .plain "" else failure

/-- Read a node, or nothing in front of a token that ends it. -/
def readOr : (fuel : Nat) → (ends : Option Token → Bool) → (block indentless : Bool) → Reader Node
  | 0, _, _, _ => failure
  | fuel + 1, ends, block, indentless => do
    if ends (← peek) then return empty else read fuel block indentless

/-- Read the items of a block sequence. -/
def readBlockItems : (fuel : Nat) → Reader (List Node)
  | 0 => failure
  | fuel + 1 => do
    match ← peek with
    | some .blockEntry => do
      skip
      let item ← readOr fuel endsBlockItem true false
      return item :: (← readBlockItems fuel)
    | some .blockEnd => skip; return []
    | _ => failure

/-- Read the items of a sequence without indentation of its own. -/
def readIndentless : (fuel : Nat) → Reader (List Node)
  | 0 => failure
  | fuel + 1 => do
    match ← peek with
    | some .blockEntry => do
      skip
      let item ← readOr fuel endsIndentlessItem true false
      return item :: (← readIndentless fuel)
    | _ => return []

/-- Read the entries of a block mapping. -/
def readBlockEntries : (fuel : Nat) → Reader (List (Node × Node))
  | 0 => failure
  | fuel + 1 => do
    match ← peek with
    | some .key => do
      skip
      let key ← readOr fuel endsBlockPart true true
      let value ← readValue fuel endsBlockPart true
      return (key, value) :: (← readBlockEntries fuel)
    | some .blockEnd => skip; return []
    | _ => failure

/-- Read the value of an entry, which may be missing. -/
def readValue : (fuel : Nat) → (ends : Option Token → Bool) → (block : Bool) → Reader Node
  | 0, _, _ => failure
  | fuel + 1, ends, block => do
    match ← peek with
    | some .value => do
      skip
      readOr fuel ends block block
    | _ => return empty

/-- Read the key of an entry that is an item of a flow sequence. The token after a key that is
written with nothing is passed over. -/
def readPairKey : (fuel : Nat) → (ends : Option Token → Bool) → Reader Node
  | 0, _ => failure
  | fuel + 1, ends => do
    if ends (← peek) then
      skip
      return empty
    else read fuel false false

/-- Read the items of a flow sequence; an item with a key is a mapping of its own. -/
def readFlowItems : (fuel : Nat) → (first : Bool) → Reader (List Node)
  | 0, _ => failure
  | fuel + 1, first => do
    let mut next ← peek
    if !first && next == some .flowEntry then
      skip
      next ← peek
    else if !first && next != some .flowSequenceEnd then failure
    let ends := fun t => endsFlowPart .flowSequenceEnd t
    match next with
    | some .flowSequenceEnd => skip; return []
    | some .key => do
      skip
      let key ← readPairKey fuel (fun t => ends t || t == some .value)
      let value ← readValue fuel ends false
      return .mapping none [(key, value)] :: (← readFlowItems fuel false)
    | _ => do
      let item ← read fuel false false
      return item :: (← readFlowItems fuel false)

/-- Read the entries of a flow mapping; a key may stand without value. -/
def readFlowEntries : (fuel : Nat) → (first : Bool) → Reader (List (Node × Node))
  | 0, _ => failure
  | fuel + 1, first => do
    let mut next ← peek
    if !first && next == some .flowEntry then
      skip
      next ← peek
    else if !first && next != some .flowMappingEnd then failure
    let ends := fun t => endsFlowPart .flowMappingEnd t
    match next with
    | some .flowMappingEnd => skip; return []
    | some .key => do
      skip
      let key ← readOr fuel (fun t => ends t || t == some .value) false false
      let value ← readValue fuel ends false
      return (key, value) :: (← readFlowEntries fuel false)
    | _ => do
      let key ← read fuel false false
      return (key, empty) :: (← readFlowEntries fuel false)

end

/-- Whether a document has no content in front of a token. -/
def endsDocument : Option Token → Bool
  | some (.directive _) | some .documentStart | some .documentEnd | none => true
  | _ => false

/-- The directives in front of a list of tokens. -/
def leadingDirectives : List Token → List Directive
  | .directive content :: rest => content :: leadingDirectives rest
  | _ => []

/-- Read the only document. Directives need a mark of its start after them. -/
def readDocument (fuel : Nat) : Reader Node := do
  let directives := leadingDirectives (← get).tokens
  let handles ←
    match Handles.ofDirectives? directives with
    | some handles => pure handles
    | none => failure
  modify fun r => { r with
    tokens := r.tokens.drop directives.length
    handles := handles }
  let node ← match ← peek with
    | some .documentStart => do
      skip
      if endsDocument (← peek) then pure empty else read fuel true false
    | _ => if directives.isEmpty then read fuel true false else failure
  modify fun r => { r with tokens := r.tokens.dropWhile fun t => t == .documentEnd }
  match ← peek with
  | none => return node
  | some _ => failure

end Node

namespace Tree

/-- The named node with a number: the last one that was started. -/
def find? (tree : Tree) (number : Nat) : Option Node :=
  (tree.named.find? fun entry => entry.1 == number).map Prod.snd

/-- The tree of a node and what was known when it was read. -/
def ofReading (root : Node) (r : Node.Reading) : Tree :=
  let count := r.numbers.length
  ⟨root, r.numbers.zipIdx.filterMap fun entry =>
    (r.finished.find? fun node => node.1 + 1 + entry.2 == count).map fun node =>
      (entry.1, node.2)⟩

/-- The tree of tokens. -/
def ofTokens? (tokens : List Token) : Option Tree :=
  ((Node.readDocument (8 * tokens.length + 8)).run ⟨tokens, .default, [], [], []⟩).map fun result =>
    ofReading result.1 result.2

/-- The tree of a text with one document. -/
def ofText? (text : String) : Option Tree := (Token.ofText? text).bind ofTokens?

end Tree

end Lineage.Yaml
