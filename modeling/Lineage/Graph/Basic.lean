import Lineage.Graph.Node

set_option autoImplicit false

/-!
# The graph of nodes

A graph keeps nodes under their identifiers in the order in which they were added, a node after the
nodes it is made from. Adding a node that is there already changes nothing. The way from content to
identifier is a parameter, so that what holds of graphs holds for every digest.

## Main definitions

* `Lineage.Graph`: the nodes, the newest first.
* `Lineage.Graph.Build`: computations that add nodes and may fail, keeping what they added.
* `Lineage.Graph.insert`, `Lineage.Graph.place`: add a node.
* `Lineage.Graph.apply`, `Lineage.Graph.transformed`: add the nodes of a transform.
* `Lineage.Graph.sources`: the nodes that a node goes back to.
* `Lineage.Graph.render`: the graph in the DOT language.
-/

namespace Lineage

/-- Nodes under their identifiers, the newest first. -/
structure Graph where
  /-- The nodes, each in front of those it is made from. -/
  entries : List (NodeId × Node)

namespace Graph

/-- The graph without nodes. -/
def empty : Graph := ⟨[]⟩

/-- The number of nodes. -/
def size (g : Graph) : Nat := g.entries.length

/-- The identifiers in the order in which they were added. -/
def ids (g : Graph) : List NodeId := (g.entries.map Prod.fst).reverse

/-- The nodes in the order in which they were added. -/
def nodes (g : Graph) : List Node := (g.entries.map Prod.snd).reverse

/-- The node under an identifier. -/
def find? (g : Graph) (id : NodeId) : Option Node :=
  (g.entries.find? fun entry => entry.1 == id).map Prod.snd

/-- Whether there is a node under an identifier. -/
def contains (g : Graph) (id : NodeId) : Bool := (g.find? id).isSome

/-- The fault of an identifier without node. -/
def unknown (id : NodeId) : Fault := .invariant ("unknown dataspec " ++ id.hex)

/-- The node under an identifier, or a fault. -/
def node (g : Graph) (id : NodeId) : Outcome Node :=
  Outcome.ofOption (unknown id) (g.find? id)

/-- The nodes that a node is made from. -/
def parents (g : Graph) (id : NodeId) : Outcome (List NodeId) :=
  (g.node id).map Node.parents

/-- The newest node with a name. -/
def named? (g : Graph) (name : String) : Option NodeId :=
  (g.entries.find? fun entry => entry.2.name == name).map Prod.fst

/-- The graph with a node under an identifier, unless there is one already. -/
def add (g : Graph) (id : NodeId) (node : Node) : Graph :=
  if g.contains id then g else ⟨(id, node) :: g.entries⟩

/-- The fault of a node made from one that is missing. -/
def unknownParent (node : Node) (parent : NodeId) : Fault :=
  .invariant ("node '" ++ node.name ++ "' refers to unknown parent " ++ parent.hex)

/-- A computation that adds nodes; when it fails, the nodes added so far stay. -/
abbrev Build (α : Type) := ExceptT Fault (StateM Graph) α

/-- Run a computation: its outcome and the graph it leaves. -/
def Build.run {α : Type} (build : Build α) (g : Graph) : Outcome α × Graph :=
  StateT.run (ExceptT.run build) g

section Building

variable (idOf : Node → NodeId)

/-- Add a node. The nodes it is made from have to be there. -/
def insert (node : Node) : Build NodeId := do
  let g ← get
  match node.parents.find? fun parent => !g.contains parent with
  | some parent => throw (unknownParent node parent)
  | none =>
    let id := idOf node
    set (g.add id node)
    return id

/-- Add rows read from outside. -/
def source (name uri : String) (schema : Schema) : Build NodeId :=
  insert idOf (.ofOrigin name .dataset (.source uri schema))

/-- Add a given value. -/
def scalar (name : String) (value : Json) : Build NodeId :=
  insert idOf (.ofOrigin name .scalar (.value value))

/-- The fault of a step with a number of parents other than one. -/
def wrongParents (content : Step) (count : Nat) : Fault :=
  .invariant (content.kindName ++ " expects exactly one parent, got " ++ toString count)

/-- The fault of a step on a single value. -/
def scalarParent (content : Step) (parent : Node) : Fault :=
  .invariant (content.kindName ++ " expects a dataset parent, '" ++ parent.name ++ "' is a scalar")

/-- The kind of node that a step makes: external operations say it, all other steps take exactly
one dataset and make one. -/
def kindOf (g : Graph) (content : Step) (arguments : List NodeId) (named : Dict NodeId) :
    Outcome NodeKind :=
  match content with
  | .external call => .ok call.returns
  | _ =>
    match arguments, named with
    | [parent], [] => do
      let node ← g.node parent
      if node.isDataset then .ok .dataset else .error (scalarParent content node)
    | _, _ => .error (wrongParents content (arguments.length + named.length))

/-- Add the node of one step. -/
def place (name : String) (heading : Heading) (content : Step) (arguments : List NodeId)
    (named : Dict NodeId) : Build NodeId := do
  let kind ← ExceptT.mk (pure (kindOf (← get) content arguments named))
  insert idOf (.ofOrigin name kind (.transformed (.step heading content) arguments named))

/-- The fault of a variable where a node has to be made. -/
def variableNode : Fault := .invalidInput "a variable transform cannot produce a node"

/-- The fault of a variable without argument. -/
def unbound : Fault := .invalidInput "Cannot substitute all variables"

mutual

/-- Add the nodes of a transform: variables stand for given nodes, each step becomes a node. -/
def apply (arguments : List NodeId) (named : Dict NodeId) : Transform → Build NodeId
  | .variable _ position =>
    match position.find? arguments named with
    | some id => return id
    | none => throw unbound
  | .step heading content => place idOf heading.name heading content arguments named
  | .composed _ head inner innerNamed => do
    let args ← applyAll arguments named inner
    let namedArgs ← applyNamed arguments named innerNamed
    match head with
    | .step heading content => place idOf heading.name heading content args (Dict.ofList namedArgs)
    | .variable .. => throw variableNode
    | .composed h t ts ns => apply args (Dict.ofList namedArgs) (.composed h t ts ns)

/-- Add the nodes of a list of transforms. -/
def applyAll (arguments : List NodeId) (named : Dict NodeId) :
    List Transform → Build (List NodeId)
  | [] => return []
  | t :: rest => do
    let id ← apply arguments named t
    return id :: (← applyAll arguments named rest)

/-- Add the nodes of named transforms. -/
def applyNamed (arguments : List NodeId) (named : Dict NodeId) :
    List (String × Transform) → Build (Dict NodeId)
  | [] => return []
  | (name, t) :: rest => do
    let id ← apply arguments named t
    return (name, id) :: (← applyNamed arguments named rest)

end

/-- Add a node of a given name for a step; for a composition, add its nodes under their own
names. -/
def transformedAs (name : String) (t : Transform) (arguments : List NodeId)
    (named : Dict NodeId) : Build NodeId :=
  match t with
  | .step heading content => place idOf name heading content arguments named
  | .variable .. => throw variableNode
  | .composed .. => apply idOf arguments named t

/-- Add a node named after its transform. -/
def transformed (t : Transform) (arguments : List NodeId) : Build NodeId :=
  transformedAs idOf t.name t arguments []

end Building

/-- The nodes among `entries` that are not made from others and that the wanted ones go back to. -/
def sourcesIn : List (NodeId × Node) → List NodeId → List NodeId
  | [], _ => []
  | (id, node) :: older, wanted =>
    if wanted.contains id then
      if node.isSource then id :: sourcesIn older wanted
      else sourcesIn older (node.parents ++ wanted)
    else sourcesIn older wanted

/-- The nodes that are not made from others and that a node goes back to, sorted by bytes. -/
def sources (g : Graph) (id : NodeId) : Outcome (List NodeId) := do
  let _ ← g.node id
  .ok ((sourcesIn g.entries [id]).mergeSort NodeId.le)

/-- A name inside double quotes. -/
def quotable (name : String) : String :=
  String.ofList (name.toList.map fun c => if c = '"' then '\'' else c)

/-- The lines of one node: its box, then an edge from each node it is made from. -/
def renderNode (id : NodeId) (node : Node) : List String :=
  let shape := match node.kind with
    | .dataset => "box"
    | .scalar => "ellipse"
  let box := "  \"" ++ id.hex ++ "\" [label=\"" ++ quotable node.name ++ " (" ++ id.short
    ++ ")\", shape=" ++ shape ++ "];\n"
  match node.transform? with
  | none => [box]
  | some t =>
    box :: node.parents.map fun parent =>
      "  \"" ++ parent.hex ++ "\" -> \"" ++ id.hex ++ "\" [label=\"" ++ t.kindName ++ "\"];\n"

/-- The graph in the DOT language. -/
def render (g : Graph) : String :=
  "digraph \x7b\n"
    ++ String.join (g.entries.reverse.flatMap fun entry => renderNode entry.1 entry.2)
    ++ "\x7d\n"

end Graph

end Lineage
