import Lineage.Digest
import Lineage.Schema.Basic
import Lineage.Transform.Json

set_option autoImplicit false

/-!
# Nodes of the graph

A node names a dataset or a scalar and says where it comes from: from outside, from a given value,
or from other nodes by a transform. It is identified by its content.

## Main definitions

* `Lineage.Origin`, `Lineage.Node`: nodes and where they come from.
* `Lineage.Node.parents`: the nodes that a node is made from.
* `Lineage.Node.toJson`, `Lineage.Node.ofJson?`: writing and reading.
* `Lineage.Node.id`: the identifier, from the digest of the written form.
-/

namespace Lineage

/-- Where a node comes from. -/
inductive Origin where
  /-- Rows read from outside. -/
  | source (uri : String) (schema : Schema)
  /-- A given value. -/
  | value (content : Json)
  /-- Made from other nodes. -/
  | transformed (transform : Transform) (arguments : List NodeId) (named : Dict NodeId)

/-- A node of the graph. -/
structure Node where
  /-- The name, which need not be unique. -/
  name : String
  /-- A description, empty if there is none. -/
  doc : String
  /-- Rows or a single value. -/
  kind : NodeKind
  /-- Where it comes from. -/
  origin : Origin
  /-- Properties, sorted by key. -/
  properties : Dict String

namespace Node

/-- A node without description and properties. -/
def ofOrigin (name : String) (kind : NodeKind) (origin : Origin) : Node :=
  ⟨name, "", kind, origin, []⟩

/-- Whether a node stands for rows. -/
def isDataset (n : Node) : Bool := n.kind == .dataset

/-- Whether a node is made from others. -/
def isTransformed (n : Node) : Bool :=
  match n.origin with
  | .transformed .. => true
  | _ => false

/-- Whether a node comes from outside or is given. -/
def isSource (n : Node) : Bool := !n.isTransformed

/-- The transform that makes a node. -/
def transform? (n : Node) : Option Transform :=
  match n.origin with
  | .transformed t _ _ => some t
  | _ => none

/-- The nodes that a node is made from: the positional ones, then the named ones. -/
def parents (n : Node) : List NodeId :=
  match n.origin with
  | .transformed _ arguments named => arguments ++ named.values
  | _ => []

/-- The schema declared for rows from outside. -/
def declaredSchema? (n : Node) : Option Schema :=
  match n.origin with
  | .source _ schema => some schema
  | _ => none

/-- The value of an identifier. -/
def idJson (id : NodeId) : Json := .string id.hyphenated

/-- The identifier of a value. -/
def idOfJson? (value : Json) : Option NodeId := value.asString?.bind NodeId.parse?

/-- The object of an origin. -/
def originJson : Origin → Json
  | .source uri schema =>
    .object [("source", .object [("uri", .string uri), ("schema", schema.toJson)])]
  | .value content => .object [("value", .object [("value", content)])]
  | .transformed t arguments named =>
    .object [("transformed", .object
      ([("transform", t.toJson), ("arguments", .array (arguments.map idJson))]
        ++ (if named.isEmpty then []
          else [("named_arguments", .object (named.map fun e => (e.1, idJson e.2)))])))]

/-- The object of a node. -/
def toJson (n : Node) : Json :=
  .object ([("name", .string n.name)] ++ (if n.doc = "" then [] else [("doc", .string n.doc)])
    ++ [("kind", n.kind.toJson), ("origin", originJson n.origin)]
    ++ Json.dictMember "properties" n.properties)

/-- The origin of an object. -/
def originOfJson? : Json → Option Origin
  | .object [(name, .object ms)] =>
    if name = "source" then do
      some (.source (← Json.required? "uri" Json.asString? ms)
        (← Json.required? "schema" Schema.ofJson? ms))
    else if name = "value" then (Json.required? "value" some ms).map .value
    else if name = "transformed" then do
      some (.transformed (← Json.required? "transform" Transform.ofJson? ms)
        (← Json.required? "arguments" (Json.asListOf? idOfJson?) ms)
        (← Json.defaulted? "named_arguments" [] (Json.asDict? idOfJson?) ms))
    else none
  | _ => none

/-- The node of an object or a list. -/
def ofJson? (value : Json) : Option Node := do
  let ms ← value.asRecord? ["name", "doc", "kind", "origin", "properties"]
  some ⟨← Json.required? "name" Json.asString? ms, ← Json.defaulted? "doc" "" Json.asString? ms,
    ← Json.required? "kind" NodeKind.ofJson? ms, ← Json.required? "origin" originOfJson? ms,
    ← Json.textDict? "properties" ms⟩

/-- The identifier of a node's content. -/
def id (n : Node) : NodeId := NodeId.ofDigest (Digest.ofJson n.toJson)

end Node

end Lineage
