import Lineage.Catalog
import Lineage.External
import Lineage.Query.Execution
import Lineage.Schema.Propagation
import Lineage.Settings
import Lineage.Stream.Operation

set_option autoImplicit false

/-!
# Evaluating nodes

The engine turns nodes of a graph into schemas, batches and values. What it knows of a node follows
from what it knows of the nodes that this node is made from; in a graph these come earlier, so the
graph is worked through one node at a time. Schemas are remembered: the schema of a query or of an
external operation takes a run to find out.

## Main definitions

* `Lineage.Engine`: settings, graph, sources and operations.
* `Lineage.Evaluation`: computations that remember schemas and may fail.
* `Lineage.Access`: what is known of the nodes of a graph.
* `Lineage.Engine.access`: what follows for the nodes of the engine's graph.
* `Lineage.Engine.schema`, `Lineage.Engine.stream`, `Lineage.Engine.collect`,
  `Lineage.Engine.value`: the questions that can be asked.

## Design

A step of the recursion is `Engine.extend`: it answers for one node, and leaves all others to the
answers for older nodes. The functions in between (`schemaOf`, `streamOf`, `valueOf`) take these
older answers as an argument and do not recurse.
-/

namespace Lineage

/-- What nodes are evaluated with. -/
structure Engine where
  /-- Settings. -/
  settings : Settings
  /-- The nodes. -/
  graph : Graph
  /-- Where rows come from. -/
  catalog : Catalog
  /-- External operations. -/
  externals : Registry
  /-- What runs queries. -/
  queries : QueryRunner
  /-- Where random draws start if the settings have no seed. -/
  entropy : Generator

/-- Schemas that have been found out. -/
abbrev SchemaCache := List (NodeId × Schema)

namespace SchemaCache

/-- The schema remembered for a node. -/
def find? (cache : SchemaCache) (id : NodeId) : Option Schema :=
  (List.find? (fun entry => entry.1 == id) cache).map Prod.snd

/-- Remember a schema. -/
def remember (cache : SchemaCache) (id : NodeId) (schema : Schema) : SchemaCache :=
  (id, schema) :: cache

end SchemaCache

/-- A computation that remembers schemas and may fail; what it remembered before it failed stays. -/
abbrev Evaluation (α : Type) := ExceptT Fault (StateM SchemaCache) α

namespace Evaluation

/-- An outcome that does not depend on what is remembered. -/
def ofOutcome {α : Type} (outcome : Outcome α) : Evaluation α := ExceptT.mk (pure outcome)

/-- Run a computation: its outcome and what is remembered after it. -/
def run {α : Type} (x : Evaluation α) (cache : SchemaCache) : Outcome α × SchemaCache :=
  StateT.run (ExceptT.run x) cache

/-- The schema remembered for a node, or else the one that is found out now, which is remembered. -/
def cached (id : NodeId) (find : Evaluation Schema) : Evaluation Schema := do
  match (← get).find? id with
  | some schema => return schema
  | none =>
    let schema ← find
    modify fun cache => cache.remember id schema
    return schema

end Evaluation

/-- What is known of the nodes of a graph. -/
structure Access where
  /-- The node under an identifier. -/
  node? : NodeId → Option Node
  /-- The schema of a dataset. -/
  schema : NodeId → Evaluation Schema
  /-- The batches of a dataset, of a number of rows. -/
  stream : NodeId → Nat → Evaluation BatchStream
  /-- The same for a dataset that is made from other nodes, and for no others. -/
  resultStream : NodeId → Nat → Evaluation BatchStream
  /-- The value of a scalar. -/
  value : NodeId → Evaluation Json

namespace Access

/-- The fault of an identifier without node. -/
def absent (id : NodeId) : Fault := .invariant ("node " ++ id.hex ++ " is not in the store")

/-- Answers about batches, which are not asked for with size zero. -/
def sized (n : Nat) (answer : Evaluation BatchStream) : Evaluation BatchStream :=
  if n = 0 then throw zeroBatchSize else answer

/-- No node. -/
def empty : Access where
  node? _ := none
  schema id := Evaluation.cached id (throw (absent id))
  stream id n := sized n (throw (absent id))
  resultStream id n := sized n (throw (absent id))
  value id := throw (absent id)

/-- The node under an identifier, or a fault. -/
def node (a : Access) (id : NodeId) : Outcome Node :=
  Outcome.ofOption (absent id) (a.node? id)

end Access

namespace Engine

/-- Where random draws start. -/
def generator (e : Engine) : Generator :=
  match e.settings.seed with
  | some seed => .ofSeed seed
  | none => e.entropy

/-- The fault of a node that is not made from others where one is expected that is. -/
def untransformed (node : Node) : Fault :=
  .invariant ("'" ++ node.name ++ "' is not a transformed node")

/-- The fault of a scalar where a dataset is expected. -/
def notDataset (node : Node) : Fault :=
  .invariant ("'" ++ node.name ++ "' is a scalar, not a dataset")

section Level

variable (e : Engine) (older : Access)

/-- All batches of a dataset. -/
def batchesOf (id : NodeId) : Evaluation (List Batch) := do
  let stream ← older.stream id e.settings.batchSize
  Evaluation.ofOutcome stream.collect

/-- A node as an external operation gets it. -/
def materialize (id : NodeId) : Evaluation Datum := do
  let node ← Evaluation.ofOutcome (older.node id)
  if node.isDataset then
    match ← batchesOf e older id with
    | first :: rest =>
      return .table (← Evaluation.ofOutcome (Batch.concat first.fields (first :: rest)))
    | [] =>
      let schema ← older.schema id
      return .table (.empty (← Evaluation.ofOutcome schema.ty.batchFields))
  else return .value (← older.value id)

/-- Named nodes as an external operation gets them. -/
def materializeNamed : Dict NodeId → Evaluation (Dict Datum)
  | [] => return []
  | (name, id) :: rest => do
    let first ← materialize e older id
    return (name, first) :: (← materializeNamed rest)

/-- What an external operation returns. -/
def externalResult (call : ExternalCall) (arguments : List NodeId) (named : Dict NodeId) :
    Evaluation Datum := do
  let operation ← Evaluation.ofOutcome (e.externals.find call.library call.op)
  let parents ← arguments.mapM (materialize e older)
  let namedParents ← materializeNamed e older named
  Evaluation.ofOutcome (operation ⟨call.arguments, parents, namedParents⟩)

/-- The table that an external operation returns. -/
def externalTable (name : String) (call : ExternalCall) (arguments : List NodeId)
    (named : Dict NodeId) : Evaluation Batch := do
  let result ← externalResult e older call arguments named
  Evaluation.ofOutcome (result.asTable name)

/-- The one dataset that a node is made from. -/
def datasetParent (node : Node) (arguments : List NodeId) (named : Dict NodeId) :
    Outcome (NodeId × Node) :=
  match arguments, named with
  | [id], [] => do
    let parent ← older.node id
    if parent.isDataset then .ok (id, parent)
    else .error (.invariant ("parent of '" ++ node.name ++ "' is a scalar"))
  | _, _ =>
    .error (.invariant ("'" ++ node.name ++ "' has " ++ toString (arguments.length + named.length)
      ++ " parents, expected exactly one"))

/-- The result of a query on the rows of a parent, in batches of `n` rows. -/
def queryResults (parent : Node) (input : BatchStream) (query : String) (n : Nat) :
    Outcome (List Batch) := do
  let table ← input.table
  let result ← selectTable e.queries [e.settings.sqlTable, parent.name] table query
  result.rechunk n

/-- The stream of the result of a query; the query runs when the first batch is asked for. -/
def queryStream (parent : Node) (input : BatchStream) (query : String) (n : Nat) : BatchStream :=
  .ofOutcome (e.queryResults parent input query n)

/-- The schema of the result of a query, read off its rows. -/
def querySchema (node : Node) (id : NodeId) (parent : Node) (query : String) :
    Evaluation Schema := do
  let n := e.settings.batchSize
  let input ← older.stream id n
  Evaluation.ofOutcome do
    let table ← (e.queryStream parent input query n).table
    Schema.ofTable node.name table

/-- The schema of a node that is made from a dataset by a transform. -/
def derivedSchema (node : Node) (t : Transform) (arguments : List NodeId) (named : Dict NodeId) :
    Evaluation Schema := do
  let (id, parent) ← Evaluation.ofOutcome (datasetParent older node arguments named)
  let schema ← older.schema id
  match ← Evaluation.ofOutcome (schema.propagate node.name t) with
  | .ready result => return result
  | .fromQuery query => querySchema e older node id parent query
  | .fromExternal =>
    throw (.invariant ("'" ++ node.name ++ "' needs an external op but its transform is '"
      ++ t.kindName ++ "'"))

/-- The schema of a node. -/
def schemaOf (node : Node) : Evaluation Schema :=
  match node.origin with
  | .source _ schema => return schema
  | .value _ => throw (Graph.scalarSchema node)
  | .transformed t arguments named =>
    match t with
    | .step heading (.external call) => do
      let table ← externalTable e older heading.name call arguments named
      Evaluation.ofOutcome (Schema.ofTable node.name (some table))
    | _ => derivedSchema e older node t arguments named

/-- The stream of an operation on one batch at a time, in batches of `n` rows. -/
def batchwise (operation : BatchOperation) (id : NodeId) (n : Nat) : Evaluation BatchStream := do
  let input ← older.stream id n
  return (operation.stream input).regroup n

/-- The stream of an operation on all rows. -/
def tablewise (operation : TableOperation) (id : NodeId) (n : Nat) : Evaluation BatchStream := do
  Evaluation.ofOutcome operation.validate
  let input ← older.stream id n
  return operation.stream .ofWords e.generator n input

/-- The fault of a transform that has no batches. -/
def unevaluated (kind : String) : Fault :=
  .unsupported ("no arrow evaluation for '" ++ kind ++ "' transforms")

/-- The stream of a step on a dataset. -/
def stepStream (id : NodeId) (parent : Node) (n : Nat) : Step → Evaluation BatchStream
  | .filter target => do
    let schema ← older.schema id
    batchwise older (.filter target schema.hasWrapper) id n
  | .project target => do
    let schema ← older.schema id
    batchwise older (.project target schema.hasWrapper) id n
  | .getItem path => do
    let schema ← older.schema id
    batchwise older (.getItem path schema.payload schema.hasWrapper) id n
  | .sample size => tablewise e older (.sample size) id n
  | .slice start stop => tablewise e older (.slice start stop) id n
  | .extract size seed => tablewise e older (.extract size seed) id n
  | .shuffle => tablewise e older .shuffle id n
  | .selectSql query => do
    let input ← older.stream id n
    return e.queryStream parent input query n
  | content => throw (unevaluated content.kindName)

/-- The batches of a node that is made from others by a transform. -/
def transformStream (node : Node) (t : Transform) (arguments : List NodeId) (named : Dict NodeId)
    (n : Nat) : Evaluation BatchStream := do
  if !node.isDataset then throw (notDataset node)
  match t with
  | .step heading (.external call) =>
    let table ← externalTable e older heading.name call arguments named
    return .ofList (← Evaluation.ofOutcome (table.rechunk n))
  | .step _ content =>
    let (id, parent) ← Evaluation.ofOutcome (datasetParent older node arguments named)
    stepStream e older id parent n content
  | _ =>
    let _ ← Evaluation.ofOutcome (datasetParent older node arguments named)
    throw (unevaluated t.kindName)

/-- The batches of a node that is made from others. -/
def resultStreamOf (node : Node) (n : Nat) : Evaluation BatchStream :=
  Access.sized n (match node.origin with
    | .transformed t arguments named => transformStream e older node t arguments named n
    | _ => throw (untransformed node))

/-- The batches of a node. -/
def streamOf (node : Node) (n : Nat) : Evaluation BatchStream :=
  Access.sized n (match node.origin with
    | .source uri schema => do
      let batches ← Evaluation.ofOutcome (e.catalog.load uri schema.ty n)
      return (BatchStream.ofList batches).regroup n
    | .value _ => throw (notDataset node)
    | .transformed .. => resultStreamOf e older node n)

/-- The value of a node. -/
def valueOf (node : Node) : Evaluation Json :=
  if node.isDataset then
    throw (.invariant ("'" ++ node.name ++ "' is a dataset, not a scalar"))
  else
    match node.origin with
    | .value content => return content
    | .transformed (.step heading (.external call)) arguments named => do
      let result ← externalResult e older call arguments named
      Evaluation.ofOutcome (result.asValue heading.name)
    | _ => throw (.unsupported ("value of scalar '" ++ node.name ++ "'"))

/-- The answers for one more node. -/
def extend (key : NodeId) (node : Node) : Access where
  node? id := if key = id then some node else older.node? id
  schema id := if key = id then Evaluation.cached id (schemaOf e older node) else older.schema id
  stream id n := if key = id then streamOf e older node n else older.stream id n
  resultStream id n :=
    if key = id then resultStreamOf e older node n else older.resultStream id n
  value id := if key = id then valueOf e older node else older.value id

end Level

/-- The answers for nodes, of which the newest come first. -/
def accessIn (e : Engine) : List (NodeId × Node) → Access
  | [] => .empty
  | (key, node) :: older => e.extend (accessIn e older) key node

/-- The answers for the nodes of the graph. -/
def access (e : Engine) : Access := e.accessIn e.graph.entries

/-- The schema of a dataset. -/
def schema (e : Engine) (id : NodeId) : Evaluation Schema := e.access.schema id

/-- The batches of a dataset, of a number of rows. -/
def stream (e : Engine) (id : NodeId) (n : Nat) : Evaluation BatchStream := e.access.stream id n

/-- The batches of a dataset that is made from other nodes. -/
def resultStream (e : Engine) (id : NodeId) (n : Nat) : Evaluation BatchStream :=
  e.access.resultStream id n

/-- All batches of a dataset, of the size in the settings. -/
def collect (e : Engine) (id : NodeId) : Evaluation (List Batch) := e.batchesOf e.access id

/-- The value of a scalar. -/
def value (e : Engine) (id : NodeId) : Evaluation Json := e.access.value id

end Engine

end Lineage
