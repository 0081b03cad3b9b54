import Lineage.Document.Reader
import Lineage.Document.Types
import Lineage.Schema.Propagation
import Lineage.Ty.Address

set_option autoImplicit false

/-!
# The graph of a document

The datasets of a document become nodes in order. A step on a dataset is put together from the
schema of the dataset where it narrows or selects.

## Main definitions

* `Lineage.Document.Plan`: a graph with the settings and the named nodes of a document.
* `Lineage.Document.TypeSource`: what tells the type of a source without fields.
* `Lineage.Document.Operation.toTransform`: the transform of a step.
* `Lineage.Document.plan`, `Lineage.Document.planOfText`: the graph of a document, and of a text.
-/

namespace Lineage.Document

/-- A graph with the settings and the named nodes of a document. -/
structure Plan where
  /-- The graph. -/
  graph : Graph
  /-- The settings. -/
  settings : SettingsLayer
  /-- The nodes of the datasets under their names, in order. -/
  datasets : List (String × NodeId)

namespace Plan

/-- The node of a dataset. -/
def find? (p : Plan) (name : String) : Option NodeId :=
  (p.datasets.find? fun entry => entry.1 == name).map Prod.snd

end Plan

/-- What tells the type of a source without fields, from the name of the dataset and the address. -/
abbrev TypeSource := String → String → Outcome Ty

/-- Every source has to declare its fields. -/
def declaredOnly : TypeSource := fun name _ =>
  .error (.invalidDataset name "source has no declared \x60fields\x60")

/-- The transform of a step on a dataset with a schema, which is asked for only where it is
needed. -/
def Operation.toTransform (name : String) (schema : Unit → Outcome Schema) :
    Operation → Outcome Transform
  | .filter bounds => do
    let parent ← schema ()
    (narrowAll parent.payload bounds).map fun t => .ofStep (.filter t)
  | .project columns =>
    if columns.isEmpty then
      .error (.invalidDataset name "project needs at least one column")
    else do
      let parent ← schema ()
      let path ← projectionPath columns
      (parent.payload.select path).map fun t => .ofStep (.project t)
  | .getItem dotted => (Path.parse dotted).map fun path => .ofStep (.getItem path)
  | .sample (some n) none => .ok (.ofStep (.sample (.size n)))
  | .sample none (some part) => .ok (.ofStep (.sample (.fraction part)))
  | .sample _ _ =>
    .error (.invalidDataset name "sample takes exactly one of \x60size\x60 or \x60fraction\x60")
  | .slice start stop => .ok (.ofStep (.slice start stop))
  | .extract size seed => .ok (.ofStep (.extract size (seed.getD 0)))
  | .shuffle => .ok (.ofStep .shuffle)
  | .selectSql query => .ok (.ofStep (.selectSql query))

/-- The schema of a source with its primary keys, which have to be parts of the type. -/
def sourceSchema (d : Dataset) (type : Ty) : Outcome Schema :=
  let schema := Schema.ofTy d.name type
  if d.primaryKeys.isEmpty then .ok schema
  else do
    let keys ← d.primaryKeys.mapM Path.parse
    match keys.find? fun key => !type.hasPath key with
    | some key =>
      .error (.invalidDataset d.name ("primary key " ++ key.render ++ " is not a field"))
    | none => .ok (schema.withPrimaryKeys keys)

section Building

variable (idOf : Node → NodeId)

/-- Add a source. -/
def addSource (infer : TypeSource) (d : Dataset) (uri : String) (graph : Graph) :
    Outcome (NodeId × Graph) := do
  let type ← match d.fields with
    | some fields => structOf fields
    | none => infer d.name uri
  let schema ← sourceSchema d type
  let (result, graph) := (Graph.source idOf d.name uri schema).run graph
  result.map fun id => (id, graph)

/-- Add the result of a step. -/
def addStep (d : Dataset) (origin : String) (operation : Operation) (p : Plan) :
    Outcome (NodeId × Graph) := do
  let parent ← Outcome.ofOption (.unknownDataset origin) (p.find? origin)
  let t ← operation.toTransform d.name fun _ => p.graph.staticSchema parent
  let (result, graph) := (Graph.transformedAs idOf d.name (t.withDoc d.doc) [parent] []).run p.graph
  result.map fun id => (id, graph)

/-- Add a dataset. -/
def addDataset (infer : TypeSource) (p : Plan) (d : Dataset) : Outcome Plan :=
  if (p.find? d.name).isSome then .error (.duplicateDataset d.name)
  else do
    let (id, graph) ← match d.source, d.origin, d.operation with
      | some uri, none, none => addSource idOf infer d uri p.graph
      | none, some origin, some operation => addStep idOf d origin operation p
      | _, _, _ =>
        .error (.invalidDataset d.name
          "expected either \x60source\x60 or \x60from\x60 + \x60transform\x60")
    .ok ⟨graph, p.settings, p.datasets ++ [(d.name, id)]⟩

/-- The graph of a document. -/
def plan (infer : TypeSource) (doc : Document) : Outcome Plan :=
  doc.datasets.foldlM (addDataset idOf infer) ⟨.empty, doc.settings, []⟩

/-- The graph of the document of a text. -/
def planOfText (infer : TypeSource) (text : String) : Outcome Plan := do
  let doc ← Outcome.ofOption .document (ofText? text)
  plan idOf infer doc

end Building

end Lineage.Document
