import Lineage.Graph.Basic
import Lineage.Ty.Columns

set_option autoImplicit false

/-!
# Schemas of transformed data

The schema of a node follows from the schema of the node it is made from, except for queries and
external operations, whose results have to be looked at. There the schema is read off the columns;
a result without rows tells nothing.

## Main definitions

* `Lineage.Propagation`: a schema, or where to get it from.
* `Lineage.Schema.propagate`: the schema after one transform.
* `Lineage.Schema.ofTable`: the schema of a table that has rows.
* `Lineage.Graph.staticSchema`: the schema of a node from the declared ones alone.
-/

namespace Lineage

/-- What is known of the schema of a result without looking at it. -/
inductive Propagation where
  /-- All of it. -/
  | ready (schema : Schema)
  /-- Only that it is the result of a query. -/
  | fromQuery (query : String)
  /-- Only that it is the result of an external operation. -/
  | fromExternal

namespace Schema

/-- The schema after cutting down to a target, without references that lead out of it. -/
def narrowed (s : Schema) (name : String) (target : Ty) : Outcome Schema :=
  s.derive name ((s.rewrap target).updateReferences s.ty)

/-- The one part of the payload under a path. -/
def item (s : Schema) (path : Path) : Outcome Ty := do
  let parts ← s.payload.subTypes path
  match parts with
  | [part] => .ok part
  | _ =>
    .error (.invariant ("get_item path " ++ path.render ++ " addresses " ++ toString parts.length
      ++ " types, expected exactly one"))

/-- What follows for the schema of a result from the schema of the node it is made from. -/
def propagate (s : Schema) (name : String) : Transform → Outcome Propagation
  | .step _ (.filter target) => (s.narrowed name target).map .ready
  | .step _ (.project target) => (s.narrowed name target).map .ready
  | .step _ (.getItem path) => do
    let part ← s.item path
    let derived ← s.derive name (s.rewrap part)
    .ok (.ready derived)
  | .step _ (.selectSql query) => .ok (.fromQuery query)
  | .step _ (.external _) => .ok .fromExternal
  | .step _ _ => .ok (.ready ⟨name, s.ty, s.protectedPaths, s.properties⟩)
  | t => .error (.unsupported t.kindName)

/-- The schema of a table; there has to be a table with rows. -/
def ofTable (name : String) (table : Option Batch) : Outcome Schema :=
  let untold : Outcome Schema :=
    .error (.emptyResult ("cannot infer the schema of '" ++ name ++ "' from zero rows"))
  match table with
  | none => untold
  | some b => if b.rows.isEmpty then untold else (Ty.ofBatch b).map (Schema.ofTy name)

end Schema

namespace Graph

/-- The fault of asking for the schema of a single value. -/
def scalarSchema (node : Node) : Fault :=
  .invariant ("'" ++ node.name ++ "' is a scalar and has no schema")

/-- The schema of a node among `entries`, where the newest come first. -/
def staticSchemaIn : List (NodeId × Node) → NodeId → Outcome Schema
  | [], id => .error (unknown id)
  | (key, node) :: older, id =>
    if key = id then
      match node.origin with
      | .source _ schema => .ok schema
      | .value _ => .error (scalarSchema node)
      | .transformed t [parent] _ => do
        let schema ← staticSchemaIn older parent
        match ← schema.propagate node.name t with
        | .ready result => .ok result
        | _ =>
          .error (.unsupported ("static schema of " ++ t.kindName ++ " '" ++ node.name ++ "'"))
      | .transformed t arguments _ =>
        if t.isExternal then
          .error (.unsupported ("static schema of external op '" ++ t.name ++ "'"))
        else
          .error (.invariant ("'" ++ node.name ++ "' has " ++ toString arguments.length
            ++ " parents, expected one"))
    else staticSchemaIn older id

/-- The schema of a node from the schemas declared for its sources. -/
def staticSchema (g : Graph) (id : NodeId) : Outcome Schema := staticSchemaIn g.entries id

end Graph

end Lineage
