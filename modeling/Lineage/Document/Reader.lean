import Lineage.Document.Basic
import Lineage.Yaml.Value

set_option autoImplicit false

/-!
# Reading graph documents

What a document says is read member by member: what is known is read as what it has to be, what is
not known is ignored. The step of a dataset is read by the form of its scalars, so that a number is
no text there.

## Main definitions

* `Lineage.Document.ofText?`: the document of a text.
* `Lineage.Document.ofNode`: the document of a node.
* `Lineage.Document.Operation.ofNode`: the step of a node.
-/

namespace Lineage.Document

open Yaml (Resolve Value)

/-- The member with a name. -/
def find? {α : Type} (name : String) (members : List (String × α)) : Option α :=
  (members.find? fun entry => entry.1 == name).map Prod.snd

section

variable {m : Type → Type} [Monad m] [Alternative m] {α β : Type}

/-- A member that has to be there. -/
def required (name : String) (read : α → m β) (members : List (String × α)) : m β :=
  match find? name members with
  | some a => read a
  | none => failure

/-- A member with a default. -/
def defaulted (name : String) (default : β) (read : α → m β) (members : List (String × α)) : m β :=
  match find? name members with
  | some a => read a
  | none => pure default

end

/-- A member of a mapping that may be absent. -/
def optional {β : Type} (name : String) (read : Yaml.Node → Resolve β) :
    List (String × Yaml.Node) → Resolve (Option β) :=
  defaulted name none (Yaml.Node.readOption read)

/-- A member of a step that may be absent. -/
def optionalValue? {β : Type} (name : String) (read : Value → Option β) :
    List (String × Value) → Option (Option β) :=
  defaulted name none (Value.asOption? read)

/-- The settings of a node. -/
def settingsOfNode (node : Yaml.Node) : Resolve SettingsLayer := do
  let ms ← node.readRecord ["batch_size", "seed", "sql_table"]
  return ⟨← optional "batch_size" Yaml.Node.readNat64 ms, ← optional "seed" Yaml.Node.readNat64 ms,
    ← optional "sql_table" Yaml.Node.readText ms⟩

/-- The field of a node. -/
def FieldType.ofNode (node : Yaml.Node) : Resolve FieldType := do
  let ms ← node.readRecord
    ["name", "type", "nullable", "min", "max", "values", "unique", "references"]
  return ⟨← required "name" Yaml.Node.readText ms, ← required "type" Yaml.Node.readText ms,
    ← defaulted "nullable" false Yaml.Node.readBool ms, ← optional "min" Yaml.Node.readFloat ms,
    ← optional "max" Yaml.Node.readFloat ms,
    ← defaulted "values" [] (Yaml.Node.readList Yaml.Node.readText) ms,
    ← defaulted "unique" false Yaml.Node.readBool ms, ← optional "references" Yaml.Node.readText ms⟩

/-- The limits of a value. -/
def Bound.ofValue? (value : Value) : Option Bound := do
  let ms ← value.asRecord? ["min", "max", "values"]
  some ⟨← optionalValue? "min" Value.asFloat? ms, ← optionalValue? "max" Value.asFloat? ms,
    ← optionalValue? "values" (Value.asList? Value.asText?) ms⟩

/-- Limits under names; of two with one name the later counts. -/
def boundsOfValue? : Value → Option (Dict Bound)
  | .map entries => do
    let bounds ← entries.mapM fun entry => do
      some (← entry.1.asText?, ← Bound.ofValue? entry.2)
    some (Dict.ofList bounds)
  | _ => none

namespace Operation

/-- The step of a kind with the members of a value. -/
def ofMembers? (kind : String) (value : Value) : Option Operation :=
  match kind with
  | "filter" => do
    let ms ← value.asRecord? ["bounds"]
    some (.filter (← required "bounds" boundsOfValue? ms))
  | "project" => do
    let ms ← value.asRecord? ["columns"]
    some (.project (← required "columns" (Value.asList? Value.asText?) ms))
  | "get_item" => do
    let ms ← value.asRecord? ["path"]
    some (.getItem (← required "path" Value.asText? ms))
  | "sample" => do
    let ms ← value.asRecord? ["size", "fraction"]
    some (.sample (← optionalValue? "size" Value.asNat64? ms)
      (← optionalValue? "fraction" Value.asFloat? ms))
  | "slice" => do
    let ms ← value.asRecord? ["start", "end"]
    some (.slice (← required "start" Value.asInt64? ms) (← required "end" Value.asInt64? ms))
  | "extract" => do
    let ms ← value.asRecord? ["size", "seed"]
    some (.extract (← required "size" Value.asNat64? ms)
      (← optionalValue? "seed" Value.asNat64? ms))
  | "shuffle" =>
    match value with
    | .list (_ :: _) => none
    | _ => some .shuffle
  | "select_sql" => do
    let ms ← value.asRecord? ["query"]
    some (.selectSql (← required "query" Value.asText? ms))
  | _ => none

/-- The member that names the kind of a step. -/
def kindMember : String := "op"

/-- How deep collections may nest in a document. -/
def depthLimit : Nat := 128

/-- How deep they may nest in the parts of a step, which is an entry of a dataset, which is an item
of a list, which is an entry of the document. -/
def partDepth : Nat := depthLimit - 4

/-- An entry of a step: whether it names the kind, or its content. -/
def entryOfNodes (entry : Yaml.Node × Yaml.Node) : Resolve (String ⊕ Value × Value) := do
  match ← Value.ofNode partDepth entry.1 with
  | .text name =>
    if name = kindMember then return .inl (← entry.2.readText)
    else return .inr (.text name, ← Value.ofNode partDepth entry.2)
  | key => return .inr (key, ← Value.ofNode partDepth entry.2)

/-- The step of entries, one of which names the kind. -/
def ofEntries? (entries : List (String ⊕ Value × Value)) : Option Operation :=
  match entries.filterMap Sum.getLeft? with
  | [kind] => ofMembers? kind (.map (entries.filterMap Sum.getRight?))
  | _ => none

/-- The step of a node: a mapping with the kind among its entries, or a sequence that starts with
the kind. -/
def ofNode (node : Yaml.Node) : Resolve Operation := do
  match ← node.follow with
  | .mapping tag entries =>
    if Value.isLocal tag then failure
    else Resolve.ofOption (ofEntries? (← entries.mapM entryOfNodes))
  | .sequence tag (kind :: others) =>
    if Value.isLocal tag then failure
    else
      let kind ← kind.readText
      let content ← others.mapM (Value.ofNode partDepth)
      Resolve.ofOption (ofMembers? kind (.list content))
  | _ => failure

end Operation

/-- The dataset of a node. -/
def Dataset.ofNode (node : Yaml.Node) : Resolve Dataset := do
  let ms ← node.readRecord
    ["name", "doc", "source", "fields", "primary_keys", "from", "transform"]
  return ⟨← required "name" Yaml.Node.readText ms, ← defaulted "doc" "" Yaml.Node.readText ms,
    ← optional "source" Yaml.Node.readText ms,
    ← optional "fields" (Yaml.Node.readList FieldType.ofNode) ms,
    ← defaulted "primary_keys" [] (Yaml.Node.readList Yaml.Node.readText) ms,
    ← optional "from" Yaml.Node.readText ms, ← optional "transform" Operation.ofNode ms⟩

/-- The document of a node. -/
def ofNode (node : Yaml.Node) : Resolve Document := do
  let ms ← node.readRecord ["config", "datasets"]
  let settings ← optional "config" settingsOfNode ms
  return ⟨settings.getD .empty, ← required "datasets" (Yaml.Node.readList Dataset.ofNode) ms⟩

/-- The document of a text. -/
def ofText? (text : String) : Option Document :=
  (Yaml.Tree.ofText? text).bind fun tree => tree.read? ofNode

end Lineage.Document
