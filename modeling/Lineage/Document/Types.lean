import Lineage.Document.Basic
import Lineage.Path.Dotted
import Lineage.Ty.Basic

set_option autoImplicit false

/-!
# Types of fields and limits of filters

A field of a source names its type by a word. A filter narrows a type at one address: numbers to an
interval, enumerations and unions to some of their names.

## Main definitions

* `Lineage.Document.FieldType.toTy`: the type of a field.
* `Lineage.Document.narrow`: a type narrowed at an address.
* `Lineage.Document.projectionPath`: the path that branches to all named columns.
-/

namespace Lineage.Document

/-- The labels of a dotted name. -/
def labelsOf (dotted : String) : Outcome (List String) := do
  let path ← Path.parse dotted
  path.labels

namespace FieldType

/-- The whole numbers of a field; a limit is cut toward zero. -/
def integers (f : FieldType) : Ty :=
  .integer ((f.least.map (Binary64.truncate Number.least64 Number.greatest64)).getD Number.least64)
    ((f.greatest.map (Binary64.truncate Number.least64 Number.greatest64)).getD Number.greatest64)

/-- The keys of a field. -/
def keys (f : FieldType) (base : IdBase) : Outcome Ty :=
  match f.references with
  | none => .ok (.ofLeaf (.id f.unique base none))
  | some dotted => (Path.parse dotted).map fun path => .ofLeaf (.id f.unique base (some path))

/-- The type of the values of a field that are there. -/
def present (f : FieldType) : Outcome Ty :=
  let word := Text.lowerAscii f.type
  if word = "null" then .ok (.ofLeaf .null)
  else if word = "boolean" ∨ word = "bool" then .ok (.ofLeaf .boolean)
  else if word = "integer" ∨ word = "int" ∨ word = "int64" ∨ word = "i64" then .ok f.integers
  else if word = "float" ∨ word = "float64" ∨ word = "f64" then
    .ok (.float (f.least.getD Binary64.smallest) (f.greatest.getD Binary64.largest))
  else if word = "text" ∨ word = "string" ∨ word = "utf8" then .ok .text
  else if word = "bytes" ∨ word = "binary" then .ok (.ofLeaf .bytes)
  else if word = "id" then f.keys .int64
  else if word = "string_id" then f.keys .string
  else if word = "enum" then
    if f.names.isEmpty then .error (.invalidDataset f.name "enum fields need \x60values\x60")
    else .ok (.enumeration f.name f.names false)
  else if word = "date" then
    .ok (.ofLeaf (.datetime "%Y-%m-%d" "0001-01-01" "9999-12-31" .date))
  else if word = "datetime" then
    .ok (.ofLeaf (.datetime "%Y-%m-%d %H:%M:%S" "0001-01-01 00:00:00" "9999-12-31 23:59:59" .text))
  else .error (.invalidDataset f.name ("unknown type '" ++ word ++ "'"))

/-- The type of a field. -/
def toTy (f : FieldType) : Outcome Ty :=
  f.present.map fun t => if f.nullable then .optional t else t

end FieldType

/-- The struct of the fields of a source. -/
def structOf (fields : List FieldType) : Outcome Ty :=
  (fields.mapM fun (f : FieldType) => f.toTy.map fun t => (f.name, t)).map .struct

namespace Bound

/-- Whether a name stays. -/
def keeps (b : Bound) (name : String) : Bool := (b.names.map fun ns => ns.contains name).getD true

/-- The least whole number of 64 bits that is not below a limit. -/
def wholeLeast (limit : Float) : Int := Binary64.ceil Number.least64 Number.greatest64 limit

/-- The greatest whole number of 64 bits that is not above a limit. -/
def wholeGreatest (limit : Float) : Int := Binary64.floor Number.least64 Number.greatest64 limit

/-- A leaf within limits. Limits of whole numbers are moved inward to whole numbers. -/
def narrowLeaf (b : Bound) (full : String) : Leaf → Outcome Leaf
  | .integer lo hi base =>
    .ok (.integer ((b.least.map fun v => max (wholeLeast v) lo).getD lo)
      ((b.greatest.map fun v => min (wholeGreatest v) hi).getD hi) base)
  | .float lo hi base =>
    .ok (.float ((b.least.map fun v => Binary64.greater v lo).getD lo)
      ((b.greatest.map fun v => Binary64.lesser v hi).getD hi) base)
  | .enum nameValues ordered =>
    .ok (.enum (nameValues.filter fun entry => b.keeps entry.1) ordered)
  | content => .error (.invalidDataset full ("cannot bound a " ++ Ty.leafKind content))

end Bound

mutual

/-- A type narrowed to limits at the address with the given labels. Labels lead through structs and
unions; optional types take no label. `full` is the written address. -/
def narrow (b : Bound) (full : String) : Ty → List String → Outcome Ty
  | .leaf i content, [] => (b.narrowLeaf full content).map (.leaf i)
  | .members i .union fields, [] =>
    match b.names with
    | some names => .ok (.members i .union (fields.filter fun entry => names.contains entry.1))
    | none => .error (.invalidDataset full "union bounds need \x60values\x60")
  | .members i form fields, head :: rest =>
    if (Ty.lookup? head fields).isNone then
      .error (.invalidDataset full ("no field '" ++ head ++ "'"))
    else (narrowMember b full head rest fields).map (.members i form)
  | .wrapped i .optional inner, labels => (narrow b full inner labels).map (.wrapped i .optional)
  | t, [] => .error (.invalidDataset full ("cannot bound a " ++ t.kindName))
  | t, _ :: _ => .error (.invalidDataset full ("cannot descend into a " ++ t.kindName))

/-- The members with those of one name narrowed. -/
def narrowMember (b : Bound) (full head : String) (rest : List String) :
    List (String × Ty) → Outcome (List (String × Ty))
  | [] => .ok []
  | (name, t) :: fields => do
    let first ← if name = head then narrow b full t rest else .ok t
    let others ← narrowMember b full head rest fields
    .ok ((name, first) :: others)

end

/-- A type narrowed to limits given by dotted names, one after the other. -/
def narrowAll (t : Ty) (bounds : Dict Bound) : Outcome Ty :=
  bounds.foldlM (fun t entry => do
    let labels ← labelsOf entry.1
    narrow entry.2 entry.1 t labels) t

/-- Change the nodes below the first node with a label; a new node comes last. -/
def updateBranch (label : String) (f : List Path → List Path) : List Path → List Path
  | [] => [.node label (f [])]
  | .node l subs :: rest =>
    if l = label then .node l (f subs) :: rest else .node l subs :: updateBranch label f rest

/-- The nodes with one more way below them, which shares what it can with the ways that are
there. -/
def addBranch : List String → List Path → List Path
  | [], subs => subs
  | label :: rest, subs => updateBranch label (addBranch rest) subs

/-- The path that branches to all named columns. -/
def projectionPath (columns : List String) : Outcome Path := do
  let branches ← columns.mapM labelsOf
  .ok (.node "" (branches.foldl (fun subs labels => addBranch labels subs) []))

end Lineage.Document
