import Lineage.Dict
import Lineage.Path.Basic
import Lineage.Number.Binary64

set_option autoImplicit false

/-!
# The types of nested data

A type describes the values of a dataset, a column or a part of a column. Leaves have no parts;
structs and unions have named members; optional, list, array and constrained types wrap one inner
type; a hypothesis lists candidate types with scores.

## Main definitions

* `Lineage.Ty`: the types.
* `Lineage.Ty.step?`: the part of a type that one label leads to.
* `Lineage.Ty.children`, `Lineage.Ty.inner?`, `Lineage.Ty.leaves`: parts of a type.
* `Lineage.Ty.bestHypothesis?`: the candidate with the highest score.
* `Lineage.Ty.structs?`: paths to the outermost structs.
-/

namespace Lineage

/-- How the values of an identifier are stored. -/
inductive IdBase where
  /-- As whole numbers. -/
  | int64
  /-- As texts. -/
  | string
  deriving DecidableEq, Repr

/-- How whole numbers are stored. -/
inductive IntegerBase where
  /-- In 8 bits. -/
  | int8
  /-- In 16 bits. -/
  | int16
  /-- In 32 bits. -/
  | int32
  /-- In 64 bits. -/
  | int64
  deriving DecidableEq, Repr

/-- How doubles are stored. -/
inductive FloatBase where
  /-- In 32 bits. -/
  | float32
  /-- In 64 bits. -/
  | float64
  deriving DecidableEq, Repr

/-- How points in time are stored. -/
inductive DatetimeBase where
  /-- As counts of microseconds. -/
  | timestamp
  /-- As counts of days. -/
  | date
  /-- As ISO texts. -/
  | text
  deriving DecidableEq, Repr

/-- The name and the properties that a type may carry. -/
structure Info where
  /-- A name. -/
  name : Option String := none
  /-- Properties, sorted by key. -/
  properties : Dict String := []
  deriving DecidableEq, Repr

/-- A type without parts. -/
inductive Leaf where
  /-- Only the absent value. -/
  | null
  /-- A single value. -/
  | unit
  /-- Truth values. -/
  | boolean
  /-- Keys, which may refer to another key. -/
  | id (unique : Bool) (base : IdBase) (reference : Option Path)
  /-- Whole numbers between bounds. -/
  | integer (min max : Int) (base : IntegerBase)
  /-- Names from a list, each with a number. -/
  | enum (nameValues : List (String × Int)) (ordered : Bool)
  /-- Doubles between bounds. -/
  | float (min max : Float) (base : FloatBase)
  /-- Texts in an encoding. -/
  | text (encoding : String)
  /-- Byte strings. -/
  | bytes
  /-- Points in time between bounds, written in a format. -/
  | datetime (format min max : String) (base : DatetimeBase)

/-- What named members stand for. -/
inductive Form where
  /-- All of them together. -/
  | struct
  /-- One of them at a time. -/
  | union
  deriving DecidableEq, Repr

/-- What is said of an inner type. -/
inductive Wrapper where
  /-- A value may be absent. -/
  | optional
  /-- Lists of at most `maxSize` values. -/
  | list (maxSize : Nat)
  /-- Blocks of values of one shape. -/
  | array (shape : List Nat)
  /-- Values subject to a further condition. -/
  | constrained (constraint : String)
  deriving DecidableEq, Repr

/-- The type of a dataset, a column or a part of one. -/
inductive Ty where
  /-- A type without parts. -/
  | leaf (info : Info) (content : Leaf)
  /-- A struct or a union of named members. -/
  | members (info : Info) (form : Form) (fields : List (String × Ty))
  /-- A wrapper around an inner type. -/
  | wrapped (info : Info) (wrapper : Wrapper) (inner : Ty)
  /-- Candidate types with scores. -/
  | hypothesis (info : Info) (types : List (Ty × Float))

/-- The label of the step into an optional type. -/
def optionalValue : String := "optional_value"

/-- The label of the step into a list. -/
def listValues : String := "list_values"

/-- The label of the step into an array. -/
def arrayValues : String := "array_values"

/-- The column of a union that names the branch of each row. -/
def fieldSelected : String := "field_selected"

/-- The member under which a wrapped schema keeps its payload. -/
def dataLabel : String := "data"

namespace Ty

/-- No name and no properties. -/
def plainInfo : Info := { name := none, properties := [] }

instance : Inhabited Ty := ⟨.leaf plainInfo .null⟩

/-- A leaf without name and properties. -/
def ofLeaf (content : Leaf) : Ty := .leaf plainInfo content

/-- A struct without name and properties. -/
def struct (fields : List (String × Ty)) : Ty := .members plainInfo .struct fields

/-- A union without name and properties. -/
def union (fields : List (String × Ty)) : Ty := .members plainInfo .union fields

/-- A wrapper without name and properties. -/
def wrap (wrapper : Wrapper) (inner : Ty) : Ty := .wrapped plainInfo wrapper inner

/-- An optional type without name and properties. -/
def optional (inner : Ty) : Ty := wrap .optional inner

/-- A list type without name and properties. -/
def list (inner : Ty) (maxSize : Nat) : Ty := wrap (.list maxSize) inner

/-- An array type without name and properties. -/
def array (inner : Ty) (shape : List Nat) : Ty := wrap (.array shape) inner

/-- The whole numbers between bounds, stored in 64 bits. -/
def integer (min max : Int) : Ty := ofLeaf (.integer min max .int64)

/-- The doubles between bounds. -/
def float (min max : Float) : Ty := ofLeaf (.float min max .float64)

/-- Texts in UTF-8. -/
def text : Ty := ofLeaf (.text "UTF-8")

/-- The named type of the given names, numbered from zero. -/
def enumeration (name : String) (names : List String) (ordered : Bool) : Ty :=
  .leaf { name := some name, properties := [] }
    (.enum (names.zipIdx.map fun entry => (entry.1, (entry.2 : Int))) ordered)

/-- The name and the properties. -/
def info : Ty → Info
  | .leaf i _ | .members i _ _ | .wrapped i _ _ | .hypothesis i _ => i

/-- The same type with another name and other properties. -/
def withInfo (i : Info) : Ty → Ty
  | .leaf _ content => .leaf i content
  | .members _ form fields => .members i form fields
  | .wrapped _ wrapper inner => .wrapped i wrapper inner
  | .hypothesis _ types => .hypothesis i types

/-- The same type under another name. -/
def withName (name : String) (t : Ty) : Ty :=
  t.withInfo { name := some name, properties := t.info.properties }

/-- The same type with one property set. -/
def withProperty (key value : String) (t : Ty) : Ty :=
  t.withInfo { name := t.info.name, properties := t.info.properties.insert key value }

/-- The name of a kind of leaf. -/
def leafKind : Leaf → String
  | .null => "null"
  | .unit => "unit"
  | .boolean => "boolean"
  | .id .. => "id"
  | .integer .. => "integer"
  | .enum .. => "enum"
  | .float .. => "float"
  | .text .. => "text"
  | .bytes => "bytes"
  | .datetime .. => "datetime"

/-- The name of a kind of wrapper. -/
def wrapperKind : Wrapper → String
  | .optional => "optional"
  | .list _ => "list"
  | .array _ => "array"
  | .constrained _ => "constrained"

/-- The name of a form of members. -/
def formKind : Form → String
  | .struct => "struct"
  | .union => "union"

/-- The name of the kind of a type. -/
def kindName : Ty → String
  | .leaf _ content => leafKind content
  | .members _ form _ => formKind form
  | .wrapped _ wrapper _ => wrapperKind wrapper
  | .hypothesis .. => "hypothesis"

/-- Whether a type is a struct. -/
def isStruct : Ty → Bool
  | .members _ .struct _ => true
  | _ => false

/-- Whether a type is a union. -/
def isUnion : Ty → Bool
  | .members _ .union _ => true
  | _ => false

/-- Whether a type is optional. -/
def isOptional : Ty → Bool
  | .wrapped _ .optional _ => true
  | _ => false

/-- The named members of a struct or union; none for other types. -/
def children : Ty → List (String × Ty)
  | .members _ _ fields => fields
  | _ => []

/-- The first of the given members under a label. -/
def lookup? (label : String) (fields : List (String × Ty)) : Option Ty :=
  (fields.find? fun field => field.1 == label).map Prod.snd

/-- The first member under a label. -/
def child? (t : Ty) (label : String) : Option Ty := lookup? label t.children

/-- The type inside a wrapper. -/
def inner? : Ty → Option Ty
  | .wrapped _ _ inner => some inner
  | _ => none

/-- The part one step further down: a wrapper takes any label, a struct or union the label of a
member. -/
def step? (label : String) : Ty → Option Ty
  | .wrapped _ _ inner => some inner
  | .members _ _ fields => lookup? label fields
  | _ => none

/-- The later of two candidates unless the earlier has the higher score. -/
def better {α : Type} (best : α × Float) (next : α × Float) : α × Float :=
  if Binary64.totalLE best.2 next.2 then next else best

/-- The last of the candidates with the highest score. -/
def bestOf? {α : Type} : List (α × Float) → Option α
  | [] => none
  | first :: rest => some (rest.foldl better first).1

/-- The last of the candidates with the highest score, for a hypothesis. -/
def bestHypothesis? : Ty → Option Ty
  | .hypothesis _ types => bestOf? types
  | _ => none

mutual

/-- The parts without parts, depth first; a struct or union without members is one. -/
def leaves : Ty → List Ty
  | .members i form [] => [.members i form []]
  | .members _ _ (field :: fields) => leavesOf (field :: fields)
  | .wrapped _ _ inner => leaves inner
  | .leaf i content => [.leaf i content]
  | .hypothesis i types => [.hypothesis i types]

/-- The leaves of every member. -/
def leavesOf : List (String × Ty) → List Ty
  | [] => []
  | (_, t) :: rest => leaves t ++ leavesOf rest

end

/-- The label of the step into a wrapper, where such steps are named. -/
def wrapperLabel? : Wrapper → Option String
  | .optional => some optionalValue
  | .list _ => some listValues
  | .array _ => some arrayValues
  | .constrained _ => none

mutual

/-- The nodes that lead to the outermost structs below a type: none are needed for a struct. -/
def structNodes? : Ty → Option (List Path)
  | .members _ .struct _ => some []
  | .members _ .union fields =>
    match branchNodes fields with
    | [] => none
    | nodes => some nodes
  | .wrapped _ wrapper inner =>
    match wrapperLabel? wrapper with
    | none => none
    | some label => (structNodes? inner).map fun subs => [.node label subs]
  | _ => none

/-- The nodes that lead to the outermost structs below the branches of a union. -/
def branchNodes : List (String × Ty) → List Path
  | [] => []
  | (name, t) :: rest =>
    (match structNodes? t with
      | none => []
      | some subs => if t.isStruct then [.node name []] else subs.map fun s => .node name [s])
      ++ branchNodes rest

end

/-- The paths to the outermost structs: empty for a struct, absent if there is none. -/
def structs? (t : Ty) : Option (List Path) :=
  t.structNodes?.map fun nodes => nodes.map fun n => .node "" [n]

end Ty

end Lineage
