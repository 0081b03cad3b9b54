import Lineage.Fault
import Lineage.Json.Basic
import Lineage.Number.Binary64
import Lineage.Text.Blank
import Lineage.Ty.Basic

set_option autoImplicit false

/-!
# Transforms

A transform says how a node is made from its parents. A step is one operation; a variable stands
for a transform that is still to be given; a composition applies a head to the results of other
transforms.

## Main definitions

* `Lineage.SampleSize`, `Lineage.SampleSize.rows`: how many rows a sample has.
* `Lineage.Step`: the operations.
* `Lineage.Transform`: steps, variables and compositions.
* `Lineage.Transform.variablePositions`: the variables of a transform, sorted and each once.
* `Lineage.Transform.externalCall`: the step of an external operation.
-/

namespace Lineage

/-- Whether a node stands for rows or for a single value. -/
inductive NodeKind where
  /-- Rows of a type. -/
  | dataset
  /-- A single value. -/
  | scalar
  deriving DecidableEq, Repr

/-- How large a sample is. -/
inductive SampleSize where
  /-- A part of the rows. -/
  | fraction (part : Float)
  /-- A number of rows. -/
  | size (rows : Nat)

/-- The number of rows of a sample out of `total`; a part of them is rounded, a half up. -/
def SampleSize.rows (total : Nat) : SampleSize → Nat
  | .size n => n
  | .fraction part => (Binary64.round 0 (Number.word64 - 1) (part * Float.ofNat total)).toNat

/-- Which argument a variable stands for. -/
inductive Position where
  /-- The argument at an index. -/
  | index (i : Nat)
  /-- The argument with a name. -/
  | name (n : String)
  deriving DecidableEq, Repr

namespace Position

/-- The text of a position. -/
def render : Position → String
  | .index i => "#" ++ toString i
  | .name n => n

/-- Indices come before names. -/
def le : Position → Position → Bool
  | .index i, .index j => i ≤ j
  | .index _, .name _ => true
  | .name _, .index _ => false
  | .name m, .name n => m ≤ n

/-- The argument at a position. -/
def find? {α : Type} (arguments : List α) (named : Dict α) : Position → Option α
  | .index i => arguments[i]?
  | .name n => named.find? n

end Position

/-- A call of an operation that is defined elsewhere. -/
structure ExternalCall where
  /-- The library. -/
  library : String
  /-- The operation in the library. -/
  op : String
  /-- Its arguments. -/
  arguments : Json
  /-- What it returns. -/
  returns : NodeKind

/-- The two parts of the name of an operation with a dot between them. -/
def ExternalCall.fullName (library op : String) : String := library ++ "." ++ op

/-- One operation. -/
inductive Step where
  /-- Keep the rows and union branches that a type admits. -/
  | filter (target : Ty)
  /-- Keep the columns that a type has. -/
  | project (target : Ty)
  /-- Keep the part under a path. -/
  | getItem (path : Path)
  /-- Keep rows drawn at random, in their order. -/
  | sample (size : SampleSize)
  /-- Keep the rows from `start` up to but not including `stop`. -/
  | slice (start stop : Int)
  /-- All rows; size and seed are carried along and not used. -/
  | extract (size seed : Nat)
  /-- The result of a query. -/
  | selectSql (query : String)
  /-- All rows in random order. -/
  | shuffle
  /-- A sample that keeps track of its part in privacy budgets; it is not evaluated here. -/
  | differentiatedSample (size : SampleSize)
  /-- The result of an external operation. -/
  | external (call : ExternalCall)

/-- The name of the kind of a step. -/
def Step.kindName : Step → String
  | .filter _ => "filter"
  | .project _ => "project"
  | .getItem _ => "get_item"
  | .sample _ => "sample"
  | .slice .. => "slice"
  | .extract .. => "extract"
  | .selectSql _ => "select_sql"
  | .shuffle => "shuffle"
  | .differentiatedSample _ => "differentiated_sample"
  | .external _ => "external"

/-- The name, the description and the properties of a transform. -/
structure Heading where
  /-- The name. -/
  name : String
  /-- A description, empty if there is none. -/
  doc : String := ""
  /-- Properties, sorted by key. -/
  properties : Dict String := []
  deriving DecidableEq, Repr

/-- How a node is made from its parents. -/
inductive Transform where
  /-- One operation on the parents. -/
  | step (heading : Heading) (content : Step)
  /-- A place for another transform. -/
  | variable (heading : Heading) (position : Position)
  /-- A head on top of the results of other transforms. -/
  | composed (heading : Heading) (head : Transform) (arguments : List Transform)
      (named : List (String × Transform))

namespace Transform

/-- A heading that only has a name. -/
def named (name : String) : Heading := { name := name, doc := "", properties := [] }

/-- The name, the description and the properties. -/
def heading : Transform → Heading
  | .step h _ | .variable h _ | .composed h _ _ _ => h

/-- The name. -/
def name (t : Transform) : String := t.heading.name

/-- The same transform with another heading. -/
def withHeading (h : Heading) : Transform → Transform
  | .step _ content => .step h content
  | .variable _ position => .variable h position
  | .composed _ head arguments named => .composed h head arguments named

/-- The same transform with another description. -/
def withDoc (doc : String) (t : Transform) : Transform :=
  t.withHeading { name := t.heading.name, doc := doc, properties := t.heading.properties }

/-- A step named after its kind. -/
def ofStep (content : Step) : Transform := .step (named content.kindName) content

/-- A variable. -/
def ofPosition (position : Position) : Transform := .variable (named "variable") position

/-- The name of the kind of a transform. -/
def kindName : Transform → String
  | .step _ content => content.kindName
  | .variable .. => "variable"
  | .composed .. => "composed"

/-- Whether a transform is a call of an external operation. -/
def isExternal : Transform → Bool
  | .step _ (.external _) => true
  | _ => false

/-- Whether a transform is a composition. -/
def isComposed : Transform → Bool
  | .composed .. => true
  | _ => false

/-- Whether a transform is a variable. -/
def isVariable : Transform → Bool
  | .variable .. => true
  | _ => false

/-- Whether a transform is a step that is not external. -/
def isStandard (t : Transform) : Bool :=
  !(t.isExternal || t.isComposed || t.isVariable)

mutual

/-- The variables of a transform from left to right, with repetitions: those of the head, of the
arguments and of the named arguments. -/
def positions : Transform → List Position
  | .step _ _ => []
  | .variable _ position => [position]
  | .composed _ head arguments named =>
    positions head ++ positionsOf arguments ++ positionsOfNamed named

/-- The variables of a list of transforms. -/
def positionsOf : List Transform → List Position
  | [] => []
  | t :: rest => positions t ++ positionsOf rest

/-- The variables of named transforms. -/
def positionsOfNamed : List (String × Transform) → List Position
  | [] => []
  | (_, t) :: rest => positions t ++ positionsOfNamed rest

end

/-- Drop equal neighbours. -/
def dropRepeats : List Position → List Position
  | [] => []
  | [p] => [p]
  | p :: q :: rest => if p = q then dropRepeats (q :: rest) else p :: dropRepeats (q :: rest)

/-- The variables of a transform, sorted and each once. -/
def variablePositions (t : Transform) : List Position :=
  dropRepeats (t.positions.mergeSort Position.le)

/-- The step of the external operation with a full name, which has two parts that are not empty. -/
def externalCall (fullName : String) (arguments : Json) (returns : NodeKind) : Outcome Transform :=
  let bad : Fault :=
    .invalidInput ("external op id '" ++ fullName ++ "' is not of the form library.op")
  match Text.splitAt '.' fullName with
  | [library, op] =>
    if library = "" ∨ op = "" then .error bad
    else .ok (.step (named fullName) (.external ⟨library, op, arguments, returns⟩))
  | _ => .error bad

end Transform

end Lineage
