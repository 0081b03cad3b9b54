import Lineage.Transform.Basic
import Lineage.Ty.Json

set_option autoImplicit false

/-!
# Transforms as values

## Main definitions

* `Lineage.Transform.toJson`, `Lineage.Transform.ofJson?`: writing and reading.
* `Lineage.SampleSize.toJson`, `Lineage.Step.toJson` and their inverses.
-/

namespace Lineage

/-- The names of the kinds of nodes. -/
def NodeKind.names : List (String × NodeKind) := [("dataset", .dataset), ("scalar", .scalar)]

/-- The name of a kind of nodes. -/
def NodeKind.toJson : NodeKind → Json
  | .dataset => .string "dataset"
  | .scalar => .string "scalar"

/-- The kind of nodes with a name. -/
def NodeKind.ofJson? (value : Json) : Option NodeKind := Json.asChoice? names value

/-- The object of a sample size. -/
def SampleSize.toJson : SampleSize → Json
  | .fraction part => .object [("fraction", Json.ofFloat part)]
  | .size rows => .object [("size", Json.ofNat rows)]

/-- The sample size of an object. -/
def SampleSize.ofJson? : Json → Option SampleSize
  | .object [(name, value)] =>
    if name = "fraction" then value.asFloat?.map .fraction
    else if name = "size" then value.asNat64?.map .size
    else none
  | _ => none

/-- The object of a position. -/
def Position.toJson : Position → Json
  | .index i => .object [("index", Json.ofNat i)]
  | .name n => .object [("name", .string n)]

/-- The position of an object. -/
def Position.ofJson? : Json → Option Position
  | .object [(key, value)] =>
    if key = "index" then value.asNat64?.map .index
    else if key = "name" then value.asString?.map .name
    else none
  | _ => none

/-- The members of an operation's object. -/
def Step.members : Step → List (String × Json)
  | .filter target => [("filter", target.toJson)]
  | .project target => [("projection", target.toJson)]
  | .getItem path => [("path", path.toJson)]
  | .sample size => [("size", size.toJson)]
  | .slice start stop => [("start", .int start), ("end", .int stop)]
  | .extract size seed => [("size", Json.ofNat size), ("seed", Json.ofNat seed)]
  | .selectSql query => [("query", .string query)]
  | .shuffle => []
  | .differentiatedSample size => [("size", size.toJson)]
  | .external call =>
    [("library", .string call.library), ("op", .string call.op), ("arguments", call.arguments),
      ("returns", call.returns.toJson)]

/-- The value of an operation: its name, with its members where it has any. -/
def Step.toJson (s : Step) : Json :=
  match s with
  | .shuffle => .string s.kindName
  | _ => .object [(s.kindName, .object s.members)]

/-- The operation of a name and members. -/
def Step.ofMembers? (name : String) (ms : List (String × Json)) : Option Step :=
  if name = "filter" then (Json.required? "filter" Ty.ofJson? ms).map .filter
  else if name = "project" then (Json.required? "projection" Ty.ofJson? ms).map .project
  else if name = "get_item" then (Json.required? "path" Path.ofJson? ms).map .getItem
  else if name = "sample" then (Json.required? "size" SampleSize.ofJson? ms).map .sample
  else if name = "slice" then do
    some (.slice (← Json.required? "start" Json.asInt64? ms)
      (← Json.required? "end" Json.asInt64? ms))
  else if name = "extract" then do
    some (.extract (← Json.required? "size" Json.asNat64? ms)
      (← Json.required? "seed" Json.asNat64? ms))
  else if name = "select_sql" then (Json.required? "query" Json.asString? ms).map .selectSql
  else if name = "differentiated_sample" then
    (Json.required? "size" SampleSize.ofJson? ms).map .differentiatedSample
  else if name = "external" then do
    some (.external ⟨← Json.required? "library" Json.asString? ms,
      ← Json.required? "op" Json.asString? ms, ← Json.defaulted? "arguments" .null some ms,
      ← Json.required? "returns" NodeKind.ofJson? ms⟩)
  else none

namespace Transform

/-- A transform's object from its operation and its heading. -/
def headingJson (spec : Json) (h : Heading) : Json :=
  .object ([("name", .string h.name)] ++ (if h.doc = "" then [] else [("doc", .string h.doc)])
    ++ [("spec", spec)] ++ Json.dictMember "properties" h.properties)

mutual

/-- The object of a transform. -/
def toJson : Transform → Json
  | .step h content => headingJson content.toJson h
  | .variable h position =>
    headingJson (.object [("variable", .object [("position", position.toJson)])]) h
  | .composed h head arguments named =>
    headingJson
      (.object [("composed", .object
        [("transform", toJson head), ("arguments", .array (listJson arguments)),
          ("named_arguments", .object (namedJson named))])]) h

/-- The objects of a list of transforms. -/
def listJson : List Transform → List Json
  | [] => []
  | t :: rest => toJson t :: listJson rest

/-- The objects of named transforms. -/
def namedJson : List (String × Transform) → List (String × Json)
  | [] => []
  | (n, t) :: rest => (n, toJson t) :: namedJson rest

end

/-- The heading among the members of a transform's object. -/
def headingOf? (ms : List (String × Json)) : Option Heading := do
  some ⟨← Json.required? "name" Json.asString? ms, ← Json.defaulted? "doc" "" Json.asString? ms,
    ← Json.textDict? "properties" ms⟩

mutual

/-- The transform of an object, or of a list of name, description, operation and properties. -/
def ofJson? : Json → Option Transform
  | .object ms => (headingOf? ms).bind fun h => specIn? h ms
  | .array (name :: doc :: spec :: rest) =>
    ((Json.nameItems? ["properties"] rest).bind fun ms =>
      headingOf? (("name", name) :: ("doc", doc) :: ms)).bind fun h => ofSpec? h spec
  | _ => none

/-- The transform whose operation stands under `spec`. -/
def specIn? (h : Heading) : List (String × Json) → Option Transform
  | [] => none
  | (key, value) :: rest => if key = "spec" then ofSpec? h value else specIn? h rest

/-- The transform of an operation. -/
def ofSpec? (h : Heading) : Json → Option Transform
  | .string name => if name = "shuffle" then some (.step h .shuffle) else none
  | .object [(name, .null)] => if name = "shuffle" then some (.step h .shuffle) else none
  | .object [(name, .object ms)] =>
    if name = "variable" then (Json.required? "position" Position.ofJson? ms).map (.variable h)
    else if name = "composed" then do
      some (.composed h (← headIn? ms) (← argumentsIn? ms) (← namedIn? ms))
    else (Step.ofMembers? name ms).map (.step h)
  | _ => none

/-- The head of a composition. -/
def headIn? : List (String × Json) → Option Transform
  | [] => none
  | (key, value) :: rest => if key = "transform" then ofJson? value else headIn? rest

/-- The arguments of a composition; none when missing. -/
def argumentsIn? : List (String × Json) → Option (List Transform)
  | [] => some []
  | (key, value) :: rest =>
    if key = "arguments" then
      match value with
      | .array items => listOf? items
      | _ => none
    else argumentsIn? rest

/-- Transforms from a list of objects. -/
def listOf? : List Json → Option (List Transform)
  | [] => some []
  | item :: rest => do some ((← ofJson? item) :: (← listOf? rest))

/-- The named arguments of a composition; none when missing. -/
def namedIn? : List (String × Json) → Option (Dict Transform)
  | [] => some []
  | (key, value) :: rest =>
    if key = "named_arguments" then
      match value with
      | .object entries => (namedOf? entries).map Dict.ofList
      | _ => none
    else namedIn? rest

/-- Named transforms from the members of an object. -/
def namedOf? : List (String × Json) → Option (List (String × Transform))
  | [] => some []
  | (n, value) :: rest => do some ((n, ← ofJson? value) :: (← namedOf? rest))

end

end Transform

end Lineage
