import Lineage.Digest
import Lineage.Path.Json
import Lineage.Ty.Basic

set_option autoImplicit false

/-!
# Types as values

A type is an object with its `kind`, its `name` if it has one and its `properties` if there are any;
a list of the three is read as well. A kind is a text or an object with one member that holds the
kind's content.

## Main definitions

* `Lineage.Ty.toJson`, `Lineage.Ty.ofJson?`: writing and reading.
* `Lineage.Ty.fingerprint`: the digest of the written form.
-/

namespace Lineage.Ty

/-- The names of stored forms of identifiers. -/
def idBases : List (String × IdBase) := [("int64", .int64), ("string", .string)]

/-- The names of stored forms of whole numbers. -/
def integerBases : List (String × IntegerBase) :=
  [("int8", .int8), ("int16", .int16), ("int32", .int32), ("int64", .int64)]

/-- The names of stored forms of doubles. -/
def floatBases : List (String × FloatBase) := [("float32", .float32), ("float64", .float64)]

/-- The names of stored forms of points in time. -/
def datetimeBases : List (String × DatetimeBase) :=
  [("timestamp", .timestamp), ("date", .date), ("text", .text)]

/-- The name of a choice. -/
def choiceName {α : Type} [DecidableEq α] (choices : List (String × α)) (a : α) : Json :=
  Json.optional .string ((choices.find? fun c => c.2 == a).map Prod.fst)

/-- A kind with content. -/
def kindJson (name : String) (content : List (String × Json)) : Json :=
  .object [(name, .object content)]

/-- The kind of a leaf. -/
def leafJson : Leaf → Json
  | .null => .string "null"
  | .unit => .string "unit"
  | .boolean => .string "boolean"
  | .bytes => .string "bytes"
  | .id unique base reference =>
    kindJson "id" ([("unique", .bool unique), ("base", choiceName idBases base)]
      ++ Json.optionalMember "reference" Path.toJson reference)
  | .integer min max base =>
    kindJson "integer"
      [("min", .int min), ("max", .int max), ("base", choiceName integerBases base)]
  | .enum nameValues ordered =>
    kindJson "enum"
      [("name_values", .array (nameValues.map fun e => .array [.string e.1, .int e.2])),
        ("ordered", .bool ordered)]
  | .float min max base =>
    kindJson "float"
      [("min", Json.ofFloat min), ("max", Json.ofFloat max), ("base", choiceName floatBases base)]
  | .text encoding => kindJson "text" [("encoding", .string encoding)]
  | .datetime format min max base =>
    kindJson "datetime"
      [("format", .string format), ("min", .string min), ("max", .string max),
        ("base", choiceName datetimeBases base)]

/-- A type from its kind, its name and its properties. -/
def infoJson (kind : Json) (info : Info) : Json :=
  .object ([("kind", kind)] ++ Json.optionalMember "name" .string info.name
    ++ Json.dictMember "properties" info.properties)

/-- What a wrapper adds to its inner type. -/
def wrapperMembers : Wrapper → List (String × Json)
  | .optional => []
  | .list maxSize => [("max_size", Json.ofNat maxSize)]
  | .array shape => [("shape", .array (shape.map Json.ofNat))]
  | .constrained constraint => [("constraint", .string constraint)]

mutual

/-- The object of a type. -/
def toJson : Ty → Json
  | .leaf info content => infoJson (leafJson content) info
  | .members info form fields =>
    infoJson (kindJson (formKind form) [("fields", .array (fieldsJson fields))]) info
  | .wrapped info wrapper inner =>
    infoJson
      (kindJson (wrapperKind wrapper) (("inner", toJson inner) :: wrapperMembers wrapper)) info
  | .hypothesis info types =>
    infoJson (kindJson "hypothesis" [("types", .array (scoredJson types))]) info

/-- Members as pairs. -/
def fieldsJson : List (String × Ty) → List Json
  | [] => []
  | (name, t) :: rest => .array [.string name, toJson t] :: fieldsJson rest

/-- Candidates as pairs. -/
def scoredJson : List (Ty × Float) → List Json
  | [] => []
  | (t, score) :: rest => .array [toJson t, Json.ofFloat score] :: scoredJson rest

end

/-- A leaf from the name of its kind and the members of its content. -/
def leafOfMembers? (kind : String) (ms : List (String × Json)) : Option Leaf :=
  if kind = "id" then do
    some (.id (← Json.required? "unique" Json.asBool? ms)
      (← Json.defaulted? "base" .int64 (Json.asChoice? idBases) ms)
      (← Json.nullable? "reference" Path.ofJson? ms))
  else if kind = "integer" then do
    some (.integer (← Json.required? "min" Json.asInt64? ms)
      (← Json.required? "max" Json.asInt64? ms)
      (← Json.defaulted? "base" .int64 (Json.asChoice? integerBases) ms))
  else if kind = "enum" then do
    let pair := Json.asPair? Json.asString? Json.asInt64?
    some (.enum (← Json.required? "name_values" (Json.asListOf? pair) ms)
      (← Json.defaulted? "ordered" false Json.asBool? ms))
  else if kind = "float" then do
    some (.float (← Json.required? "min" Json.asFloat? ms) (← Json.required? "max" Json.asFloat? ms)
      (← Json.defaulted? "base" .float64 (Json.asChoice? floatBases) ms))
  else if kind = "text" then do
    some (.text (← Json.required? "encoding" Json.asString? ms))
  else if kind = "datetime" then do
    some (.datetime (← Json.required? "format" Json.asString? ms)
      (← Json.required? "min" Json.asString? ms) (← Json.required? "max" Json.asString? ms)
      (← Json.defaulted? "base" .text (Json.asChoice? datetimeBases) ms))
  else none

/-- A leaf from the name of a kind without content. -/
def leafOfName? (kind : String) : Option Leaf :=
  if kind = "null" then some .null
  else if kind = "unit" then some .unit
  else if kind = "boolean" then some .boolean
  else if kind = "bytes" then some .bytes
  else none

/-- The form of members from its name. -/
def formOfName? (kind : String) : Option Form :=
  if kind = "struct" then some .struct else if kind = "union" then some .union else none

/-- A wrapper from the name of its kind and the members of its content. -/
def wrapperOfMembers? (kind : String) (ms : List (String × Json)) : Option Wrapper :=
  if kind = "optional" then some .optional
  else if kind = "list" then (Json.required? "max_size" Json.asNat64? ms).map .list
  else if kind = "array" then
    (Json.required? "shape" (Json.asListOf? Json.asNat64?) ms).map .array
  else if kind = "constrained" then
    (Json.required? "constraint" Json.asString? ms).map .constrained
  else none

/-- The name and the properties among the members of a type's object. -/
def infoOfMembers? (ms : List (String × Json)) : Option Info := do
  some ⟨← Json.nullable? "name" Json.asString? ms, ← Json.textDict? "properties" ms⟩

mutual

/-- The type of an object or a list. -/
def ofJson? : Json → Option Ty
  | .object ms => (infoOfMembers? ms).bind fun info => kindIn? info ms
  | .array (kind :: rest) =>
    ((Json.nameItems? ["name", "properties"] rest).bind infoOfMembers?).bind fun info =>
      ofKind? info kind
  | _ => none

/-- The type whose kind stands under the member `kind`. -/
def kindIn? (info : Info) : List (String × Json) → Option Ty
  | [] => none
  | (key, value) :: rest => if key = "kind" then ofKind? info value else kindIn? info rest

/-- The type of a kind. -/
def ofKind? (info : Info) : Json → Option Ty
  | .string kind => (leafOfName? kind).map (.leaf info)
  | .object [(kind, .null)] => (leafOfName? kind).map (.leaf info)
  | .object [(kind, .object ms)] =>
    match formOfName? kind with
    | some form => (fieldsIn? ms).map (.members info form)
    | none =>
      if kind = "hypothesis" then (typesIn? ms).map (.hypothesis info)
      else
        match wrapperOfMembers? kind ms with
        | some wrapper => (innerIn? ms).map (.wrapped info wrapper)
        | none => (leafOfMembers? kind ms).map (.leaf info)
  | _ => none

/-- The members under `fields`. -/
def fieldsIn? : List (String × Json) → Option (List (String × Ty))
  | [] => none
  | (key, value) :: rest =>
    if key = "fields" then
      match value with
      | .array items => fieldsOf? items
      | _ => none
    else fieldsIn? rest

/-- Members from pairs. -/
def fieldsOf? : List Json → Option (List (String × Ty))
  | [] => some []
  | .array [.string name, item] :: rest => do
    some ((name, ← ofJson? item) :: (← fieldsOf? rest))
  | _ => none

/-- The candidates under `types`. -/
def typesIn? : List (String × Json) → Option (List (Ty × Float))
  | [] => none
  | (key, value) :: rest =>
    if key = "types" then
      match value with
      | .array items => typesOf? items
      | _ => none
    else typesIn? rest

/-- Candidates from pairs. -/
def typesOf? : List Json → Option (List (Ty × Float))
  | [] => some []
  | .array [item, score] :: rest => do
    some ((← ofJson? item, ← Json.asFloat? score) :: (← typesOf? rest))
  | _ => none

/-- The type under `inner`. -/
def innerIn? : List (String × Json) → Option Ty
  | [] => none
  | (key, value) :: rest => if key = "inner" then ofJson? value else innerIn? rest

end

/-- The digest of the written form of a type. -/
def fingerprint (t : Ty) : Digest := Digest.ofJson t.toJson

end Lineage.Ty
