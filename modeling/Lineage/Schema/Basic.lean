import Lineage.Json.Reader
import Lineage.Json.Writer
import Lineage.Ty.Address
import Lineage.Ty.Json
import Lineage.Ty.References

set_option autoImplicit false

/-!
# Schemas

A schema names a type and says which of its parts are protected. Protected data keeps its payload
under the member `data`, beside other members. The primary keys are kept as text among the
properties.

## Main definitions

* `Lineage.Schema`: name, type, protected paths and properties.
* `Lineage.Schema.hasWrapper`, `Lineage.Schema.payload`, `Lineage.Schema.rewrap`: the payload.
* `Lineage.Schema.primaryKeys`, `Lineage.Schema.withPrimaryKeys`: the keys.
* `Lineage.Schema.derive`: the schema of data made from this.
* `Lineage.Schema.tables`: the places of the outermost structs.
* `Lineage.Schema.toJson`, `Lineage.Schema.ofJson?`: writing and reading.
-/

namespace Lineage

/-- A named type with protected paths and properties. -/
structure Schema where
  /-- The name. -/
  name : String
  /-- The type of the whole rows. -/
  ty : Ty
  /-- The protected parts. -/
  protectedPaths : List Path
  /-- Properties, sorted by key. -/
  properties : Dict String

namespace Schema

/-- The property that holds the primary keys. -/
def primaryKeysProperty : String := "primary_keys"

/-- A schema without protected parts and properties. -/
def ofTy (name : String) (ty : Ty) : Schema := ⟨name, ty, [], []⟩

/-- A schema whose payload lies under `data`, in front of its siblings. -/
def wrapping (name : String) (payload : Ty) (siblings : List (String × Ty)) : Schema :=
  ⟨name, .struct ((dataLabel, payload) :: siblings), [Path.ofLabels [dataLabel]], []⟩

/-- The schema with one property set. -/
def withProperty (key value : String) (s : Schema) : Schema :=
  ⟨s.name, s.ty, s.protectedPaths, s.properties.insert key value⟩

/-- Whether the payload lies under `data`: some part is protected and the type is a struct with
such a member. -/
def hasWrapper (s : Schema) : Bool :=
  !s.protectedPaths.isEmpty && s.ty.isStruct && (s.ty.child? dataLabel).isSome

/-- The type of the payload. -/
def payload (s : Schema) : Ty :=
  if s.hasWrapper then (s.ty.child? dataLabel).getD s.ty else s.ty

/-- The type of the whole rows after the payload has become `payload`. -/
def rewrap (s : Schema) (payload : Ty) : Ty :=
  if s.hasWrapper then
    .members s.ty.info .struct
      (s.ty.children.map fun field => if field.1 = dataLabel then (field.1, payload) else field)
  else payload

/-- The text that stands for a list of keys. -/
def keysText (keys : List Path) : String :=
  (Json.array (Path.toJsonList keys)).render

/-- The keys that a text stands for; only the members of paths are read. -/
def keysOfText? (text : String) : Option (List Path) :=
  match Json.parseMembers? Path.memberNames.contains text with
  | some (.array items) => Path.ofJsonList? items
  | _ => none

/-- The fault of a property that is not the text of a list of keys. -/
def badKeys : Fault := .schema "bad primary_keys property"

/-- The primary keys; none without the property. -/
def primaryKeys (s : Schema) : Outcome (List Path) :=
  match s.properties.find? primaryKeysProperty with
  | none => .ok []
  | some text => Outcome.ofOption badKeys (keysOfText? text)

/-- The schema with other primary keys. -/
def withPrimaryKeys (keys : List Path) (s : Schema) : Schema :=
  s.withProperty primaryKeysProperty (keysText keys)

/-- The schema with those of its primary keys that lead somewhere in a type. -/
def retainPrimaryKeys (ty : Ty) (s : Schema) : Outcome Schema :=
  if s.properties.contains primaryKeysProperty then do
    let keys ← s.primaryKeys
    .ok (s.withPrimaryKeys (keys.filter ty.hasPath))
  else .ok s

/-- The schema of data of another type made from this: protected parts and primary keys stay where
they lead somewhere. -/
def derive (s : Schema) (name : String) (ty : Ty) : Outcome Schema := do
  let kept ← retainPrimaryKeys ty ⟨name, ty, s.protectedPaths, s.properties⟩
  .ok ⟨name, ty, kept.protectedPaths.filter ty.hasPath, kept.properties⟩

/-- Every reference with the place of its key. -/
def foreignKeys (s : Schema) : List (Path × Path) := s.ty.foreignKeys

/-- The steps to the payload. -/
def payloadSteps (s : Schema) : List String :=
  if s.hasWrapper then [dataLabel] else []

/-- The places of the outermost structs, or of the payload if it holds none. -/
def tables (s : Schema) : List Path :=
  match s.payload.structs? with
  | some (path :: paths) =>
    ((path :: paths).flatMap Path.branches).map fun steps => Path.ofLabels (s.payloadSteps ++ steps)
  | _ => [Path.ofLabels s.payloadSteps]

/-! ### Schemas as values -/

/-- The object of a schema; empty parts are left out. -/
def toJson (s : Schema) : Json :=
  .object ([("name", .string s.name), ("type", s.ty.toJson)]
    ++ (if s.protectedPaths.isEmpty then []
      else [("protected_paths", .array (Path.toJsonList s.protectedPaths))])
    ++ Json.dictMember "properties" s.properties)

/-- The schema of an object or a list. -/
def ofJson? (value : Json) : Option Schema := do
  let ms ← value.asRecord? ["name", "type", "protected_paths", "properties"]
  some ⟨← Json.required? "name" Json.asString? ms, ← Json.required? "type" Ty.ofJson? ms,
    ← Json.defaulted? "protected_paths" [] (Json.asListOf? Path.ofJson?) ms,
    ← Json.textDict? "properties" ms⟩

end Schema

end Lineage
