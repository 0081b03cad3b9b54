import Lineage.Json.Record
import Lineage.Path.Basic

set_option autoImplicit false

/-!
# Paths as values

A path is an object with `label` and, where there are any, `sub_paths`; a list of the two is read as
well.

## Main definitions

* `Lineage.Path.toJson`, `Lineage.Path.ofJson?`: writing and reading.
-/

namespace Lineage.Path

/-- The names of the members of a path. -/
def memberNames : List String := ["label", "sub_paths"]

mutual

/-- The object of a path. -/
def toJson : Path → Json
  | .node l [] => .object [("label", .string l)]
  | .node l (p :: ps) =>
    .object [("label", .string l), ("sub_paths", .array (toJsonList (p :: ps)))]

/-- The objects of a list of paths. -/
def toJsonList : List Path → List Json
  | [] => []
  | p :: ps => toJson p :: toJsonList ps

end

mutual

/-- The path of an object or a list; a repeated member is refused. -/
def ofJson? : Json → Option Path
  | .object members => do
    if Json.repeats "label" members || Json.repeats "sub_paths" members then none
    let label ← Json.required? "label" Json.asString? members
    let subPaths ← subPathsIn? members
    some (.node label subPaths)
  | .array [.string label] => some (.node label [])
  | .array [.string label, .array items] => (ofJsonList? items).map (.node label)
  | _ => none

/-- The nodes under the member `sub_paths`; none when it is missing. -/
def subPathsIn? : List (String × Json) → Option (List Path)
  | [] => some []
  | (key, value) :: rest =>
    if key = "sub_paths" then
      match value with
      | .array items => ofJsonList? items
      | _ => none
    else subPathsIn? rest

/-- The paths of a list of objects. -/
def ofJsonList? : List Json → Option (List Path)
  | [] => some []
  | item :: rest => do some ((← ofJson? item) :: (← ofJsonList? rest))

end

end Lineage.Path
