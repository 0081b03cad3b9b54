import Lineage.Schema.Basic
import Lineage.Yaml.Outline

set_option autoImplicit false

/-!
# Types and schemas as documents

A type is shown as its value is (`Lineage.Ty.toJson`), but a kind with content has its name as a
tag, and doubles that are not finite have words of their own.

## Main definitions

* `Lineage.Ty.outline`: the outline of a type.
* `Lineage.Schema.document`: the text of a schema as a document.
-/

namespace Lineage

open Yaml (Outline)

namespace Ty

/-- A kind: its name as a tag if it has content, else as a text. -/
def kindOutline : Json → Outline
  | .object [(name, content)] => .tagged name (.ofJson content)
  | value => .ofJson value

/-- The kind of a leaf. -/
def leafOutline : Leaf → Outline
  | .float min max base =>
    .tagged "float" (.mapping
      [("min", .ofFloat min), ("max", .ofFloat max),
        ("base", .ofJson (choiceName floatBases base))])
  | content => kindOutline (leafJson content)

/-- A type from its kind, its name and its properties. -/
def infoOutline (kind : Outline) (info : Info) : Outline :=
  .mapping (("kind", kind)
    :: Outline.ofMembers (Json.optionalMember "name" .string info.name
      ++ Json.dictMember "properties" info.properties))

mutual

/-- The outline of a type. -/
def outline : Ty → Outline
  | .leaf info content => infoOutline (leafOutline content) info
  | .members info form fields =>
    infoOutline
      (.tagged (formKind form) (.mapping [("fields", .sequence (fieldOutlines fields))])) info
  | .wrapped info wrapper inner =>
    infoOutline (.tagged (wrapperKind wrapper)
      (.mapping (("inner", outline inner) :: Outline.ofMembers (wrapperMembers wrapper)))) info
  | .hypothesis info types =>
    infoOutline (.tagged "hypothesis" (.mapping [("types", .sequence (scoredOutlines types))])) info

/-- Members as pairs. -/
def fieldOutlines : List (String × Ty) → List Outline
  | [] => []
  | (name, t) :: rest => .sequence [.text name, outline t] :: fieldOutlines rest

/-- Candidates as pairs. -/
def scoredOutlines : List (Ty × Float) → List Outline
  | [] => []
  | (t, score) :: rest => .sequence [outline t, .ofFloat score] :: scoredOutlines rest

end

end Ty

namespace Schema

/-- The entries of a schema; empty parts are left out. -/
def outline (s : Schema) : List (String × Outline) :=
  [("name", .text s.name), ("type", s.ty.outline)]
    ++ Outline.ofMembers
      ((if s.protectedPaths.isEmpty then []
        else [("protected_paths", .array (Path.toJsonList s.protectedPaths))])
        ++ Json.dictMember "properties" s.properties)

/-- The text of a schema as a document. -/
def document (s : Schema) : String := Outline.render s.outline

end Schema

end Lineage
