import Lineage.Number.Shortest
import Lineage.Ty.Basic

set_option autoImplicit false

/-!
# Types as short text

## Main definitions

* `Lineage.Ty.plainFloat`: a double without exponent.
* `Lineage.Ty.render`: the text of a type, without stored form, names of types and properties.
-/

namespace Lineage.Ty

/-- Doubles are written with the fewest digits, never with an exponent, and whole ones without a
point. -/
def floatLayout : Shortest.Layout where
  plainFrom := none
  plainTo := none
  pointZero := false
  plus := false
  nan := "NaN"
  infinity := "inf"

/-- The text of a double. -/
def plainFloat (x : Float) : String := Shortest.render floatLayout x

/-- Items with a comma and a blank between them. -/
def commaSeparated (items : List String) : String := String.intercalate ", " items

/-- The text of a leaf. -/
def renderLeaf : Leaf → String
  | .null => "Null"
  | .unit => "Unit"
  | .boolean => "Boolean"
  | .id _ _ (some reference) => "Id(ref=" ++ reference.render ++ ")"
  | .id _ _ none => "Id"
  | .integer min max _ => "Integer[" ++ toString min ++ ", " ++ toString max ++ "]"
  | .enum nameValues _ => "Enum(" ++ commaSeparated (nameValues.map Prod.fst) ++ ")"
  | .float min max _ => "Float[" ++ plainFloat min ++ ", " ++ plainFloat max ++ "]"
  | .text _ => "Text"
  | .bytes => "Bytes"
  | .datetime _ min max _ => "Datetime[" ++ min ++ ", " ++ max ++ "]"

/-- The word for a form of members. -/
def renderForm : Form → String
  | .struct => "Struct"
  | .union => "Union"

/-- The text of a shape. -/
def renderShape (shape : List Nat) : String :=
  "[" ++ commaSeparated (shape.map toString) ++ "]"

/-- The text of a wrapper around the text of its inner type. -/
def renderWrapper (inner : String) : Wrapper → String
  | .optional => "Optional(" ++ inner ++ ")"
  | .list _ => "List(" ++ inner ++ ")"
  | .array shape => "Array(" ++ inner ++ ", " ++ renderShape shape ++ ")"
  | .constrained constraint => "Constrained(" ++ inner ++ ", " ++ constraint ++ ")"

mutual

/-- The text of a type. -/
def render : Ty → String
  | .leaf _ content => renderLeaf content
  | .members _ form fields =>
    renderForm form ++ "\x7b" ++ commaSeparated (renderFields fields) ++ "\x7d"
  | .wrapped _ wrapper inner => renderWrapper (render inner) wrapper
  | .hypothesis _ types => "Hypothesis(" ++ commaSeparated (renderScored types) ++ ")"

/-- The texts of members. -/
def renderFields : List (String × Ty) → List String
  | [] => []
  | (name, t) :: rest => (name ++ ": " ++ render t) :: renderFields rest

/-- The texts of candidates with their scores. -/
def renderScored : List (Ty × Float) → List String
  | [] => []
  | (t, score) :: rest => (render t ++ ": " ++ plainFloat score) :: renderScored rest

end

instance : ToString Ty := ⟨render⟩

end Lineage.Ty
