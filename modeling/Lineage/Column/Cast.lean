import Lineage.Column.Batch
import Lineage.Number.Reader
import Lineage.Text.Digit
import Lineage.Time.Calendar

set_option autoImplicit false

/-!
# Cells read as numbers and texts

A column of one type can be read as whole numbers, as doubles or as texts. A cell that has no such
reading becomes null; a column whose type has none is refused.

## Main definitions

* `Lineage.Cell.text?`: the text of a cell of a given type; nulls are empty. There is none for a
  date or point in time outside the supported years.
* `Lineage.Column.asInts`, `Lineage.Column.asFloats`, `Lineage.Column.asTexts`: the readings.
-/

namespace Lineage

namespace Cell

/-- Doubles are written without exponent while the power of the first digit is in `-5..15`, always
with a point or an exponent; exponents have no plus. -/
def floatLayout : Shortest.Layout where
  plainFrom := some (-5)
  plainTo := some 15
  pointZero := true
  plus := false
  nan := "NaN"
  infinity := "inf"

/-- The text of a cell of a scalar type. -/
def scalarText? (s : Scalar) : Cell → Option String
  | .bool b => some (if b then "true" else "false")
  | .int n =>
    match s with
    | .date32 => Calendar.dateText? n
    | .timestamp unit => Calendar.timestampText? unit.perSecond n
    | _ => some (toString n)
  | .float x =>
    match s with
    | .float32 => some (Shortest.renderSingle floatLayout x)
    | _ => some (Shortest.render floatLayout x)
  | .text t => some t
  | .bytes bs => some (Text.hexOfBytes bs)
  | _ => some ""

mutual

/-- The text of a cell. -/
def text? : ColumnType → Cell → Option String
  | .scalar s, cell => scalarText? s cell
  | .struct fs, .struct true parts =>
    (structTexts? fs parts).map fun texts =>
      "\x7b" ++ ColumnType.commaSeparated texts ++ "\x7d"
  | .list _ ⟨_, type, _⟩, .list items =>
    (items.mapM (text? type)).map fun texts => "[" ++ ColumnType.commaSeparated texts ++ "]"
  | _, _ => some ""

/-- The texts of the parts of a struct with their names. -/
def structTexts? : List (FieldOf ColumnType) → List Cell → Option (List String)
  | ⟨name, type, _⟩ :: fs, part :: parts => do
    let first ← text? type part
    let rest ← structTexts? fs parts
    some ((name ++ ": " ++ first) :: rest)
  | _, _ => some []

end

end Cell

namespace Column

/-- Whether a scalar is stored as a text. -/
def isText : Scalar → Bool
  | .utf8 | .largeUtf8 | .utf8View => true
  | _ => false

/-- A whole number of 64 bits with sign. -/
def int64? (n : Int) : Option Int :=
  if IntWidth.i64.lo ≤ n ∧ n ≤ IntWidth.i64.hi then some n else none

/-- A cell as a whole number of 64 bits: truth values are 0 and 1, floating-point numbers are cut
toward zero, texts are digits with an optional sign. -/
def cellInt? : Cell → Option Int
  | .bool b => some (if b then 1 else 0)
  | .int n => int64? n
  | .float x => Binary64.truncate? IntWidth.i64.lo IntWidth.i64.hi x
  | .text t => (Number.intOfChars? t.toList).bind int64?
  | _ => none

/-- A cell as a double. -/
def cellFloat? : Cell → Option Float
  | .bool b => some (if b then 1.0 else 0.0)
  | .int n => some (Float.ofInt n)
  | .float x => some x
  | .text t => Number.floatOfText? t
  | _ => none

/-- Whether a scalar can be read as a whole number. -/
def readsAsInt : Scalar → Bool
  | .null | .boolean | .integer _ | .float16 | .float32 | .float64 => true
  | .utf8 | .largeUtf8 | .utf8View => true
  | .date32 | .date64 | .timestamp _ => true
  | _ => false

/-- Whether a scalar can be read as a double. -/
def readsAsFloat : Scalar → Bool
  | .null | .boolean | .integer _ | .float16 | .float32 | .float64 => true
  | .utf8 | .largeUtf8 | .utf8View => true
  | .timestamp _ => true
  | _ => false

/-- The cells as whole numbers. -/
def asInts (c : Column) : Outcome (List (Option Int)) :=
  match c.type with
  | .scalar s => if readsAsInt s then .ok (c.cells.map cellInt?) else .error .columns
  | _ => .error .columns

/-- The cells as doubles. -/
def asFloats (c : Column) : Outcome (List (Option Float)) :=
  match c.type with
  | .scalar s => if readsAsFloat s then .ok (c.cells.map cellFloat?) else .error .columns
  | _ => .error .columns

/-- Bytes as a text, where they are one. -/
def textOfBytes? (bs : List UInt8) : Option String :=
  String.fromUTF8? (ByteArray.mk bs.toArray)

/-- A cell as a text; dates and points in time outside the supported years are refused. -/
def cellText (type : ColumnType) (cell : Cell) : Outcome (Option String) :=
  if cell.isNull then .ok none
  else
    match cell with
    | .text t => .ok (some t)
    | .bytes bs => .ok (textOfBytes? bs)
    | _ => (Outcome.ofOption .columns (Cell.text? type cell)).map some

/-- The cells as texts. -/
def asTexts (c : Column) : Outcome (List (Option String)) :=
  match c.type with
  | .scalar _ => c.cells.mapM (cellText c.type)
  | .list (.fixed _) _ => .error .columns
  | .list _ _ => c.cells.mapM (cellText c.type)
  | .struct _ => .error .columns

end Column

end Lineage
