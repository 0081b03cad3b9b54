import Lineage.Column.Batch
import Lineage.Csv.Record
import Lineage.Csv.Guess
import Lineage.Time.Reader

set_option autoImplicit false

/-!
# Tables from separated values

The first record names the columns, the others are rows. All records have as many fields as there
are columns. Columns that are declared are matched by position; an empty field is null.

## Main definitions

* `Lineage.Csv.inferFields`: the columns of a text, told from its first rows.
* `Lineage.Csv.readBatches`: the rows of a text under declared columns.
-/

namespace Lineage.Csv

/-- The number of rows that columns are told from. -/
def inferredRows : Nat := 1000

/-- The fields of the column at an index. -/
def columnFields (i : Nat) (rows : List (List String)) : List String :=
  rows.map fun row => (row[i]?).getD ""

/-- The columns of a text, told from its first rows. Every column may hold nulls. -/
def inferFields (text : String) : Outcome (List Field) :=
  match records text with
  | [] => .ok []
  | names :: rows =>
    let rows := rows.take inferredRows
    if rows.all fun row => row.length == names.length then
      .ok (names.zipIdx.map fun entry =>
        ⟨entry.1, (Guess.ofFields (columnFields entry.2 rows)).columnType, true⟩)
    else .error .columns

/-- A word for a truth value, in any letter case. -/
def boolOfField? (field : String) : Option Bool :=
  let word := String.ofList (field.toList.map Char.toLower)
  if word = "true" then some true else if word = "false" then some false else none

/-- A whole number of a width. -/
def intOfField? (width : IntWidth) (field : String) : Option Int :=
  (Number.intOfChars? field.toList).bind fun n =>
    if width.lo ≤ n ∧ n ≤ width.hi then some n else none

/-- The cell of a scalar type for a field that is not empty; there is none for a field that does
not fit, and none at all for some types. -/
def scalarCell? (s : Scalar) (field : String) : Option Cell :=
  match s with
  | .null => some .null
  | .boolean => (boolOfField? field).map .bool
  | .integer width => (intOfField? width field).map .int
  | .float32 => (Number.singleOfText? field).map .float
  | .float64 => (Number.floatOfText? field).map .float
  | .utf8 => some (.text field)
  | .date32 => (Calendar.daysOfText? field).map .int
  | .timestamp unit =>
    (Calendar.instantOfText? field).map fun t => .int (t.count unit.perSecond)
  | _ => none

/-- Whether fields can be read as cells of a type. -/
def isReadable : ColumnType → Bool
  | .scalar .null | .scalar .boolean | .scalar (.integer _) => true
  | .scalar .float32 | .scalar .float64 | .scalar .utf8 => true
  | .scalar .date32 | .scalar (.timestamp _) => true
  | _ => false

/-- The cell of a type for a field. -/
def cell? (type : ColumnType) (field : String) : Option Cell :=
  if !isReadable type then none
  else if field = "" then some .null
  else
    match type with
    | .scalar s => scalarCell? s field
    | _ => none

/-- The cells of a row. -/
def row? : List Field → List String → Option (List Cell)
  | [], [] => some []
  | f :: fs, field :: fields => do
    let first ← cell? f.type field
    let rest ← row? fs fields
    some (first :: rest)
  | _, _ => none

/-- The rows of records, in batches of `n`. -/
def batchesOfRows (columns : List Field) (n : Nat) (rows : List (List Cell)) :
    Outcome (List Batch) :=
  (List.range ((rows.length + n - 1) / n)).mapM fun i =>
    Batch.make columns ((rows.drop (i * n)).take n)

/-- The rows of a text under declared columns, in batches of `n`. -/
def readBatches (columns : List Field) (n : Nat) (text : String) : Outcome (List Batch) := do
  if columns.isEmpty then
    if (withoutMark text).isEmpty then .ok [] else .error .columns
  else
    match records text with
    | [] => .ok []
    | names :: rows =>
      if names.length ≠ columns.length then .error .columns
      else do
        let cells ← Outcome.ofOption .columns (rows.mapM (row? columns))
        batchesOfRows columns n cells

end Lineage.Csv
