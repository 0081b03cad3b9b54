import Lineage.Column.Type
import Lineage.Fault

set_option autoImplicit false

/-!
# Cells, columns and batches

A batch is a table: named columns and rows of cells. A column is the sequence of its cells. A null
cell of a struct keeps its parts, so that columns cut out of it are whole.

## Main definitions

* `Lineage.Cell`: the content of a place in a table.
* `Lineage.Column`: cells of one type.
* `Lineage.Batch`: fields and rows.
* `Lineage.Batch.make`: a batch from fields and rows, in which only nullable columns hold nulls.
* `Lineage.Batch.toColumn`, `Lineage.Batch.ofColumn`: a batch as one column of structs.
* `Lineage.Batch.concat`: batches under one another.
-/

namespace Lineage

/-- The content of a place in a table. -/
inductive Cell where
  /-- No value. -/
  | null
  /-- A truth value. -/
  | bool (value : Bool)
  /-- A whole number; also days and units of time. -/
  | int (value : Int)
  /-- A floating-point number. -/
  | float (value : Float)
  /-- A text. -/
  | text (value : String)
  /-- A byte string. -/
  | bytes (value : List UInt8)
  /-- A list. -/
  | list (items : List Cell)
  /-- The parts of a struct, and whether they count. -/
  | struct (present : Bool) (parts : List Cell)

namespace Cell

instance : Inhabited Cell := ⟨.null⟩

/-- Whether a cell holds no value. -/
def isNull : Cell → Bool
  | .null => true
  | .struct present _ => !present
  | _ => false

/-- The part of a struct at an index. -/
def part (i : Nat) : Cell → Cell
  | .struct _ parts => (parts[i]?).getD .null
  | _ => .null

/-- The parts of a struct. -/
def parts : Cell → List Cell
  | .struct _ ps => ps
  | _ => []

/-- The cell without value; a struct keeps its parts. -/
def absent : Cell → Cell
  | .struct _ ps => .struct false ps
  | _ => .null

mutual

/-- The cell without value of a type; a struct has parts without value. -/
def blank : ColumnType → Cell
  | .struct fs => .struct false (blanks fs)
  | _ => .null

/-- The parts of a struct, all without value. -/
def blanks : List (FieldOf ColumnType) → List Cell
  | [] => []
  | ⟨_, type, _⟩ :: fs => blank type :: blanks fs

end

end Cell

/-- Cells of one type. -/
structure Column where
  /-- The type. -/
  type : ColumnType
  /-- The cells, from the first row to the last. -/
  cells : List Cell

namespace Column

/-- The number of cells. -/
def length (c : Column) : Nat := c.cells.length

/-- How many cells hold no value; cells of the null type are not counted. -/
def nullCount (c : Column) : Nat :=
  if c.type = .null then 0 else c.cells.countP Cell.isNull

/-- The place of the first field with a name. -/
def fieldIndex? (name : String) (fields : List Field) : Option Nat :=
  fields.findIdx? fun f => f.name == name

/-- The column of a struct's parts at an index, with the field that names it. -/
def childAt? (c : Column) (i : Nat) : Option (Field × Column) :=
  (c.type.fields[i]?).map fun f => (f, ⟨f.type, c.cells.map (Cell.part i)⟩)

/-- The columns of a struct's parts. -/
def children (c : Column) : List (Field × Column) :=
  c.type.fields.zipIdx.map fun entry =>
    (entry.1, ⟨entry.1.type, c.cells.map (Cell.part entry.2)⟩)

/-- The column of the first part with a name. -/
def child? (c : Column) (name : String) : Option Column :=
  (fieldIndex? name c.type.fields).bind fun i => (c.childAt? i).map Prod.snd

end Column

/-- A table of named columns. -/
structure Batch where
  /-- The columns. -/
  fields : List Field
  /-- The rows, each with a cell for every column. -/
  rows : List (List Cell)

namespace Batch

/-- The number of rows. -/
def size (b : Batch) : Nat := b.rows.length

/-- The number of rows of several batches. -/
def totalSize : List Batch → Nat
  | [] => 0
  | b :: rest => b.size + totalSize rest

/-- The table without rows. -/
def empty (fields : List Field) : Batch := ⟨fields, []⟩

/-- The cell of a row in a column. -/
def cellAt (i : Nat) (row : List Cell) : Cell := (row[i]?).getD .null

/-- The cells of the column at an index. -/
def cellsAt (i : Nat) (b : Batch) : List Cell := b.rows.map (cellAt i)

/-- The columns with their fields. -/
def columns (b : Batch) : List (Field × Column) :=
  b.fields.zipIdx.map fun entry => (entry.1, ⟨entry.1.type, b.cellsAt entry.2⟩)

/-- The place of the first column with a name. -/
def columnIndex? (b : Batch) (name : String) : Option Nat :=
  Column.fieldIndex? name b.fields

/-- The column at an index. -/
def columnAt? (b : Batch) (i : Nat) : Option Column :=
  (b.fields[i]?).map fun f => ⟨f.type, b.cellsAt i⟩

/-- The first column with a name. -/
def column? (b : Batch) (name : String) : Option Column :=
  (b.columnIndex? name).bind b.columnAt?

/-- Every column that holds nulls is nullable. -/
def nullsAllowed (b : Batch) : Bool :=
  b.columns.all fun entry => entry.1.nullable || entry.2.nullCount == 0

/-- The batch of fields and rows; refused if a column that is not nullable holds nulls. -/
def make (fields : List Field) (rows : List (List Cell)) : Outcome Batch :=
  let b : Batch := ⟨fields, rows⟩
  if b.nullsAllowed then .ok b else .error .columns

/-- The rows of columns of one length. -/
def rowsOfColumns : (length : Nat) → (columns : List (List Cell)) → List (List Cell)
  | 0, _ => []
  | length + 1, columns =>
    (columns.map fun cells => cells.head?.getD .null)
      :: rowsOfColumns length (columns.map List.tail)

/-- The batch with other cells under another field in one column. -/
def replaceColumn (b : Batch) (i : Nat) (field : Field) (cells : List Cell) : Outcome Batch :=
  make (b.fields.set i field) (List.zipWith (fun row cell => row.set i cell) b.rows cells)

/-- A batch as one column of structs. -/
def toColumn (b : Batch) : Column :=
  ⟨.struct b.fields, b.rows.map (Cell.struct true)⟩

/-- The batch of a column of structs, which must have no nulls. -/
def ofColumn (c : Column) : Outcome Batch :=
  if c.cells.any Cell.isNull then .error .abort
  else .ok ⟨c.type.fields, c.cells.map Cell.parts⟩

/-- Rows from `start` on, `count` of them. -/
def slice (start count : Nat) (b : Batch) : Batch :=
  ⟨b.fields, (b.rows.drop start).take count⟩

/-- The rows at the given places. -/
def gather (places : List Nat) (b : Batch) : Batch :=
  let rows := b.rows.toArray
  ⟨b.fields, places.filterMap fun i => rows[i]?⟩

/-- The rows at the given places, taken column by column; refused if there are no columns. -/
def take (places : List Nat) (b : Batch) : Outcome Batch :=
  if b.fields.isEmpty then .error .columns else .ok (b.gather places)

/-- The rows whose mark is set. -/
def keep (mask : List Bool) (b : Batch) : Batch :=
  ⟨b.fields, ((b.rows.zip mask).filter Prod.snd).map Prod.fst⟩

/-- What keeps batches from being put under one another at a column: one that lacks it, or one that
stores it in another way. -/
def concatFault? (batches : List Batch) (i : Nat) (field : Field) : Option Fault :=
  if batches.any fun b => (b.fields[i]?).isNone then some .abort
  else if batches.all fun b => (b.fields[i]?).map FieldOf.type == some field.type then none
  else some .columns

/-- Batches under one another, with the given fields; all must store these columns in one way. -/
def concat (fields : List Field) (batches : List Batch) : Outcome Batch :=
  match fields.zipIdx.findSome? fun entry => concatFault? batches entry.2 entry.1 with
  | some fault => .error fault
  | none => make fields (batches.flatMap fun b => b.rows.map (List.take fields.length))

end Batch

end Lineage
