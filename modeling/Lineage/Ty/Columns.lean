import Lineage.Column.Batch
import Lineage.Ty.Render

set_option autoImplicit false

/-!
# Types and column types

Every type has a column type, in which its values are stored: a struct as parts, a union as one
nullable part for every branch and the name of the branch that counts, an optional type as its
inner type with nulls. From columns a type can be inferred in turn.

## Main definitions

* `Lineage.Ty.columnType`: how values of a type are stored, and whether nulls occur.
* `Lineage.Ty.batchFields`: the columns of rows of a type.
* `Lineage.Ty.ofColumnType`: the widest type that is stored in a given way.
* `Lineage.Ty.ofColumn`, `Lineage.Ty.ofBatch`: the same, with nulls only where there are some.
* `Lineage.Ty.checkBatch`: whether rows are stored as a type says.
-/

namespace Lineage.Ty

/-- The name of the cells of a list. -/
def itemName : String := "item"

/-- How values of a leaf are stored, and whether nulls occur. -/
def leafColumn : Leaf → ColumnType × Bool
  | .null => (.null, true)
  | .unit => (.null, true)
  | .boolean => (.boolean, false)
  | .bytes => (.scalar .binary, false)
  | .id _ .int64 _ => (.int64, false)
  | .id _ .string _ => (.utf8, false)
  | .integer _ _ .int8 => (.scalar (.integer .i8), false)
  | .integer _ _ .int16 => (.scalar (.integer .i16), false)
  | .integer _ _ .int32 => (.scalar (.integer .i32), false)
  | .integer _ _ .int64 => (.int64, false)
  | .enum _ _ => (.utf8, false)
  | .text _ => (.utf8, false)
  | .float _ _ .float32 => (.scalar .float32, false)
  | .float _ _ .float64 => (.float64, false)
  | .datetime _ _ _ .timestamp => (.scalar (.timestamp .microsecond), false)
  | .datetime _ _ _ .date => (.scalar .date32, false)
  | .datetime _ _ _ .text => (.utf8, false)

/-- The column that names the branch of each row. -/
def selectorField : Field := ⟨fieldSelected, .utf8, false⟩

/-- The fields of members: a union's are nullable and followed by the name of the branch. -/
def formFields (form : Form) (fields : List Field) : List Field :=
  match form with
  | .struct => fields
  | .union => fields.map (fun f => ⟨f.name, f.type, true⟩) ++ [selectorField]

/-- The number of cells of a block, which has to fit 31 bits. -/
def blockLength (shape : List Nat) : Outcome Nat :=
  let n := shape.foldl (· * ·) 1
  if n < Number.pow2 31 then .ok n
  else .error (.schema ("array shape " ++ renderShape shape ++ " is too large"))

/-- How values of a wrapped type are stored. -/
def wrapperColumn (inner : ColumnType × Bool) : Wrapper → Outcome (ColumnType × Bool)
  | .optional => .ok (inner.1, true)
  | .list _ => .ok (.list .small ⟨itemName, inner.1, inner.2⟩, false)
  | .array shape =>
    (blockLength shape).map fun n => (.list (.fixed n) ⟨itemName, inner.1, inner.2⟩, false)
  | .constrained _ => .ok inner

mutual

/-- How values of a type are stored, and whether nulls occur. -/
def columnType : Ty → Outcome (ColumnType × Bool)
  | .leaf _ content => .ok (leafColumn content)
  | .members _ form fields =>
    (fieldsOf fields).map fun fs => (.struct (formFields form fs), false)
  | .wrapped _ wrapper inner => do
    let stored ← columnType inner
    wrapperColumn stored wrapper
  | .hypothesis _ types => (bestOf? (columnTypes types)).getD (.ok (.null, true))

/-- The fields of members. -/
def fieldsOf : List (String × Ty) → Outcome (List Field)
  | [] => .ok []
  | (name, t) :: rest => do
    let (type, nullable) ← columnType t
    let others ← fieldsOf rest
    .ok (⟨name, type, nullable⟩ :: others)

/-- How values of each candidate are stored. -/
def columnTypes : List (Ty × Float) → List (Outcome (ColumnType × Bool) × Float)
  | [] => []
  | (t, score) :: rest => (columnType t, score) :: columnTypes rest

end

/-- The field of a column of a type. -/
def field (name : String) (t : Ty) : Outcome Field :=
  t.columnType.map fun stored => ⟨name, stored.1, stored.2⟩

/-- The columns of rows of a type: a struct or union, perhaps constrained. -/
def batchFields : Ty → Outcome (List Field)
  | .members _ form fields => (fieldsOf fields).map (formFields form)
  | .wrapped _ (.constrained _) inner => batchFields inner
  | t => .error (.schema ("a " ++ t.kindName ++ " type does not describe a record batch"))

/-- All dates that are written with four digits for the year. -/
def anyDate : Ty := ofLeaf (.datetime "%Y-%m-%d" "0001-01-01" "9999-12-31" .date)

/-- All points in time on such dates. -/
def anyDatetime (base : DatetimeBase) : Ty :=
  ofLeaf (.datetime "%Y-%m-%d %H:%M:%S" "0001-01-01 00:00:00" "9999-12-31 23:59:59" base)

/-- The whole numbers of a stored form. -/
def integersOf (width : IntWidth) : Ty :=
  let base : IntegerBase := match width with
    | .i8 => .int8
    | .i16 | .u8 => .int16
    | .i32 | .u16 => .int32
    | .i64 | .u32 | .u64 => .int64
  ofLeaf (.integer width.lo (min width.hi IntWidth.i64.hi) base)

/-- The greatest single-precision number. -/
def largestSingle : Float := Binary64.ofScaled false (Number.pow2 24 - 1) 104

/-- The widest type that is stored as a scalar. -/
def ofScalar : Scalar → Outcome Ty
  | .null => .ok (ofLeaf .null)
  | .boolean => .ok (ofLeaf .boolean)
  | .integer width => .ok (integersOf width)
  | .float16 | .float32 => .ok (ofLeaf (.float (-largestSingle) largestSingle .float32))
  | .float64 => .ok (float Binary64.smallest Binary64.largest)
  | .utf8 | .largeUtf8 | .utf8View => .ok text
  | .binary | .largeBinary | .binaryView => .ok (ofLeaf .bytes)
  | .date32 | .date64 => .ok anyDate
  | .timestamp _ => .ok (anyDatetime .timestamp)
  | .other name => .error (.unsupported ("arrow type " ++ name))

/-- A type, optional if nulls occur. -/
def optionalIf (nullable : Bool) (t : Ty) : Ty := if nullable then optional t else t

/-- Whether fields store a union: one is a text that names the branch. -/
def storesUnion (fields : List Field) : Bool :=
  fields.any fun f => f.name == fieldSelected && decide (f.type = .utf8)

mutual

/-- The widest type that is stored in a given way. -/
def ofColumnType (nullable : Bool) : ColumnType → Outcome Ty
  | .scalar .null => .ok (ofLeaf .null)
  | .scalar s => (ofScalar s).map (optionalIf nullable)
  | .struct fs =>
    if storesUnion fs then (membersOf true fs).map fun ms => optionalIf nullable (union ms)
    else (membersOf false fs).map fun ms => optionalIf nullable (struct ms)
  | .list layout ⟨_, type, itemNullable⟩ =>
    (ofColumnType itemNullable type).map fun inner =>
      optionalIf nullable (match layout with
        | .fixed n => array inner [n]
        | _ => list inner (Number.word64 - 1))

/-- The members that fields store; of a union without the name of the branch, and without counting
nulls. -/
def membersOf (isUnion : Bool) : List (FieldOf ColumnType) → Outcome (List (String × Ty))
  | [] => .ok []
  | ⟨name, type, nullable⟩ :: rest =>
    if isUnion && name == fieldSelected then membersOf isUnion rest
    else do
      let t ← ofColumnType (!isUnion && nullable) type
      let others ← membersOf isUnion rest
      .ok ((name, t) :: others)

end

mutual

/-- The type that a column stores, with nulls only where there are some. -/
def ofCells (cells : List Cell) : ColumnType → Outcome Ty
  | .struct fs =>
    let nullable := cells.any Cell.isNull
    if fs.any (fun f => f.name == fieldSelected) then
      (membersOf true fs).map fun ms => optionalIf nullable (union ms)
    else (membersOfCells cells 0 fs).map fun ms => optionalIf nullable (struct ms)
  | .scalar .null => .ok (ofLeaf .null)
  | type => ofColumnType (cells.any Cell.isNull) type

/-- The members that the parts of structs store, from the part at an index on. -/
def membersOfCells (cells : List Cell) (i : Nat) :
    List (FieldOf ColumnType) → Outcome (List (String × Ty))
  | [] => .ok []
  | ⟨name, type, _⟩ :: rest => do
    let t ← ofCells (cells.map (Cell.part i)) type
    let others ← membersOfCells cells (i + 1) rest
    .ok ((name, t) :: others)

end

/-- The type that a column stores, with nulls only where there are some. -/
def ofColumn (c : Column) : Outcome Ty := ofCells c.cells c.type

/-- The struct that the columns of rows store. -/
def ofBatch (b : Batch) : Outcome Ty := do
  let ms ← b.columns.mapM fun entry => (ofColumn entry.2).map fun t => (entry.1.name, t)
  .ok (struct ms)

mutual

/-- Whether a column type is as expected: nulls fit everything, and whether parts are nullable does
not count in structs and lists. -/
def compatible : ColumnType → ColumnType → Bool
  | .struct es, .struct as => compatibleFields es as
  | .list .small ⟨_, e, _⟩, .list .small ⟨_, a, _⟩ => compatible e a
  | .scalar .null, _ => true
  | e, a => decide (e = a)

/-- Whether fields have the expected names and types. -/
def compatibleFields : List (FieldOf ColumnType) → List (FieldOf ColumnType) → Bool
  | [], [] => true
  | ⟨m, e, _⟩ :: es, ⟨n, a, _⟩ :: as => m == n && compatible e a && compatibleFields es as
  | _, _ => false

end

/-- Whether one column of a batch is as expected. -/
def checkColumn (b : Batch) (expected actual : Field) : Outcome Unit :=
  if expected.name ≠ actual.name ∨ !compatible expected.type actual.type then
    .error (.schema ("column '" ++ actual.name ++ "' (" ++ actual.type.render
      ++ ") does not match declared '" ++ expected.name ++ "' (" ++ expected.type.render ++ ")"))
  else if !expected.nullable && actual.nullable
      && ((b.column? actual.name).map Column.nullCount).getD 0 != 0 then
    .error (.schema ("column '" ++ actual.name ++ "' has unexpected nulls"))
  else .ok ()

/-- Whether the rows of a batch are stored as a type says. -/
def checkBatch (t : Ty) (b : Batch) : Outcome Unit := do
  let expected ← t.batchFields
  if expected.length ≠ b.fields.length then
    .error (.schema ("expected " ++ toString expected.length ++ " columns, batch has "
      ++ toString b.fields.length))
  else (expected.zip b.fields).forM fun entry => checkColumn b entry.1 entry.2

end Lineage.Ty
