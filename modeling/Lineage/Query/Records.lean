import Lineage.Column.Cast
import Lineage.Json.Reader
import Lineage.Stream.Basic

set_option autoImplicit false

/-!
# Rows as records

A query sees a row as a record: the values of the columns under their names. Records that a query
returns are put into a table again, whose column types are inferred from the values.

## Main definitions

* `Lineage.Record`: the values of a row under the names of the columns.
* `Lineage.Batch.toRecords`: the rows of a batch as records.
* `Lineage.ValueType`: what is known of the values of a column.
* `Lineage.Batch.ofRecords`: the table of records.
-/

namespace Lineage

/-- The values of a row under the names of the columns. -/
abbrev Record := List (String × Json)

namespace Cell

/-- Floating-point numbers in records are written without exponent while the power of the first
digit is in `-5..9`, and always with a digit after the point. -/
def recordLayout : Shortest.Layout where
  plainFrom := some (-5)
  plainTo := some 9
  pointZero := true
  plus := false
  mantissaZero := true
  nan := "null"
  infinity := "null"

/-- The value of a written number; null for what is not a number. -/
def numberValue (text : String) : Json :=
  match Json.readNumber text.toList with
  | some (value, []) => value
  | _ => .null

/-- The value of a cell of a scalar type; there is none for a date or point in time outside the
supported years. -/
def scalarValue? (s : Scalar) : Cell → Option Json
  | .bool b => some (.bool b)
  | .int n =>
    match s with
    | .date32 | .timestamp _ => (Cell.scalarText? s (.int n)).map .string
    | _ => some (.int n)
  | .float x =>
    if Binary64.isFinite x then
      match s with
      | .float32 => some (numberValue (Shortest.renderSingle recordLayout x))
      | _ => some (numberValue (Shortest.render recordLayout x))
    else some .null
  | .text t => some (.string t)
  | .bytes bs => some (.string (Text.hexOfBytes bs))
  | _ => some .null

mutual

/-- The value of a cell; parts of structs that are null are left out. -/
def value? : ColumnType → Cell → Option Json
  | .scalar s, cell => scalarValue? s cell
  | .struct fs, .struct true parts => (members? fs parts).map Json.ofMembers
  | .list _ ⟨_, type, _⟩, .list items => (items.mapM (value? type)).map .array
  | _, _ => some .null

/-- The values of parts under their names, without those that are null. -/
def members? : List (FieldOf ColumnType) → List Cell → Option (List (String × Json))
  | ⟨name, type, _⟩ :: fs, part :: parts => do
    let rest ← members? fs parts
    if part.isNull then some rest else some ((name, ← value? type part) :: rest)
  | _, _ => some []

end

end Cell

namespace Batch

/-- Give every field a value: that of the record, or null. A value is used once. -/
def fillRecord : List Field → Record → Record → Record
  | [], _, full => full
  | f :: fs, record, full =>
    let value := (Json.lookup? f.name record).getD .null
    fillRecord fs (record.filter fun entry => entry.1 != f.name) (Json.setMember f.name value full)

/-- A row as a record; nulls are explicit. -/
def recordOfRow (fields : List Field) (row : List Cell) : Outcome Record := do
  let members ← Outcome.ofOption .columns (Cell.members? fields row)
  let record : Record := members.foldl (fun acc entry => Json.setMember entry.1 entry.2 acc) []
  .ok (if record.length = fields.length then record else fillRecord fields record [])

/-- The rows of a batch as records. -/
def toRecords (b : Batch) : Outcome (List Record) :=
  b.rows.mapM (recordOfRow b.fields)

end Batch

/-- Which sorts of scalars occur among values. -/
structure ScalarSorts where
  /-- Truth values. -/
  bool : Bool
  /-- Whole numbers of 64 bits with sign. -/
  int : Bool
  /-- Other numbers. -/
  float : Bool
  /-- Texts. -/
  text : Bool
  deriving DecidableEq, Repr

namespace ScalarSorts

/-- No scalar occurs. -/
def none : ScalarSorts := ⟨false, false, false, false⟩

/-- What occurs in one of two places. -/
def union (a b : ScalarSorts) : ScalarSorts :=
  ⟨a.bool || b.bool, a.int || b.int, a.float || b.float, a.text || b.text⟩

/-- How scalars are stored: numbers together as doubles, other mixtures as texts. -/
def columnType (s : ScalarSorts) : ColumnType :=
  if s.text then .utf8
  else if s.bool then (if s.int || s.float then .utf8 else .boolean)
  else if s.float then .float64
  else if s.int then .int64
  else .utf8

end ScalarSorts

/-- What is known of the values of a column. -/
inductive ValueType where
  /-- Only nulls so far. -/
  | any
  /-- Scalars. -/
  | scalar (sorts : ScalarSorts)
  /-- Lists. -/
  | array (item : ValueType)
  /-- Objects. -/
  | object (members : List (String × ValueType))

namespace ValueType

/-- The type of values to which scalars are added. -/
def addScalars (sorts : ScalarSorts) : ValueType → Outcome ValueType
  | .any => .ok (.scalar sorts)
  | .scalar others => .ok (.scalar (others.union sorts))
  | .array item => (addScalars sorts item).map .array
  | .object _ => .error .columns

/-- Set a member: in its place, or at the end. -/
def replaceMember (name : String) (t : ValueType) :
    List (String × ValueType) → List (String × ValueType)
  | [] => [(name, t)]
  | (n, old) :: rest =>
    if n = name then (n, t) :: rest else (n, old) :: replaceMember name t rest

/-- What is known of a member; nothing if there is none. -/
def memberOf (name : String) (members : List (String × ValueType)) : ValueType :=
  ((members.find? fun entry => entry.1 == name).map Prod.snd).getD .any

mutual

/-- The type of values of two types. Scalars beside lists count as items. -/
def merge (a : ValueType) : ValueType → Outcome ValueType
  | .any => .ok a
  | .scalar sorts => addScalars sorts a
  | .array item =>
    match a with
    | .any => .ok (.array item)
    | .scalar sorts => (addScalars sorts item).map .array
    | .array other => (merge other item).map .array
    | .object _ => .error .columns
  | .object members =>
    match a with
    | .any => .ok (.object members)
    | .object others => (mergeMembers others members).map .object
    | _ => .error .columns

/-- Add members to others, each to the one of its name. -/
def mergeMembers (others : List (String × ValueType)) :
    List (String × ValueType) → Outcome (List (String × ValueType))
  | [] => .ok others
  | (name, t) :: rest => do
    let new ← merge (memberOf name others) t
    mergeMembers (replaceMember name new others) rest

end

/-- The type of values of several types. -/
def mergeAll (types : List ValueType) : Outcome ValueType :=
  types.foldlM merge .any

/-- The sorts of scalars, where values are scalars or nulls. -/
def sorts? : ValueType → Option ScalarSorts
  | .any => some .none
  | .scalar sorts => some sorts
  | _ => none

/-- Whether values are lists. -/
def isArray : ValueType → Bool
  | .array _ => true
  | _ => false

/-- Whether values are objects. -/
def isObject : ValueType → Bool
  | .object _ => true
  | _ => false

/-- The type of the items of a list: the first item decides whether all are lists, all are objects,
or all are scalars and nulls. -/
def ofItemTypes (types : List ValueType) : Outcome ValueType :=
  match types with
  | [] => .ok .any
  | .array _ :: _ => if types.all isArray then mergeAll types else .error .columns
  | .object _ :: _ => if types.all isObject then mergeAll types else .error .columns
  | _ =>
    match types.mapM sorts? with
    | some sorts => .ok (.scalar (sorts.foldl ScalarSorts.union .none))
    | none => .error .columns

mutual

/-- What a value tells. -/
def ofJson : Json → Outcome ValueType
  | .null => .ok .any
  | .bool _ => .ok (.scalar ⟨true, false, false, false⟩)
  | .int n =>
    if n ≤ Number.greatest64 then .ok (.scalar ⟨false, true, false, false⟩)
    else .ok (.scalar ⟨false, false, true, false⟩)
  | .float _ => .ok (.scalar ⟨false, false, true, false⟩)
  | .string _ => .ok (.scalar ⟨false, false, false, true⟩)
  | .array items => do
    let types ← ofItems items
    (ofItemTypes types).map .array
  | .object members => (ofMembers members).map .object

/-- What the items of a list tell, each on its own. -/
def ofItems : List Json → Outcome (List ValueType)
  | [] => .ok []
  | item :: rest => do
    let first ← ofJson item
    let others ← ofItems rest
    .ok (first :: others)

/-- What the members of an object tell, each on its own. -/
def ofMembers : List (String × Json) → Outcome (List (String × ValueType))
  | [] => .ok []
  | (name, value) :: rest => do
    let first ← ofJson value
    let others ← ofMembers rest
    .ok ((name, first) :: others)

end

mutual

/-- How values of a type are stored. -/
def columnType : ValueType → ColumnType
  | .any => .null
  | .scalar sorts => sorts.columnType
  | .array item => .list .small ⟨"item", columnType item, true⟩
  | .object members => .struct (fields members)

/-- How members are stored; all may be null. -/
def fields : List (String × ValueType) → List (FieldOf ColumnType)
  | [] => []
  | (name, t) :: rest => ⟨name, columnType t, true⟩ :: fields rest

end

end ValueType

namespace Cell

/-- The cell of a scalar type for a value. -/
def ofScalarJson (s : Scalar) (value : Json) : Option Cell :=
  match s, value with
  | .boolean, .bool b => some (.bool b)
  | .integer .i64, .int n => if n ≤ Number.greatest64 then some (.int n) else none
  | .float64, .int n => some (.float (Float.ofInt n))
  | .float64, .float x => some (.float x)
  | .utf8, .string t => some (.text t)
  | _, _ => none

mutual

/-- The cell of a type for a value; missing members of objects are null. -/
def ofJson? : ColumnType → Json → Option Cell
  | .scalar s, value => if value matches .null then some .null else ofScalarJson s value
  | .struct fs, value =>
    match value with
    | .null => some (blank (.struct fs))
    | .object members => (partsOfJson? fs members).map (.struct true)
    | _ => none
  | .list _ ⟨_, type, _⟩, value =>
    match value with
    | .null => some .null
    | .array items => (items.mapM (ofJson? type)).map .list
    | _ => none

/-- The parts of a struct for the members of an object. -/
def partsOfJson? : List (FieldOf ColumnType) → List (String × Json) → Option (List Cell)
  | [], _ => some []
  | ⟨name, type, _⟩ :: fs, members => do
    let first ← ofJson? type ((Json.lookup? name members).getD .null)
    let rest ← partsOfJson? fs members
    some (first :: rest)

end

end Cell

namespace Batch

/-- The fields of the table of records: every name that occurs, in the order of first occurrence,
with the type of all its values. -/
def fieldsOfRecords (records : List Record) : Outcome (List Field) := do
  let types ← records.mapM ValueType.ofMembers
  let members ← types.foldlM ValueType.mergeMembers []
  .ok (ValueType.fields members)

/-- The table of records; without records there is nothing to tell its columns from. -/
def ofRecords (records : List Record) : Outcome Batch :=
  if records.isEmpty then .error (.emptyResult "query returned no rows")
  else do
    let fields ← fieldsOfRecords records
    let rows ← Outcome.ofOption .columns (records.mapM (Cell.partsOfJson? fields))
    .ok ⟨fields, rows⟩

end Batch

end Lineage
