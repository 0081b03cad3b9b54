import Lineage.Number.Shortest
import Lineage.Number.Word
import Lineage.Text.Quote

set_option autoImplicit false

/-!
# The types of columns

How the cells of a column are stored. A column type is a scalar, a struct of named fields, or a
list of cells of one field, which may be of fixed length.

## Main definitions

* `Lineage.ColumnType`, `Lineage.Field`: column types and named, possibly nullable columns.
* `Lineage.ColumnType.render`: the text of a column type.
-/

namespace Lineage

/-- The widths of whole numbers. -/
inductive IntWidth where
  /-- 8 bits with sign. -/
  | i8
  /-- 16 bits with sign. -/
  | i16
  /-- 32 bits with sign. -/
  | i32
  /-- 64 bits with sign. -/
  | i64
  /-- 8 bits without sign. -/
  | u8
  /-- 16 bits without sign. -/
  | u16
  /-- 32 bits without sign. -/
  | u32
  /-- 64 bits without sign. -/
  | u64
  deriving DecidableEq, Repr

namespace IntWidth

/-- The least number of a width. -/
def lo : IntWidth → Int
  | .i8 => -128
  | .i16 => -32768
  | .i32 => -2147483648
  | .i64 => Number.least64
  | _ => 0

/-- The greatest number of a width. -/
def hi : IntWidth → Int
  | .i8 => 127
  | .i16 => 32767
  | .i32 => 2147483647
  | .i64 => Number.greatest64
  | .u8 => 255
  | .u16 => 65535
  | .u32 => 4294967295
  | .u64 => 18446744073709551615

/-- The word for a width. -/
def render : IntWidth → String
  | .i8 => "Int8"
  | .i16 => "Int16"
  | .i32 => "Int32"
  | .i64 => "Int64"
  | .u8 => "UInt8"
  | .u16 => "UInt16"
  | .u32 => "UInt32"
  | .u64 => "UInt64"

end IntWidth

/-- The units of points in time. -/
inductive TimeUnit where
  /-- Seconds. -/
  | second
  /-- Thousandths of a second. -/
  | millisecond
  /-- Millionths of a second. -/
  | microsecond
  /-- Billionths of a second. -/
  | nanosecond
  deriving DecidableEq, Repr

namespace TimeUnit

/-- How many units a second has. -/
def perSecond : TimeUnit → Nat
  | .second => 1
  | .millisecond => 1000
  | .microsecond => 1000000
  | .nanosecond => 1000000000

/-- The word for a unit. -/
def render : TimeUnit → String
  | .second => "Second"
  | .millisecond => "Millisecond"
  | .microsecond => "Microsecond"
  | .nanosecond => "Nanosecond"

end TimeUnit

/-- The types of columns whose cells have no parts. -/
inductive Scalar where
  /-- Only nulls. -/
  | null
  /-- Truth values. -/
  | boolean
  /-- Whole numbers. -/
  | integer (width : IntWidth)
  /-- Half-precision numbers. -/
  | float16
  /-- Single-precision numbers. -/
  | float32
  /-- Doubles. -/
  | float64
  /-- Texts. -/
  | utf8
  /-- Texts with wide offsets. -/
  | largeUtf8
  /-- Texts by reference. -/
  | utf8View
  /-- Byte strings. -/
  | binary
  /-- Byte strings with wide offsets. -/
  | largeBinary
  /-- Byte strings by reference. -/
  | binaryView
  /-- Days since 1970-01-01. -/
  | date32
  /-- Milliseconds since 1970-01-01. -/
  | date64
  /-- Points in time, counted from the start of 1970, without zone. -/
  | timestamp (unit : TimeUnit)
  /-- A type that is only known by its text. -/
  | other (text : String)
  deriving DecidableEq, Repr

/-- How lists are stored. -/
inductive ListLayout where
  /-- Of any length. -/
  | small
  /-- Of any length, with wide offsets. -/
  | large
  /-- Of one length. -/
  | fixed (length : Nat)
  deriving DecidableEq, Repr

/-- A named column of a type from `α`. -/
structure FieldOf (α : Type) where
  /-- The name. -/
  name : String
  /-- The type. -/
  type : α
  /-- Whether cells may be null. -/
  nullable : Bool
  deriving Repr

/-- How the cells of a column are stored. -/
inductive ColumnType where
  /-- Cells without parts. -/
  | scalar (content : Scalar)
  /-- Cells with a part for each field. -/
  | struct (fields : List (FieldOf ColumnType))
  /-- Lists of cells of one field. -/
  | list (layout : ListLayout) (item : FieldOf ColumnType)

/-- A named column. -/
abbrev Field := FieldOf ColumnType

namespace ColumnType

mutual

/-- Equality of column types is decided part by part. -/
def decEq : (a b : ColumnType) → Decidable (a = b)
  | .scalar s, .scalar t =>
    if h : s = t then isTrue (by rw [h]) else isFalse fun e => h (by injection e)
  | .struct fs, .struct gs =>
    match decEqFields fs gs with
    | isTrue h => isTrue (by rw [h])
    | isFalse h => isFalse fun e => h (by injection e)
  | .list k f, .list l g =>
    if h : k = l then
      match decEqField f g with
      | isTrue h' => isTrue (by rw [h, h'])
      | isFalse h' => isFalse fun e => h' (by injection e)
    else isFalse fun e => h (by injection e)
  | .scalar _, .struct _ => isFalse (by simp)
  | .scalar _, .list _ _ => isFalse (by simp)
  | .struct _, .scalar _ => isFalse (by simp)
  | .struct _, .list _ _ => isFalse (by simp)
  | .list _ _, .scalar _ => isFalse (by simp)
  | .list _ _, .struct _ => isFalse (by simp)

/-- Equality of fields. -/
def decEqField : (f g : FieldOf ColumnType) → Decidable (f = g)
  | ⟨m, a, x⟩, ⟨n, b, y⟩ =>
    if h : m = n then
      if h' : x = y then
        match decEq a b with
        | isTrue h'' => isTrue (by rw [h, h', h''])
        | isFalse h'' => isFalse fun e => h'' (by injection e)
      else isFalse fun e => h' (by injection e)
    else isFalse fun e => h (by injection e)

/-- Equality of lists of fields. -/
def decEqFields : (fs gs : List (FieldOf ColumnType)) → Decidable (fs = gs)
  | [], [] => isTrue rfl
  | [], _ :: _ => isFalse (by simp)
  | _ :: _, [] => isFalse (by simp)
  | f :: fs, g :: gs =>
    match decEqField f g, decEqFields fs gs with
    | isTrue h, isTrue h' => isTrue (by rw [h, h'])
    | isFalse h, _ => isFalse fun e => h (by injection e)
    | _, isFalse h' => isFalse fun e => h' (by injection e)

end

instance : DecidableEq ColumnType := decEq

instance : DecidableEq Field := decEqField

instance : Inhabited ColumnType := ⟨.scalar .null⟩

/-- Only nulls. -/
def null : ColumnType := .scalar .null

/-- Truth values. -/
def boolean : ColumnType := .scalar .boolean

/-- Whole numbers of 64 bits with sign. -/
def int64 : ColumnType := .scalar (.integer .i64)

/-- Doubles. -/
def float64 : ColumnType := .scalar .float64

/-- Texts. -/
def utf8 : ColumnType := .scalar .utf8

/-- Whether a column type is a struct. -/
def isStruct : ColumnType → Bool
  | .struct _ => true
  | _ => false

/-- The fields of a struct. -/
def fields : ColumnType → List Field
  | .struct fs => fs
  | _ => []

/-- The word for a scalar. -/
def renderScalar : Scalar → String
  | .null => "Null"
  | .boolean => "Boolean"
  | .integer width => width.render
  | .float16 => "Float16"
  | .float32 => "Float32"
  | .float64 => "Float64"
  | .utf8 => "Utf8"
  | .largeUtf8 => "LargeUtf8"
  | .utf8View => "Utf8View"
  | .binary => "Binary"
  | .largeBinary => "LargeBinary"
  | .binaryView => "BinaryView"
  | .date32 => "Date32"
  | .date64 => "Date64"
  | .timestamp unit => "Timestamp(" ++ unit.render ++ ", None)"
  | .other text => text

/-- Items with a comma and a blank between them. -/
def commaSeparated (items : List String) : String := String.intercalate ", " items

mutual

/-- The text of a column type. -/
def render : ColumnType → String
  | .scalar content => renderScalar content
  | .struct fs => "Struct([" ++ commaSeparated (renderFields fs) ++ "])"
  | .list .small item => "List(" ++ renderField item ++ ")"
  | .list .large item => "LargeList(" ++ renderField item ++ ")"
  | .list (.fixed n) item => "FixedSizeList(" ++ renderField item ++ ", " ++ toString n ++ ")"

/-- The text of a field. -/
def renderField : FieldOf ColumnType → String
  | ⟨name, type, nullable⟩ =>
    "Field \x7b name: " ++ Text.quoted name ++ ", data_type: " ++ render type ++ ", nullable: "
      ++ (if nullable then "true" else "false")
      ++ ", dict_id: 0, dict_is_ordered: false, metadata: \x7b\x7d \x7d"

/-- The texts of fields. -/
def renderFields : List (FieldOf ColumnType) → List String
  | [] => []
  | f :: fs => renderField f :: renderFields fs

end

instance : ToString ColumnType := ⟨render⟩

end ColumnType

end Lineage
