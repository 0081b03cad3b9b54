import Lineage.Column.Type
import Lineage.Number.Reader
import Lineage.Text.Digit

set_option autoImplicit false

/-!
# Telling column types from fields

The fields of a column are all texts; what they look like tells how the column is stored. Fields of
different kinds are stored as what can hold them all.

## Main definitions

* `Lineage.Csv.Guess`: what the fields of a column look like.
* `Lineage.Csv.Guess.ofField`: what a field looks like.
* `Lineage.Csv.Guess.join`: what can hold fields of two kinds.
* `Lineage.Csv.Guess.columnType`: how fields of a kind are stored.
-/

namespace Lineage.Csv

open Number (isDigit natOfDigits? partsOfChars?)

/-- What the fields of a column look like. -/
inductive Guess where
  /-- There is no field that is not empty. -/
  | unknown
  /-- The words for truth values. -/
  | boolean
  /-- Whole numbers. -/
  | integer
  /-- Decimals. -/
  | decimal
  /-- Dates. -/
  | date
  /-- Points in time. -/
  | timestamp (unit : TimeUnit)
  /-- Anything. -/
  | text
  deriving DecidableEq, Repr

namespace Guess

/-- The finer one of two units. -/
def finer (a b : TimeUnit) : TimeUnit := if a.perSecond < b.perSecond then b else a

/-- What can hold fields of two kinds. -/
def join : Guess → Guess → Guess
  | .unknown, b => b
  | a, .unknown => a
  | .integer, .decimal => .decimal
  | .decimal, .integer => .decimal
  | .date, .timestamp u => .timestamp u
  | .timestamp u, .date => .timestamp u
  | .timestamp u, .timestamp v => .timestamp (finer u v)
  | a, b => if a = b then a else .text

/-- How fields of a kind are stored. -/
def columnType : Guess → ColumnType
  | .unknown => .null
  | .boolean => .boolean
  | .integer => .int64
  | .decimal => .float64
  | .date => .scalar .date32
  | .timestamp unit => .scalar (.timestamp unit)
  | .text => .utf8

/-- Whether characters follow a pattern, in which `d` stands for a digit and a blank for a blank or
the letter T. -/
def follows : List Char → List Char → Bool
  | [], [] => true
  | 'd' :: ps, c :: cs => isDigit c && follows ps cs
  | ' ' :: ps, c :: cs => (c == ' ' || c == 'T') && follows ps cs
  | p :: ps, c :: cs => p == c && follows ps cs
  | _, _ => false

/-- The pattern of a date. -/
def datePattern : List Char := "dddd-dd-dd".toList

/-- The pattern of a date and a time of day. -/
def timePattern : List Char := "dddd-dd-dd dd:dd:dd".toList

/-- What may follow a time of day: nothing, or a character that does not continue it and then
anything on the same line. -/
def endsTime (continues : Char → Bool) : List Char → Bool
  | [] => true
  | c :: rest => !continues c && !rest.contains '\n'

/-- The unit of a point in time: as many digits as follow the point, rounded up to three. -/
def timeUnit? (rest : List Char) : Option TimeUnit :=
  match rest with
  | '.' :: more =>
    let count := (more.takeWhile isDigit).length
    if count = 0 ∨ 9 < count ∨ !endsTime isDigit (more.dropWhile isDigit) then none
    else if count ≤ 3 then some .millisecond
    else if count ≤ 6 then some .microsecond
    else some .nanosecond
  | _ => if endsTime (fun c => isDigit c || c == '.') rest then some .second else none

/-- A minus is cut off. -/
def unsigned : List Char → List Char
  | '-' :: rest => rest
  | cs => cs

/-- A decimal with a point or a power of ten. -/
def isDecimal (cs : List Char) : Bool :=
  match unsigned cs with
  | '+' :: _ => false
  | '-' :: _ => false
  | body =>
    match partsOfChars? body with
    | some p => p.point || p.power.isSome
    | none => false

/-- A whole number. One that may not fit 64 bits, because it is written with 19 bytes or more, has
to, and has to be written with plain digits. -/
def ofDigits (field : String) : Guess :=
  if field.utf8ByteSize < 19 then .integer
  else
    match Number.intOfChars? field.toList with
    | some n => if Number.least64 ≤ n ∧ n ≤ Number.greatest64 then .integer else .text
    | none => .text

/-- The letters that are equal up to case have one small letter; the long s counts as one. -/
def caseless (c : Char) : Char := if c = '\u017F' then 's' else c.toLower

/-- Whether a field is a word for a truth value, in any letter case. -/
def isTruthWord (field : String) : Bool :=
  let word := String.ofList (field.toList.map caseless)
  word == "true" || word == "false"

/-- What a field that is not empty looks like; digits of all scripts count as digits. -/
def ofField (field : String) : Guess :=
  let cs := Text.withPlainDigits field.toList
  if isTruthWord field then .boolean
  else if (natOfDigits? (unsigned cs)).isSome then ofDigits field
  else if isDecimal cs then .decimal
  else if follows datePattern cs then .date
  else if follows timePattern (cs.take 19) then
    match timeUnit? (cs.drop 19) with
    | some unit => .timestamp unit
    | none => .text
  else .text

/-- What a column looks like; empty fields do not count. -/
def ofFields (fields : List String) : Guess :=
  fields.foldl (fun s field => if field = "" then s else s.join (ofField field)) .unknown

end Guess

end Lineage.Csv
