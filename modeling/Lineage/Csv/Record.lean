set_option autoImplicit false

/-!
# Records of separated values

A text of separated values is a sequence of records, one a line; a record is a sequence of fields
with commas between them. A field may stand between double quotes, inside which a double quote is
written twice and commas and line ends are plain text. Empty lines are no records.

## Main definitions

* `Lineage.Csv.Scanner`: what is known after reading a part of a text.
* `Lineage.Csv.records`: the records of a text.
-/

namespace Lineage.Csv

/-- Where in a record the reader is. -/
inductive Place where
  /-- Before a record. -/
  | recordStart
  /-- Before a field. -/
  | fieldStart
  /-- In a field without quotes, or after one with quotes. -/
  | bare
  /-- Between quotes. -/
  | quoted
  /-- After a quote between quotes. -/
  | quoteSeen
  deriving DecidableEq, Repr

/-- What is known after reading a part of a text. -/
structure Scanner where
  /-- Where in a record the reader is. -/
  place : Place
  /-- The characters of the current field, the last first. -/
  field : List Char
  /-- The fields of the current record, the last first. -/
  fields : List String
  /-- The finished records, the last first. -/
  records : List (List String)

namespace Scanner

/-- Nothing is read yet. -/
def start : Scanner := ⟨.recordStart, [], [], []⟩

/-- Add a character to the current field. -/
def push (s : Scanner) (place : Place) (c : Char) : Scanner :=
  ⟨place, c :: s.field, s.fields, s.records⟩

/-- Go to another place. -/
def move (s : Scanner) (place : Place) : Scanner := ⟨place, s.field, s.fields, s.records⟩

/-- End the current field. -/
def endField (s : Scanner) : Scanner :=
  ⟨.fieldStart, [], String.ofList s.field.reverse :: s.fields, s.records⟩

/-- End the current record. -/
def endRecord (s : Scanner) : Scanner :=
  ⟨.recordStart, [], [], s.endField.fields.reverse :: s.records⟩

/-- Read a character outside quotes. -/
def plain (s : Scanner) (c : Char) : Scanner :=
  if c = ',' then s.endField
  else if c = '\n' ∨ c = '\r' then s.endRecord
  else s.push .bare c

/-- Read a character. -/
def step (s : Scanner) (c : Char) : Scanner :=
  match s.place with
  | .recordStart =>
    if c = '\n' ∨ c = '\r' then s
    else if c = '"' then s.move .quoted
    else s.plain c
  | .fieldStart => if c = '"' then s.move .quoted else s.plain c
  | .bare => s.plain c
  | .quoted => if c = '"' then s.move .quoteSeen else s.push .quoted c
  | .quoteSeen => if c = '"' then s.push .quoted c else s.plain c

/-- All records at the end of the text. -/
def finish (s : Scanner) : List (List String) :=
  match s.place with
  | .recordStart => s.records.reverse
  | _ => s.endRecord.records.reverse

end Scanner

/-- A text without the mark of its byte order. -/
def withoutMark (text : String) : List Char :=
  match text.toList with
  | '\uFEFF' :: rest => rest
  | cs => cs

/-- The records of a text. -/
def records (text : String) : List (List String) :=
  ((withoutMark text).foldl Scanner.step Scanner.start).finish

end Lineage.Csv
