import Lineage.Query.Records
import Lineage.Query.Syntax

set_option autoImplicit false

/-!
# Running queries

A query runs against one table under any of its names. A table without rows stands for a parent
that produced nothing: the query still has to name it.

## Main definitions

* `Lineage.QueryRunner`: what runs queries.
* `Lineage.Query.run`: the rows that a query selects.
* `Lineage.selectTable`: the table of the rows that a query selects.
-/

namespace Lineage

/-- What runs a query, given the names of the table, the table if it has rows, and the text. -/
abbrev QueryRunner := List String → Option Batch → String → Outcome (List Record)

namespace Comparison

/-- Compare truth values: only equality makes sense. -/
def onBools (c : Comparison) (a b : Bool) : Outcome Bool :=
  match c with
  | .eq => .ok (a == b)
  | .ne => .ok (a != b)
  | _ => .error (.query ("unsupported op '" ++ c.render ++ "' for bool"))

/-- Compare numbers. -/
def onFloats (c : Comparison) (a b : Float) : Bool :=
  match c with
  | .eq => a == b
  | .ne => a != b
  | .le => a ≤ b
  | .ge => a ≥ b
  | .lt => a < b
  | .gt => a > b

/-- Compare texts, character by character. -/
def onTexts (c : Comparison) (a b : String) : Bool :=
  match c with
  | .eq => a == b
  | .ne => a != b
  | .le => !decide (b < a)
  | .ge => !decide (a < b)
  | .lt => decide (a < b)
  | .gt => decide (b < a)

end Comparison

namespace Predicate

/-- The double that a literal stands for. -/
def number (p : Predicate) : Outcome Float :=
  Outcome.ofOption (.query ("cannot parse '" ++ p.literal ++ "' as a number"))
    (Number.floatOfText? p.literal)

/-- Whether a value satisfies a predicate; a null never does. -/
def holds (p : Predicate) : Json → Outcome Bool
  | .null => .ok false
  | .bool b =>
    if p.literal = "true" then p.comparison.onBools b true
    else if p.literal = "false" then p.comparison.onBools b false
    else .error (.query ("cannot parse '" ++ p.literal ++ "' as bool"))
  | .int n => p.number.map (p.comparison.onFloats (Float.ofInt n))
  | .float x => p.number.map (p.comparison.onFloats x)
  | .string s => .ok (p.comparison.onTexts s p.literal)
  | _ => .error (.query "cannot compare nested values")

end Predicate

namespace Query

/-- The value of a column in a record. -/
def valueAt (record : Record) (column : String) : Json := (Json.lookup? column record).getD .null

/-- Whether a record satisfies all predicates; they are tried in order until one fails. -/
def accepts (record : Record) : List Predicate → Outcome Bool
  | [] => .ok true
  | p :: rest => do
    if ← p.holds (valueAt record p.column) then accepts record rest else .ok false

/-- The selected part of a record; a column selected twice keeps its first place. -/
def select (columns : Option (List String)) (record : Record) : Record :=
  match columns with
  | none => record
  | some names => names.foldl (fun acc c => Json.setMember c (valueAt record c) acc) []

/-- The selected parts of the accepted records. At least one is taken before the limit counts. -/
def collect (q : Query) : Nat → List Record → Outcome (List Record)
  | _, [] => .ok []
  | taken, record :: rest => do
    if ← accepts record q.predicates then
      let first := select q.columns record
      if q.limit.any fun n => decide (n ≤ taken + 1) then .ok [first]
      else (q.collect (taken + 1) rest).map (first :: ·)
    else q.collect taken rest

/-- The columns that a query mentions: the selected ones, then those of predicates. -/
def mentioned (q : Query) : List String :=
  q.columns.getD [] ++ q.predicates.map Predicate.column

/-- Run a query on a table. -/
def runOn (q : Query) (table : Batch) : Outcome (List Record) := do
  match q.mentioned.find? fun c => (table.columnIndex? c).isNone with
  | some c => .error (.query ("unknown column '" ++ c ++ "'"))
  | none => do
    let records ← table.toRecords
    q.collect 0 records

/-- Run the query of a text. -/
def run : QueryRunner := fun names table text => do
  let q ← parse text
  if !names.contains q.table then .error (.query ("unknown table '" ++ q.table ++ "'"))
  else
    match table with
    | none => .ok []
    | some batch => q.runOn batch

end Query

/-- The table of the rows that a query selects; it must select some. -/
def selectTable (runner : QueryRunner) (names : List String) (table : Option Batch)
    (text : String) : Outcome Batch := do
  let records ← runner names table text
  if records.isEmpty then .error (.emptyResult ("query returned no rows: " ++ text))
  else Batch.ofRecords records

end Lineage
