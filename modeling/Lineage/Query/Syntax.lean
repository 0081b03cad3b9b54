import Lineage.Fault
import Lineage.Number.Reader
import Lineage.Text.Blank

set_option autoImplicit false

/-!
# Queries

A query selects columns of one table, keeps the rows that satisfy all of its predicates and may
limit their number:

`SELECT <*|columns> FROM <table> [WHERE c op literal [AND ...]] [LIMIT n]`

Keywords are found in any letter case at their first occurrence between blanks.

## Main definitions

* `Lineage.Query`: the parts of a query.
* `Lineage.Query.parse`: the query of a text.
* `Lineage.Query.render`: the text of a query.
-/

namespace Lineage

/-- The comparisons of a predicate. -/
inductive Comparison where
  /-- Equal. -/
  | eq
  /-- Not equal. -/
  | ne
  /-- At most. -/
  | le
  /-- At least. -/
  | ge
  /-- Less. -/
  | lt
  /-- Greater. -/
  | gt
  deriving DecidableEq, Repr

namespace Comparison

/-- The text of a comparison. -/
def render : Comparison → String
  | .eq => "=="
  | .ne => "!="
  | .le => "<="
  | .ge => ">="
  | .lt => "<"
  | .gt => ">"

/-- The texts of comparisons, in the order in which they are looked for. -/
def spellings : List (List Char × Comparison) :=
  [(['=', '='], .eq), (['!', '='], .ne), (['<', '>'], .ne), (['<', '='], .le), (['>', '='], .ge),
    (['='], .eq), (['<'], .lt), (['>'], .gt)]

end Comparison

/-- A comparison of a column with a literal. -/
structure Predicate where
  /-- The column. -/
  column : String
  /-- The comparison. -/
  comparison : Comparison
  /-- The text of the literal, without quotes. -/
  literal : String
  deriving DecidableEq, Repr

/-- The parts of a query. -/
structure Query where
  /-- The columns; all where none are named. -/
  columns : Option (List String)
  /-- The table. -/
  table : String
  /-- What rows have to satisfy. -/
  predicates : List Predicate
  /-- The greatest number of rows. -/
  limit : Option Nat
  deriving DecidableEq, Repr

namespace Query

/-- The place of the first occurrence of a text in another. -/
def findText (pattern : List Char) : List Char → Option Nat
  | [] => if pattern.isEmpty then some 0 else none
  | c :: rest =>
    if pattern.isPrefixOf (c :: rest) then some 0 else (findText pattern rest).map (· + 1)

/-- The part of a text between two places; there is none if it would end before it starts. -/
def cut (start stop : Nat) (cs : List Char) : Outcome (List Char) :=
  if start ≤ stop then .ok ((cs.drop start).take (stop - start)) else .error .abort

/-- Capital letters for small ones, in ASCII. -/
def capitals (cs : List Char) : List Char := cs.map Char.toUpper

/-- The place of a keyword between blanks, in a text of capital letters. -/
def findKeyword (word : List Char) (upper : List Char) : Option Nat :=
  findText (' ' :: word ++ [' ']) upper

/-- A literal without the quotes around it, if there are two. -/
def unquote (cs : List Char) : List Char :=
  match cs with
  | '\'' :: rest => if rest.getLast? = some '\'' then rest.dropLast else cs
  | _ => cs

/-- Split at the first comparison, trying them in order. -/
def splitComparison (cs : List Char) :
    List (List Char × Comparison) → Option (List Char × Comparison × List Char)
  | [] => none
  | (spelling, comparison) :: rest =>
    match findText spelling cs with
    | some i => some (cs.take i, comparison, cs.drop (i + spelling.length))
    | none => splitComparison cs rest

/-- A predicate from its text. -/
def parsePredicate (cs : List Char) : Outcome Predicate :=
  match splitComparison cs Comparison.spellings with
  | some (column, comparison, literal) =>
    .ok ⟨String.ofList (Text.stripChars column), comparison,
      String.ofList (unquote (Text.stripChars literal))⟩
  | none => .error (.query ("unparseable predicate: " ++ String.ofList cs))

/-- The pieces of a text between the occurrences of the word AND; `fuel` bounds their number. -/
def splitAnd : Nat → List Char → List (List Char)
  | 0, cs => [cs]
  | fuel + 1, cs =>
    match findKeyword ['A', 'N', 'D'] (capitals cs) with
    | some i => cs.take i :: splitAnd fuel (cs.drop (i + 5))
    | none => [cs]

/-- Read decimal digits up to a limit; the reason why a text has no such reading. -/
def readLimit : Nat → List Char → Except String Nat
  | n, [] => .ok n
  | n, c :: rest =>
    if !Number.isDigit c then .error "invalid digit found in string"
    else
      let next := 10 * n + Number.digitValue c
      if next < Number.word64 then readLimit next rest
      else .error "number too large to fit in target type"

/-- The number of rows that a text asks for. -/
def parseLimit (cs : List Char) : Outcome Nat :=
  let reading : Except String Nat := match cs with
    | [] => .error "cannot parse integer from empty string"
    | ['+'] => .error "invalid digit found in string"
    | '+' :: rest => readLimit 0 rest
    | _ => readLimit 0 cs
  match reading with
  | .ok n => .ok n
  | .error reason => .error (.query ("bad LIMIT: " ++ reason))

/-- Drop semicolons from the back. -/
def dropSemicolons (cs : List Char) : List Char :=
  (cs.reverse.dropWhile (· == ';')).reverse

/-- The text of a query without blank ends and without semicolons at its end. -/
def trimmed (text : String) : List Char :=
  Text.stripChars (dropSemicolons (Text.stripChars text.toList))

/-- The selected columns; a star stands for all of them. -/
def parseColumns (cs : List Char) : Option (List String) :=
  let cs := Text.stripChars cs
  if cs = ['*'] then none
  else some ((Text.splitChars ',' cs).map fun piece => String.ofList (Text.stripChars piece))

/-- The query of a text. -/
def parse (text : String) : Outcome Query := do
  let q := trimmed text
  let upper := capitals q
  let select := "SELECT ".toList
  if !select.isPrefixOf upper then
    .error (.query ("only SELECT is supported: " ++ String.ofList q))
  else
    match findKeyword "FROM".toList upper with
    | none => .error (.query ("missing FROM: " ++ String.ofList q))
    | some source => do
      let columns := parseColumns (← cut select.length source q)
      let afterFrom := source + 6
      let after (place : Option Nat) : Option Nat := place.filter fun p => source < p
      let condition := after (findKeyword "WHERE".toList upper)
      let bound := after (findKeyword "LIMIT".toList upper)
      let tableEnd := (condition <|> bound).getD q.length
      let table := Text.stripChars (← cut afterFrom (max tableEnd afterFrom) q)
      if table.isEmpty || table.any Text.isBlank then
        .error (.query ("malformed FROM clause: " ++ String.ofList q))
      else do
        let predicates ← match condition with
          | none => .ok []
          | some place => do
            let start := place + 7
            let clause ← cut start (max (bound.getD q.length) start) q
            (splitAnd clause.length clause).mapM parsePredicate
        let limit ← match bound with
          | none => .ok none
          | some place => do
            let number ← cut (place + 7) (max q.length (place + 7)) q
            (parseLimit (Text.stripChars number)).map some
        .ok ⟨columns, String.ofList table, predicates, limit⟩

/-- The text of a predicate. -/
def renderPredicate (p : Predicate) : String :=
  p.column ++ " " ++ p.comparison.render ++ " " ++ p.literal

/-- The text of a query. -/
def render (q : Query) : String :=
  "SELECT " ++ (match q.columns with
    | none => "*"
    | some columns => String.intercalate ", " columns)
    ++ " FROM " ++ q.table
    ++ (if q.predicates.isEmpty then ""
      else " WHERE " ++ String.intercalate " AND " (q.predicates.map renderPredicate))
    ++ (match q.limit with
      | none => ""
      | some n => " LIMIT " ++ toString n)

end Query

end Lineage
