import Lineage.Column.Cast
import Lineage.Text.Blank
import Lineage.Text.Width

set_option autoImplicit false

/-!
# Batches as grids

A grid shows the rows of a table as text: a rule, the names of the columns, a rule, the rows and a
rule. Every column is as wide as its widest line; lines stand at the left with a blank on either
side.

## Main definitions

* `Lineage.Grid`: names and rows of texts.
* `Lineage.Grid.render`: the lines of a grid.
* `Lineage.Batch.grid`: the grid of a batch.
-/

namespace Lineage

/-- A table of texts. -/
structure Grid where
  /-- The names of the columns. -/
  header : List String
  /-- The rows, each with a text for every column. -/
  rows : List (List String)
  deriving DecidableEq, Repr

namespace Grid

/-- The lines of a text. -/
def lines (text : String) : List String := Text.splitAt '\n' text

/-- The places that the widest line of a text takes up. -/
def textWidth (text : String) : Nat := (lines text).foldl (fun w line => max w (Text.places line)) 0

/-- The width of the column at an index, which is never zero. -/
def columnWidth (g : Grid) (i : Nat) : Nat :=
  (g.header :: g.rows).foldl (fun w row => max w (textWidth ((row[i]?).getD ""))) 1

/-- The widths of the columns. -/
def widths (g : Grid) : List Nat := (List.range g.header.length).map g.columnWidth

/-- A line with blanks behind it up to a width, and one blank on either side. -/
def paddedLine (width : Nat) (line : String) : String :=
  " " ++ line ++ String.ofList (List.replicate (width - Text.places line + 1) ' ')

/-- A rule under columns of the given widths. -/
def rule (widths : List Nat) : String :=
  "+" ++ String.intercalate "+"
    (widths.map fun width => String.ofList (List.replicate (width + 2) '-')) ++ "+"

/-- One line of texts between bars. -/
def barred (widths : List Nat) (texts : List String) : String :=
  "|" ++ String.intercalate "|" (List.zipWith paddedLine widths texts) ++ "|"

/-- The lines of a row, of which there are as many as its tallest text has. -/
def rowLines (widths : List Nat) (row : List String) : List String :=
  let parts := row.map lines
  let height := parts.foldl (fun h part => max h part.length) 0
  (List.range height).map fun i => barred widths (parts.map fun part => (part[i]?).getD "")

/-- The lines of a grid, with line ends between them. -/
def render (g : Grid) : String :=
  let widths := g.widths
  let rule := rule widths
  String.intercalate "\n"
    ([rule] ++ rowLines widths g.header ++ [rule] ++ g.rows.flatMap (rowLines widths) ++ [rule])

end Grid

namespace Batch

/-- The grid of a batch; points in time outside the supported years are left out. -/
def grid (b : Batch) : Grid where
  header := b.fields.map FieldOf.name
  rows := b.rows.map fun row =>
    List.zipWith (fun field cell => (Cell.text? field.type cell).getD "") b.fields row

end Batch

end Lineage
