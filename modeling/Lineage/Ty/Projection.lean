import Lineage.Ty.Selection

set_option autoImplicit false

/-!
# Columns cut down to a type

## Main definitions

* `Lineage.Ty.projectColumn`: the parts of a column that a type has, in the column's order.
* `Lineage.Ty.projectBatch`: the same for a batch, or for its payload under `data`.
-/

namespace Lineage.Ty

/-- Cells of structs put together from the cells of their parts. -/
def structCells (cells : List Cell) (parts : List (List Cell)) : List Cell :=
  cells.zipIdx.map fun entry =>
    .struct (!entry.1.isNull) (parts.map fun part => (part[entry.2]?).getD .null)

/-- The struct of fields and the cells of their parts, with the nulls of given cells. A part that
is not nullable must not hold nulls but where the struct does; no fields need no such test. -/
def assembleStruct (cells : List Cell) (parts : List (Field × List Cell)) : Outcome Column :=
  let hidden := cells.map Cell.isNull
  let fits (part : Field × List Cell) : Bool :=
    part.1.nullable || (part.2.zip hidden).all fun entry => !entry.1.isNull || entry.2
  if parts.all fits then
    .ok ⟨.struct (parts.map Prod.fst), structCells cells (parts.map Prod.snd)⟩
  else .error .columns

/-- The cells of all lists of a column in one row. -/
def listItems (cells : List Cell) : List Cell :=
  cells.flatMap fun cell => match cell with
    | .list items => items
    | _ => []

/-- The lists of a column with other items in the same order. -/
def relist : List Cell → List Cell → List Cell
  | [], _ => []
  | .list items :: rest, pool =>
    .list (pool.take items.length) :: relist rest (pool.drop items.length)
  | cell :: rest, pool => cell :: relist rest pool

mutual

/-- The parts of a column that a type has. A list is cut down item by item; what a type says
nothing about stays whole. -/
def projectColumn (c : Column) : Ty → Outcome Column
  | .leaf _ _ => .ok c
  | .members _ form fields =>
    if c.type.isStruct then do
      let kept ← c.children.mapM fun entry => projectMember form entry.1 entry.2 fields
      match fields.find? fun f => (Column.fieldIndex? f.1 c.type.fields).isNone with
      | some missing => .error (missingColumn missing.1)
      | none => assembleStruct c.cells kept.flatten
    else .error (.schema ("expected a struct array, got " ++ c.type.render))
  | .wrapped _ .optional inner => projectColumn c inner
  | .wrapped _ (.constrained _) inner => projectColumn c inner
  | .wrapped _ (.list _) inner =>
    match c.type with
    | .list .small item => do
      let items ← projectColumn ⟨item.type, listItems c.cells⟩ inner
      .ok ⟨.list .small ⟨item.name, items.type, item.nullable⟩, relist c.cells items.cells⟩
    | _ => .ok c
  | .wrapped _ (.array _) _ => .ok c
  | .hypothesis _ types => (bestOf? (projectCandidates c types)).getD (.ok c)

/-- One part of structs, cut down to the type of the first member of its name. -/
def projectMember (form : Form) (f : Field) (c : Column) :
    List (String × Ty) → Outcome (List (Field × List Cell))
  | [] => .ok (if form == .union && f.name == fieldSelected then [(f, c.cells)] else [])
  | (name, t) :: rest =>
    if name = f.name then
      if form == .union && f.name == fieldSelected then .ok [(f, c.cells)]
      else (projectColumn c t).map fun part => [(⟨f.name, part.type, f.nullable⟩, part.cells)]
    else projectMember form f c rest

/-- The column cut down to each candidate. -/
def projectCandidates (c : Column) : List (Ty × Float) → List (Outcome Column × Float)
  | [] => []
  | (t, score) :: rest => (projectColumn c t, score) :: projectCandidates c rest

end

/-- The fault of rows without payload. -/
def missingData : Fault := .schema ("missing '" ++ dataLabel ++ "' column")

/-- A batch cut down to a type; of wrapped rows only the payload is. -/
def projectBatch (b : Batch) (t : Ty) (wrapped : Bool) : Outcome Batch :=
  if wrapped then
    match b.columnIndex? dataLabel with
    | none => .error missingData
    | some i =>
      match b.columnAt? i, b.fields[i]? with
      | some c, some f => do
        let payload ← projectColumn c t
        b.replaceColumn i ⟨dataLabel, payload.type, f.nullable⟩ payload.cells
      | _, _ => .error missingData
  else do
    let c ← projectColumn b.toColumn t
    if c.type.isStruct then Batch.ofColumn c
    else .error (.schema "projection of a batch must be a struct")

end Lineage.Ty
