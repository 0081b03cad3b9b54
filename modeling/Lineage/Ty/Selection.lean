import Lineage.Column.Cast
import Lineage.Ty.Columns

set_option autoImplicit false

/-!
# Rows that belong to a type

A row is selected by a type if its value belongs to it: every field of a struct does, the branch of
a union is one of the type's and its value belongs, numbers lie between the bounds, names are
listed. Nulls always belong.

## Main definitions

* `Lineage.Ty.selectRows`: a mark for every cell of a column.
* `Lineage.Ty.selectBatchRows`: a mark for every row of a batch.
-/

namespace Lineage.Ty

/-- A mark for every cell that has a reading; the others are marked. -/
def marks {α : Type} (test : α → Bool) (cells : List (Option α)) : List Bool :=
  cells.map fun cell => match cell with
    | some a => test a
    | none => true

/-- The marks of cells by a leaf. -/
def selectByLeaf (c : Column) : Leaf → Outcome (List Bool)
  | .integer lo hi _ => c.asInts.map (marks fun n => decide (lo ≤ n ∧ n ≤ hi))
  | .float lo hi _ => c.asFloats.map (marks fun x => decide (lo ≤ x) && decide (x ≤ hi))
  | .enum nameValues _ => c.asTexts.map (marks fun t => nameValues.any fun e => e.1 == t)
  | .datetime _ _ _ .timestamp => .ok (c.cells.map fun _ => true)
  | .datetime _ lo hi _ => c.asTexts.map (marks fun t => decide (lo ≤ t ∧ t ≤ hi))
  | _ => .ok (c.cells.map fun _ => true)

/-- A column must store structs. -/
def requireStruct (form : Form) (c : Column) : Outcome Unit :=
  if c.type.isStruct then .ok ()
  else .error (.schema ("expected a struct array for " ++ formKind form ++ ", got "
    ++ c.type.render))

/-- The fault of a struct without a part of a name. -/
def missingColumn (name : String) : Fault := .schema ("missing column '" ++ name ++ "'")

/-- The part of a name of every struct of a column. -/
def childColumn (c : Column) (name : String) : Outcome Column :=
  Outcome.ofOption (missingColumn name) (c.child? name)

/-- The names of the branches of a union's rows. -/
def selectedBranches (c : Column) : Outcome (List (Option String)) := do
  let selector ← childColumn c fieldSelected
  if selector.type = .utf8 then
    .ok (selector.cells.map fun cell => match cell with
      | .text t => some t
      | _ => none)
  else .error (.schema ("'" ++ fieldSelected ++ "' must be utf8"))

/-- The mark of a row by the first of the branches that has its name. -/
def branchMark (branches : List (String × List Bool)) (row : Option String × Nat) : Bool :=
  match row.1 with
  | none => false
  | some name =>
    match branches.find? fun b => b.1 == name with
    | none => false
    | some b => (b.2[row.2]?).getD false

/-- Both marks. -/
def bothMarks (xs ys : List Bool) : List Bool := List.zipWith (· && ·) xs ys

mutual

/-- A mark for every cell of a column whose value belongs to a type. -/
def selectRows (c : Column) : Ty → Outcome (List Bool)
  | .leaf _ content => selectByLeaf c content
  | .members _ .struct fields => do
    requireStruct .struct c
    selectFields c (c.cells.map fun _ => true) fields
  | .members _ .union fields => do
    requireStruct .union c
    let names ← selectedBranches c
    let branches ← selectBranches c fields
    .ok (names.zipIdx.map (branchMark branches))
  | .wrapped _ .optional inner => do
    let mask ← selectRows c inner
    .ok (List.zipWith (fun m cell => m || cell.isNull) mask c.cells)
  | .wrapped _ (.constrained _) inner => selectRows c inner
  | .wrapped _ _ _ => .ok (c.cells.map fun _ => true)
  | .hypothesis _ types =>
    (bestOf? (selectCandidates c types)).getD (.ok (c.cells.map fun _ => true))

/-- The marks of rows by the fields of a struct, given the marks so far. -/
def selectFields (c : Column) (mask : List Bool) : List (String × Ty) → Outcome (List Bool)
  | [] => .ok mask
  | (name, t) :: rest => do
    let part ← childColumn c name
    let marks ← selectRows part t
    selectFields c (bothMarks mask marks) rest

/-- The marks of rows by every branch of a union. -/
def selectBranches (c : Column) : List (String × Ty) → Outcome (List (String × List Bool))
  | [] => .ok []
  | (name, t) :: rest => do
    let part ← childColumn c name
    let marks ← selectRows part t
    let others ← selectBranches c rest
    .ok ((name, marks) :: others)

/-- The marks by every candidate. -/
def selectCandidates (c : Column) : List (Ty × Float) → List (Outcome (List Bool) × Float)
  | [] => []
  | (t, score) :: rest => (selectRows c t, score) :: selectCandidates c rest

end

/-- A mark for every row of a batch that belongs to a type. -/
def selectBatchRows (b : Batch) (t : Ty) : Outcome (List Bool) := selectRows b.toColumn t

end Lineage.Ty
