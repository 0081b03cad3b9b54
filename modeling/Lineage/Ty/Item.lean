import Lineage.Path.Dotted
import Lineage.Ty.Projection

set_option autoImplicit false

/-!
# The part of every row under a path

## Main definitions

* `Lineage.Ty.descend`: follow labels in a type and in a column that stores it.
* `Lineage.Ty.itemNullable`: whether the part may be null.
* `Lineage.Ty.itemBatch`: the part as a batch, or in the place of the payload.
-/

namespace Lineage.Ty

/-- The parts of structs at a name; where the struct is null, so is the part. A part that only
holds nulls cannot take up those of the struct. -/
def childUnder (c child : Column) : Outcome Column :=
  if c.cells.any Cell.isNull then
    if child.type = .null then .error .columns
    else .ok ⟨child.type, List.zipWith (fun s cell => if s.isNull then cell.absent else cell)
      c.cells child.cells⟩
  else .ok child

mutual

/-- Follow labels in a type and in a column that stores it. Structs and unions have parts under
labels; optional and constrained types take one label; lists and arrays cannot be entered. -/
def descend (c : Column) : List String → Ty → Outcome (Ty × Column)
  | [], t => .ok (t, c)
  | label :: rest, .members _ _ fields => descendMember c label rest fields
  | _ :: rest, .wrapped _ .optional inner => descend c rest inner
  | _ :: rest, .wrapped _ (.constrained _) inner => descend c rest inner
  | label :: _, .wrapped _ wrapper _ =>
    .error (.unsupported ("get_item through a " ++ wrapperKind wrapper ++ " at '" ++ label ++ "'"))
  | label :: rest, _ => .error (.pathNotFound (Path.ofLabels (label :: rest)) label)

/-- Follow labels from the first member that has the first of them. -/
def descendMember (c : Column) (label : String) (rest : List String) :
    List (String × Ty) → Outcome (Ty × Column)
  | [] => .error (.pathNotFound (Path.ofLabels (label :: rest)) label)
  | (name, t) :: others =>
    if name = label then
      if c.type.isStruct then do
        let child ← childColumn c label
        let under ← childUnder c child
        descend under rest t
      else .error (.schema ("expected a struct array, got " ++ c.type.render))
    else descendMember c label rest others

end

mutual

/-- Whether the part under labels may be null: below an optional type or a branch of a union it
may. -/
def itemNullable : List String → Ty → Bool
  | [], t =>
    match t with
    | .wrapped _ .optional _ => true
    | .leaf _ .null => true
    | .leaf _ .unit => true
    | _ => false
  | label :: rest, t =>
    match t with
    | .wrapped _ .optional _ => true
    | .members _ .union _ => true
    | .members _ .struct fields => memberNullable label rest fields
    | .wrapped _ (.constrained _) inner => itemNullable rest inner
    | _ => false

/-- Whether the part under labels may be null, from the first member that has the first of them. -/
def memberNullable (label : String) (rest : List String) : List (String × Ty) → Bool
  | [] => false
  | (name, t) :: others =>
    if name = label then itemNullable rest t else memberNullable label rest others

end

/-- The name of a column for a part: the last label that is not a step into a wrapper. -/
def itemColumnName (labels : List String) : String :=
  (labels.reverse.find? fun l =>
    !([optionalValue, listValues, arrayValues].contains l)).getD dataLabel

/-- The part under labels as a batch: the parts of a struct that is never null, or one column. -/
def itemContent (parent : Ty) (path : Path) (c : Column) : Outcome Batch := do
  let labels ← path.labels
  let (t, part) ← descend c labels parent
  let nullable := itemNullable labels parent
  if t.isStruct && !nullable && part.type.isStruct then Batch.ofColumn part
  else Batch.make [⟨itemColumnName labels, part.type, nullable⟩] (part.cells.map fun cell => [cell])

/-- The part of every row of a batch; of wrapped rows the part takes the place of the payload. -/
def itemBatch (parent : Ty) (path : Path) (wrapped : Bool) (b : Batch) : Outcome Batch :=
  if wrapped then
    match b.columnIndex? dataLabel with
    | none => .error missingData
    | some i =>
      match b.columnAt? i with
      | none => .error missingData
      | some c => do
        let labels ← path.labels
        let (_, part) ← descend c labels parent
        b.replaceColumn i ⟨dataLabel, part.type, itemNullable labels parent⟩ part.cells
  else itemContent parent path b.toColumn

end Lineage.Ty
