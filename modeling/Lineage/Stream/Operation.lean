import Lineage.Path.Dotted
import Lineage.Random.Choice
import Lineage.Stream.Basic
import Lineage.Transform.Basic
import Lineage.Ty.Item

set_option autoImplicit false

/-!
# Operations on rows

Filters, projections and item access look at one batch at a time. Slices, extracts, samples and
shuffles look at all rows at once.

## Main definitions

* `Lineage.BatchOperation`, `Lineage.BatchOperation.evaluate`: operations on a batch.
* `Lineage.TableOperation`, `Lineage.TableOperation.evaluate`: operations on a table.
* `Lineage.TableOperation.stream`: the result in batches of a size.
-/

namespace Lineage

/-- An operation on one batch at a time. -/
inductive BatchOperation where
  /-- Keep the rows that belong to a type, cut down to it. -/
  | filter (target : Ty) (wrapped : Bool)
  /-- Cut all rows down to a type. -/
  | project (target : Ty) (wrapped : Bool)
  /-- Keep the part under a path of rows of a type. -/
  | getItem (path : Path) (parent : Ty) (wrapped : Bool)

namespace BatchOperation

/-- The name of an operation. -/
def name : BatchOperation → String
  | .filter .. => "filter"
  | .project .. => "project"
  | .getItem .. => "get_item"

/-- The marks of the rows of a batch, or of their payloads, that belong to a type. -/
def rowMask (target : Ty) (wrapped : Bool) (b : Batch) : Outcome (List Bool) :=
  if wrapped then
    match b.column? dataLabel with
    | some c => target.selectRows c
    | none => .error Ty.missingData
  else target.selectBatchRows b

/-- The rows of a batch that belong to a type, cut down to it; none if no row does. -/
def filterBatch (target : Ty) (wrapped : Bool) (b : Batch) : Outcome (Option Batch) := do
  let mask ← rowMask target wrapped b
  let kept := b.keep mask
  if kept.size = 0 then .ok none else (target.projectBatch kept wrapped).map some

/-- The result on one batch; none if no row is left. -/
def evaluate (b : Batch) : BatchOperation → Outcome (Option Batch)
  | .filter target wrapped => filterBatch target wrapped b
  | .project target wrapped => (target.projectBatch b wrapped).map some
  | .getItem path parent wrapped => (parent.itemBatch path wrapped b).map some

/-- The results on the batches of a stream. -/
def stream (op : BatchOperation) (s : BatchStream) : BatchStream :=
  s.mapBatches fun b => op.evaluate b

end BatchOperation

/-- An operation on all rows at once. -/
inductive TableOperation where
  /-- The rows from `start` up to but not including `stop`. -/
  | slice (start stop : Int)
  /-- All rows. -/
  | extract (size seed : Nat)
  /-- Rows drawn at random, in their order. -/
  | sample (size : SampleSize)
  /-- All rows in random order. -/
  | shuffle

namespace TableOperation

/-- The name of an operation. -/
def name : TableOperation → String
  | .slice .. => "slice"
  | .extract .. => "extract"
  | .sample _ => "sample"
  | .shuffle => "shuffle"

/-- Checks that need no rows. -/
def validate : TableOperation → Outcome Unit
  | .slice start stop =>
    if start < 0 then
      .error (.invalidInput ("slice start " ++ toString start ++ " is negative"))
    else if stop < start then
      .error (.invalidInput ("slice end " ++ toString stop ++ " is before start "
        ++ toString start))
    else .ok ()
  | .sample (.size 0) => .error (.invalidInput "sample size must be at least 1")
  | .sample (.fraction part) =>
    if decide (part > 0.0) && decide (part ≤ 1.0) then .ok ()
    else .error (.invalidInput ("sample fraction " ++ Ty.plainFloat part ++ " is not in (0, 1]"))
  | _ => .ok ()

/-- What happens when there is no batch at all. -/
def onEmpty : TableOperation → Outcome Unit
  | .sample _ => .error (.invalidInput "cannot sample from an empty dataset")
  | _ => .ok ()

section Evaluation

variable {σ : Type} (draws : Draws σ) (s : σ)

/-- Rows at distinct random places, in their order. -/
def sampleRows (size : SampleSize) (b : Batch) : Outcome Batch :=
  let total := b.size
  if total = 0 then .error (.invalidInput "cannot sample from an empty dataset")
  else
    let n := size.rows total
    if n < 1 ∨ total < n then
      .error (.invalidInput ("cannot draw " ++ toString n ++ " rows out of " ++ toString total
        ++ " without replacement"))
    else b.take (draws.sample total n s)

/-- All rows in random order. -/
def shuffleRows (b : Batch) : Outcome Batch :=
  if b.size ≤ 1 then .ok b else b.take (draws.shuffle b.size s)

/-- The result on a table. -/
def evaluate (b : Batch) : TableOperation → Outcome Batch
  | .slice start stop => do
    validate (.slice start stop)
    let first := min start.toNat b.size
    let last := min stop.toNat b.size
    .ok (b.slice first (last - first))
  | .extract .. => .ok b
  | .sample size => sampleRows draws s size b
  | .shuffle => shuffleRows draws s b

/-- The result on the rows of a stream, in batches of `n` rows. -/
def results (n : Nat) (input : BatchStream) (op : TableOperation) : Outcome (List Batch) := do
  match ← input.table with
  | none => do
    op.onEmpty
    .ok []
  | some table => do
    let result ← op.evaluate draws s table
    result.rechunk n

/-- The stream of the result. -/
def stream (n : Nat) (input : BatchStream) (op : TableOperation) : BatchStream :=
  match op.validate with
  | .error fault => .failed fault
  | .ok () => .ofOutcome (results draws s n input op)

end Evaluation

end TableOperation

end Lineage
