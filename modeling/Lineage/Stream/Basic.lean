import Lineage.Column.Batch

set_option autoImplicit false

/-!
# Streams of batches

A stream is what a reader of batches sees: the batches up to the end, or up to the first fault.

## Main definitions

* `Lineage.BatchStream`: batches, and the fault that ends them, if one does.
* `Lineage.BatchStream.mapBatches`: a stream with every batch changed or dropped.
* `Lineage.BatchStream.collect`, `Lineage.BatchStream.table`: all batches, or one of all rows.
* `Lineage.Batch.rechunk`: a batch cut into batches of one size.
* `Lineage.BatchStream.regroup`: a stream with the same rows in batches of one size.
-/

namespace Lineage

/-- Batches, and the fault that ends them, if one does. -/
structure BatchStream where
  /-- The batches before the end or the fault. -/
  batches : List Batch
  /-- The fault. -/
  failure : Option Fault

/-- The fault of a batch size of zero. -/
def zeroBatchSize : Fault := .invalidInput "batch_size must be positive"

namespace Batch

/-- The batch cut into batches of `n` rows, of which the last may have fewer. -/
def chunks (n : Nat) (b : Batch) : List Batch :=
  (List.range ((b.size + n - 1) / n)).map fun i => b.slice (i * n) n

/-- The batch cut into batches of `n` rows, which must be positive. -/
def rechunk (n : Nat) (b : Batch) : Outcome (List Batch) :=
  if n = 0 then .error zeroBatchSize else .ok (b.chunks n)

end Batch

namespace BatchStream

/-- A stream that ends well. -/
def ofList (batches : List Batch) : BatchStream := ⟨batches, none⟩

/-- A stream that fails at once. -/
def failed (fault : Fault) : BatchStream := ⟨[], some fault⟩

/-- A stream whose batches are computed when the first is asked for. -/
def ofOutcome : Outcome (List Batch) → BatchStream
  | .ok batches => ofList batches
  | .error fault => failed fault

/-- The stream with one more batch in front. -/
def cons (b : Batch) (s : BatchStream) : BatchStream := ⟨b :: s.batches, s.failure⟩

/-- The stream with more batches in front. -/
def append (bs : List Batch) (s : BatchStream) : BatchStream := ⟨bs ++ s.batches, s.failure⟩

/-- Change or drop every batch; the first fault ends the stream. -/
def mapFrom (f : Batch → Outcome (Option Batch)) (failure : Option Fault) :
    List Batch → BatchStream
  | [] => ⟨[], failure⟩
  | b :: rest =>
    match f b with
    | .error fault => failed fault
    | .ok none => mapFrom f failure rest
    | .ok (some out) => cons out (mapFrom f failure rest)

/-- The stream with every batch changed or dropped. -/
def mapBatches (f : Batch → Outcome (Option Batch)) (s : BatchStream) : BatchStream :=
  mapFrom f s.failure s.batches

/-- All batches, unless the stream fails. -/
def collect (s : BatchStream) : Outcome (List Batch) :=
  match s.failure with
  | none => .ok s.batches
  | some fault => .error fault

/-- One batch of all rows; none for a stream without batches. -/
def table (s : BatchStream) : Outcome (Option Batch) := do
  match ← s.collect with
  | [] => .ok none
  | first :: rest => (Batch.concat first.fields (first :: rest)).map some

/-- Put pending batches together and cut them: the full batches, and what is left of the last. -/
def drain (n : Nat) : List Batch → Outcome (List Batch × List Batch)
  | [] => .ok ([], [])
  | first :: rest => do
    let merged ← Batch.concat first.fields (first :: rest)
    let chunks := merged.chunks n
    match chunks.getLast? with
    | some last => .ok (if last.size = n then (chunks, []) else (chunks.dropLast, [last]))
    | none => .ok ([], [])

/-- Put pending batches together and cut them, down to the last row. -/
def flush (n : Nat) : List Batch → Outcome (List Batch)
  | [] => .ok []
  | first :: rest => (Batch.concat first.fields (first :: rest)).map (Batch.chunks n)

/-- Regroup the rows of pending and further batches. -/
def regroupFrom (n : Nat) (failure : Option Fault) : List Batch → List Batch → BatchStream
  | pending, [] =>
    match failure with
    | some fault => failed fault
    | none => ofOutcome (flush n pending)
  | pending, b :: rest =>
    if b.size = 0 then regroupFrom n failure pending rest
    else
      let pending := pending ++ [b]
      if Batch.totalSize pending < n then regroupFrom n failure pending rest
      else
        match drain n pending with
        | .error fault => failed fault
        | .ok (full, left) => append full (regroupFrom n failure left rest)

/-- The stream with the same rows in batches of `n` rows, of which only the last may have fewer.
Batches without rows disappear. -/
def regroup (n : Nat) (s : BatchStream) : BatchStream :=
  if n = 0 then failed zeroBatchSize else regroupFrom n s.failure [] s.batches

end BatchStream

end Lineage
