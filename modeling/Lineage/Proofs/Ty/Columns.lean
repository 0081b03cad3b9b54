import Lineage.Proofs.Column.Batch
import Lineage.Ty.Columns

set_option autoImplicit false

/-!
# Batches that are stored as a type says

## Main results

* `Lineage.Ty.checkBatch_eq_ok`: a batch is as expected if every column is.
* `Lineage.Ty.checkBatch_append`: a batch is as expected exactly when both parts of it are.
-/

namespace Lineage.Ty

/-- A column is as expected if it has the expected name, is stored in a compatible way, and has no
nulls that are neither expected nor excluded by the column itself. -/
lemma checkColumn_eq_ok {b : Batch} {expected actual : Field} :
    checkColumn b expected actual = .ok () ↔
      expected.name = actual.name ∧ compatible expected.type actual.type = true ∧
        (expected.nullable = false → actual.nullable = true →
          ∀ c, b.column? actual.name = some c → c.nullCount = 0) := by
  unfold checkColumn
  by_cases hname : expected.name = actual.name
  · cases hcompatible : compatible expected.type actual.type
    · simp [hname]
    · cases hexpected : expected.nullable
      · cases hactual : actual.nullable
        · simp [hname]
        · cases hcolumn : b.column? actual.name with
          | none => simp [hname]
          | some c => by_cases hcount : c.nullCount = 0 <;> simp [hname, hcount]
      · simp [hname]
  · simp [hname]

/-- **A batch is as expected** if it has the expected columns and each of them is as expected. -/
theorem checkBatch_eq_ok {t : Ty} {b : Batch} :
    checkBatch t b = .ok () ↔ ∃ expected, t.batchFields = .ok expected ∧
      List.Forall₂ (fun f f' => checkColumn b f f' = .ok ()) expected b.fields := by
  unfold checkBatch
  rw [Outcome.bind_eq_ok]
  refine exists_congr fun expected => and_congr_right fun _ => ?_
  rw [List.forall₂_iff_zip]
  split
  · rename_i hlength
    exact iff_of_false (by simp) fun h => hlength h.1
  · rename_i hlength
    rw [Outcome.forM_eq_ok]
    simp only [Prod.forall]
    exact ⟨fun h => ⟨not_not.mp hlength, fun {f f'} => h f f'⟩, fun h => h.2⟩

/-- A column of a batch is one of its parts under one another. -/
lemma forall_column?_append {fields : List Field} {a b : List (List Cell)} {name : String} :
    (∀ c, Batch.column? ⟨fields, a ++ b⟩ name = some c → c.nullCount = 0) ↔
      (∀ c, Batch.column? ⟨fields, a⟩ name = some c → c.nullCount = 0) ∧
        ∀ c, Batch.column? ⟨fields, b⟩ name = some c → c.nullCount = 0 := by
  unfold Batch.column? Batch.columnIndex? Batch.columnAt?
  dsimp only
  cases Column.fieldIndex? name fields with
  | none => simp
  | some i =>
    cases hfield : fields[i]? with
    | none => simp [hfield]
    | some f =>
      simp only [Option.bind_some, hfield, Option.map_some, Option.some.injEq, forall_eq',
        Batch.nullCount_eq_zero_iff, Batch.cellsAt, List.map_append, List.forall_mem_append]
      tauto

/-- A column of a batch is as expected exactly when it is in both parts of the batch. -/
lemma checkColumn_append {fields : List Field} {a b : List (List Cell)} {expected actual : Field} :
    checkColumn ⟨fields, a ++ b⟩ expected actual = .ok () ↔
      checkColumn ⟨fields, a⟩ expected actual = .ok () ∧
        checkColumn ⟨fields, b⟩ expected actual = .ok () := by
  simp only [checkColumn_eq_ok, forall_column?_append]
  tauto

/-- **A batch is as expected exactly when both parts of it are.** -/
theorem checkBatch_append {t : Ty} {fields : List Field} {a b : List (List Cell)} :
    checkBatch t ⟨fields, a ++ b⟩ = .ok () ↔
      checkBatch t ⟨fields, a⟩ = .ok () ∧ checkBatch t ⟨fields, b⟩ = .ok () := by
  simp only [checkBatch_eq_ok]
  cases hexpected : t.batchFields with
  | error fault => simp
  | ok expected =>
    simp only [Except.ok.injEq, exists_eq_left', List.forall₂_iff_zip, checkColumn_append]
    constructor
    · rintro ⟨hlength, h⟩
      exact ⟨⟨hlength, fun hmem => (h hmem).1⟩, hlength, fun hmem => (h hmem).2⟩
    · rintro ⟨⟨hlength, ha⟩, -, hb⟩
      exact ⟨hlength, fun hmem => ⟨ha hmem, hb hmem⟩⟩

end Lineage.Ty
