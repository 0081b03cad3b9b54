import Lineage.Csv.Table
import Lineage.Proofs.Stream.Regroup

set_option autoImplicit false

/-!
# Batches of separated values

## Main results

* `Lineage.Csv.batchesOfRows_eq_ok`: rows in batches are the table of these rows, cut.
* `Lineage.Csv.readBatches_cases`: the rows of a text do not depend on the size of the batches.
-/

namespace Lineage.Csv

/-- Batches of the same columns are made again. -/
lemma mapM_make_eq_ok {columns : List Field} {batches out : List Batch}
    (h : ∀ b ∈ batches, b.fields = columns) :
    (batches.mapM fun b => Batch.make columns b.rows) = .ok out ↔
      out = batches ∧ ∀ b ∈ batches, ∀ row ∈ b.rows, Batch.Allows columns row := by
  induction batches generalizing out with
  | nil =>
    refine ⟨fun heq => ⟨(Except.ok.inj heq).symm, by simp⟩, fun heq => ?_⟩
    rw [heq.1]
    rfl
  | cons b rest ih =>
    obtain ⟨hb, hrest⟩ := List.forall_mem_cons.mp h
    have hself : (⟨columns, b.rows⟩ : Batch) = b := by rw [← hb]
    simp only [Outcome.mapM_cons_eq_ok, Batch.make_eq_ok, ih hrest, hself, List.forall_mem_cons]
    constructor
    · rintro ⟨_, _, ⟨rfl, hrows⟩, ⟨rfl, hall⟩, rfl⟩
      exact ⟨rfl, hrows, hall⟩
    · rintro ⟨rfl, hrows, hall⟩
      exact ⟨b, rest, ⟨rfl, hrows⟩, ⟨rfl, hall⟩, rfl⟩

/-- Rows in batches of `n`. -/
lemma batchesOfRows_eq_ok {columns : List Field} {n : ℕ} (hn : 0 < n) {rows : List (List Cell)}
    {batches : List Batch} :
    batchesOfRows columns n rows = .ok batches ↔
      batches = Batch.chunks n ⟨columns, rows⟩ ∧ ∀ row ∈ rows, Batch.Allows columns row := by
  have hmake : batchesOfRows columns n rows =
      (Batch.chunks n ⟨columns, rows⟩).mapM fun b => Batch.make columns b.rows := by
    rw [batchesOfRows, Batch.chunks, List.mapM_map]
    rfl
  have hrows := @Batch.forall_mem_chunks_iff n columns hn
    (fun rows => ∀ row ∈ rows, Batch.Allows columns row) (fun _ _ => List.forall_mem_append) rows
  have hfields : ∀ b ∈ Batch.chunks n ⟨columns, rows⟩, b.fields = columns :=
    fun b hb => Batch.fields_of_mem_chunks hb
  rw [hmake, mapM_make_eq_ok hfields, hrows, or_iff_right_of_imp fun hnil => by simp [hnil]]

/-- The rows of a text under declared columns, whatever the size of the batches; or a fault. -/
lemma readBatches_cases (columns : List Field) (text : String) :
    (∃ fault, ∀ n, readBatches columns n text = .error fault) ∨
      ∃ rows, ∀ n, 0 < n → readBatches columns n text = batchesOfRows columns n rows := by
  have hnone : ∀ n, 0 < n → batchesOfRows columns n [] = .ok [] := by
    intro n hn
    rw [batchesOfRows_eq_ok hn, Batch.chunks_nil hn]
    simp
  unfold readBatches
  split
  · split
    · exact Or.inr ⟨[], fun n hn => (hnone n hn).symm⟩
    · exact Or.inl ⟨_, fun n => rfl⟩
  · split
    · exact Or.inr ⟨[], fun n hn => (hnone n hn).symm⟩
    · split
      · exact Or.inl ⟨_, fun n => rfl⟩
      · rename_i names rows _ _
        cases rows.mapM (row? columns) with
        | none => exact Or.inl ⟨_, fun n => rfl⟩
        | some cells => exact Or.inr ⟨cells, fun n hn => rfl⟩

end Lineage.Csv
