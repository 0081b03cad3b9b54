import Lineage.Column.Batch
import Lineage.Proofs.Outcome

set_option autoImplicit false

/-!
# Batches row by row

Whether rows may stand in a batch, and what comes of putting batches under one another, is said of
one row at a time.

## Main definitions

* `Lineage.Batch.Allows`: a row has no nulls in columns that are not nullable.
* `Lineage.Batch.FormedOf`: a batch of given fields, as batches are built.
* `Lineage.Batch.Stores`: a batch stores given columns in the same way.
* `Lineage.Batch.conform`: rows cut to the columns that there are.

## Main results

* `Lineage.Batch.nullsAllowed_iff`: nulls stand where they may if they do in every row.
* `Lineage.Batch.concat_eq_ok`: what batches under one another are.
* `Lineage.Batch.concat_of_fields`: batches of the same columns can be put under one another if
  nulls stand where they may.
-/

namespace Lineage.Batch

/-- A row holds no null in a column that is not nullable; columns of nulls do not count. -/
def Allows (fields : List Field) (row : List Cell) : Prop :=
  ∀ (i : ℕ) (f : Field), fields[i]? = some f → f.nullable = false → f.type ≠ .null →
    (cellAt i row).isNull = false

/-- A batch of the given fields, as batches are built: every row has a cell for each field, and
nulls stand where they may. -/
structure FormedOf (fields : List Field) (b : Batch) : Prop where
  /-- The fields are those given. -/
  fields_eq : b.fields = fields
  /-- Every row has a cell for each field. -/
  length_row : ∀ row ∈ b.rows, row.length = fields.length
  /-- Nulls stand where they may. -/
  allows_row : ∀ row ∈ b.rows, Allows fields row

/-- A column has no nulls that count exactly when no cell is null or it is a column of nulls. -/
lemma nullCount_eq_zero_iff (c : Column) :
    c.nullCount = 0 ↔ c.type = .null ∨ ∀ cell ∈ c.cells, cell.isNull = false := by
  unfold Column.nullCount
  split
  · rename_i h
    simp [h]
  · rename_i h
    simp [h, List.countP_eq_zero]

/-- **Nulls stand where they may exactly when they do in every row.** -/
theorem nullsAllowed_iff {b : Batch} :
    b.nullsAllowed = true ↔ ∀ row ∈ b.rows, Allows b.fields row := by
  unfold nullsAllowed columns
  rw [List.all_map, List.all_eq_true]
  simp only [List.mem_zipIdx_iff_getElem?, Function.comp_apply, Bool.or_eq_true,
    beq_iff_eq, nullCount_eq_zero_iff, cellsAt, List.mem_map, forall_exists_index, and_imp,
    forall_apply_eq_imp_iff₂]
  constructor
  · intro h row hrow i f hf hnullable htype
    rcases h (f, i) hf with hn | hn | hn
    · exact absurd (hn.symm.trans hnullable) (by simp)
    · exact absurd hn htype
    · exact hn row hrow
  · rintro h ⟨f, i⟩ hf
    by_cases hnullable : f.nullable = true
    · exact Or.inl hnullable
    · by_cases htype : f.type = .null
      · exact Or.inr (Or.inl htype)
      · exact Or.inr (Or.inr fun row hrow => h row hrow i f hf (by simpa using hnullable) htype)

/-- A batch of fields and rows. -/
lemma make_eq_ok {fields : List Field} {rows : List (List Cell)} {b : Batch} :
    make fields rows = .ok b ↔ b = ⟨fields, rows⟩ ∧ ∀ row ∈ rows, Allows fields row := by
  have hnulls := nullsAllowed_iff (b := ⟨fields, rows⟩)
  unfold make
  dsimp only
  split
  · rename_i h
    simp only [Except.ok.injEq]
    exact ⟨fun heq => ⟨heq.symm, hnulls.mp h⟩, fun heq => heq.1.symm⟩
  · rename_i h
    simp only [reduceCtorEq, false_iff, not_and]
    exact fun _ hrows => h (hnulls.mpr hrows)

/-- The batch with every row cut to the columns that there are. -/
def conform (b : Batch) : Batch := ⟨b.fields, b.rows.map (List.take b.fields.length)⟩

/-- The cell of a column in a row that is cut to the columns that there are. -/
lemma cellAt_take {i n : ℕ} (h : i < n) (row : List Cell) :
    cellAt i (row.take n) = cellAt i row := by
  unfold cellAt
  rw [List.getElem?_take_of_lt h]

/-- Cutting a row to the columns that there are changes no nulls. -/
lemma allows_take {fields : List Field} {row : List Cell} :
    Allows fields (row.take fields.length) ↔ Allows fields row := by
  unfold Allows
  refine forall₃_congr fun i f hf => ?_
  rw [cellAt_take (List.getElem?_eq_some_iff.mp hf).1]

/-- What keeps batches from being put under one another is that one lacks a column or stores it in
another way. -/
lemma concatFault?_eq_none {batches : List Batch} {i : ℕ} {field : Field} :
    concatFault? batches i field = none ↔
      ∀ b ∈ batches, ∃ f, b.fields[i]? = some f ∧ f.type = field.type := by
  unfold concatFault?
  constructor
  · intro h b hb
    split at h
    · cases h
    · split at h
      · rename_i hall
        have htype := List.all_eq_true.mp hall b hb
        rw [beq_iff_eq, Option.map_eq_some_iff] at htype
        exact htype
      · cases h
  · intro h
    have hpresent : (batches.any fun b => (b.fields[i]?).isNone) = false := by
      refine List.any_eq_false.mpr fun b hb => ?_
      obtain ⟨f, hf, -⟩ := h b hb
      simp [hf]
    have htypes : (batches.all fun b => (b.fields[i]?).map FieldOf.type == some field.type) =
        true := by
      refine List.all_eq_true.mpr fun b hb => ?_
      obtain ⟨f, hf, htype⟩ := h b hb
      simp [hf, htype]
    rw [hpresent, htypes]
    rfl

/-- A batch has all given columns, stored in the same way. -/
def Stores (fields : List Field) (b : Batch) : Prop :=
  ∀ (i : ℕ) (f : Field), fields[i]? = some f →
    ∃ f' : Field, b.fields[i]? = some f' ∧ f'.type = f.type

/-- A batch that stores given columns has as many. -/
lemma Stores.length_le {fields : List Field} {b : Batch} (h : b.Stores fields) :
    fields.length ≤ b.fields.length := by
  by_contra hlt
  obtain ⟨f, hf, -⟩ := h b.fields.length fields[b.fields.length]
    (List.getElem?_eq_getElem (Nat.lt_of_not_le hlt))
  rw [List.getElem?_eq_none (Nat.le_refl _)] at hf
  cases hf

/-- Nothing keeps batches from being put under one another exactly when all of them store the given
columns. -/
lemma findSome?_concatFault?_eq_none {fields : List Field} {batches : List Batch} :
    (fields.zipIdx.findSome? fun entry => concatFault? batches entry.2 entry.1) = none ↔
      ∀ b ∈ batches, b.Stores fields := by
  rw [List.findSome?_eq_none_iff]
  constructor
  · intro h b hb i f hf
    exact concatFault?_eq_none.mp (h (f, i) (List.mem_zipIdx_iff_getElem?.mpr hf)) b hb
  · rintro h ⟨f, i⟩ hf
    exact concatFault?_eq_none.mpr fun b hb => h b hb i f (List.mem_zipIdx_iff_getElem?.mp hf)

/-- Batches that store the given columns, under one another. -/
lemma concat_of_stores {fields : List Field} {batches : List Batch}
    (h : ∀ b ∈ batches, b.Stores fields) : concat fields batches =
      make fields (batches.flatMap fun b => b.rows.map (List.take fields.length)) := by
  rw [concat, findSome?_concatFault?_eq_none.mpr h]

/-- **Batches under one another**: all of them store the given columns, the rows are cut to these,
and nulls stand where they may. -/
theorem concat_eq_ok {fields : List Field} {batches : List Batch} {b : Batch} :
    concat fields batches = .ok b ↔ (∀ b' ∈ batches, b'.Stores fields) ∧
      make fields (batches.flatMap fun b => b.rows.map (List.take fields.length)) = .ok b := by
  rw [← findSome?_concatFault?_eq_none]
  unfold concat
  split
  · rename_i h
    simp [h]
  · rename_i h
    simp [h]

/-- **Batches of the same columns can be put under one another** if nulls stand where they may. -/
theorem concat_of_fields {fields : List Field} {batches : List Batch}
    (hfields : ∀ b ∈ batches, b.fields = fields) {rows : List (List Cell)}
    (hrows : rows = batches.flatMap Batch.rows) {b : Batch} :
    concat fields batches = .ok b ↔
      b = conform ⟨fields, rows⟩ ∧ ∀ row ∈ rows, Allows fields row := by
  rw [concat_eq_ok, make_eq_ok]
  have hsame : ∀ b' ∈ batches, b'.Stores fields :=
    fun b' hb' i f hf => ⟨f, (hfields b' hb').symm ▸ hf, rfl⟩
  have hcut : (batches.flatMap fun b => b.rows.map (List.take fields.length)) =
      rows.map (List.take fields.length) := by
    rw [hrows, List.map_flatMap]
  rw [hcut]
  simp only [List.forall_mem_map, allows_take]
  exact ⟨fun h => h.2, fun h => ⟨hsame, h⟩⟩

end Lineage.Batch
