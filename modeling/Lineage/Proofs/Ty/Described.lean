import Mathlib.Data.List.Nodup
import Lineage.Proofs.Ty.Columns
import Lineage.Proofs.Ty.Cut

set_option autoImplicit false

/-!
# Batches that a type describes

A batch that has been checked against a plain type may be cut into rows and put together with
others, and still passes the check. What is kept is a little more than what the check looks at:
where no nulls are expected there are none, whether or not the column itself excludes them.

## Main definitions

* `Lineage.Ty.Suits`: a column suits an expected one.
* `Lineage.Ty.Describes`: all columns of a batch suit those of a type.

## Main results

* `Lineage.Ty.describes_of_checkBatch`, `Lineage.Ty.Describes.checkBatch`: a batch of a plain type
  that is checked is described, and one that is described passes the check.
* `Lineage.Ty.Describes.subset`, `Lineage.Ty.Describes.concat`: rows of described batches, and such
  batches under one another.
-/

namespace Lineage.Ty

/-! ### Columns that suit expected ones -/

/-- A column suits an expected field: it has its name and is stored in a compatible way. If nulls
count, it has none but where they are expected. -/
structure Suits (counted : Bool) (expected : Field) (part : Field × List Cell) : Prop where
  /-- The name is the expected one. -/
  name : expected.name = part.1.name
  /-- The column is stored in a compatible way. -/
  type : compatible expected.type part.1.type = true
  /-- There are no unexpected nulls. -/
  nulls : counted = true → expected.nullable = false → part.1.type ≠ .null →
    ∀ cell ∈ part.2, cell.isNull = false

/-- The columns of a batch. -/
def partsOf (b : Batch) : List (Field × List Cell) :=
  b.fields.zipIdx.map fun entry => (entry.1, b.cellsAt entry.2)

/-- A type describes a batch: the columns suit those of the type. -/
def Describes (t : Ty) (b : Batch) : Prop :=
  ∃ expected, t.batchFields = .ok expected ∧ List.Forall₂ (Suits true) expected (partsOf b)

/-- Two lists are related item by item if items at one place are. -/
lemma forall₂_iff_getElem? {α β : Type} {R : α → β → Prop} {as : List α} {bs : List β} :
    List.Forall₂ R as bs ↔ as.length = bs.length ∧
      ∀ (i : ℕ) a b, as[i]? = some a → bs[i]? = some b → R a b := by
  rw [List.forall₂_iff_get]
  refine and_congr_right fun _ => ⟨fun h i a b ha hb => ?_, fun h i hi hi' => ?_⟩
  · obtain ⟨hi, rfl⟩ := List.getElem?_eq_some_iff.mp ha
    obtain ⟨hi', rfl⟩ := List.getElem?_eq_some_iff.mp hb
    exact h i hi hi'
  · exact h i _ _ (List.getElem?_eq_getElem hi) (List.getElem?_eq_getElem hi')

/-- Columns suit expected ones if each of them does. -/
lemma suits_partsOf_iff {counted : Bool} {expected : List Field} {b : Batch} :
    List.Forall₂ (Suits counted) expected (partsOf b) ↔ expected.length = b.fields.length ∧
      ∀ (i : ℕ) (e f : Field), expected[i]? = some e → b.fields[i]? = some f →
        Suits counted e (f, b.cellsAt i) := by
  have hparts : ∀ (i : ℕ) part, (partsOf b)[i]? = some part ↔
      ∃ f, b.fields[i]? = some f ∧ (f, b.cellsAt i) = part := by
    intro i part
    simp [partsOf, List.getElem?_zipIdx, Function.comp_def]
  rw [forall₂_iff_getElem?]
  simp only [partsOf, List.length_map, List.length_zipIdx] at hparts ⊢
  simp only [hparts]
  refine and_congr_right fun _ => ⟨fun h i e f he hf => h i e _ he ⟨f, hf, rfl⟩, ?_⟩
  rintro h i e _ he ⟨f, hf, rfl⟩
  exact h i e f he hf

/-- Of columns with distinct names each is found under its name. -/
lemma column?_eq_some {b : Batch} (hnodup : (b.fields.map FieldOf.name).Nodup) {i : ℕ} {f : Field}
    (hf : b.fields[i]? = some f) : b.column? f.name = some ⟨f.type, b.cellsAt i⟩ := by
  obtain ⟨hi, rfl⟩ := List.getElem?_eq_some_iff.mp hf
  have hindex : b.columnIndex? b.fields[i].name = some i := by
    refine List.findIdx?_eq_some_iff_getElem.mpr ⟨hi, beq_self_eq_true _, fun j hj => ?_⟩
    have hne := List.pairwise_iff_getElem.mp hnodup j i (by rw [List.length_map]; omega)
      (by rwa [List.length_map]) hj
    rw [List.getElem_map, List.getElem_map] at hne
    simpa using hne
  rw [Batch.column?, hindex, Option.bind_some, Batch.columnAt?, hf, Option.map_some]

/-- The names of the columns of members. -/
lemma map_name_fieldsOf {fields : List (String × Ty)} {expected : List Field}
    (h : fieldsOf fields = .ok expected) : expected.map FieldOf.name = fields.map Prod.fst := by
  induction fields generalizing expected with
  | nil =>
    cases h
    rfl
  | cons field rest ih =>
    obtain ⟨name, t⟩ := field
    obtain ⟨stored, -, h⟩ := Outcome.bind_eq_ok.mp h
    obtain ⟨others, hothers, h⟩ := Outcome.bind_eq_ok.mp h
    cases h
    rw [List.map_cons, List.map_cons, ih hothers]

/-- The columns of rows of a plain type have distinct names. -/
lemma nodup_batchFields : ∀ (t : Ty) {expected : List Field}, Plain t →
    t.batchFields = .ok expected → (expected.map FieldOf.name).Nodup
  | .members _ form fields, _, hplain, h => by
    obtain ⟨stored, hstored, rfl⟩ := Outcome.map_eq_ok.mp h
    have hnames := map_name_fieldsOf hstored
    cases form with
    | struct =>
      rw [formFields, hnames]
      exact hplain.1
    | union =>
      rw [formFields, List.map_append, List.map_map]
      show (stored.map FieldOf.name ++ [fieldSelected]).Nodup
      rw [hnames]
      refine hplain.1.append (List.nodup_singleton _) fun name hname hmem => ?_
      rw [List.mem_singleton.mp hmem] at hname
      exact hplain.2.1 hname
  | .wrapped _ wrapper inner, _, hplain, h => by
    cases wrapper with
    | constrained constraint => exact nodup_batchFields inner hplain.2 h
    | optional | list maxSize | array shape => cases h
  | .leaf _ _, _, _, h => by cases h
  | .hypothesis _ _, _, _, h => by cases h

/-- Columns that are related to the expected ones under the same name have distinct names if these
do. -/
lemma nodup_of_forall₂ {R : Field → Field → Prop} {expected fields : List Field}
    (h : List.Forall₂ R expected fields) (hR : ∀ e f, R e f → e.name = f.name)
    (hnodup : (expected.map FieldOf.name).Nodup) : (fields.map FieldOf.name).Nodup := by
  have hnames : expected.map FieldOf.name = fields.map FieldOf.name := by
    induction h with
    | nil => rfl
    | cons hfirst _ ih =>
      rw [List.map_cons, List.map_cons, hR _ _ hfirst, ih (List.nodup_cons.mp hnodup).2]
  rwa [← hnames]

/-! ### Checked batches -/

/-- **A batch that is checked is described**, if it has no nulls in columns that exclude them. -/
theorem describes_of_checkBatch {t : Ty} {b : Batch} (hplain : Plain t)
    (hnulls : b.nullsAllowed = true) (h : checkBatch t b = .ok ()) : Describes t b := by
  obtain ⟨expected, hexpected, hcolumns⟩ := checkBatch_eq_ok.mp h
  have hnodup := nodup_of_forall₂ hcolumns (fun e f hf => (checkColumn_eq_ok.mp hf).1)
    (nodup_batchFields t hplain hexpected)
  obtain ⟨hlength, hcolumns⟩ := forall₂_iff_getElem?.mp hcolumns
  refine ⟨expected, hexpected, suits_partsOf_iff.mpr ⟨hlength, fun i e f he hf => ?_⟩⟩
  obtain ⟨hname, htype, hcount⟩ := checkColumn_eq_ok.mp (hcolumns i e f he hf)
  refine ⟨hname, htype, fun _ hexpected hstored => List.forall_mem_map.mpr fun row hrow => ?_⟩
  cases hnullable : f.nullable with
  | false => exact Batch.nullsAllowed_iff.mp hnulls row hrow i f hf hnullable hstored
  | true =>
    have hzero := hcount hexpected hnullable _ (column?_eq_some hnodup hf)
    have hcells := (Batch.nullCount_eq_zero_iff _).mp hzero |>.resolve_left hstored
    exact hcells _ (List.mem_map_of_mem hrow)

/-- **A batch that is described passes the check.** -/
theorem Describes.checkBatch {t : Ty} {b : Batch} (hplain : Plain t) (h : Describes t b) :
    checkBatch t b = .ok () := by
  obtain ⟨expected, hexpected, hcolumns⟩ := h
  obtain ⟨hlength, hcolumns⟩ := suits_partsOf_iff.mp hcolumns
  have hnames : List.Forall₂ (fun e f : Field => e.name = f.name) expected b.fields :=
    forall₂_iff_getElem?.mpr ⟨hlength, fun i e f he hf => (hcolumns i e f he hf).name⟩
  have hnodup := nodup_of_forall₂ hnames (fun _ _ heq => heq)
    (nodup_batchFields t hplain hexpected)
  refine checkBatch_eq_ok.mpr ⟨expected, hexpected, forall₂_iff_getElem?.mpr
    ⟨hlength, fun i e f he hf => ?_⟩⟩
  obtain ⟨hname, htype, hnulls⟩ := hcolumns i e f he hf
  refine checkColumn_eq_ok.mpr ⟨hname, htype, fun hexpected _ c hc => ?_⟩
  rw [column?_eq_some hnodup hf] at hc
  cases hc
  rw [Batch.nullCount_eq_zero_iff]
  exact or_iff_not_imp_left.mpr (hnulls rfl hexpected)

/-! ### Rows of described batches -/

/-- **Rows of a described batch** make a described batch. -/
theorem Describes.subset {t : Ty} {b b' : Batch} (h : Describes t b)
    (hfields : b'.fields = b.fields) (hrows : b'.rows ⊆ b.rows) : Describes t b' := by
  obtain ⟨expected, hexpected, hcolumns⟩ := h
  refine ⟨expected, hexpected, ?_⟩
  rw [suits_partsOf_iff] at hcolumns ⊢
  rw [hfields]
  refine ⟨hcolumns.1, fun i e f he hf => ?_⟩
  obtain ⟨hname, htype, hnulls⟩ := hcolumns.2 i e f he hf
  exact ⟨hname, htype, fun hcounted hexpected hstored cell hcell =>
    hnulls hcounted hexpected hstored cell (List.map_subset _ hrows hcell)⟩

/-- **Described batches under one another** make a described batch. -/
theorem Describes.concat {t : Ty} {first b : Batch} {batches : List Batch}
    (h : ∀ b' ∈ batches, Describes t b') (hfirst : Describes t first)
    (hconcat : Batch.concat first.fields batches = .ok b) : Describes t b := by
  obtain ⟨hstores, hmake⟩ := Batch.concat_eq_ok.mp hconcat
  obtain ⟨rfl, -⟩ := Batch.make_eq_ok.mp hmake
  obtain ⟨expected, hexpected, hcolumns⟩ := hfirst
  refine ⟨expected, hexpected, ?_⟩
  rw [suits_partsOf_iff] at hcolumns ⊢
  refine ⟨hcolumns.1, fun i e f he hf => ?_⟩
  obtain ⟨hname, htype, -⟩ := hcolumns.2 i e f he hf
  refine ⟨hname, htype, fun hcounted hnullable hstored cell hcell => ?_⟩
  -- The cell stands in one of the batches, whose column is stored in the same way.
  obtain ⟨row, hrow, rfl⟩ := List.mem_map.mp hcell
  obtain ⟨b', hb', hrow⟩ := List.mem_flatMap.mp hrow
  obtain ⟨whole, hwhole, rfl⟩ := List.mem_map.mp hrow
  rw [Batch.cellAt_take (List.getElem?_eq_some_iff.mp hf).1]
  obtain ⟨f', hf', hsame⟩ := hstores b' hb' i f hf
  obtain ⟨expected', hexpected', hcolumns'⟩ := h b' hb'
  obtain rfl : expected = expected' := Except.ok.inj (hexpected.symm.trans hexpected')
  exact ((suits_partsOf_iff.mp hcolumns').2 i e f' he hf').nulls hcounted hnullable
    (hsame ▸ hstored) _ (List.mem_map_of_mem hwhole)

end Lineage.Ty
