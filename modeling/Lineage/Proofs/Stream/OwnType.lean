import Lineage.Proofs.Stream.Filter
import Lineage.Proofs.Stream.Sized
import Lineage.Proofs.Ty.Passing

set_option autoImplicit false

/-!
# Filters by the type of a source

Rows that are stored as a type says and are filtered by this type are not cut down: the filter
drops the rows that the type does not let pass and leaves the others as they are.

## Main definitions

* `Lineage.Batch.HoldsPayloads`: the payloads of rows are stored as a type says.
* `Lineage.Batch.Payloads`: all payloads have a property.

## Main results

* `Lineage.Ty.projectBatch_own`: batches that are cut down to their own type stay as they are.
* `Lineage.BatchOperation.filter_own`: a filter by the own type keeps the rows that pass.
-/

namespace Lineage

namespace Batch

variable {t : Ty} {wrapped : Bool} {b : Batch} {type : ColumnType}

/-- The payloads of rows are stored as a type says, and the rows can be held by their columns. -/
structure HoldsPayloads (t : Ty) (wrapped : Bool) (b : Batch) : Prop where
  /-- The payloads are stored as the type says. -/
  stored : ∃ type, b.payloadType? wrapped = some type ∧ t.StoredAs type
  /-- The columns can hold the rows. -/
  fits : b.Fits

/-- All payloads have a property. -/
def Payloads (P : ColumnType → Cell → Prop) (wrapped : Bool) (b : Batch) : Prop :=
  ∀ type, b.payloadType? wrapped = some type → ∀ row ∈ b.rows, P type (b.payload wrapped row)

/-- Some rows of a batch. -/
lemma HoldsPayloads.subset (h : b.HoldsPayloads t wrapped) {rows : List (List Cell)}
    (hrows : rows ⊆ b.rows) : HoldsPayloads t wrapped ⟨b.fields, rows⟩ :=
  ⟨h.stored, fun row hrow => h.fits row (hrows hrow)⟩

/-- The rows that are kept are rows of the batch, in their order. -/
lemma keep_sublist (b : Batch) (mask : List Bool) : (b.keep mask).rows.Sublist b.rows := by
  have hzip : ∀ rows : List (List Cell), ((rows.zip mask).map Prod.fst).Sublist rows := by
    intro rows
    induction rows generalizing mask with
    | nil => exact List.nil_sublist []
    | cons row rest ih => cases mask with
      | nil => exact List.nil_sublist _
      | cons mark mask => exact (ih mask).cons_cons row
  exact (List.filter_sublist.map Prod.fst).trans (hzip b.rows)

/-- A list stays as it is if the item at a place becomes what it was. -/
lemma modify_eq_self {α : Type} {l : List α} {i : ℕ} {f : α → α}
    (h : ∀ a, l[i]? = some a → f a = a) : l.modify i f = l := by
  refine List.ext_getElem? fun j => ?_
  rw [List.getElem?_modify]
  cases hj : l[j]? with
  | none => rfl
  | some a =>
    by_cases hij : i = j
    · subst hij
      simp [h a hj]
    · simp [hij]

/-- Rows whose payloads are cut down to a type of which everything is left stay as they are. -/
lemma trim_eq_self (hpayload : b.payloadType? wrapped = some type)
    (hkeeps : Ty.Keeps type (t.trim type)) (hfits : b.Fits) : b.trim t wrapped = b := by
  have hcells := hfits.payload hpayload
  cases wrapped with
  | false =>
    cases hpayload
    have hrows : (b.rows.map fun row => ((t.trim (.struct b.fields)).2 (.struct true row)).parts) =
        b.rows.map id := by
      refine List.map_congr_left fun row hrow => ?_
      rw [hkeeps.cell (.struct true row) (hcells row hrow)]
      rfl
    rw [trim, if_neg Bool.false_ne_true, hkeeps.type, hrows, List.map_id]
    rfl
  | true =>
    obtain ⟨i, f, hplace, hindex, hf, hname, rfl⟩ := of_payloadType? hpayload
    have hfields : (b.fields.modify i fun f' => ⟨f'.name, (t.trim f.type).1, f'.nullable⟩) =
        b.fields := by
      refine modify_eq_self fun f' hf' => ?_
      obtain rfl := Option.some.inj (hf.symm.trans hf')
      rw [hkeeps.type]
    have hrows : (b.rows.map fun row => row.modify i (t.trim f.type).2) = b.rows.map id := by
      refine List.map_congr_left fun row hrow => modify_eq_self fun cell hcell => ?_
      have hfitsCell := hcells row hrow
      rw [payload, if_pos rfl, hplace, Option.map_some, Option.getD_some, cellAt, hcell,
        Option.getD_some] at hfitsCell
      exact hkeeps.cell cell hfitsCell
    rw [trim, if_pos rfl, hplace]
    dsimp only
    rw [hfields, hrows, List.map_id]

end Batch

namespace Ty

variable {t : Ty} {wrapped : Bool} {b : Batch}

/-- **Batches that are cut down to their own type stay as they are.**

**Proof sketch.** The payloads are cut down to the type that they are stored as, which leaves
everything of them (`keeps_trim`), and the other columns are not touched. -/
theorem projectBatch_own (hdistinct : t.DistinctColumns) (h : b.HoldsPayloads t wrapped) :
    t.projectBatch b wrapped = .ok b := by
  obtain ⟨⟨type, hpayload, hstored⟩, hfits⟩ := h
  rw [projectBatch_of_carries hpayload (hstored.carries hdistinct) hfits,
    Batch.trim_eq_self hpayload (keeps_trim t hdistinct.distinctNames hstored) hfits]

end Ty

namespace BatchOperation

variable {t : Ty} {wrapped : Bool} {b : Batch}

/-- A filter by the own type drops rows and changes none. -/
lemma of_filter_own (hdistinct : t.DistinctColumns) (h : b.HoldsPayloads t wrapped) {out : Batch}
    (hout : evaluate b (.filter t wrapped) = .ok (some out)) : out.size ≤ b.size := by
  obtain ⟨mask, -, hkept⟩ := Outcome.bind_eq_ok.mp hout
  have hrows := b.keep_sublist mask
  dsimp only at hkept
  split at hkept
  · cases hkept
  · rw [show b.keep mask = ⟨b.fields, (b.keep mask).rows⟩ from rfl,
      Ty.projectBatch_own hdistinct (h.subset hrows.subset)] at hkept
    cases hkept
    exact hrows.length_le

open Classical in
/-- **A filter by the own type keeps the rows that pass**, as they are and in their order. The dates
are within the calendar's range.

**Proof sketch.** By the own type the payloads carry their values, so that there is a mark,
which is set for the rows that pass (`Marks.iff_passes`). The rows that are kept stay as they
are. -/
theorem filter_own (hdistinct : t.DistinctColumns) (h : b.HoldsPayloads t wrapped)
    (hdates : b.Payloads t.DatesReadable wrapped) {type : ColumnType}
    (hpayload : b.payloadType? wrapped = some type) :
    evaluate b (.filter t wrapped) =
      let kept := b.rows.filter fun row => t.Passes type (b.payload wrapped row)
      .ok (if kept = [] then none else some ⟨b.fields, kept⟩) := by
  obtain ⟨type', hpayload', hstored⟩ := h.stored
  obtain rfl := Option.some.inj (hpayload.symm.trans hpayload')
  have hcarries := hstored.carries hdistinct
  obtain ⟨mark, hmark⟩ := hcarries.exists_marks
  have hlegible : ∀ row ∈ b.rows, Ty.Legible t type (b.payload wrapped row) :=
    fun row hrow => ⟨h.fits.payload hpayload row hrow, hdates type hpayload row hrow⟩
  have hrows : (b.rows.filter fun row => mark (b.payload wrapped row)) =
      b.rows.filter fun row => t.Passes type (b.payload wrapped row) := by
    refine List.filter_congr fun row hrow => ?_
    rw [Bool.eq_iff_iff, decide_eq_true_iff]
    exact Ty.Marks.iff_passes hcarries hmark (hlegible row hrow)
  rw [filter_of_rowMask (rowMask_eq hpayload hmark hlegible), hrows]
  dsimp only
  split
  · rfl
  · rw [Ty.projectBatch_own hdistinct (h.subset (List.filter_subset_self _))]
    rfl

open Classical in
/-- A batch of which all rows pass stays as it is. -/
lemma filter_own_of_passes (hdistinct : t.DistinctColumns) (h : b.HoldsPayloads t wrapped)
    (hdates : b.Payloads t.DatesReadable wrapped) (hpasses : b.Payloads t.Passes wrapped)
    (hsize : 0 < b.size) : evaluate b (.filter t wrapped) = .ok (some b) := by
  obtain ⟨type, hpayload, -⟩ := h.stored
  have hall : (b.rows.filter fun row => t.Passes type (b.payload wrapped row)) = b.rows :=
    List.filter_eq_self.mpr fun row hrow => decide_eq_true (hpasses type hpayload row hrow)
  rw [filter_own hdistinct h hdates hpayload, hall]
  exact congrArg Except.ok (if_neg (List.ne_nil_of_length_pos hsize))

open Classical in
/-- If no row of a batch is lost, all of them pass. -/
lemma passes_of_filter_own (hdistinct : t.DistinctColumns) (h : b.HoldsPayloads t wrapped)
    (hdates : b.Payloads t.DatesReadable wrapped) {out : Batch}
    (hout : evaluate b (.filter t wrapped) = .ok (some out)) (hsize : out.size = b.size) :
    b.Payloads t.Passes wrapped := by
  intro type hpayload row hrow
  rw [filter_own hdistinct h hdates hpayload] at hout
  dsimp only at hout
  split at hout
  · cases hout
  · cases hout
    exact of_decide_eq_true (List.length_filter_eq_length_iff.mp hsize row hrow)

end BatchOperation

namespace BatchStream

open Batch (totalSize SizedBy)

variable {t : Ty} {wrapped : Bool} {s : BatchStream} {n : ℕ}

/-- **A stream that is filtered by its own type** has no rows more than before, and as many exactly
if all of them pass; then it is the same stream. It is in batches of one size, and the dates are
within the calendar's range.

**Proof sketch.** Neither the filter nor regrouping adds rows. If none is lost in total, none
is lost in any batch (`size_eq_of_totalSize_eq`), so that all rows pass. If all pass, the
filter leaves every batch as it is, and a stream in batches of one size is not changed by
regrouping (`regroup_of_sized`). -/
theorem filter_own (hn : 0 < n) (hdistinct : t.DistinctColumns)
    (hholds : ∀ b ∈ s.batches, b.HoldsPayloads t wrapped) (hsized : SizedBy n s.batches)
    (hfull : s.failure ≠ none → ∀ b ∈ s.batches, b.size = n) :
    totalSize (((BatchOperation.filter t wrapped).stream s).regroup n).batches ≤
      totalSize s.batches ∧
    ((∀ b ∈ s.batches, b.Payloads t.DatesReadable wrapped) →
      (totalSize (((BatchOperation.filter t wrapped).stream s).regroup n).batches =
          totalSize s.batches ↔ ∀ b ∈ s.batches, b.Payloads t.Passes wrapped) ∧
      ((∀ b ∈ s.batches, b.Payloads t.Passes wrapped) →
        ((BatchOperation.filter t wrapped).stream s).regroup n = s)) := by
  have hle : ∀ b ∈ s.batches, ∀ out,
      BatchOperation.evaluate b (.filter t wrapped) = .ok (some out) → out.size ≤ b.size :=
    fun b hb _ => BatchOperation.of_filter_own hdistinct (hholds b hb)
  have hregroup := totalSize_regroup_le hn ((BatchOperation.filter t wrapped).stream s)
  have hfilter : totalSize ((BatchOperation.filter t wrapped).stream s).batches ≤
      totalSize s.batches := totalSize_mapFrom_le hle
  refine ⟨Nat.le_trans hregroup hfilter, fun hdates => ?_⟩
  have hsame : (∀ b ∈ s.batches, b.Payloads t.Passes wrapped) →
      ((BatchOperation.filter t wrapped).stream s).regroup n = s := by
    intro hpasses
    have hstream : (BatchOperation.filter t wrapped).stream s = s :=
      mapFrom_of_eq fun b hb => BatchOperation.filter_own_of_passes hdistinct (hholds b hb)
        (hdates b hb) (hpasses b hb) (size_pos_of_sizedBy hn hsized b hb)
    rw [hstream]
    exact regroup_of_sized hn (fun b hb => (hholds b hb).fits.formedOf) hsized hfull
  refine ⟨⟨fun heq b hb => ?_, fun hpasses => by rw [hsame hpasses]⟩, hsame⟩
  rcases size_eq_of_totalSize_eq hle (Nat.le_antisymm hfilter (heq ▸ hregroup)) b hb with
    hnone | ⟨out, hout, hsize⟩
  · intro type _ row hrow
    rw [List.eq_nil_of_length_eq_zero hnone] at hrow
    cases hrow
  · exact BatchOperation.passes_of_filter_own hdistinct (hholds b hb) (hdates b hb) hout hsize

end BatchStream

end Lineage
