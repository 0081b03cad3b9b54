import Lineage.Catalog
import Lineage.Proofs.Csv.Table
import Lineage.Proofs.Stream.Operation
import Lineage.Proofs.Ty.Projection

set_option autoImplicit false

/-!
# Streams of described batches

A source is described by its type. Regrouping and operations on all rows keep what describes a
stream; filters and projections leave batches that their target describes, if it is cut out of the
type of the rows.

## Main definitions

* `Lineage.Catalog.WellMade`: the batches at hand have been made, not merely written down.
* `Lineage.BatchOperation.CutsTo`: filters and projections.
* `Lineage.BatchStream.DescribedBy`: a type describes all batches of a stream.

## Main results

* `Lineage.Catalog.describes_of_load`: the batches of a source.
* `Lineage.BatchStream.DescribedBy.regroup`: regrouped batches.
* `Lineage.BatchStream.DescribedBy.tableOperation`, `Lineage.BatchStream.DescribedBy.cutDown`: the
  results of operations.
-/

namespace Lineage

open Ty (Describes)

namespace Catalog

/-- The batches at hand have been made by `Batch.make`, so that only nullable columns hold nulls. -/
def WellMade (c : Catalog) : Prop :=
  ∀ entry ∈ c.memory, ∀ b ∈ entry.2, Batch.make b.fields b.rows = .ok b

/-- What is read from a source holds no nulls in columns that exclude them. -/
lemma nullsAllowed_of_read {c : Catalog} (hc : c.WellMade) {uri : String} {type : Ty} {n : ℕ}
    {batches : List Batch} (h : c.read uri type n = .ok batches) :
    ∀ b ∈ batches, b.nullsAllowed = true := by
  unfold read at h
  split at h
  · rw [Outcome.ofOption_eq_ok] at h
    obtain ⟨entry, hentry, rfl⟩ := Option.map_eq_some_iff.mp h
    have hmade := hc entry (List.mem_of_find?_eq_some hentry)
    exact fun b hb => Batch.nullsAllowed_iff.mpr (Batch.make_eq_ok.mp (hmade b hb)).2
  · obtain ⟨content, -, h⟩ := Outcome.bind_eq_ok.mp h
    obtain ⟨columns, -, h⟩ := Outcome.bind_eq_ok.mp h
    split at h
    · rename_i text _
      have hpos : 0 < max n 1 := Nat.lt_of_lt_of_le Nat.one_pos (Nat.le_max_right n 1)
      rcases Csv.readBatches_cases columns text with ⟨fault, hfault⟩ | ⟨rows, hrows⟩
      · rw [hfault] at h
        cases h
      · rw [hrows _ hpos, Csv.batchesOfRows_eq_ok hpos] at h
        obtain ⟨rfl, hallowed⟩ := h
        intro b hb
        rw [Batch.nullsAllowed_iff, Batch.fields_of_mem_chunks hb]
        intro row hrow
        refine hallowed row ?_
        have hmem := List.mem_flatMap.mpr ⟨b, hb, hrow⟩
        rw [Batch.flatMap_rows_chunks hpos ⟨columns, rows⟩] at hmem
        exact hmem
    · cases h
  · cases h

/-- **The batches of a source are described by its type.**

**Proof sketch.** The batches that are read pass the check against the type, and have no nulls
where these are excluded, whether they were at hand or come from a file. -/
theorem describes_of_load {c : Catalog} (hc : c.WellMade) {uri : String} {type : Ty}
    (hplain : type.Plain) {n : ℕ} {batches : List Batch} (h : c.load uri type n = .ok batches) :
    ∀ b ∈ batches, Describes type b := by
  obtain ⟨read, hread, h⟩ := Outcome.bind_eq_ok.mp h
  obtain ⟨_, hcheck, h⟩ := Outcome.bind_eq_ok.mp h
  cases h
  intro b hb
  exact Ty.describes_of_checkBatch hplain (nullsAllowed_of_read hc hread b hb)
    (Outcome.forM_eq_ok.mp hcheck b hb)

end Catalog

/-- An operation cuts all rows or some of them down to a target, rows in a wrapper if `wrapped`. -/
def BatchOperation.CutsTo (operation : BatchOperation) (target : Ty) (wrapped : Bool) : Prop :=
  operation = .filter target wrapped ∨ operation = .project target wrapped

namespace BatchStream

/-- A type describes all batches of a stream, also those before a fault. -/
def DescribedBy (t : Ty) (s : BatchStream) : Prop := ∀ b ∈ s.batches, Describes t b

variable {t : Ty} {s : BatchStream} {n : ℕ}

/-- A part of a described batch. -/
lemma describes_slice {b : Batch} (start count : ℕ) (h : Describes t b) :
    Describes t (b.slice start count) :=
  h.subset rfl fun _ hrow => List.drop_subset _ _ (List.take_subset _ _ hrow)

/-- Described batches under one another. -/
lemma describes_concat {first b : Batch} {batches : List Batch}
    (h : ∀ b' ∈ first :: batches, Describes t b')
    (hconcat : Batch.concat first.fields (first :: batches) = .ok b) : Describes t b :=
  Describes.concat h (h first List.mem_cons_self) hconcat

/-- **Regrouped batches are described** if the batches are.

**Proof sketch.** Parts of described batches and described batches under one another are
described, and regrouped batches are nothing else (`forall_mem_regroup`). -/
theorem DescribedBy.regroup (h : s.DescribedBy t) : (s.regroup n).DescribedBy t :=
  forall_mem_regroup describes_concat describes_slice h

/-- All rows of a described stream. -/
lemma DescribedBy.table (h : s.DescribedBy t) {table : Batch}
    (htable : s.table = .ok (some table)) : Describes t table := by
  obtain ⟨batches, hbatches, hrest⟩ := Outcome.bind_eq_ok.mp htable
  have hsame : batches = s.batches := by
    unfold collect at hbatches
    split at hbatches <;> cases hbatches
    rfl
  subst hsame
  split at hrest
  · cases hrest
  · rename_i first rest hcons
    obtain ⟨merged, hmerged, heq⟩ := Outcome.map_eq_ok.mp hrest
    cases heq
    exact describes_concat (hcons ▸ h) hmerged

/-- Rows at given places of a described batch. -/
lemma describes_take {places : List ℕ} {b taken : Batch} (h : Describes t b)
    (htaken : b.take places = .ok taken) : Describes t taken := by
  unfold Batch.take at htaken
  split at htaken
  · cases htaken
  · cases htaken
    refine h.subset rfl fun row hrow => ?_
    obtain ⟨i, -, hi⟩ := List.mem_filterMap.mp hrow
    rw [List.getElem?_toArray] at hi
    exact List.mem_of_getElem? hi

section Operations

variable {σ : Type} (draws : Draws σ) (start : σ)

/-- An operation on all rows leaves rows of the table. -/
lemma describes_evaluate {operation : TableOperation} {table result : Batch}
    (h : Describes t table) (hresult : operation.evaluate draws start table = .ok result) :
    Describes t result := by
  cases operation with
  | slice first stop =>
    obtain ⟨_, -, heq⟩ := Outcome.bind_eq_ok.mp hresult
    cases heq
    exact describes_slice _ _ h
  | extract size seed =>
    cases hresult
    exact h
  | sample size =>
    simp only [TableOperation.evaluate, TableOperation.sampleRows] at hresult
    split at hresult
    · cases hresult
    · split at hresult
      · cases hresult
      · exact describes_take h hresult
  | shuffle =>
    simp only [TableOperation.evaluate, TableOperation.shuffleRows] at hresult
    split at hresult
    · cases hresult
      exact h
    · exact describes_take h hresult

/-- **The results of an operation on all rows are described** if the rows are. -/
theorem DescribedBy.tableOperation (h : s.DescribedBy t) (operation : TableOperation) :
    (operation.stream draws start n s).DescribedBy t := by
  unfold TableOperation.stream
  split
  · exact fun b hb => by cases hb
  · cases hresults : TableOperation.results draws start n s operation with
    | error fault => exact fun b hb => by cases hb
    | ok batches =>
      obtain ⟨table, htable, hresults⟩ := Outcome.bind_eq_ok.mp hresults
      cases table with
      | none =>
        obtain ⟨_, -, heq⟩ := Outcome.bind_eq_ok.mp hresults
        cases heq
        exact fun b hb => by cases hb
      | some table =>
        obtain ⟨result, hresult, hcut⟩ := Outcome.bind_eq_ok.mp hresults
        have hdescribes := describes_evaluate draws start (h.table htable) hresult
        unfold Batch.rechunk at hcut
        split at hcut
        · cases hcut
        · cases hcut
          exact forall_mem_chunks describes_slice hdescribes

end Operations

/-- **Rows cut down to a target are described by it** if it is cut out of the type of the rows. -/
theorem DescribedBy.cutDown (h : s.DescribedBy t) (hplain : t.Plain) {target : Ty}
    (hcut : Ty.Cut target t) {operation : BatchOperation} (hto : operation.CutsTo target false) :
    (operation.stream s).DescribedBy target := by
  intro out hout
  obtain ⟨b, hb, hresult⟩ := of_mem_mapFrom hout
  rcases hto with rfl | rfl
  · obtain ⟨marks, -, hresult⟩ := Outcome.bind_eq_ok.mp hresult
    dsimp only at hresult
    split at hresult
    · cases hresult
    · obtain ⟨projected, hprojected, heq⟩ := Outcome.map_eq_ok.mp hresult
      cases heq
      have hkept : Describes t (b.keep marks) := (h b hb).subset rfl fun row hrow => by
        obtain ⟨entry, hentry, rfl⟩ := List.mem_map.mp hrow
        exact (List.of_mem_zip (List.mem_of_mem_filter hentry)).1
      exact Describes.projectBatch t hcut hplain hkept hprojected
  · obtain ⟨projected, hprojected, heq⟩ := Outcome.map_eq_ok.mp hresult
    cases heq
    exact Describes.projectBatch t hcut hplain (h b hb) hprojected

end BatchStream

end Lineage
