import Lineage.Proofs.Stream.Regroup
import Lineage.Proofs.Ty.Rowwise
import Lineage.Stream.Operation

set_option autoImplicit false

/-!
# Operations on streams of batches

An operation on one batch at a time gives the same rows in whatever batches its input comes, as
long as these are the same rows. Its regrouped results are a table, cut.

## Main definitions

* `Lineage.Yields`, `Lineage.Separable`: the rows that an operation makes of the rows of a batch,
  and operations that treat the parts of a batch on their own.

## Main results

* `Lineage.BatchOperation.separable`: filters, projections and item access are such operations.
* `Lineage.Separable.exists_table`: the regrouped results of such an operation are a table, cut.
-/

namespace Lineage

open Ty (columnParts itemParts)

/-! ### Batches made row by row -/

/-- The columns and the rows of a batch. -/
def batchParts (b : Batch) : List Field × List (List Cell) := (b.fields, b.rows)

namespace Batch

/-- A batch is made row by row. -/
lemma framed_make (fields : List Field) : Framed fun rows => (make fields rows).map batchParts := by
  have hresult : ∀ rows z, (make fields rows).map batchParts = .ok z ↔
      z = (fields, rows) ∧ ∀ row ∈ rows, Allows fields row := by
    intro rows z
    rw [Outcome.map_eq_ok]
    simp only [make_eq_ok]
    constructor
    · rintro ⟨b, ⟨rfl, hrows⟩, rfl⟩
      exact ⟨rfl, hrows⟩
    · rintro ⟨rfl, hrows⟩
      exact ⟨_, ⟨rfl, hrows⟩, rfl⟩
  refine Framed.mk' ?_ ?_ ?_
  · intro a b x y hx hy
    rw [((hresult a x).mp hx).1, ((hresult b y).mp hy).1]
  · intro a x hx
    rw [((hresult a x).mp hx).1]
  · intro a b z
    simp only [hresult, List.forall_mem_append]
    constructor
    · rintro ⟨rfl, ha, hb⟩
      exact ⟨_, _, ⟨rfl, ha⟩, ⟨rfl, hb⟩, rfl⟩
    · rintro ⟨_, _, ⟨rfl, ha⟩, ⟨rfl, hb⟩, rfl⟩
      exact ⟨rfl, ha, hb⟩

/-- The batch of a column of structs is made row by row. -/
lemma framed_ofColumn (type : ColumnType) :
    Framed fun cells => (ofColumn ⟨type, cells⟩).map batchParts := by
  refine ((Framed.ofMap type.fields Cell.parts).guard Cell.isNull .abort).congr fun a => ?_
  unfold ofColumn
  split <;> rfl

/-- A batch gets other cells in one column row by row. -/
lemma framed_replaceColumn {τ : Type} (fields : List Field) (i : ℕ) (field : τ → Field)
    {g : List Cell → Outcome (τ × List Cell)} (hg : Framed g) :
    Framed fun rows => g (cellsAt i ⟨fields, rows⟩) >>= fun x =>
      (replaceColumn ⟨fields, rows⟩ i (field x.1) x.2).map batchParts := by
  have hcells := ((hg.comp (cellAt i)).zipWith fun (row : List Cell) cell => row.set i cell)
  refine (hcells.bind fun frame => framed_make (fields.set i (field frame))).congr fun a => ?_
  show (g (a.map (cellAt i)) >>= fun x => _) = ((g (a.map (cellAt i))).map _ >>= fun x => _)
  cases g (a.map (cellAt i)) <;> rfl

end Batch

namespace Ty

/-- Batches are cut down to a type row by row.

**Proof sketch.** The rows become a column, which is cut down row by row, and this one becomes
a batch again. Of wrapped rows only the column under `data` does, and its cells go back to
their rows. -/
theorem framed_projectBatch (fields : List Field) (t : Ty) (wrapped : Bool) :
    Framed fun rows => (projectBatch ⟨fields, rows⟩ t wrapped).map batchParts := by
  unfold projectBatch
  cases wrapped
  · have hcolumn := (framed_projectColumn t (.struct fields)).comp (Cell.struct true)
    have hbatch : ∀ type, Framed fun cells =>
        (if ColumnType.isStruct type then (Batch.ofColumn ⟨type, cells⟩).map batchParts
          else .error (.schema "projection of a batch must be a struct")) := by
      intro type
      split
      · exact Batch.framed_ofColumn type
      · exact Framed.ofNever fun a x hx => by cases hx
    refine (hcolumn.bind hbatch).congr fun a => ?_
    simp only [Bool.false_eq_true, if_false, Batch.toColumn]
    cases projectColumn ⟨.struct fields, a.map (Cell.struct true)⟩ t with
    | error fault => rfl
    | ok c =>
      show Except.map batchParts (if c.type.isStruct then _ else _) =
        if c.type.isStruct then _ else _
      split <;> rfl
  · simp only [if_true, Batch.columnIndex?]
    cases Column.fieldIndex? dataLabel fields with
    | none => exact Framed.ofNever fun a x hx => by cases hx
    | some i =>
      cases hfield : fields[i]? with
      | none =>
        refine Framed.ofNever fun a x hx => ?_
        simp [Batch.columnAt?, hfield, Except.map] at hx
      | some f =>
        refine (Batch.framed_replaceColumn fields i (fun type => ⟨dataLabel, type, f.nullable⟩)
          (framed_projectColumn t f.type)).congr fun a => ?_
        simp only [Batch.columnAt?, hfield, Option.map_some]
        cases projectColumn ⟨f.type, Batch.cellsAt i ⟨fields, a⟩⟩ t <;> rfl

/-- The parts of rows under labels are put into a batch row by row. -/
lemma framed_itemContent (fields : List Field) (parent : Ty) (path : Path) :
    Framed fun rows =>
      (itemContent parent path (Batch.toColumn ⟨fields, rows⟩)).map batchParts := by
  unfold itemContent
  cases path.labels with
  | error fault => exact Framed.ofNever fun a x hx => by cases hx
  | ok labels =>
    have hcolumn := (framed_descend parent labels (.struct fields)).comp (Cell.struct true)
    have hbatch : ∀ frame : Ty × ColumnType, Framed fun cells =>
        (if frame.1.isStruct && !itemNullable labels parent && frame.2.isStruct then
          Batch.ofColumn ⟨frame.2, cells⟩
        else Batch.make [⟨itemColumnName labels, frame.2, itemNullable labels parent⟩]
          (cells.map fun cell => [cell])).map batchParts := by
      intro frame
      split
      · exact Batch.framed_ofColumn frame.2
      · exact (Batch.framed_make _).comp fun cell => [cell]
    refine (hcolumn.bind hbatch).congr fun a => ?_
    simp only [Outcome.ok_bind, Batch.toColumn]
    cases descend ⟨.struct fields, a.map (Cell.struct true)⟩ labels parent <;> rfl

/-- The parts of rows under a path are found row by row. -/
theorem framed_itemBatch (fields : List Field) (parent : Ty) (path : Path) (wrapped : Bool) :
    Framed fun rows => (itemBatch parent path wrapped ⟨fields, rows⟩).map batchParts := by
  unfold itemBatch
  cases wrapped
  · simp only [Bool.false_eq_true, if_false]
    exact framed_itemContent fields parent path
  · simp only [if_true, Batch.columnIndex?]
    cases Column.fieldIndex? dataLabel fields with
    | none => exact Framed.ofNever fun a x hx => by cases hx
    | some i =>
      cases hfield : fields[i]? with
      | none =>
        refine Framed.ofNever fun a x hx => ?_
        simp [Batch.columnAt?, hfield, Except.map] at hx
      | some f =>
        simp only [Batch.columnAt?, hfield, Option.map_some]
        cases path.labels with
        | error fault => exact Framed.ofNever fun a x hx => by cases hx
        | ok labels =>
          refine (Batch.framed_replaceColumn fields i
            (fun frame => ⟨dataLabel, frame.2, itemNullable labels parent⟩)
            (framed_descend parent labels f.type)).congr fun a => ?_
          rw [Outcome.ok_bind]
          cases descend ⟨f.type, Batch.cellsAt i ⟨fields, a⟩⟩ labels parent <;> rfl

end Ty

/-! ### Operations on parts of a batch -/

/-- An operation succeeds on rows under fields, and leaves certain rows. -/
def Yields (f : Batch → Outcome (Option Batch)) (fields : List Field)
    (rows left : List (List Cell)) : Prop :=
  ∃ out, f ⟨fields, rows⟩ = .ok out ∧ out.elim [] Batch.rows = left

/-- An operation succeeds on rows under fields, if there are any, and leaves certain rows. -/
def Leaves (f : Batch → Outcome (Option Batch)) (fields : List Field)
    (rows left : List (List Cell)) : Prop :=
  if rows = [] then left = [] else Yields f fields rows left

/-- The columns that an operation leaves do not depend on the rows, and the parts of a batch are
treated on their own. -/
structure Separable (f : Batch → Outcome (Option Batch)) : Prop where
  /-- The columns that are left do not depend on the rows. -/
  fields : ∀ {fields a b x y}, f ⟨fields, a⟩ = .ok (some x) → f ⟨fields, b⟩ = .ok (some y) →
    x.fields = y.fields
  /-- The parts of a batch are treated on their own. -/
  append : ∀ {fields a b left}, Yields f fields (a ++ b) left ↔
    ∃ x y, Yields f fields a x ∧ Yields f fields b y ∧ left = x ++ y

namespace Separable

variable {f : Batch → Outcome (Option Batch)}

/-- What is left of two parts of a batch. -/
lemma leaves_append (hf : Separable f) {fields : List Field} {a b left : List (List Cell)} :
    Leaves f fields (a ++ b) left ↔
      ∃ x y, Leaves f fields a x ∧ Leaves f fields b y ∧ left = x ++ y := by
  cases a with
  | nil => simp [Leaves]
  | cons row a =>
    cases b with
    | nil => simp [Leaves]
    | cons row' b =>
      simp only [Leaves, List.cons_append, reduceCtorEq, if_false]
      exact hf.append (a := row :: a) (b := row' :: b)

/-- **A batch made row by row.** -/
theorem ofFramed {g : Batch → Outcome Batch}
    (hg : ∀ fields, Framed fun rows => (g ⟨fields, rows⟩).map batchParts) :
    Separable fun b => (g b).map some where
  fields {fields a b x y} hx hy := by
    obtain ⟨u, hu, ⟨⟩⟩ := Outcome.map_eq_ok.mp hx
    obtain ⟨v, hv, ⟨⟩⟩ := Outcome.map_eq_ok.mp hy
    exact (hg fields).frame (Outcome.map_eq_ok.mpr ⟨_, hu, rfl⟩)
      (Outcome.map_eq_ok.mpr ⟨_, hv, rfl⟩)
  append {fields a b left} := by
    have hyields : ∀ rows left, Yields (fun b => (g b).map some) fields rows left ↔
        ((g ⟨fields, rows⟩).map batchParts).map Prod.snd = .ok left := by
      intro rows left
      simp only [Yields, Outcome.map_eq_ok, batchParts]
      constructor
      · rintro ⟨_, ⟨x, hx, rfl⟩, rfl⟩
        exact ⟨_, ⟨x, hx, rfl⟩, rfl⟩
      · rintro ⟨_, ⟨x, hx, rfl⟩, rfl⟩
        exact ⟨_, ⟨x, hx, rfl⟩, rfl⟩
    simp only [hyields]
    exact (hg fields).rows.append

/-- The rows whose mark is set, in two parts. -/
lemma keep_append {fields : List Field} {a : List (List Cell)} {marks : List Bool}
    (h : marks.length = a.length) (b : List (List Cell)) (marks' : List Bool) :
    (Batch.keep (marks ++ marks') ⟨fields, a ++ b⟩).rows =
      (Batch.keep marks ⟨fields, a⟩).rows ++ (Batch.keep marks' ⟨fields, b⟩).rows := by
  simp only [Batch.keep]
  rw [List.zip_append h.symm, List.filter_append, List.map_append]

/-- A batch is made of the rows whose mark is set, and none if there are no such rows. -/
def filtered (mask : Batch → Outcome (List Bool)) (g : Batch → Outcome Batch) (b : Batch) :
    Outcome (Option Batch) := do
  let marks ← mask b
  let kept := b.keep marks
  if kept.size = 0 then .ok none else (g kept).map some

/-- What is left of the rows whose mark is set. -/
lemma yields_filtered_iff {mask : Batch → Outcome (List Bool)} {g : Batch → Outcome Batch}
    {fields : List Field} {rows left : List (List Cell)} :
    Yields (filtered mask g) fields rows left ↔ ∃ marks, mask ⟨fields, rows⟩ = .ok marks ∧
      Leaves (fun b => (g b).map some) fields (Batch.keep marks ⟨fields, rows⟩).rows left := by
  simp only [Yields, Leaves, filtered, Outcome.bind_eq_ok, Batch.size, List.length_eq_zero_iff]
  constructor
  · rintro ⟨out, ⟨marks, hmarks, hout⟩, rfl⟩
    refine ⟨marks, hmarks, ?_⟩
    split at hout
    · rename_i hnone
      cases hout
      rw [if_pos hnone]
      rfl
    · rename_i hsome
      rw [if_neg hsome]
      exact ⟨out, hout, rfl⟩
  · rintro ⟨marks, hmarks, hleft⟩
    split at hleft
    · rename_i hnone
      exact ⟨none, ⟨marks, hmarks, if_pos hnone⟩, hleft.symm⟩
    · rename_i hsome
      obtain ⟨out, hout, hleft⟩ := hleft
      exact ⟨out, ⟨marks, hmarks, (if_neg hsome).trans hout⟩, hleft⟩

/-- **A batch made row by row of the rows whose mark is set**, and none if there are no such
rows. -/
theorem ofFiltered {mask : Batch → Outcome (List Bool)} {g : Batch → Outcome Batch}
    (hmask : ∀ fields, Rowwise fun rows => mask ⟨fields, rows⟩)
    (hg : ∀ fields, Framed fun rows => (g ⟨fields, rows⟩).map batchParts) :
    Separable (filtered mask g) where
  fields {fields a b x y} hx hy := by
    obtain ⟨marks, -, hx⟩ := Outcome.bind_eq_ok.mp hx
    obtain ⟨marks', -, hy⟩ := Outcome.bind_eq_ok.mp hy
    dsimp only at hx hy
    split at hx
    · cases hx
    · split at hy
      · cases hy
      · exact (ofFramed hg).fields hx hy
  append {fields a b left} := by
    simp only [yields_filtered_iff, (hmask fields).append]
    constructor
    · rintro ⟨_, ⟨marks, marks', hmarks, hmarks', rfl⟩, hleft⟩
      rw [keep_append ((hmask fields).length hmarks), (ofFramed hg).leaves_append] at hleft
      obtain ⟨x, y, hx, hy, rfl⟩ := hleft
      exact ⟨x, y, ⟨marks, hmarks, hx⟩, ⟨marks', hmarks', hy⟩, rfl⟩
    · rintro ⟨x, y, ⟨marks, hmarks, hx⟩, ⟨marks', hmarks', hy⟩, rfl⟩
      refine ⟨_, ⟨marks, marks', hmarks, hmarks', rfl⟩, ?_⟩
      rw [keep_append ((hmask fields).length hmarks), (ofFramed hg).leaves_append]
      exact ⟨x, y, hx, hy, rfl⟩

end Separable

namespace BatchOperation

/-- The marks of the rows of a batch are computed for every row on its own. -/
lemma rowwise_rowMask (target : Ty) (wrapped : Bool) (fields : List Field) :
    Rowwise fun rows => rowMask target wrapped ⟨fields, rows⟩ := by
  unfold rowMask Ty.selectBatchRows Batch.column? Batch.columnIndex? Batch.columnAt?
  cases wrapped
  · exact (Ty.rowwise_selectRows target (.struct fields)).comp (Cell.struct true)
  · simp only [if_true]
    cases Column.fieldIndex? dataLabel fields with
    | none => exact Rowwise.ofError _
    | some i =>
      simp only [Option.bind_some]
      cases fields[i]? with
      | none => exact Rowwise.ofError _
      | some f => exact (Ty.rowwise_selectRows target f.type).comp (Batch.cellAt i)

/-- **Filters, projections and item access treat the parts of a batch on their own.** -/
theorem separable (op : BatchOperation) : Separable fun b => op.evaluate b := by
  cases op with
  | filter target wrapped =>
    exact Separable.ofFiltered (g := fun b => target.projectBatch b wrapped)
      (rowwise_rowMask target wrapped) fun fields => Ty.framed_projectBatch fields target wrapped
  | project target wrapped =>
    exact Separable.ofFramed (g := fun b => target.projectBatch b wrapped)
      fun fields => Ty.framed_projectBatch fields target wrapped
  | getItem path parent wrapped =>
    exact Separable.ofFramed (g := parent.itemBatch path wrapped)
      fun fields => Ty.framed_itemBatch fields parent path wrapped

end BatchOperation

/-! ### Streams of changed batches -/

namespace BatchStream

variable {f : Batch → Outcome (Option Batch)}

/-- A stream of changed batches that does not fail ends well, and all batches can be changed. -/
lemma mapFrom_failure_eq_none {failure : Option Fault} {batches : List Batch} :
    (mapFrom f failure batches).failure = none ↔
      failure = none ∧ ∀ b ∈ batches, ∃ out, f b = .ok out := by
  induction batches with
  | nil => simp [mapFrom]
  | cons b rest ih =>
    unfold mapFrom
    cases hb : f b with
    | error fault => simp [failed, hb]
    | ok out => cases out <;> simp [cons, ih, hb]

/-- The batches of a stream of changed batches are what the operation leaves of the others. -/
lemma of_mem_mapFrom {failure : Option Fault} {batches : List Batch} {out : Batch}
    (h : out ∈ (mapFrom f failure batches).batches) : ∃ b ∈ batches, f b = .ok (some out) := by
  induction batches with
  | nil => cases h
  | cons b rest ih =>
    unfold mapFrom at h
    cases hb : f b with
    | error fault =>
      rw [hb] at h
      cases h
    | ok result =>
      rw [hb] at h
      cases result with
      | none =>
        obtain ⟨b', hb', hout⟩ := ih h
        exact ⟨b', List.mem_cons_of_mem _ hb', hout⟩
      | some first =>
        rcases List.mem_cons.mp h with rfl | hrest
        · exact ⟨b, List.mem_cons_self, hb⟩
        · obtain ⟨b', hb', hout⟩ := ih hrest
          exact ⟨b', List.mem_cons_of_mem _ hb', hout⟩

/-- A stream does not fail and shows certain rows. -/
def Shows (s : BatchStream) (rows : List (List Cell)) : Prop :=
  s.failure = none ∧ s.batches.flatMap Batch.rows = rows

/-- What is shown of a batch that is changed and of those after it. -/
lemma shows_mapFrom_cons {fields : List Field} {rows left : List (List Cell)} {rest : List Batch} :
    Shows (mapFrom f none (⟨fields, rows⟩ :: rest)) left ↔
      ∃ x y, Yields f fields rows x ∧ Shows (mapFrom f none rest) y ∧ left = x ++ y := by
  rw [mapFrom]
  simp only [Yields, Shows]
  cases hb : f ⟨fields, rows⟩ with
  | error fault => simp [failed]
  | ok out =>
    cases out with
    | none => simp [eq_comm]
    | some first =>
      simp only [cons, List.flatMap_cons, Except.ok.injEq]
      constructor
      · rintro ⟨hfailure, rfl⟩
        exact ⟨_, _, ⟨_, rfl, rfl⟩, ⟨hfailure, rfl⟩, rfl⟩
      · rintro ⟨_, _, ⟨_, rfl, rfl⟩, ⟨hfailure, rfl⟩, rfl⟩
        exact ⟨hfailure, rfl⟩

end BatchStream

namespace Separable

open BatchStream (mapFrom ofList Shows)

variable {f : Batch → Outcome (Option Batch)} {n : ℕ}

/-- **What is shown of a table that is cut and changed** does not depend on how it is cut.

**Proof sketch.** Induction over the batches that the table is cut into. What is left of the
first batch stands in front of what is left of the others, as the operation treats the parts
of a batch on their own. -/
theorem shows_chunks (hf : Separable f) (hn : 0 < n) {fields : List Field}
    {rows left : List (List Cell)} :
    Shows (mapFrom f none (Batch.chunks n ⟨fields, rows⟩)) left ↔ Leaves f fields rows left := by
  induction rows using Batch.chunks_induction hn generalizing left with
  | hnil =>
    rw [Batch.chunks_nil hn]
    simp [Shows, mapFrom, Leaves, eq_comm]
  | hlast rows hpos hlt =>
    rw [Batch.chunks_of_le hpos (Nat.le_of_lt hlt), BatchStream.shows_mapFrom_cons, Leaves,
      if_neg (List.ne_nil_of_length_pos hpos)]
    simp [Shows, mapFrom, eq_comm]
  | hfull rows hge ih =>
    have hfirst : rows.take n ≠ [] := by
      refine List.ne_nil_of_length_pos ?_
      rw [List.length_take]
      omega
    have hleaves : ∀ x, Yields f fields (rows.take n) x ↔ Leaves f fields (rows.take n) x := by
      intro x
      rw [Leaves, if_neg hfirst]
    rw [Batch.chunks_of_ge hn hge, BatchStream.shows_mapFrom_cons]
    simp only [ih, hleaves]
    rw [← hf.leaves_append, List.take_append_drop]

/-- The columns of all batches that an operation leaves of rows under given fields. -/
lemma exists_fields (hf : Separable f) (fields : List Field) :
    ∃ left, ∀ rows out, f ⟨fields, rows⟩ = .ok (some out) → out.fields = left := by
  by_cases h : ∃ rows out, f ⟨fields, rows⟩ = .ok (some out)
  · obtain ⟨rows, out, hout⟩ := h
    exact ⟨out.fields, fun rows' out' hout' => hf.fields hout' hout⟩
  · exact ⟨[], fun rows out hout => absurd ⟨rows, out, hout⟩ h⟩

/-- **The regrouped results of an operation on a table that is cut are a table, cut.** If they do
not fail for one size of the batches, they do not fail for any.

**Proof sketch.** A stream that does not fail shows rows with nulls only where they may stand
(`of_regroup`), and these are the rows that the operation leaves of the table, however it is
cut (`shows_chunks`). So for any other size the stream shows the same rows, and the regrouped
stream is the table of them, cut. -/
theorem exists_table (hf : Separable f) (table : Batch) (hn : 0 < n)
    (h : (((ofList (table.chunks n)).mapBatches f).regroup n).failure = none) :
    ∃ result : Batch, ∀ m, 0 < m →
      ((ofList (table.chunks m)).mapBatches f).regroup m = ofList (result.chunks m) := by
  obtain ⟨fields, rows⟩ := table
  obtain ⟨left, hleft⟩ := hf.exists_fields fields
  have hfields : ∀ m, ∀ b ∈ (mapFrom f none (Batch.chunks m ⟨fields, rows⟩)).batches,
      b.fields = left := by
    intro m b hb
    obtain ⟨chunk, hchunk, hout⟩ := BatchStream.of_mem_mapFrom hb
    have hchunkFields := Batch.fields_of_mem_chunks hchunk
    obtain ⟨_, chunkRows⟩ := chunk
    subst hchunkFields
    exact hleft chunkRows b hout
  obtain ⟨hfailure, hnulls⟩ := BatchStream.of_regroup hn (hfields n) h
  have hleaves := (hf.shows_chunks hn).mp ⟨hfailure, rfl⟩
  generalize (mapFrom f none (Batch.chunks n ⟨fields, rows⟩)).batches.flatMap Batch.rows =
    shown at hnulls hleaves
  refine ⟨Batch.conform ⟨left, shown⟩, fun m hm => ?_⟩
  obtain ⟨hnone, hrows⟩ := (hf.shows_chunks hm).mpr hleaves
  have hregroup := BatchStream.regroup_eq hm (hfields m) (hrows ▸ hnulls)
  rw [hnone, hrows] at hregroup
  exact hregroup

end Separable

end Lineage
