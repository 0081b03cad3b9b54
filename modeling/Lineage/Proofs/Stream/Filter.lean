import Lineage.Proofs.Ty.Marks
import Lineage.Proofs.Ty.Trim
import Lineage.Stream.Operation

set_option autoImplicit false

/-!
# What filters keep

A filter keeps the rows whose payload belongs to its target, in their order, and cuts these down to
the target. The payload is the row itself or, of wrapped rows, the value under `data`; then the
other columns stay as they are.

## Main definitions

* `Lineage.Batch.payloadType?`, `Lineage.Batch.payload`: the payloads of rows.
* `Lineage.Batch.trim`: a batch with its payloads cut down to a type.

## Main results

* `Lineage.Ty.projectBatch_of_carries`: batches are cut down to a type row by row.
* `Lineage.BatchOperation.filter_eq`: a filter keeps exactly the rows whose payload belongs.
-/

namespace Lineage

namespace Batch

/-- The place of the payloads of wrapped rows, and the type of their column. -/
def payloadPlace? (b : Batch) : Option (ℕ × ColumnType) := Ty.place? dataLabel (.struct b.fields)

/-- The type of the payloads: of the rows themselves, or of the values under `data`. -/
def payloadType? (wrapped : Bool) (b : Batch) : Option ColumnType :=
  if wrapped then b.payloadPlace?.map Prod.snd else some (.struct b.fields)

/-- The payload of a row: the row itself, or the value under `data`. -/
def payload (wrapped : Bool) (b : Batch) (row : List Cell) : Cell :=
  if wrapped then (b.payloadPlace?.map fun place => cellAt place.1 row).getD .null
  else .struct true row

/-- A batch with its payloads cut down to a type; of wrapped rows all other columns stay. -/
def trim (t : Ty) (wrapped : Bool) (b : Batch) : Batch :=
  if wrapped then
    match b.payloadPlace? with
    | some (i, type) =>
      ⟨b.fields.modify i fun f => ⟨f.name, (t.trim type).1, f.nullable⟩,
        b.rows.map fun row => row.modify i (t.trim type).2⟩
    | none => b
  else
    ⟨(t.trim (.struct b.fields)).1.fields,
      b.rows.map fun row => ((t.trim (.struct b.fields)).2 (.struct true row)).parts⟩

variable {b : Batch} {type : ColumnType}

/-- The column of the payloads of wrapped rows. -/
lemma of_payloadType? (h : b.payloadType? true = some type) :
    ∃ i f, b.payloadPlace? = some (i, type) ∧ b.columnIndex? dataLabel = some i ∧
      b.fields[i]? = some f ∧ f.name = dataLabel ∧ f.type = type := by
  obtain ⟨⟨i, part⟩, hplace, rfl⟩ := Option.map_eq_some_iff.mp h
  obtain ⟨hindex, f, hf, hname, htype⟩ := Ty.place?_eq_some hplace
  exact ⟨i, f, hplace, hindex, hf, hname, htype⟩

/-- The payloads of rows that fit their columns fit theirs. -/
lemma Fits.payload {wrapped : Bool} (hfits : b.Fits) (h : b.payloadType? wrapped = some type) :
    ∀ row ∈ b.rows, Cell.Fits type (b.payload wrapped row) := by
  intro row hrow
  cases wrapped with
  | false =>
    cases h
    exact hfits row hrow
  | true =>
    obtain ⟨i, f, hplace, -, hf, -, rfl⟩ := of_payloadType? h
    rw [Batch.payload, hplace]
    exact ((hfits row hrow).of_struct hf).1

/-- The rows that are marked. -/
lemma keep_map (mark : List Cell → Bool) (b : Batch) :
    b.keep (b.rows.map mark) = ⟨b.fields, b.rows.filter mark⟩ := by
  rw [keep, Batch.mk.injEq]
  refine ⟨rfl, ?_⟩
  induction b.rows with
  | nil => rfl
  | cons row rest ih =>
    rw [List.map_cons, List.zip_cons_cons, List.filter_cons, List.filter_cons]
    cases mark row with
    | true => exact congrArg (List.cons row) ih
    | false => exact ih

end Batch

/-! ### Projections -/

namespace Ty

variable {t : Ty} {b : Batch} {type : ColumnType}

/-- Rows that carry the values of a type are cut down to it one by one. -/
lemma projectBatch_unwrapped (hcarries : t.Carries (.struct b.fields)) (hfits : b.Fits) :
    t.projectBatch b false = .ok (b.trim t false) := by
  have hproject : projectColumn b.toColumn t = .ok ⟨(t.trim (.struct b.fields)).1,
      (b.rows.map (Cell.struct true)).map (t.trim (.struct b.fields)).2⟩ :=
    hcarries.cutByCell (List.forall_mem_map.mpr hfits)
  have hpresent : (((b.rows.map (Cell.struct true)).map (t.trim (.struct b.fields)).2).any
      Cell.isNull) = false := by
    refine List.any_eq_false.mpr fun cell hcell => ?_
    obtain ⟨whole, hwhole, rfl⟩ := List.mem_map.mp hcell
    obtain ⟨row, -, rfl⟩ := List.mem_map.mp hwhole
    rw [isNull_trim, Cell.isNull]
    exact Bool.false_ne_true
  rw [projectBatch, if_neg Bool.false_ne_true, hproject, Outcome.ok_bind,
    if_pos (isStruct_trim hcarries), Batch.ofColumn]
  dsimp only
  rw [hpresent, if_neg Bool.false_ne_true, List.map_map, List.map_map]
  rfl

/-- Where one value of a row becomes another that is null only if it was, nulls stand where they
may. -/
lemma allows_modify {fields : List Field} {row : List Cell}
    (hfits : Cell.Fits (.struct fields) (.struct true row)) (i : ℕ) {change : Field → Field}
    {f : Cell → Cell} (hchange : ∀ g, (change g).nullable = g.nullable)
    (hnulls : ∀ cell, (f cell).isNull = cell.isNull) :
    Batch.Allows (fields.modify i change) (row.modify i f) := by
  intro j g hg hnullable _
  rw [List.getElem?_modify, Option.map_eq_map, Option.map_eq_some_iff] at hg
  obtain ⟨g, hfield, rfl⟩ := hg
  have hold : g.nullable = false := by
    split at hnullable
    · exact (hchange g).symm.trans hnullable
    · exact hnullable
  have hcell : (Batch.cellAt j row).isNull = false := (hfits.of_struct hfield).2 hold rfl
  unfold Batch.cellAt at hcell ⊢
  rw [List.getElem?_modify]
  cases hrow : row[j]? with
  | none =>
    rw [hrow] at hcell
    cases hcell
  | some cell =>
    rw [hrow] at hcell
    by_cases heq : i = j
    · simpa [heq, hnulls] using hcell
    · simpa [heq] using hcell

/-- Wrapped rows with payloads that carry the values of a type are cut down to it one by one. -/
lemma projectBatch_wrapped (hpayload : b.payloadType? true = some type) (hcarries : t.Carries type)
    (hfits : b.Fits) : t.projectBatch b true = .ok (b.trim t true) := by
  have hcells := hfits.payload hpayload
  obtain ⟨i, f, hplace, hindex, hf, hname, rfl⟩ := Batch.of_payloadType? hpayload
  have hproject : projectColumn ⟨f.type, b.cellsAt i⟩ t =
      .ok ⟨(t.trim f.type).1, (b.cellsAt i).map (t.trim f.type).2⟩ := by
    refine hcarries.cutByCell (List.forall_mem_map.mpr fun row hrow => ?_)
    have hcell := hcells row hrow
    rwa [Batch.payload, hplace] at hcell
  have hcolumn : b.columnAt? i = some ⟨f.type, b.cellsAt i⟩ := by rw [Batch.columnAt?, hf]; rfl
  have hfields : b.fields.set i ⟨dataLabel, (t.trim f.type).1, f.nullable⟩ =
      b.fields.modify i fun f' => ⟨f'.name, (t.trim f.type).1, f'.nullable⟩ := by
    rw [List.modify_eq_set_getElem?, hf, ← hname]
    rfl
  have hrows : List.zipWith (fun row cell => row.set i cell) b.rows
      ((b.cellsAt i).map (t.trim f.type).2) =
        b.rows.map fun row => row.modify i (t.trim f.type).2 := by
    rw [Batch.cellsAt, List.map_map, List.zipWith_map_right, List.zipWith_self]
    exact List.map_congr_left fun row _ => (List.modify_eq_set _ i row).symm
  have hmake : Batch.make (b.fields.modify i fun f' => ⟨f'.name, (t.trim f.type).1, f'.nullable⟩)
      (b.rows.map fun row => row.modify i (t.trim f.type).2) = .ok (b.trim t true) := by
    rw [Batch.make_eq_ok, Batch.trim, hplace]
    refine ⟨rfl, List.forall_mem_map.mpr fun row hrow => ?_⟩
    exact allows_modify (hfits row hrow) i (fun _ => rfl) (isNull_trim t f.type)
  simp only [projectBatch, if_true, hindex, hcolumn, hf, hproject, Outcome.ok_bind,
    Batch.replaceColumn, hfields, hrows, hmake]

/-- **Batches whose payloads carry the values of a type are cut down to it row by row.** -/
theorem projectBatch_of_carries {wrapped : Bool} (hpayload : b.payloadType? wrapped = some type)
    (hcarries : t.Carries type) (hfits : b.Fits) :
    t.projectBatch b wrapped = .ok (b.trim t wrapped) := by
  cases wrapped with
  | true => exact projectBatch_wrapped hpayload hcarries hfits
  | false =>
    cases hpayload
    exact projectBatch_unwrapped hcarries hfits

/-- Batches whose payloads store the values of a type are cut down to it row by row. -/
lemma projectBatch_eq {wrapped : Bool} (hpayload : b.payloadType? wrapped = some type)
    (hstored : t.StoredIn type) (hfits : b.Fits) :
    t.projectBatch b wrapped = .ok (b.trim t wrapped) :=
  projectBatch_of_carries hpayload hstored.carries hfits

end Ty

/-! ### Filters -/

namespace BatchOperation

variable {t : Ty} {b : Batch} {type : ColumnType} {wrapped : Bool}

/-- The rows of a batch are marked by their payloads. -/
lemma rowMask_eq (hpayload : b.payloadType? wrapped = some type) {mark : Cell → Bool}
    (hmark : Ty.Marks t type mark)
    (hlegible : ∀ row ∈ b.rows, Ty.Legible t type (b.payload wrapped row)) :
    rowMask t wrapped b = .ok (b.rows.map fun row => mark (b.payload wrapped row)) := by
  have hselect : t.selectRows ⟨type, b.rows.map (b.payload wrapped)⟩ =
      .ok (b.rows.map fun row => mark (b.payload wrapped row)) := by
    rw [hmark.selects (List.forall_mem_map.mpr hlegible), List.map_map]
    rfl
  cases wrapped with
  | false =>
    cases hpayload
    exact hselect
  | true =>
    obtain ⟨i, f, hplace, hindex, hf, -, rfl⟩ := Batch.of_payloadType? hpayload
    have hcells : b.rows.map (b.payload true) = b.cellsAt i :=
      List.map_congr_left fun row _ => by rw [Batch.payload, hplace]; rfl
    rw [hcells] at hselect
    simp only [rowMask, if_true, Batch.column?, hindex, Option.bind_some, Batch.columnAt?, hf,
      Option.map_some, hselect]

/-- A filter that marks rows one by one cuts the marked ones down, and gives nothing if there are
none. -/
lemma filter_of_rowMask {mark : List Cell → Bool}
    (hmask : rowMask t wrapped b = .ok (b.rows.map mark)) :
    evaluate b (.filter t wrapped) =
      if b.rows.filter mark = [] then .ok none
      else (t.projectBatch ⟨b.fields, b.rows.filter mark⟩ wrapped).map some := by
  rw [evaluate, filterBatch, hmask, Outcome.ok_bind, Batch.keep_map]
  dsimp only
  simp only [Batch.size, List.length_eq_zero_iff]

open Classical in
/-- **A filter keeps exactly the rows whose payload belongs to its target**, in their order and cut
down to the target, and gives nothing if there are none. Asked of the batch is that its payloads
store the values of the target, with nulls only where the target has a place for them, and that
dates are within the calendar's range.

**Proof sketch.** Columns that store the values of the target have a mark that is set for the cells
that belong to it (`exists_marks`, `Marks.belongs`). The marks are computed row by row, so that the
filter keeps the rows whose payload is marked, and these are cut down to the target one by one. -/
theorem filter_eq (hpayload : b.payloadType? wrapped = some type) (hstored : t.StoredIn type)
    (hfits : b.Fits) (hnulls : ∀ row ∈ b.rows, t.NullsPlaced type (b.payload wrapped row))
    (hdates : ∀ row ∈ b.rows, t.DatesReadable type (b.payload wrapped row)) :
    evaluate b (.filter t wrapped) =
      let kept := b.rows.filter fun row => t.Belongs type (b.payload wrapped row)
      .ok (if kept = [] then none else some (Batch.trim t wrapped ⟨b.fields, kept⟩)) := by
  obtain ⟨mark, hmark⟩ := Ty.exists_marks hstored
  have hlegible : ∀ row ∈ b.rows, Ty.Legible t type (b.payload wrapped row) :=
    fun row hrow => ⟨hfits.payload hpayload row hrow, hdates row hrow⟩
  have hrows : (b.rows.filter fun row => mark (b.payload wrapped row)) =
      b.rows.filter fun row => t.Belongs type (b.payload wrapped row) := by
    refine List.filter_congr fun row hrow => ?_
    rw [Bool.eq_iff_iff, decide_eq_true_iff]
    exact hmark.belongs (hlegible row hrow) (hnulls row hrow)
  rw [filter_of_rowMask (rowMask_eq hpayload hmark hlegible), hrows]
  dsimp only
  generalize hkept : b.rows.filter _ = kept
  -- The rows that are kept fit their columns as well.
  have hproject : t.projectBatch ⟨b.fields, kept⟩ wrapped =
      .ok (Batch.trim t wrapped ⟨b.fields, kept⟩) :=
    Ty.projectBatch_eq hpayload hstored fun row hrow =>
      hfits row (List.mem_of_mem_filter (hkept ▸ hrow))
  rw [hproject]
  split
  · rfl
  · rfl

/-- Figures: circles of a size up to five, or labels. -/
def figure : Ty := .union [("circle", .integer 0 5), ("label", .text)]

/-- A column of figures and notes. -/
def figureColumn : ColumnType :=
  .struct [⟨"circle", .int64, true⟩, ⟨"label", .utf8, true⟩, Ty.selectorField,
    ⟨"note", .utf8, true⟩]

/-- A figure without note. -/
def figureCell (circle label : Cell) (branch : String) : Cell :=
  .struct true [circle, label, .text branch, .null]

/-- Numbered figures: a small and a large circle, a label, and a branch that is no figure. -/
def figures : Batch where
  fields := [⟨"key", .int64, false⟩, ⟨dataLabel, figureColumn, false⟩]
  rows := [[.int 1, figureCell (.int 3) .null "circle"],
    [.int 2, figureCell (.int 9) .null "circle"],
    [.int 3, figureCell (.int 9) (.text "a") "label"],
    [.int 4, figureCell .null .null "square"]]

/-- The selected branch of a figure. -/
lemma selects_figureCell {circle label : Cell} {branch name : String} :
    Ty.Selects figureColumn (figureCell circle label branch) name ↔ name = branch := by
  have hplace : Ty.place? fieldSelected figureColumn = some (2, .utf8) := rfl
  rw [Ty.Selects, Ty.partAt_iff hplace]
  simp [figureCell, Cell.part]

/-- The circle of a figure. -/
lemma partAt_circle {circle label under : Cell} {branch : String} {part : ColumnType} :
    Ty.PartAt "circle" figureColumn (figureCell circle label branch) part under ↔
      part = .int64 ∧ under = circle :=
  Ty.partAt_iff (i := 0) rfl

/-- The label of a figure. -/
lemma partAt_label {circle label under : Cell} {branch : String} {part : ColumnType} :
    Ty.PartAt "label" figureColumn (figureCell circle label branch) part under ↔
      part = .utf8 ∧ under = label :=
  Ty.partAt_iff (i := 1) rfl

/-- The members of figures. -/
lemma lookup?_figure {name : String} {t : Ty} :
    Ty.lookup? name figure.children = some t ↔
      name = "circle" ∧ t = .integer 0 5 ∨ name = "label" ∧ t = .text := by
  by_cases hcircle : name = "circle"
  · subst hcircle
    simp [figure, Ty.union, Ty.children, Ty.lookup?, eq_comm]
  · by_cases hlabel : name = "label"
    · subst hlabel
      simp [figure, Ty.union, Ty.children, Ty.lookup?, eq_comm]
    · simp [figure, Ty.union, Ty.children, Ty.lookup?, hcircle, hlabel, Ne.symm hcircle,
        Ne.symm hlabel]

/-- A cell is a figure if it is a label, or a circle of a size up to five. -/
lemma belongs_figureCell {circle label : Cell} {branch : String} :
    figure.Belongs figureColumn (figureCell circle label branch) ↔
      branch = "circle" ∧ Ty.LeafAdmits (.integer 0 5 .int64) circle ∨ branch = "label" := by
  constructor
  · intro h
    cases h with
    | union selected found hpart belongs =>
      cases selects_figureCell.mp selected
      rcases lookup?_figure.mp found with ⟨rfl, rfl⟩ | ⟨rfl, rfl⟩
      · obtain ⟨rfl, rfl⟩ := partAt_circle.mp hpart
        cases belongs with
        | leaf admitted => exact Or.inl ⟨rfl, admitted⟩
      · exact Or.inr rfl
  · rintro (⟨rfl, hadmits⟩ | rfl)
    · exact .union (selects_figureCell.mpr rfl) (lookup?_figure.mpr (Or.inl ⟨rfl, rfl⟩))
        (partAt_circle.mpr ⟨rfl, rfl⟩) (.leaf hadmits)
    · exact .union (selects_figureCell.mpr rfl) (lookup?_figure.mpr (Or.inr ⟨rfl, rfl⟩))
        (partAt_label.mpr ⟨rfl, rfl⟩) (.leaf trivial)

/-- The selected branch of a figure is not null. -/
lemma nullsPlaced_figureCell {circle label : Cell} {branch : String}
    (hcircle : branch = "circle" → circle.isNull = false)
    (hlabel : branch = "label" → label.isNull = false) :
    figure.NullsPlaced figureColumn (figureCell circle label branch) := by
  refine .union rfl fun name t part under selected found hpart => ?_
  cases selects_figureCell.mp selected
  rcases lookup?_figure.mp found with ⟨rfl, rfl⟩ | ⟨rfl, rfl⟩
  · obtain ⟨rfl, rfl⟩ := partAt_circle.mp hpart
    exact .leaf fun _ => hcircle rfl
  · obtain ⟨rfl, rfl⟩ := partAt_label.mp hpart
    exact .leaf fun _ => hlabel rfl

/-- Figures have no dates. -/
lemma datesReadable_figureCell {circle label : Cell} {branch : String} :
    figure.DatesReadable figureColumn (figureCell circle label branch) := by
  refine .members fun member hmember part under _ => ?_
  rcases List.mem_cons.mp hmember with rfl | hmember
  · exact .leaf fun _ _ _ _ h => by cases h
  · cases List.mem_singleton.mp hmember
    exact .leaf fun _ _ _ _ h => by cases h

/-- A column of figures and notes stores figures. -/
lemma storedIn_figureColumn : figure.StoredIn figureColumn := by
  refine .union (by simp) (fun member hmember f hf hname => ?_) ⟨2, rfl⟩
  rcases List.mem_cons.mp hmember with rfl | hmember
  · simp only [List.mem_cons, List.not_mem_nil, or_false] at hf
    rcases hf with rfl | rfl | rfl | rfl
    · exact .leaf
    all_goals simp [Ty.selectorField, fieldSelected] at hname
  · cases List.mem_singleton.mp hmember
    simp only [List.mem_cons, List.not_mem_nil, or_false] at hf
    rcases hf with rfl | rfl | rfl | rfl
    case inr.inl => exact .leaf
    all_goals simp [Ty.selectorField, fieldSelected] at hname

/-- Figures fit their columns. -/
lemma fits_figures : figures.Fits := by
  simp [Batch.Fits, figures, figureColumn, figureCell, Ty.selectorField, Cell.Fits, Cell.FitsParts,
    Cell.FitsScalar, Cell.isNull, ColumnType.int64, ColumnType.utf8, IntWidth.lo, IntWidth.hi,
    Number.least64, Number.greatest64]

/-- Of the figures, the small circle and the label are kept, with their keys and without notes. -/
theorem filter_eq_figures : evaluate figures (.filter figure true) =
    .ok (some ⟨[⟨"key", .int64, false⟩, ⟨dataLabel, .struct [⟨"circle", .int64, true⟩,
        ⟨"label", .utf8, true⟩, Ty.selectorField], false⟩],
      [[.int 1, .struct true [.int 3, .null, .text "circle"]],
        [.int 3, .struct true [.int 9, .text "a", .text "label"]]]⟩) := by
  classical
  have hpayload : ∀ key cell, figures.payload true [key, cell] = cell := fun _ _ => rfl
  have hnulls : ∀ row ∈ figures.rows,
      figure.NullsPlaced figureColumn (figures.payload true row) := by
    intro row hrow
    simp only [figures, List.mem_cons, List.not_mem_nil, or_false] at hrow
    rcases hrow with rfl | rfl | rfl | rfl
    all_goals exact nullsPlaced_figureCell (by simp [Cell.isNull]) (by simp [Cell.isNull])
  have hdates : ∀ row ∈ figures.rows,
      figure.DatesReadable figureColumn (figures.payload true row) := by
    intro row hrow
    simp only [figures, List.mem_cons, List.not_mem_nil, or_false] at hrow
    rcases hrow with rfl | rfl | rfl | rfl
    all_goals exact datesReadable_figureCell
  have hkept : (figures.rows.filter fun row =>
      figure.Belongs figureColumn (figures.payload true row)) =
        [[.int 1, figureCell (.int 3) .null "circle"],
          [.int 3, figureCell (.int 9) (.text "a") "label"]] := by
    have hrows : figures.rows = [[.int 1, figureCell (.int 3) .null "circle"],
      [.int 2, figureCell (.int 9) .null "circle"],
      [.int 3, figureCell (.int 9) (.text "a") "label"],
      [.int 4, figureCell .null .null "square"]] := rfl
    simp [hrows, hpayload, belongs_figureCell, Ty.LeafAdmits]
  rw [@filter_eq figure figures figureColumn true rfl storedIn_figureColumn fits_figures hnulls
    hdates]
  dsimp only
  rw [hkept]
  rfl

end BatchOperation

end Lineage
