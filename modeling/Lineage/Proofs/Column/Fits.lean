import Lineage.Proofs.Column.Batch

set_option autoImplicit false

/-!
# Cells that fit their columns

What a column of a type can hold: values in the range of what is stored, structs with a part for
every field, lists of such items, and nulls where the field allows them. Nulls of structs hide the
nulls of their parts.

## Main definitions

* `Lineage.Cell.Fits`: a cell can be held by a column of a type.
* `Lineage.Batch.Fits`: the rows of a batch can be held by its columns.

## Main results

* `Lineage.Cell.Fits.of_struct`: the parts of a struct that fits.
* `Lineage.Cell.Fits.absent`: a cell that fits still does without its value.
* `Lineage.Batch.Fits.concat`: batches under one another can be held by their columns.
-/

namespace Lineage

namespace Cell

/-- A cell holds a value of a scalar type, in the range of what is stored. -/
def FitsScalar : Scalar → Cell → Prop
  | .boolean, .bool _ => True
  | .integer width, .int n => width.lo ≤ n ∧ n ≤ width.hi
  | .date32, .int n => IntWidth.i32.lo ≤ n ∧ n ≤ IntWidth.i32.hi
  | .date64, .int n | .timestamp _, .int n => IntWidth.i64.lo ≤ n ∧ n ≤ IntWidth.i64.hi
  | .float16, .float _ | .float32, .float _ | .float64, .float _ => True
  | .utf8, .text _ | .largeUtf8, .text _ | .utf8View, .text _ => True
  | .binary, .bytes _ | .largeBinary, .bytes _ | .binaryView, .bytes _ => True
  | .other _, _ => True
  | _, _ => False

mutual

/-- A cell can be held by a column of a type. Whether the cell itself may be null depends on the
field of the column. -/
def Fits : ColumnType → Cell → Prop
  | .scalar s, cell => cell = .null ∨ FitsScalar s cell
  | .struct fs, .struct present ps => FitsParts present fs ps
  | .list _ ⟨_, type, nullable⟩, .list items =>
    ∀ item ∈ items, Fits type item ∧ (nullable = true ∨ item.isNull = false)
  | .list _ _, .null => True
  | _, _ => False

/-- The parts of a struct can be held by the columns of its fields, one for each. A part of a field
that is not nullable is null only where the struct is. -/
def FitsParts (present : Bool) : List (FieldOf ColumnType) → List Cell → Prop
  | [], [] => True
  | ⟨_, type, nullable⟩ :: fs, p :: ps =>
    Fits type p ∧ (nullable = true ∨ present = false ∨ p.isNull = false) ∧ FitsParts present fs ps
  | _, _ => False

end

/-- A cell of a scalar column that is not null holds a value. -/
lemma Fits.of_scalar {s : Scalar} {cell : Cell} (h : Fits (.scalar s) cell)
    (hpresent : cell.isNull = false) : FitsScalar s cell := by
  rw [Fits] at h
  rcases h with rfl | h
  · cases hpresent
  · exact h

/-- The part for a field of a struct that fits. -/
lemma FitsParts.getD {present : Bool} {fs : List Field} {ps : List Cell}
    (h : FitsParts present fs ps) {i : ℕ} {f : Field} (hf : fs[i]? = some f) :
    Fits f.type ((ps[i]?).getD .null) ∧
      (f.nullable = false → present = true → ((ps[i]?).getD .null).isNull = false) := by
  induction fs generalizing ps i with
  | nil => cases hf
  | cons g fs ih =>
    cases ps with
    | nil => exact h.elim
    | cons p ps =>
      obtain ⟨hfits, hnull, hrest⟩ := h
      cases i with
      | zero =>
        cases hf
        refine ⟨hfits, fun hnullable hpresent => ?_⟩
        simpa [hnullable, hpresent] using hnull
      | succ i => exact ih hrest hf

/-- A cell without value is null. -/
@[simp]
lemma isNull_absent (cell : Cell) : cell.absent.isNull = true := by
  cases cell <;> rfl

/-- A cell without value keeps its parts. -/
@[simp]
lemma part_absent (i : ℕ) (cell : Cell) : cell.absent.part i = cell.part i := by
  cases cell <;> rfl

/-- Structs that fit have as many parts as there are fields. -/
lemma FitsParts.length_eq {present : Bool} {fs : List Field} {ps : List Cell}
    (h : FitsParts present fs ps) : ps.length = fs.length := by
  induction fs generalizing ps with
  | nil => cases ps with
    | nil => rfl
    | cons p ps => exact h.elim
  | cons f fs ih => cases ps with
    | nil => exact h.elim
    | cons p ps => exact congrArg Nat.succ (ih h.2.2)

/-- Parts fit the fields of a struct if there is one for each field, and each of them fits its
field. -/
lemma fitsParts_of_getElem? {present : Bool} {fs : List Field} {ps : List Cell}
    (hlength : ps.length = fs.length)
    (h : ∀ (i : ℕ) (f : Field), fs[i]? = some f → Fits f.type ((ps[i]?).getD .null) ∧
      (f.nullable = false → present = true → ((ps[i]?).getD .null).isNull = false)) :
    FitsParts present fs ps := by
  induction fs generalizing ps with
  | nil =>
    obtain rfl := List.eq_nil_of_length_eq_zero hlength
    trivial
  | cons f fs ih => cases ps with
    | nil => cases hlength
    | cons p ps =>
      obtain ⟨hfits, hnull⟩ := h 0 f rfl
      refine ⟨hfits, ?_, ih (Nat.succ.inj hlength) fun i g hg => h (i + 1) g hg⟩
      cases hnullable : f.nullable with
      | true => exact Or.inl rfl
      | false => cases present with
        | true => exact Or.inr (Or.inr (hnull hnullable rfl))
        | false => exact Or.inr (Or.inl rfl)

/-- The parts of a struct that fits still fit when the struct is without value. -/
lemma FitsParts.absent {present : Bool} {fs : List Field} {ps : List Cell}
    (h : FitsParts present fs ps) : FitsParts false fs ps := by
  induction fs generalizing ps with
  | nil => cases ps with
    | nil => trivial
    | cons p ps => exact h.elim
  | cons f fs ih => cases ps with
    | nil => exact h.elim
    | cons p ps => exact ⟨h.1, Or.inr (Or.inl rfl), ih h.2.2⟩

/-- A cell without value fits where the cell does. -/
lemma Fits.absent {type : ColumnType} {cell : Cell} (h : Fits type cell) :
    Fits type cell.absent := by
  cases type with
  | struct fs => cases cell with
    | struct present ps => exact FitsParts.absent h
    | _ => exact h.elim
  | list layout item => cases cell with
    | null | list items => trivial
    | _ => exact h.elim
  | scalar s => cases cell with
    | struct present ps =>
      refine Or.inr ?_
      rcases h with h | h
      · cases h
      · cases s <;> first | exact h.elim | trivial
    | _ => exact Or.inl rfl

/-- **The parts of a struct that fits** fit the fields, and a part of a field that is not nullable
is null only if the struct is. -/
theorem Fits.of_struct {fs : List Field} {cell : Cell} (h : Fits (.struct fs) cell) {i : ℕ}
    {f : Field} (hf : fs[i]? = some f) :
    Fits f.type (cell.part i) ∧
      (f.nullable = false → cell.isNull = false → (cell.part i).isNull = false) := by
  cases cell with
  | struct present ps =>
    have hparts : FitsParts present fs ps := h
    obtain ⟨hfits, hnull⟩ := hparts.getD hf
    exact ⟨hfits, fun hnullable hpresent => hnull hnullable (by simpa [isNull] using hpresent)⟩
  | _ => exact h.elim

/-- The items of a list that fits. -/
lemma Fits.of_list {layout : ListLayout} {item : Field} {items : List Cell}
    (h : Fits (.list layout item) (.list items)) : ∀ cell ∈ items, Fits item.type cell :=
  fun cell hcell => (h cell hcell).1

end Cell

namespace Batch

/-- The rows of a batch can be held by its columns. -/
def Fits (b : Batch) : Prop := ∀ row ∈ b.rows, Cell.Fits (.struct b.fields) (.struct true row)

/-- A batch whose columns can hold its rows is as batches are built. -/
lemma Fits.formedOf {b : Batch} (h : b.Fits) : b.FormedOf b.fields := by
  refine ⟨rfl, fun row hrow => Cell.FitsParts.length_eq (h row hrow), ?_⟩
  intro row hrow i f hf hnullable _
  exact ((h row hrow).of_struct hf).2 hnullable rfl

/-- Rows of a batch that its columns can hold. -/
lemma Fits.slice {b : Batch} (h : b.Fits) (start count : ℕ) : (b.slice start count).Fits :=
  fun row hrow => h row (List.mem_of_mem_drop (List.mem_of_mem_take hrow))

/-- **Batches under one another** can be held by their columns if each of them can be held by its
own, and columns of nulls may hold nulls.

**Proof sketch.** A row of the whole is a row of one of the batches, cut to the columns that
there are. Its cells are stored as before, so that they fit; that none of them is null where
the new field forbids it is what was checked when the batches were put under one another. That
check leaves out columns of nulls, for which `hnulls` steps in. -/
theorem Fits.concat {fields : List Field} {batches : List Batch} {b : Batch}
    (h : ∀ b' ∈ batches, b'.Fits) (hnulls : ∀ f ∈ fields, f.type = .null → f.nullable = true)
    (hconcat : Batch.concat fields batches = .ok b) : b.Fits := by
  obtain ⟨hstores, hmake⟩ := concat_eq_ok.mp hconcat
  obtain ⟨rfl, hallows⟩ := make_eq_ok.mp hmake
  intro row hrow
  obtain ⟨b', hb', hrow'⟩ := List.mem_flatMap.mp hrow
  obtain ⟨whole, hwhole, rfl⟩ := List.mem_map.mp hrow'
  have hfits := h b' hb' whole hwhole
  have hlength : whole.length = b'.fields.length := Cell.FitsParts.length_eq hfits
  show Cell.FitsParts true fields (whole.take fields.length)
  refine Cell.fitsParts_of_getElem? ?_ fun i f hf => ?_
  · rw [List.length_take, hlength]
    exact Nat.min_eq_left (hstores b' hb').length_le
  · obtain ⟨f', hf', htype⟩ := hstores b' hb' i f hf
    have hcell : ((whole.take fields.length)[i]?).getD .null = (whole[i]?).getD .null :=
      cellAt_take (List.getElem?_eq_some_iff.mp hf).1 whole
    constructor
    · rw [← htype, hcell]
      exact (hfits.of_struct hf').1
    · intro hnullable _
      refine hallows _ hrow i f hf hnullable fun hnull => ?_
      rw [hnulls f (List.mem_of_getElem? hf) hnull] at hnullable
      cases hnullable

end Batch

end Lineage
