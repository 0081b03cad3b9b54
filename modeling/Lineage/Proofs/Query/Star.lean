import Mathlib
import Lineage.Proofs.Column.Fits
import Lineage.Proofs.Query.Selection

set_option autoImplicit false

/-!
# Selecting everything

A query that selects all columns of all rows gives back the table. Its rows become records without
their nulls, the nulls are put back, and the columns are told again from the values of all records.

## Main definitions

* `Lineage.Cell.Simple`: cells of whole numbers, texts and truth values.
* `Lineage.Cell.toJson`: the value of such a cell.
* `Lineage.Batch.Plain`: tables of such cells.
* `Lineage.ValueType.note`: which columns have shown a value after a further row.

## Main results

* `Lineage.Batch.toRecords_eq`: the records of a table of simple cells.
* `Lineage.ValueType.mergeMembers_known`: what a further record adds to what is known of columns.
* `Lineage.Batch.ofRecords_eq`: the table of the records of a table.
* `Lineage.selectTable_star`: selecting everything is the identity on plain tables.

## Design

A column is told from its values as soon as one of them is no null. So what is known after some rows
is, for each column, only whether a value was seen in it.
-/

namespace Lineage

variable {fields : List Field} {row : List Cell} {cell : Cell} {f : Field} {type : ColumnType}

/-! ### Simple cells -/

namespace Cell

/-- A null, or a whole number, a text or a truth value in a column of its type. -/
inductive Simple : ColumnType → Cell → Prop
  /-- No whole number. -/
  | intNull : Simple .int64 .null
  /-- A whole number. -/
  | int {n : Int} (h : IntWidth.i64.lo ≤ n ∧ n ≤ IntWidth.i64.hi) : Simple .int64 (.int n)
  /-- No text. -/
  | textNull : Simple .utf8 .null
  /-- A text. -/
  | text {t : String} : Simple .utf8 (.text t)
  /-- No truth value. -/
  | boolNull : Simple .boolean .null
  /-- A truth value. -/
  | bool {b : Bool} : Simple .boolean (.bool b)

/-- The value of a simple cell. -/
def toJson : Cell → Json
  | .bool b => .bool b
  | .int n => .int n
  | .text t => .string t
  | _ => .null

/-- Cells that columns of whole numbers, texts or truth values can hold are simple. -/
lemma simple_of_fits (htype : type = .int64 ∨ type = .utf8 ∨ type = .boolean)
    (hfits : Fits type cell) : Simple type cell := by
  rcases htype with rfl | rfl | rfl <;> rcases hfits with rfl | hfits
  · exact .intNull
  · cases cell <;> first | exact hfits.elim | exact .int hfits
  · exact .textNull
  · cases cell <;> first | exact hfits.elim | exact .text
  · exact .boolNull
  · cases cell <;> first | exact hfits.elim | exact .bool

/-- Columns can hold their simple cells. -/
lemma Simple.fits (h : Simple type cell) : Fits type cell := by
  cases h with
  | int hn => exact Or.inr hn
  | intNull | textNull | boolNull => exact Or.inl rfl
  | text | bool => exact Or.inr trivial

/-- The value of a simple cell. -/
lemma Simple.value?_eq (h : Simple type cell) : value? type cell = some cell.toJson := by
  cases h <;> rfl

/-- A simple cell that is null has no value. -/
lemma Simple.toJson_of_isNull (h : Simple type cell) (hnull : cell.isNull = true) :
    cell.toJson = .null := by
  cases h <;> first | rfl | cases hnull

/-- **A simple cell is read back** from its value. -/
lemma Simple.ofJson?_toJson (h : Simple type cell) : ofJson? type cell.toJson = some cell := by
  cases h with
  | int hn => exact if_pos hn.2
  | _ => rfl

end Cell

/-! ### Records -/

namespace Batch

/-- The cells of a row are simple cells of the fields. -/
abbrev Held (fields : List Field) (row : List Cell) : Prop :=
  List.Forall₂ (fun f cell => Cell.Simple f.type cell) fields row

/-- The values of a row under their names. -/
def valuesOf (fields : List Field) (row : List Cell) : Record :=
  (fields.zip row).map fun e => (e.1.name, e.2.toJson)

/-- The record of a row of simple cells. -/
lemma recordOf_eq_valuesOf (h : Held fields row) : recordOf fields row = valuesOf fields row := by
  refine List.map_congr_left fun e he => ?_
  have hcell : Cell.Simple e.1.type e.2 := List.forall₂_zip h he
  rw [valueOf, hcell.value?_eq, Option.getD_some]
  split
  · rename_i hnull
    rw [hcell.toJson_of_isNull hnull]
  · rfl

/-- Simple cells have values. -/
lemma Held.writable (h : Held fields row) : Writable fields row := fun e he _ => by
  have hcell : Cell.Simple e.1.type e.2 := List.forall₂_zip h he
  rw [hcell.value?_eq]
  rfl

/-- The value under the name of a field. -/
lemma lookup?_valuesOf (hrow : Held fields row) (hnames : (fields.map FieldOf.name).Nodup)
    {e : Field × Cell} (he : e ∈ fields.zip row) :
    Json.lookup? e.1.name (valuesOf fields row) = some e.2.toJson := by
  refine Json.lookup?_of_mem ?_ (List.mem_map_of_mem he)
  rwa [← recordOf_eq_valuesOf hrow, map_fst_recordOf hrow.length_eq.symm]

/-- The records of a table. -/
lemma toRecords_eq {b : Batch} (h : ∀ row ∈ b.rows, Held b.fields row)
    (hnames : (b.fields.map FieldOf.name).Nodup) :
    b.toRecords = .ok (b.rows.map (valuesOf b.fields)) := by
  rw [toRecords_eq_map (fun row hrow => (h row hrow).length_eq.symm) hnames
    fun row hrow => Held.writable (h row hrow)]
  exact congrArg Except.ok (List.map_congr_left fun row hrow => recordOf_eq_valuesOf (h row hrow))

end Batch

/-! ### What is known of columns -/

namespace ValueType

/-- What is known of a column of simple cells, by whether a value was seen in it. -/
def seen : ColumnType → Bool → ValueType
  | .scalar .boolean, true => .scalar ⟨true, false, false, false⟩
  | .scalar (.integer .i64), true => .scalar ⟨false, true, false, false⟩
  | .scalar .utf8, true => .scalar ⟨false, false, false, true⟩
  | _, _ => .any

/-- What a simple cell tells. -/
lemma ofJson_toJson (h : Cell.Simple type cell) :
    ofJson cell.toJson = .ok (seen type !cell.isNull) := by
  cases h with
  | int hn => exact if_pos hn.2
  | _ => rfl

/-- A value of a column is seen if it was before or is now. -/
lemma merge_seen (h : Cell.Simple type cell) (before now : Bool) :
    merge (seen type before) (seen type now) = .ok (seen type (before || now)) := by
  cases h <;> cases before <;> cases now <;> rfl

/-- What is first known of a column. -/
lemma merge_any_seen (h : Cell.Simple type cell) (now : Bool) :
    merge .any (seen type now) = .ok (seen type now) := by
  cases h <;> cases now <;> rfl

/-- A column keeps its type if a value was seen in it. -/
lemma columnType_seen (h : Cell.Simple type cell) (before : Bool) :
    columnType (seen type before) = if before then type else .null := by
  cases h <;> cases before <;> rfl

/-! ### Columns in which values are seen -/

/-- Columns of a table, and whether a value was seen in them. -/
abbrev Noted := List (Field × Bool)

/-- Columns before the first row. -/
def unseen (fields : List Field) : Noted := fields.map fun f => (f, false)

/-- Columns after a further row. -/
def note (cols : Noted) (row : List Cell) : Noted :=
  List.zipWith (fun c cell => (c.1, c.2 || !cell.isNull)) cols row

/-- What is known of columns. -/
def known (cols : Noted) : List (String × ValueType) :=
  cols.map fun c => (c.1.name, seen c.1.type c.2)

/-- A further row in the first column and in the others. -/
lemma note_cons (c : Field × Bool) (cols : Noted) (cell : Cell) (row : List Cell) :
    note (c :: cols) (cell :: row) = (c.1, c.2 || !cell.isNull) :: note cols row := rfl

/-- What is known of the first column and of the others. -/
lemma known_cons (c : Field × Bool) (cols : Noted) :
    known (c :: cols) = (c.1.name, seen c.1.type c.2) :: known cols := rfl

/-- The fields that columns get from what is known of them. -/
def told (cols : Noted) : List Field :=
  cols.map fun c => ⟨c.1.name, if c.2 then c.1.type else .null, true⟩

/-- The cells of a row are simple cells of the columns. -/
abbrev HeldIn (cols : Noted) (row : List Cell) : Prop :=
  List.Forall₂ (fun c cell => Cell.Simple c.1.type cell) cols row

variable {cols : Noted}

/-- The cells of a row are simple cells of columns if they are of their fields. -/
lemma heldIn_iff : HeldIn cols row ↔ Batch.Held (cols.map Prod.fst) row :=
  (List.forall₂_map_left_iff (R := fun (f : Field) cell => Cell.Simple f.type cell)).symm

/-- Columns before the first row are those of the fields. -/
lemma map_fst_unseen (fields : List Field) : (unseen fields).map Prod.fst = fields := by
  rw [unseen, List.map_map]
  exact List.map_id fields

/-- What the record of a row tells. -/
lemma ofMembers_valuesOf (h : Batch.Held fields row) :
    ofMembers (Batch.valuesOf fields row) = .ok (known (note (unseen fields) row)) := by
  induction h with
  | nil => rfl
  | cons hcell _ ih =>
    simp only [Batch.valuesOf, List.zip_cons_cons, List.map_cons, ofMembers, ofJson_toJson hcell,
      Outcome.ok_bind] at ih ⊢
    rw [ih]
    rfl

/-- Noting a row keeps the columns. -/
lemma map_fst_note (h : HeldIn cols row) : (note cols row).map Prod.fst = cols.map Prod.fst := by
  induction h with
  | nil => rfl
  | @cons c _ _ _ _ _ ih => exact congrArg (c.1 :: ·) ih

/-- The cells of further rows are simple cells of the columns, too. -/
lemma heldIn_note {row' : List Cell} (h : HeldIn cols row) (hrow' : HeldIn cols row') :
    HeldIn (note cols row) row' := by
  rw [heldIn_iff, map_fst_note h]
  exact heldIn_iff.mp hrow'

/-- A member that is there is replaced in its place. -/
lemma replaceMember_append {name : String} {t old : ValueType}
    {pre rest : List (String × ValueType)} (h : name ∉ pre.map Prod.fst) :
    replaceMember name t (pre ++ (name, old) :: rest) = pre ++ (name, t) :: rest := by
  induction pre with
  | nil => exact if_pos rfl
  | cons entry pre ih =>
    rw [List.map_cons, List.mem_cons, not_or] at h
    rw [List.cons_append, replaceMember, if_neg fun heq => h.1 heq.symm, ih h.2, List.cons_append]

/-- A member that is not there is added at the end. -/
lemma replaceMember_of_not_mem {name : String} {t : ValueType} {ms : List (String × ValueType)}
    (h : name ∉ ms.map Prod.fst) : replaceMember name t ms = ms ++ [(name, t)] := by
  induction ms with
  | nil => rfl
  | cons entry ms ih =>
    rw [List.map_cons, List.mem_cons, not_or] at h
    rw [replaceMember, if_neg fun heq => h.1 heq.symm, ih h.2, List.cons_append]

/-- What is known of a member behind others. -/
lemma memberOf_append {name : String} {pre rest : List (String × ValueType)}
    (h : name ∉ pre.map Prod.fst) : memberOf name (pre ++ rest) = memberOf name rest := by
  have hnone : pre.find? (fun entry => entry.1 == name) = none :=
    List.find?_eq_none.mpr fun entry hentry hname =>
      h (beq_iff_eq.mp hname ▸ List.mem_map_of_mem hentry)
  rw [memberOf, List.find?_append, hnone, Option.none_or]
  rfl

section Merging

variable (pre : List (String × ValueType))
  (hnames : (pre.map Prod.fst ++ (cols.map Prod.fst).map FieldOf.name).Nodup)

/-- The name of the first column is none of those in front, and they are still different when it is
one of them. -/
lemma names_cons {c : Field × Bool} {t : ValueType}
    (hnames : (pre.map Prod.fst ++ ((c :: cols).map Prod.fst).map FieldOf.name).Nodup) :
    c.1.name ∉ pre.map Prod.fst ∧
      ((pre ++ [(c.1.name, t)]).map Prod.fst ++ (cols.map Prod.fst).map FieldOf.name).Nodup := by
  obtain ⟨-, -, hnew⟩ := List.nodup_append.mp hnames
  refine ⟨fun hmem => hnew _ hmem _ (List.mem_cons_self ..) rfl, ?_⟩
  rwa [List.map_append, List.append_assoc]

include hnames

/-- **What a first record tells** of columns is known from then on. -/
lemma mergeMembers_of_first (h : HeldIn cols row) :
    mergeMembers pre (known (note cols row)) = .ok (pre ++ known (note cols row)) := by
  induction h generalizing pre with
  | nil => exact congrArg Except.ok (List.append_nil pre).symm
  | @cons c cell cols row hcell _ ih =>
    have hnew := (names_cons (t := .any) pre hnames).1
    have hany : memberOf c.1.name pre = .any := by
      rw [← List.append_nil pre, memberOf_append hnew]
      rfl
    rw [note_cons, known_cons, mergeMembers, hany, merge_any_seen hcell, Outcome.ok_bind,
      replaceMember_of_not_mem hnew, ih _ (names_cons pre hnames).2, List.append_assoc]
    rfl

/-- **What a further record tells** of columns is that there are values in some of them.

**Proof sketch.** By induction on the columns, of which those in front are known already: a
name is found at its own place, since names are different, and is known there from then on if
a value was seen before or is seen now (`merge_seen`). -/
lemma mergeMembers_known (h : HeldIn cols row) :
    mergeMembers (pre ++ known cols) (known (note (unseen (cols.map Prod.fst)) row)) =
      .ok (pre ++ known (note cols row)) := by
  induction h generalizing pre with
  | nil => rfl
  | @cons c cell cols row hcell _ ih =>
    have hnew := (names_cons (t := .any) pre hnames).1
    have hmember : memberOf c.1.name (pre ++ known (c :: cols)) = seen c.1.type c.2 := by
      rw [memberOf_append hnew, known_cons]
      simp [memberOf]
    have hrow : known (note (unseen ((c :: cols).map Prod.fst)) (cell :: row)) =
        (c.1.name, seen c.1.type !cell.isNull) ::
          known (note (unseen (cols.map Prod.fst)) row) := rfl
    rw [hrow, mergeMembers, hmember, merge_seen hcell, Outcome.ok_bind, known_cons,
      replaceMember_append hnew, List.append_cons, ih _ (names_cons pre hnames).2,
      List.append_assoc]
    rfl

end Merging

/-- **What the records of several rows tell** of columns, one after another.

**Proof sketch.** By induction on the rows, with one step for each (`mergeMembers_known`). -/
theorem foldlM_mergeMembers {rows : List (List Cell)} (hrows : ∀ row ∈ rows, HeldIn cols row)
    (hnames : ((cols.map Prod.fst).map FieldOf.name).Nodup) :
    (rows.map fun row => known (note (unseen (cols.map Prod.fst)) row)).foldlM mergeMembers
        (known cols) = .ok (known (rows.foldl note cols)) := by
  induction rows generalizing cols with
  | nil => rfl
  | cons row rows ih =>
    obtain ⟨hrow, hrest⟩ := List.forall_mem_cons.mp hrows
    have hfields := map_fst_note hrow
    have hmerge := mergeMembers_known [] hnames hrow
    rw [List.map_cons, List.foldlM_cons]
    rw [List.nil_append, List.nil_append] at hmerge
    rw [hmerge, Outcome.ok_bind, ← hfields, List.foldl_cons]
    exact ih (fun row' hrow' => heldIn_note hrow (hrest row' hrow')) (by rwa [hfields])

/-- **What the records of all rows tell** of columns. -/
theorem foldlM_mergeMembers_nil {rows : List (List Cell)} (hne : rows ≠ [])
    (hrows : ∀ row ∈ rows, HeldIn (unseen fields) row)
    (hnames : (fields.map FieldOf.name).Nodup) :
    (rows.map fun row => known (note (unseen fields) row)).foldlM mergeMembers [] =
      .ok (known (rows.foldl note (unseen fields))) := by
  obtain ⟨first, rest, rfl⟩ := List.exists_cons_of_ne_nil hne
  obtain ⟨hfirst, hrest⟩ := List.forall_mem_cons.mp hrows
  have hcols : (note (unseen fields) first).map Prod.fst = fields := by
    rw [map_fst_note hfirst, map_fst_unseen]
  have hstart : mergeMembers [] (known (note (unseen fields) first)) =
      .ok (known (note (unseen fields) first)) :=
    mergeMembers_of_first [] (by rwa [map_fst_unseen]) hfirst
  have hheld : ∀ row ∈ rest, HeldIn (note (unseen fields) first) row :=
    fun row hrow => heldIn_note hfirst (hrest row hrow)
  have hall := foldlM_mergeMembers hheld (by rwa [hcols])
  rw [hcols] at hall
  rw [List.map_cons, List.foldlM_cons, hstart, Outcome.ok_bind, hall, List.foldl_cons]

/-- Noting rows keeps the columns. -/
lemma map_fst_foldl_note {rows : List (List Cell)} (hrows : ∀ row ∈ rows, HeldIn cols row) :
    (rows.foldl note cols).map Prod.fst = cols.map Prod.fst := by
  induction rows generalizing cols with
  | nil => rfl
  | cons row rows ih =>
    obtain ⟨hrow, hrest⟩ := List.forall_mem_cons.mp hrows
    have hnoted := ih fun row' hrow' => heldIn_note hrow (hrest row' hrow')
    rw [List.foldl_cons, hnoted, map_fst_note hrow]

/-- What is known of columns tells their fields. -/
lemma fields_known (h : HeldIn cols row) : ValueType.fields (known cols) = told cols := by
  induction h with
  | nil => rfl
  | @cons c _ _ _ hcell _ ih =>
    rw [known_cons, ValueType.fields, columnType_seen hcell, ih]
    rfl

/-! ### Rows of columns in which all of their values are seen -/

/-- The cells of a row are simple cells of the columns, and all values among them are seen. -/
abbrev SeenIn (cols : Noted) (row : List Cell) : Prop :=
  List.Forall₂ (fun c cell => Cell.Simple c.1.type cell ∧ (cell.isNull = false → c.2 = true))
    cols row

/-- The values of a row are seen in it. -/
lemma seenIn_note (h : HeldIn cols row) : SeenIn (note cols row) row := by
  induction h with
  | nil => exact .nil
  | cons hcell _ ih => exact .cons ⟨hcell, fun hvalue => by simp [hvalue]⟩ ih

/-- What was seen stays seen. -/
lemma seenIn_note_of_seenIn {row' : List Cell} (h : SeenIn cols row) (hrow' : HeldIn cols row') :
    SeenIn (note cols row') row := by
  induction h generalizing row' with
  | nil =>
    cases hrow'
    exact .nil
  | cons hcell _ ih =>
    cases hrow' with
    | cons _ hrest => exact .cons ⟨hcell.1, fun hvalue => by simp [hcell.2 hvalue]⟩ (ih hrest)

/-- What was seen stays seen when several rows follow. -/
lemma seenIn_foldl_of_seenIn {rows : List (List Cell)} (h : SeenIn cols row)
    (hrows : ∀ row ∈ rows, HeldIn cols row) : SeenIn (rows.foldl note cols) row := by
  induction rows generalizing cols with
  | nil => exact h
  | cons row' rows ih =>
    obtain ⟨hrow', hrest⟩ := List.forall_mem_cons.mp hrows
    exact ih (seenIn_note_of_seenIn h hrow') fun row'' hrow'' =>
      heldIn_note hrow' (hrest row'' hrow'')

/-- **All values are seen** after all rows.

**Proof sketch.** By induction on the rows: the values of a row are seen when it is noted
(`seenIn_note`), and what was seen stays seen (`seenIn_foldl_of_seenIn`). -/
theorem seenIn_foldl_note {rows : List (List Cell)} (hrows : ∀ row ∈ rows, HeldIn cols row) :
    ∀ row ∈ rows, SeenIn (rows.foldl note cols) row := by
  induction rows generalizing cols with
  | nil => exact fun row hrow => absurd hrow List.not_mem_nil
  | cons row rows ih =>
    obtain ⟨hrow, hrest⟩ := List.forall_mem_cons.mp hrows
    have hnoted : ∀ row' ∈ rows, HeldIn (note cols row) row' := fun row' hrow' =>
      heldIn_note hrow (hrest row' hrow')
    rw [List.foldl_cons, List.forall_mem_cons]
    exact ⟨seenIn_foldl_of_seenIn (seenIn_note hrow) hnoted, ih hnoted⟩

section Told

variable {value : Bool} (h : Cell.Simple type cell) (hvalue : cell.isNull = false → value = true)

include h hvalue

/-- A simple cell is read back where a value was seen, and so is a null where none was. -/
lemma ofJson?_told :
    Cell.ofJson? (if value then type else .null) cell.toJson = some cell := by
  cases value with
  | true => exact h.ofJson?_toJson
  | false => cases h <;> first | rfl | cases hvalue rfl

/-- A simple cell can be held where a value was seen, and so can a null where none was. -/
lemma fits_told : Cell.Fits (if value then type else .null) cell := by
  cases value with
  | true => exact h.fits
  | false => cases h <;> first | exact Or.inl rfl | cases hvalue rfl

end Told

/-- **A row is read back** from its record, if all its values are seen. -/
lemma partsOfJson?_told (h : SeenIn cols row) {ms : List (String × Json)}
    (hms : ∀ e ∈ (cols.map Prod.fst).zip row, Json.lookup? e.1.name ms = some e.2.toJson) :
    Cell.partsOfJson? (told cols) ms = some row := by
  induction h with
  | nil => rfl
  | @cons c cell cols row hcell _ ih =>
    obtain ⟨hfirst, hrest⟩ := List.forall_mem_cons.mp hms
    have htold : told (c :: cols) =
        ⟨c.1.name, if c.2 then c.1.type else .null, true⟩ :: told cols := rfl
    rw [htold, Cell.partsOfJson?, hfirst, Option.getD_some, ofJson?_told hcell.1 hcell.2, ih hrest]
    rfl

/-- The told columns can hold a row if all its values are seen. -/
lemma fitsParts_told (h : SeenIn cols row) : Cell.FitsParts true (told cols) row := by
  induction h with
  | nil => trivial
  | cons hcell _ ih => exact ⟨fits_told hcell.1 hcell.2, Or.inl rfl, ih⟩

end ValueType

/-! ### Tables of records -/

namespace Batch

/-- Tables with rows and with columns of different names, which are whole numbers of 64 bits, texts
or truth values. -/
structure Plain (b : Batch) : Prop where
  /-- There is a column. -/
  columns : b.fields ≠ []
  /-- There is a row. -/
  rows : b.rows ≠ []
  /-- No two columns have one name. -/
  distinct : (b.fields.map FieldOf.name).Nodup
  /-- There are columns of three types. -/
  types : ∀ f ∈ b.fields, f.type = .int64 ∨ f.type = .utf8 ∨ f.type = .boolean
  /-- The columns can hold the rows. -/
  fits : b.Fits

/-- Cells that columns of the three types can hold are simple. -/
lemma held_of_fitsParts
    (htypes : ∀ f ∈ fields, f.type = .int64 ∨ f.type = .utf8 ∨ f.type = .boolean)
    (h : Cell.FitsParts true fields row) : Held fields row := by
  induction fields generalizing row with
  | nil => cases row with
    | nil => exact .nil
    | cons cell row => exact h.elim
  | cons f fields ih => cases row with
    | nil => exact h.elim
    | cons cell row =>
      obtain ⟨hfirst, hrest⟩ := List.forall_mem_cons.mp htypes
      exact .cons (Cell.simple_of_fits hfirst h.1) (ih hrest h.2.2)

/-- The cells of the rows of a plain table are simple. -/
lemma Plain.held {b : Batch} (h : b.Plain) : ∀ row ∈ b.rows, Held b.fields row :=
  fun row hrow => held_of_fitsParts h.types (h.fits row hrow)

/-- The cells of the rows of a plain table are simple cells of its columns before the first row. -/
lemma Plain.heldIn {b : Batch} (h : b.Plain) :
    ∀ row ∈ b.rows, ValueType.HeldIn (ValueType.unseen b.fields) row := fun row hrow => by
  rw [ValueType.heldIn_iff, ValueType.map_fst_unseen]
  exact h.held row hrow

/-- The columns of a table after all of its rows. -/
def noted (b : Batch) : ValueType.Noted := b.rows.foldl ValueType.note (ValueType.unseen b.fields)

/-- The columns are those of the table. -/
lemma Plain.map_fst_noted {b : Batch} (h : b.Plain) : b.noted.map Prod.fst = b.fields := by
  rw [noted, ValueType.map_fst_foldl_note h.heldIn, ValueType.map_fst_unseen]

/-- **The columns of the records of a plain table** are told from what was seen in its rows. -/
lemma fieldsOfRecords_eq {b : Batch} (h : b.Plain) :
    fieldsOfRecords (b.rows.map (valuesOf b.fields)) = .ok (ValueType.told b.noted) := by
  have htypes : (b.rows.map (valuesOf b.fields)).mapM ValueType.ofMembers =
      .ok (b.rows.map fun row =>
        ValueType.known (ValueType.note (ValueType.unseen b.fields) row)) := by
    rw [List.mapM_map]
    exact Outcome.mapM_eq_map fun row hrow => ValueType.ofMembers_valuesOf (h.held row hrow)
  have hmembers := ValueType.foldlM_mergeMembers_nil h.rows h.heldIn h.distinct
  obtain ⟨first, rest, hrows⟩ := List.exists_cons_of_ne_nil h.rows
  have hfirst : ValueType.HeldIn b.noted first := by
    rw [ValueType.heldIn_iff, h.map_fst_noted]
    exact h.held first (hrows ▸ List.mem_cons_self)
  rw [fieldsOfRecords, htypes, Outcome.ok_bind, hmembers, Outcome.ok_bind]
  exact congrArg Except.ok (ValueType.fields_known hfirst)

/-- **The table of the records of a plain table** has the rows of the table.

**Proof sketch.** The columns are told from what was seen in the rows (`fieldsOfRecords_eq`).
All values are seen in the end, so that each row is read back from its record; a column in
which no value was seen holds nulls only. -/
theorem ofRecords_eq {b : Batch} (h : b.Plain) :
    ofRecords (b.rows.map (valuesOf b.fields)) = .ok ⟨ValueType.told b.noted, b.rows⟩ := by
  have hempty : (b.rows.map (valuesOf b.fields)).isEmpty = false := by
    rw [List.isEmpty_eq_false_iff, ne_eq, List.map_eq_nil_iff]
    exact h.rows
  have hrows : (b.rows.map (valuesOf b.fields)).mapM (Cell.partsOfJson? (ValueType.told b.noted)) =
      some b.rows := by
    refine Json.mapM_map_eq_some fun row hrow => ?_
    have hseen := ValueType.seenIn_foldl_note h.heldIn row hrow
    refine ValueType.partsOfJson?_told hseen fun e he => ?_
    have he' : e ∈ b.fields.zip row := h.map_fst_noted ▸ he
    exact lookup?_valuesOf (h.held row hrow) h.distinct he'
  rw [ofRecords, hempty, if_neg Bool.false_ne_true, fieldsOfRecords_eq h, Outcome.ok_bind, hrows]
  rfl

end Batch

/-! ### Queries -/

namespace Query

/-- A query without predicates and limit that selects all columns collects all records. -/
lemma collect_all (name : String) (records : List Record) :
    collect ⟨none, name, [], none⟩ 0 records = .ok records := by
  have hevaluates : ∀ record ∈ records, Evaluates ⟨none, name, [], none⟩ record :=
    fun _ _ p hp => by cases hp
  have hkept : records.filter (keeps ⟨none, name, [], none⟩) = records :=
    List.filter_eq_self.mpr fun _ _ => rfl
  rw [collect_eq hevaluates, hkept]
  exact congrArg Except.ok (List.map_id records)

/-- **A query that selects everything** gives the records of the table. -/
theorem run_all {names : List String} {table : Batch} {text name : String}
    (hparse : parse text = .ok ⟨none, name, [], none⟩) (hname : name ∈ names)
    {records : List Record} (hrecords : table.toRecords = .ok records) :
    run names (some table) text = .ok records := by
  rw [run_eq_bind hparse hname (fun _ h => by cases h), hrecords, Outcome.ok_bind]
  exact collect_all name records

/-- The query that selects everything. -/
lemma parse_star : parse "SELECT * FROM self" = .ok ⟨none, "self", [], none⟩ := rfl

end Query

/-- **Selecting everything is the identity on plain tables.** There is a table of all rows, with all
values and nulls in their places under the same names. Only the types of columns without any value
are lost.

**Proof sketch.** The query gives the records of all rows (`Query.run_all`), from which the
table is made again with the same rows (`Batch.ofRecords_eq`). Its columns are those of the
table, each with its type or, where no value was seen, as a column of nulls. -/
theorem selectTable_star {names : List String} (hnames : "self" ∈ names) {table : Batch}
    (h : table.Plain) :
    ∃ result, selectTable Query.run names (some table) "SELECT * FROM self" = .ok result ∧
      result.fields.map FieldOf.name = table.fields.map FieldOf.name ∧
      result.rows = table.rows ∧ result.Fits ∧
      List.Forall₂ (fun f f' => f'.type = f.type ∨ f'.type = .null) table.fields
        result.fields := by
  have hrecords : Query.run names (some table) "SELECT * FROM self" =
      .ok (table.rows.map (Batch.valuesOf table.fields)) :=
    Query.run_all Query.parse_star hnames (Batch.toRecords_eq h.held h.distinct)
  have hempty : (table.rows.map (Batch.valuesOf table.fields)).isEmpty = false := by
    rw [List.isEmpty_eq_false_iff, ne_eq, List.map_eq_nil_iff]
    exact h.rows
  refine ⟨⟨ValueType.told table.noted, table.rows⟩, ?_, ?_, rfl, fun row hrow => ?_, ?_⟩
  · rw [selectTable, hrecords, Outcome.ok_bind, hempty, if_neg Bool.false_ne_true,
      Batch.ofRecords_eq h]
  · rw [← h.map_fst_noted, List.map_map, ValueType.told, List.map_map]
    rfl
  · exact ValueType.fitsParts_told (ValueType.seenIn_foldl_note h.heldIn row hrow)
  · conv => enter [2]; rw [← h.map_fst_noted]
    rw [ValueType.told, List.forall₂_map_left_iff, List.forall₂_map_right_iff,
      List.forall₂_same]
    intro c _
    cases c.2 with
    | true => exact Or.inl rfl
    | false => exact Or.inr rfl

/-- A column of numbers, one of texts that starts with a null, and one of truth values that are all
missing. -/
def sparseRows : Batch where
  fields := [⟨"id", .int64, false⟩, ⟨"name", .utf8, true⟩, ⟨"valid", .boolean, true⟩]
  rows := [[.int 1, .null, .null], [.int (-2), .text "b", .null]]

/-- Everything of a table with nulls. -/
theorem selectTable_star_sparseRows :
    sparseRows.Plain ∧ ∃ result,
      selectTable Query.run ["rows", "self"] (some sparseRows) "SELECT * FROM self" = .ok result ∧
      result.fields.map FieldOf.name = ["id", "name", "valid"] ∧
      result.rows = [[.int 1, .null, .null], [.int (-2), .text "b", .null]] ∧ result.Fits := by
  have hplain : sparseRows.Plain := by
    refine ⟨by simp [sparseRows], by simp [sparseRows], by decide, by simp [sparseRows], ?_⟩
    intro row hrow
    have hrows : row = [.int 1, .null, .null] ∨ row = [.int (-2), .text "b", .null] := by
      simpa [sparseRows] using hrow
    rcases hrows with rfl | rfl <;>
      simp [sparseRows, Cell.Fits, Cell.FitsParts, Cell.FitsScalar, Cell.isNull, ColumnType.int64,
        ColumnType.utf8, ColumnType.boolean, IntWidth.lo, IntWidth.hi, Number.least64,
        Number.greatest64]
  have hself : "self" ∈ ["rows", "self"] := by simp
  obtain ⟨result, hresult, hnames, hrows, hfits, -⟩ := selectTable_star hself hplain
  exact ⟨hplain, result, hresult, hnames, hrows, hfits⟩

end Lineage
