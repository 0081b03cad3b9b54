import Lineage.Proofs.Ty.Membership

set_option autoImplicit false

/-!
# The marks of the values that belong to a type

Marks are computed column by column: also where a struct is null and in the branches of a union that
are not selected, where any value may stand. What comes of it is one mark for every cell, which is
set exactly if the cell's value belongs to the type.

## Main definitions

* `Lineage.Ty.Legible`: cells that fit their column and whose dates can be read.
* `Lineage.Ty.Marks`: marks of single cells that say which values belong to a type.

## Main results

* `Lineage.Ty.Carries.exists_marks`: a column that carries the values of a type has marks that say
  which of its values belong to it.
-/

namespace Lineage.Ty

/-- A cell fits its column, and its dates can be read. -/
def Legible (t : Ty) (type : ColumnType) (cell : Cell) : Prop :=
  Cell.Fits type cell ∧ DatesReadable t type cell

/-- The marks for the legible cells of a column come from a mark for one cell. It is set exactly if
the value belongs to the type, where nulls stand only where they may. -/
structure Marks (t : Ty) (type : ColumnType) (mark : Cell → Bool) : Prop where
  /-- The cells of a column are marked one by one. -/
  selects : ∀ {cells : List Cell}, (∀ cell ∈ cells, Legible t type cell) →
    selectRows ⟨type, cells⟩ t = .ok (cells.map mark)
  /-- Values that belong are marked, and no others. -/
  belongs : ∀ {cell : Cell}, Legible t type cell → NullsPlaced t type cell →
    (mark cell = true ↔ Belongs t type cell)

/-- Marks that are all set say that all values belong. -/
lemma marks_true {t : Ty} {type : ColumnType}
    (hselect : ∀ cells : List Cell, selectRows ⟨type, cells⟩ t = .ok (cells.map fun _ => true))
    (hbelongs : ∀ cell, Belongs t type cell) : Marks t type fun _ => true where
  selects _ := hselect _
  belongs _ _ := iff_of_true rfl (hbelongs _)

/-! ### Leaves -/

section Leaves

variable {info : Info}

/-- The mark of a cell that has a reading; others are marked. -/
def readMark {α : Type} (test : α → Bool) (reading : Cell → Option α) (cell : Cell) : Bool :=
  match reading cell with
  | some a => test a
  | none => true

/-- Cells are marked by their readings. -/
lemma marks_of_reading {α : Type} {content : Leaf} {test : α → Bool} {reading : Cell → Option α}
    (hstored : (leafColumn content).1 ≠ .null)
    (hselect : ∀ {cells},
      (∀ cell ∈ cells, Legible (.leaf info content) (leafColumn content).1 cell) →
      selectByLeaf ⟨(leafColumn content).1, cells⟩ content = .ok (marks test (cells.map reading)))
    (hadmits : ∀ cell, Legible (.leaf info content) (leafColumn content).1 cell →
      cell.isNull = false → (readMark test reading cell = true ↔ LeafAdmits content cell)) :
    Marks (.leaf info content) (leafColumn content).1 (readMark test reading) where
  selects h := by
    rw [selectRows, hselect h, marks, List.map_map]
    rfl
  belongs hlegible hnulls := by
    cases hnulls with
    | leaf present =>
      rw [hadmits _ hlegible (present hstored)]
      constructor
      · exact .leaf
      · rintro ⟨admitted⟩
        exact admitted

/-- Whole numbers are stored with a width of at most 64 bits. -/
lemma leafColumn_integer (lo hi : Int) (base : IntegerBase) :
    ∃ width : IntWidth, (leafColumn (.integer lo hi base)).1 = .scalar (.integer width) ∧
      IntWidth.i64.lo ≤ width.lo ∧ width.hi ≤ IntWidth.i64.hi := by
  cases base <;> exact ⟨_, rfl, by decide, by decide⟩

/-- Whole numbers are marked if they lie between the bounds. -/
lemma marks_integer (lo hi : Int) (base : IntegerBase) :
    Marks (.leaf info (.integer lo hi base)) (leafColumn (.integer lo hi base)).1
      (readMark (fun n => decide (lo ≤ n ∧ n ≤ hi)) Column.cellInt?) := by
  obtain ⟨width, hwidth, hlo, hhi⟩ := leafColumn_integer lo hi base
  refine marks_of_reading (by simp [hwidth, ColumnType.null]) (fun _ => ?_)
    fun cell ⟨hfits, _⟩ hpresent => ?_
  · rw [hwidth]
    rfl
  · rw [hwidth] at hfits
    have hvalue := hfits.of_scalar hpresent
    cases cell with
    | int n =>
      have hread : Column.cellInt? (.int n) = some n :=
        if_pos ⟨Int.le_trans hlo hvalue.1, Int.le_trans hvalue.2 hhi⟩
      rw [readMark, hread]
      exact decide_eq_true_iff
    | _ => exact hvalue.elim

/-- Doubles are marked if they lie between the bounds. -/
lemma marks_float (lo hi : Float) (base : FloatBase) :
    Marks (.leaf info (.float lo hi base)) (leafColumn (.float lo hi base)).1
      (readMark (fun x => decide (lo ≤ x) && decide (x ≤ hi)) Column.cellFloat?) := by
  have hstored : ∃ s, (leafColumn (.float lo hi base)).1 = .scalar s ∧
      (s = .float32 ∨ s = .float64) := by
    cases base
    · exact ⟨_, rfl, Or.inl rfl⟩
    · exact ⟨_, rfl, Or.inr rfl⟩
  obtain ⟨s, heq, hs⟩ := hstored
  refine marks_of_reading ?_ (fun _ => ?_) fun cell ⟨hfits, _⟩ hpresent => ?_
  · rcases hs with rfl | rfl <;> simp [heq, ColumnType.null]
  · rw [heq]
    rcases hs with rfl | rfl <;> rfl
  · rw [heq] at hfits
    have hvalue := hfits.of_scalar hpresent
    rcases hs with rfl | rfl <;> cases cell with
    | float x => simp [readMark, Column.cellFloat?, LeafAdmits]
    | _ => exact hvalue.elim

/-- The text of a cell of a column of texts or dates. -/
def textOf : Cell → Option String
  | .text t => some t
  | .int days => Calendar.dateText? days
  | _ => none

/-- A column of cells with texts is read cell by cell. -/
lemma asTexts_eq {s : Scalar} {cells : List Cell}
    (h : ∀ cell ∈ cells, Column.cellText (.scalar s) cell = .ok (textOf cell)) :
    Column.asTexts ⟨.scalar s, cells⟩ = .ok (cells.map textOf) :=
  Outcome.mapM_eq_map h

/-- The text of a cell of a text column. -/
lemma cellText_utf8 {cell : Cell} (h : Cell.Fits .utf8 cell) :
    Column.cellText .utf8 cell = .ok (textOf cell) := by
  rw [ColumnType.utf8, Cell.Fits] at h
  rcases h with rfl | h
  · rfl
  · cases cell with
    | text t => rfl
    | _ => exact h.elim

/-- The text of a date within the calendar's range. -/
lemma cellText_date32 {format lo hi : String} {cell : Cell}
    (h : Legible (.leaf info (.datetime format lo hi .date)) (.scalar .date32) cell) :
    Column.cellText (.scalar .date32) cell = .ok (textOf cell) := by
  obtain ⟨hfits, hdates⟩ := h
  rw [Cell.Fits] at hfits
  rcases hfits with rfl | hfits
  · rfl
  · cases cell with
    | int days =>
      cases hdates with
      | leaf readable =>
        obtain ⟨text, htext⟩ := readable format lo hi days rfl rfl
        simp only [Column.cellText, Cell.isNull, Cell.text?, Cell.scalarText?, textOf, htext]
        rfl
    | _ => exact hfits.elim

/-- Texts are marked by a test that says which of them are admitted. -/
lemma marks_of_text {content : Leaf} {test : String → Bool}
    (hcolumn : leafColumn content = (.utf8, false))
    (hselect : ∀ c, selectByLeaf c content = c.asTexts.map (marks test))
    (hadmits : ∀ text, test text = true ↔ LeafAdmits content (.text text)) :
    Marks (.leaf info content) (leafColumn content).1 (readMark test textOf) := by
  refine marks_of_reading ?_ (fun h => ?_) fun cell ⟨hfits, _⟩ hpresent => ?_
  · simp [hcolumn, ColumnType.null, ColumnType.utf8]
  · rw [hcolumn] at h ⊢
    rw [hselect]
    exact congrArg (Except.map _) (asTexts_eq fun cell hcell => cellText_utf8 (h cell hcell).1)
  · rw [hcolumn] at hfits
    have hvalue := hfits.of_scalar hpresent
    cases cell with
    | text text => exact hadmits text
    | _ => exact hvalue.elim

/-- Dates are marked if their ISO texts lie between the bounds. -/
lemma marks_datetime_date (format lo hi : String) :
    Marks (.leaf info (.datetime format lo hi .date)) (.scalar .date32)
      (readMark (fun t => decide (lo ≤ t ∧ t ≤ hi)) textOf) := by
  refine marks_of_reading (by simp [leafColumn, ColumnType.null])
    (fun h => ?_) fun cell ⟨hfits, hdates⟩ hpresent => ?_
  · exact congrArg (Except.map _) (asTexts_eq fun cell hcell => cellText_date32 (h cell hcell))
  · have hvalue := hfits.of_scalar hpresent
    cases cell with
    | int days =>
      cases hdates with
      | leaf readable =>
        obtain ⟨text, htext⟩ := readable format lo hi days rfl rfl
        simp [readMark, textOf, LeafAdmits, htext]
    | _ => exact hvalue.elim

/-- **A column of a leaf has marks** that say which of its values belong to the leaf. -/
theorem exists_marks_leaf (info : Info) (content : Leaf) :
    ∃ mark, Marks (.leaf info content) (leafColumn content).1 mark := by
  cases content with
  | integer lo hi base => exact ⟨_, marks_integer lo hi base⟩
  | float lo hi base => exact ⟨_, marks_float lo hi base⟩
  | enum nameValues ordered =>
    exact ⟨_, marks_of_text rfl (fun _ => rfl) fun name => by simp [LeafAdmits]⟩
  | datetime format lo hi base =>
    cases base with
    | timestamp => exact ⟨_, marks_true (fun _ => rfl) fun _ => .leaf trivial⟩
    | date => exact ⟨_, marks_datetime_date format lo hi⟩
    | text => exact ⟨_, marks_of_text rfl (fun _ => rfl) fun text => decide_eq_true_iff⟩
  | null | unit | boolean | id | text | bytes =>
    exact ⟨_, marks_true (fun _ => rfl) fun _ => .leaf trivial⟩

/-- Any column has marks for a leaf without value, to which everything belongs. -/
lemma marks_of_null {content : Leaf} (hnone : (leafColumn content).1 = .null) (type : ColumnType) :
    Marks (.leaf info content) type fun _ => true := by
  cases content with
  | null | unit => exact marks_true (fun _ => rfl) fun _ => .leaf trivial
  | boolean | bytes | text | enum => cases hnone
  | id _ base | integer _ _ base | float _ _ base | datetime _ _ _ base =>
    cases base <;> cases hnone

end Leaves

/-! ### Members -/

section Members

variable {info : Info} {form : Form} {fields : List (String × Ty)} {type : ColumnType}

/-- The parts of a struct for given members are legible. -/
def LegibleParts (fields : List (String × Ty)) (type : ColumnType) (cell : Cell) : Prop :=
  ∀ member ∈ fields, ∀ part under, PartAt member.1 type cell part under →
    Legible member.2 part under

/-- The parts of legible structs are legible. -/
lemma Legible.parts {cell : Cell} (h : Legible (.members info form fields) type cell) :
    LegibleParts fields type cell := by
  intro member hmember part under hpart
  obtain ⟨hfits, hdates⟩ := h
  cases hdates with
  | members readable =>
    exact ⟨fits_of_partAt hfits hpart, readable member hmember part under hpart⟩

/-- The marks for structs by one of their members. -/
structure MemberMarks (type : ColumnType) (member : String × Ty) (mark : Cell → Bool) : Prop where
  /-- The parts are marked one by one. -/
  selects : ∀ {cells : List Cell} {fields : List (String × Ty)}, member ∈ fields →
    (∀ cell ∈ cells, LegibleParts fields type cell) →
    ∃ c, childColumn ⟨type, cells⟩ member.1 = .ok c ∧ selectRows c member.2 = .ok (cells.map mark)
  /-- Every struct has a part for the member. -/
  exists_part : ∀ cell, ∃ part under, PartAt member.1 type cell part under
  /-- Structs are marked whose part belongs to the member, and no others. -/
  belongs : ∀ {cell part under}, PartAt member.1 type cell part under →
    Legible member.2 part under → NullsPlaced member.2 part under →
    (mark cell = true ↔ Belongs member.2 part under)

/-- The marks for the cells of a part, as marks for the structs. -/
lemma Marks.member {member : String × Ty} {i : ℕ} {part : ColumnType}
    (hplace : place? member.1 type = some (i, part)) {mark : Cell → Bool}
    (h : Marks member.2 part mark) : MemberMarks type member (mark ∘ Cell.part i) where
  selects {cells _} hmember hlegible := by
    have hparts : ∀ under ∈ cells.map (Cell.part i), Legible member.2 part under :=
      List.forall_mem_map.mpr fun cell hcell =>
        hlegible cell hcell member hmember part _ ⟨i, hplace, rfl⟩
    refine ⟨⟨part, cells.map (Cell.part i)⟩, childColumn_of_place? hplace cells, ?_⟩
    rw [h.selects hparts, List.map_map]
  exists_part cell := ⟨part, cell.part i, i, hplace, rfl⟩
  belongs hpart hlegible hnulls := by
    obtain ⟨rfl, rfl⟩ := (partAt_iff hplace).mp hpart
    exact h.belongs hlegible hnulls

variable {mark : String × Ty → Cell → Bool}

/-- The marks for structs by all their members, after those for other members. -/
lemma selectFields_eq (hmark : ∀ member ∈ fields, MemberMarks type member (mark member))
    {cells : List Cell} (hlegible : ∀ cell ∈ cells, LegibleParts fields type cell)
    (before : Cell → Bool) :
    selectFields ⟨type, cells⟩ (cells.map before) fields =
      .ok (cells.map fun cell => before cell && fields.all fun member => mark member cell) := by
  induction fields generalizing before with
  | nil => simp [selectFields]
  | cons member rest ih =>
    obtain ⟨name, t⟩ := member
    obtain ⟨hfirst, hrest⟩ := List.forall_mem_cons.mp hmark
    obtain ⟨c, hc, hselect⟩ := hfirst.selects List.mem_cons_self hlegible
    rw [selectFields, hc, Outcome.ok_bind, hselect, Outcome.ok_bind, bothMarks, List.zipWith_map,
      List.zipWith_self, ih hrest fun cell hcell member hmember =>
        hlegible cell hcell member (List.mem_cons_of_mem _ hmember)]
    simp only [List.all_cons, Bool.and_assoc]

/-- The marks for structs by each of their members. -/
lemma selectBranches_eq (hmark : ∀ member ∈ fields, MemberMarks type member (mark member))
    {cells : List Cell} (hlegible : ∀ cell ∈ cells, LegibleParts fields type cell) :
    selectBranches ⟨type, cells⟩ fields =
      .ok (fields.map fun member => (member.1, cells.map (mark member))) := by
  induction fields with
  | nil => rfl
  | cons member rest ih =>
    obtain ⟨name, t⟩ := member
    obtain ⟨hfirst, hrest⟩ := List.forall_mem_cons.mp hmark
    obtain ⟨c, hc, hselect⟩ := hfirst.selects List.mem_cons_self hlegible
    rw [selectBranches, hc, Outcome.ok_bind, hselect, Outcome.ok_bind,
      ih hrest fun cell hcell member hmember =>
        hlegible cell hcell member (List.mem_cons_of_mem _ hmember)]
    rfl

/-- The marks of a column of structs: those by all members. -/
lemma marks_struct (hstruct : type.isStruct = true)
    (hmark : ∀ member ∈ fields, MemberMarks type member (mark member)) :
    Marks (.members info .struct fields) type
      fun cell => fields.all fun member => mark member cell := by
  refine ⟨?_, ?_⟩
  · intro cells hlegible
    rw [selectRows, requireStruct, if_pos hstruct, Outcome.ok_bind,
      selectFields_eq hmark fun cell hcell => (hlegible cell hcell).parts]
    simp only [Bool.true_and]
  · intro cell hlegible hnulls
    cases hnulls with
    | struct present placed =>
      rw [List.all_eq_true]
      have hiff : ∀ member (hmember : member ∈ fields) part under,
          PartAt member.1 type cell part under →
            (mark member cell = true ↔ Belongs member.2 part under) :=
        fun member hmember part under hpart => (hmark member hmember).belongs hpart
          (hlegible.parts member hmember part under hpart) (placed member hmember part under hpart)
      constructor
      · exact fun hall => .struct fun member hmember part under hpart =>
          (hiff member hmember part under hpart).mp (hall member hmember)
      · intro hbelongs member hmember
        cases hbelongs with
        | struct belongs =>
          obtain ⟨part, under, hpart⟩ := (hmark member hmember).exists_part cell
          exact (hiff member hmember part under hpart).mpr (belongs member hmember part under hpart)

/-- The name of the branch that is selected in a struct whose selector is at a place. -/
def branchName? (i : ℕ) (cell : Cell) : Option String :=
  match cell.part i with
  | .text name => some name
  | _ => none

/-- The selected branch by the place of the selector. -/
lemma selects_iff {i : ℕ} (hplace : place? fieldSelected type = some (i, .utf8)) {cell : Cell}
    {name : String} : Selects type cell name ↔ branchName? i cell = some name := by
  rw [Selects, partAt_iff hplace, branchName?]
  cases cell.part i <;> simp [eq_comm]

/-- The names of the branches of the structs of a column. -/
lemma selectedBranches_eq {i : ℕ} (hplace : place? fieldSelected type = some (i, .utf8))
    (cells : List Cell) : selectedBranches ⟨type, cells⟩ = .ok (cells.map (branchName? i)) := by
  rw [selectedBranches, childColumn_of_place? hplace, Outcome.ok_bind, if_pos rfl, List.map_map]
  rfl

/-- The marks of rows by branches that are marked cell by cell. -/
lemma map_branchMark (names : Cell → Option String) (cells : List Cell) :
    (cells.map names).zipIdx.map
        (branchMark (fields.map fun member => (member.1, cells.map (mark member)))) =
      cells.map fun cell =>
        rowMark (names cell) (fields.map fun member => (member.1, some (mark member cell))) := by
  refine List.ext_getElem (by simp) fun i hi hi' => ?_
  have hlt : i < cells.length := by simpa using hi'
  simp [branchMark_eq, rowAt, Function.comp_def, hlt]

/-- A row is marked if it is by the first member of the name of its branch. -/
lemma rowMark_eq_true_iff {name : Option String} {cell : Cell} :
    rowMark name (fields.map fun member => (member.1, some (mark member cell))) = true ↔
      ∃ n t, name = some n ∧ lookup? n fields = some t ∧ mark (n, t) cell = true := by
  cases name with
  | none => simp [rowMark]
  | some n =>
    simp only [rowMark, List.find?_map, lookup?, Function.comp_def]
    cases hfind : fields.find? fun member => member.1 == n with
    | none => simp [hfind]
    | some member =>
      obtain ⟨name, t⟩ := member
      have hname := List.find?_some hfind
      rw [beq_iff_eq] at hname
      subst hname
      simp [hfind]

/-- The marks of a column of structs with a selector: those by the selected members. -/
lemma marks_union (hstruct : type.isStruct = true) {i : ℕ}
    (hplace : place? fieldSelected type = some (i, .utf8))
    (hmark : ∀ member ∈ fields, MemberMarks type member (mark member)) :
    Marks (.members info .union fields) type fun cell => rowMark (branchName? i cell)
      (fields.map fun member => (member.1, some (mark member cell))) := by
  refine ⟨?_, ?_⟩
  -- every branch is marked in all rows, also where another one is selected
  · intro cells hlegible
    rw [selectRows, requireStruct, if_pos hstruct, Outcome.ok_bind, selectedBranches_eq hplace,
      Outcome.ok_bind, selectBranches_eq hmark fun cell hcell => (hlegible cell hcell).parts,
      Outcome.ok_bind, map_branchMark]
  -- of these marks only the one of the selected branch is read, where nulls are in place
  · intro cell hlegible hnulls
    rw [rowMark_eq_true_iff]
    cases hnulls with
    | union present placed =>
      constructor
      · rintro ⟨name, t, hname, hfound, htrue⟩
        have hselects := (selects_iff hplace).mpr hname
        have hmember := mem_of_lookup? hfound
        obtain ⟨part, under, hpart⟩ := (hmark (name, t) hmember).exists_part cell
        have hiff := (hmark (name, t) hmember).belongs hpart
          (hlegible.parts _ hmember part under hpart)
          (placed name t part under hselects hfound hpart)
        exact .union hselects hfound hpart (hiff.mp htrue)
      · intro hbelongs
        cases hbelongs with
        | @union _ _ _ _ name t part under selected hfound hpart belongs =>
          have hmember := mem_of_lookup? hfound
          have hiff := (hmark (name, t) hmember).belongs hpart
            (hlegible.parts _ hmember part under hpart)
            (placed name t part under selected hfound hpart)
          exact ⟨name, t, (selects_iff hplace).mp selected, hfound, hiff.mpr belongs⟩

end Members

/-! ### All types -/

section Wrappers

variable {info : Info} {inner : Ty} {type : ColumnType} {mark : Cell → Bool}

/-- What is legible as an optional value is legible as one of the type inside. -/
lemma Legible.optional {cell : Cell} (h : Legible (.wrapped info .optional inner) type cell) :
    Legible inner type cell := by
  obtain ⟨hfits, hdates⟩ := h
  cases hdates with
  | optional readable => exact ⟨hfits, readable⟩

/-- What is legible as a constrained value is legible as one of the type inside. -/
lemma Legible.constrained {constraint : String} {cell : Cell}
    (h : Legible (.wrapped info (.constrained constraint) inner) type cell) :
    Legible inner type cell := by
  obtain ⟨hfits, hdates⟩ := h
  cases hdates with
  | constrained readable => exact ⟨hfits, readable⟩

/-- What is legible as a value of a hypothesis is legible as one of the best candidate. -/
lemma Legible.hypothesis {types : List (Ty × Float)} {cell : Cell}
    (h : Legible (.hypothesis info types) type cell) {best : Ty}
    (hbest : bestOf? types = some best) :
    Legible best type cell := by
  obtain ⟨hfits, hdates⟩ := h
  cases hdates with
  | hypothesis readable => exact ⟨hfits, readable best hbest⟩

/-- The marks of an optional type: nulls are marked as well. -/
lemma Marks.optional (h : Marks inner type mark) :
    Marks (.wrapped info .optional inner) type fun cell => mark cell || cell.isNull where
  selects {cells} hlegible := by
    rw [selectRows, h.selects fun cell hcell => (hlegible cell hcell).optional, Outcome.ok_bind,
      List.zipWith_map_left, List.zipWith_self]
  belongs {cell} hlegible hnulls := by
    cases hnulls with
    | optional placed =>
      rw [Bool.or_eq_true]
      cases hnull : cell.isNull with
      | true => exact iff_of_true (Or.inr rfl) (.null hnull)
      | false =>
        rw [h.belongs hlegible.optional (placed hnull)]
        constructor
        · exact fun hmark => .present (hmark.resolve_right Bool.false_ne_true)
        · intro hbelongs
          cases hbelongs with
          | null absent => cases hnull.symm.trans absent
          | present belongs => exact Or.inl belongs

/-- The marks of a constrained type are those of the type inside. -/
lemma Marks.constrained (h : Marks inner type mark) (constraint : String) :
    Marks (.wrapped info (.constrained constraint) inner) type mark where
  selects {cells} hlegible := by
    rw [selectRows]
    exact h.selects fun cell hcell => (hlegible cell hcell).constrained
  belongs hlegible hnulls := by
    cases hnulls with
    | constrained placed =>
      rw [h.belongs hlegible.constrained placed]
      constructor
      · exact .constrained
      · intro hbelongs
        cases hbelongs with
        | constrained belongs => exact belongs

/-- The marks of a hypothesis are those of its best candidate. -/
lemma Marks.hypothesis {types : List (Ty × Float)} {best : Ty} (hbest : bestOf? types = some best)
    (h : Marks best type mark) : Marks (.hypothesis info types) type mark where
  selects {cells} hlegible := by
    rw [selectRows_hypothesis, hbest]
    exact h.selects fun cell hcell => (hlegible cell hcell).hypothesis hbest
  belongs hlegible hnulls := by
    cases hnulls with
    | hypothesis placed =>
      rw [h.belongs (hlegible.hypothesis hbest) (placed best hbest)]
      constructor
      · refine fun hbelongs => .hypothesis fun best' hbest' => ?_
        cases hbest.symm.trans hbest'
        exact hbelongs
      · intro hbelongs
        cases hbelongs with
        | hypothesis belongs => exact belongs best hbest

/-- Without candidates all rows are marked, and everything belongs. -/
lemma marks_noCandidates {types : List (Ty × Float)} (hbest : bestOf? types = none) :
    Marks (.hypothesis info types) type fun _ => true := by
  refine marks_true (fun cells => ?_) fun _ => .hypothesis fun best hsome => ?_
  · rw [selectRows_hypothesis, hbest]
    rfl
  · cases hbest.symm.trans hsome

end Wrappers

/-- **A column that carries the values of a type has marks** that say which of its values belong to
the type, also where its cells stand in structs that are null or in branches that do not count.

**Proof sketch.** By induction on the type. A leaf is marked by the reading of its cells
(`marks_of_reading`). The marks of the members give marks for the structs they are parts of
(`Marks.member`): a struct is marked if all its members are (`marks_struct`), a union if the
selected one is (`marks_union`), whatever stands in the other branches. -/
theorem Carries.exists_marks {t : Ty} {type : ColumnType} (hcarries : Carries t type) :
    ∃ mark, Marks t type mark := by
  -- parts are stored in other columns, so the column is generalized
  induction t using induction generalizing type with
  | leaf info content =>
    cases hcarries with
    | leaf stored =>
      rcases stored with hnone | rfl
      · exact ⟨_, marks_of_null hnone type⟩
      · exact exists_marks_leaf info content
  | members info form fields ih =>
    obtain ⟨fs, htype, -⟩ := hcarries.of_members
    have hstruct : type.isStruct = true := by rw [htype, ColumnType.isStruct]
    have hmarks : ∀ member ∈ fields, ∃ mark, MemberMarks type member mark := by
      intro member hmember
      obtain ⟨i, part, hplace, hpart⟩ := hcarries.member hmember
      obtain ⟨mark, hmark⟩ := ih member hmember hpart
      exact ⟨_, hmark.member hplace⟩
    choose! mark hmark using hmarks
    cases hcarries with
    | struct => exact ⟨_, marks_struct hstruct hmark⟩
    | union named carried selector =>
      obtain ⟨i, hplace⟩ := selector
      exact ⟨_, marks_union hstruct hplace hmark⟩
  | wrapped info wrapper inner ih =>
    cases hcarries with
    | optional carried =>
      obtain ⟨mark, hmark⟩ := ih carried
      exact ⟨_, hmark.optional⟩
    | constrained carried =>
      obtain ⟨mark, hmark⟩ := ih carried
      exact ⟨_, hmark.constrained _⟩
    | list => exact ⟨_, marks_true (fun _ => rfl) fun _ => .list⟩
    | array => exact ⟨_, marks_true (fun _ => rfl) fun _ => .array⟩
  | hypothesis info types ih =>
    cases hcarries with
    | hypothesis carried =>
      cases hbest : bestOf? types with
      | some best =>
        obtain ⟨score, hmem⟩ := mem_of_bestOf? hbest
        obtain ⟨mark, hmark⟩ := ih _ hmem (carried best hbest)
        exact ⟨_, hmark.hypothesis hbest⟩
      | none => exact ⟨_, marks_noCandidates hbest⟩

/-- A column that stores the values of a type has marks. -/
lemma exists_marks {t : Ty} {type : ColumnType} (hstored : StoredIn t type) :
    ∃ mark, Marks t type mark := hstored.carries.exists_marks

end Lineage.Ty
