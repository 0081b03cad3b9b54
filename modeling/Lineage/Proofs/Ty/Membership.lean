import Lineage.Proofs.Column.Fits
import Lineage.Proofs.Ty.Rowwise

set_option autoImplicit false

/-!
# Values that belong to a type

Whether a value belongs to a type is said by recursion on the type: of a struct, every field
belongs; of a union, the branch that is selected does. It means something for columns that store the
values of the type, and for cells that have nulls only where the type has a place for them.

## Main definitions

* `Lineage.Ty.PartAt`: the value of a name in a struct.
* `Lineage.Ty.StoredIn`, `Lineage.Ty.Carries`: a column stores the values of a type.
* `Lineage.Ty.NullsPlaced`, `Lineage.Ty.DatesReadable`: what is asked of the cells of a column.
* `Lineage.Ty.Belongs`: a value belongs to a type.

## Main results

* `Lineage.Ty.induction`: induction on types.
* `Lineage.Ty.Carries.member`: a column that carries the values of a struct or union has a column
  for every member.

## Design

A value is a cell together with the type of its column, which says where the parts of a struct are.
-/

namespace Lineage

namespace Ty

/-- Induction on types: a type has what its members, its inner type or its candidates have. -/
@[elab_as_elim]
theorem induction {P : Ty → Prop} (leaf : ∀ info content, P (.leaf info content))
    (members : ∀ info form fields, (∀ member ∈ fields, P member.2) → P (.members info form fields))
    (wrapped : ∀ info wrapper inner, P inner → P (.wrapped info wrapper inner))
    (hypothesis : ∀ info types, (∀ candidate ∈ types, P candidate.1) → P (.hypothesis info types))
    (t : Ty) : P t :=
  @Ty.rec P (fun fields => ∀ member ∈ fields, P member.2) (fun types => ∀ entry ∈ types, P entry.1)
    (fun member => P member.2) (fun candidate => P candidate.1) leaf members wrapped hypothesis
    (List.forall_mem_nil _) (fun _ _ hfirst hrest => List.forall_mem_cons.mpr ⟨hfirst, hrest⟩)
    (List.forall_mem_nil _) (fun _ _ hfirst hrest => List.forall_mem_cons.mpr ⟨hfirst, hrest⟩)
    (fun _ _ ht => ht) (fun _ _ ht => ht) t

/-! ### Parts of values -/

/-- Where the first part of a name is in the structs of a column, and the type of its column. -/
def place? (name : String) (type : ColumnType) : Option (ℕ × ColumnType) :=
  (Column.fieldIndex? name type.fields).bind fun i => (type.fields[i]?).map fun f => (i, f.type)

/-- A struct has a part under a name: the cell of this part and the type of its column. -/
def PartAt (name : String) (type : ColumnType) (cell : Cell) (part : ColumnType) (under : Cell) :
    Prop :=
  ∃ i, place? name type = some (i, part) ∧ under = cell.part i

/-- The name of the branch that is selected in a value of a union. -/
def Selects (type : ColumnType) (cell : Cell) (name : String) : Prop :=
  PartAt fieldSelected type cell .utf8 (.text name)

/-- The place of a name is that of a field with this name. -/
lemma place?_eq_some {name : String} {type part : ColumnType} {i : ℕ}
    (h : place? name type = some (i, part)) :
    Column.fieldIndex? name type.fields = some i ∧
      ∃ f, type.fields[i]? = some f ∧ f.name = name ∧ f.type = part := by
  unfold place? at h
  obtain ⟨j, hj, h⟩ := Option.bind_eq_some_iff.mp h
  obtain ⟨f, hf, h⟩ := Option.map_eq_some_iff.mp h
  cases h
  obtain ⟨hlt, hname, -⟩ := List.findIdx?_eq_some_iff_getElem.mp hj
  cases (List.getElem?_eq_getElem hlt).symm.trans hf
  exact ⟨hj, _, hf, beq_iff_eq.mp hname, rfl⟩

/-- The column of the parts of a name that has a place. -/
lemma childColumn_of_place? {name : String} {type part : ColumnType} {i : ℕ}
    (h : place? name type = some (i, part)) (cells : List Cell) :
    childColumn ⟨type, cells⟩ name = .ok ⟨part, cells.map (Cell.part i)⟩ := by
  obtain ⟨hindex, f, hf, -, rfl⟩ := place?_eq_some h
  simp [childColumn, Column.child?, hindex, Column.childAt?, hf, Outcome.ofOption]

/-- A name that a field has, has a place. -/
lemma exists_place? {name : String} {type : ColumnType} (h : ∃ f ∈ type.fields, f.name = name) :
    ∃ i f, type.fields[i]? = some f ∧ f.name = name ∧ place? name type = some (i, f.type) := by
  obtain ⟨f, hf, hname⟩ := h
  cases hindex : Column.fieldIndex? name type.fields with
  | none =>
    have hnone := List.findIdx?_eq_none_iff.mp hindex f hf
    rw [hname, beq_self_eq_true] at hnone
    cases hnone
  | some i =>
    obtain ⟨hlt, hname, -⟩ := List.findIdx?_eq_some_iff_getElem.mp hindex
    have hfield := List.getElem?_eq_getElem hlt
    refine ⟨i, _, hfield, beq_iff_eq.mp hname, ?_⟩
    rw [place?, hindex, Option.bind_some, hfield]
    rfl

/-- The part under a name that has a place. -/
lemma partAt_iff {name : String} {type part part' : ColumnType} {i : ℕ}
    (h : place? name type = some (i, part)) {cell under : Cell} :
    PartAt name type cell part' under ↔ part' = part ∧ under = cell.part i := by
  unfold PartAt
  rw [h]
  constructor
  · rintro ⟨j, heq, hunder⟩
    cases heq
    exact ⟨rfl, hunder⟩
  · rintro ⟨rfl, hunder⟩
    exact ⟨i, rfl, hunder⟩

/-- One branch at most is selected. -/
lemma Selects.eq {type : ColumnType} {cell : Cell} {name name' : String}
    (h : Selects type cell name) (h' : Selects type cell name') : name = name' := by
  obtain ⟨i, hplace, hname⟩ := h
  exact (Cell.text.inj (((partAt_iff hplace).mp h').2.trans hname.symm)).symm

/-- The parts of a cell that fits its column fit theirs. -/
lemma fits_of_partAt {name : String} {type part : ColumnType} {cell under : Cell}
    (hfits : Cell.Fits type cell) (hpart : PartAt name type cell part under) :
    Cell.Fits part under := by
  obtain ⟨i, hplace, rfl⟩ := hpart
  obtain ⟨-, f, hf, -, rfl⟩ := place?_eq_some hplace
  cases type with
  | struct fs => exact (hfits.of_struct hf).1
  | scalar s | list layout item => cases hf

/-- A member that is found under a name is one of them. -/
lemma mem_of_lookup? {name : String} {fields : List (String × Ty)} {t : Ty}
    (h : lookup? name fields = some t) : (name, t) ∈ fields := by
  obtain ⟨member, hfind, rfl⟩ := Option.map_eq_some_iff.mp h
  have hname := List.find?_some hfind
  rw [beq_iff_eq] at hname
  subst hname
  exact List.mem_of_find?_eq_some hfind

/-! ### What is asked of columns -/

/-- A column of a type stores the values of a type: the columns of leaves are as these say, a struct
or union has a column for every member, a union also one for the names of the branches. Further
columns may be there. -/
inductive StoredIn : Ty → ColumnType → Prop
  /-- The column of a leaf. -/
  | leaf {info : Info} {content : Leaf} : StoredIn (.leaf info content) (leafColumn content).1
  /-- The columns of the members of a struct. -/
  | struct {info : Info} {fields : List (String × Ty)} {fs : List Field}
      (named : ∀ member ∈ fields, ∃ f ∈ fs, f.name = member.1)
      (stored : ∀ member ∈ fields, ∀ f ∈ fs, f.name = member.1 → StoredIn member.2 f.type) :
      StoredIn (.members info .struct fields) (.struct fs)
  /-- The columns of the members of a union, and the one that names the branches. -/
  | union {info : Info} {fields : List (String × Ty)} {fs : List Field}
      (named : ∀ member ∈ fields, ∃ f ∈ fs, f.name = member.1)
      (stored : ∀ member ∈ fields, ∀ f ∈ fs, f.name = member.1 → StoredIn member.2 f.type)
      (selector : ∃ i, place? fieldSelected (.struct fs) = some (i, .utf8)) :
      StoredIn (.members info .union fields) (.struct fs)
  /-- An optional type is stored like the type inside. -/
  | optional {info : Info} {inner : Ty} {type : ColumnType} (stored : StoredIn inner type) :
      StoredIn (.wrapped info .optional inner) type
  /-- A constrained type is stored like the type inside. -/
  | constrained {info : Info} {constraint : String} {inner : Ty} {type : ColumnType}
      (stored : StoredIn inner type) : StoredIn (.wrapped info (.constrained constraint) inner) type
  /-- The column of lists. -/
  | list {info : Info} {maxSize : ℕ} {inner : Ty} {item : Field}
      (stored : StoredIn inner item.type) :
      StoredIn (.wrapped info (.list maxSize) inner) (.list .small item)
  /-- The column of blocks. -/
  | array {info : Info} {shape : List ℕ} {inner : Ty} {length : ℕ} {item : Field}
      (stored : StoredIn inner item.type) :
      StoredIn (.wrapped info (.array shape) inner) (.list (.fixed length) item)
  /-- A hypothesis is stored like its best candidate. -/
  | hypothesis {info : Info} {types : List (Ty × Float)} {type : ColumnType}
      (stored : ∀ best, bestOf? types = some best → StoredIn best type) :
      StoredIn (.hypothesis info types) type

/-- A column carries the values of a type: as `StoredIn` says, but for leaves without value, for
which any column does. Such a column is not looked at. -/
inductive Carries : Ty → ColumnType → Prop
  /-- The column of a leaf. -/
  | leaf {info : Info} {content : Leaf} {type : ColumnType}
      (stored : (leafColumn content).1 = .null ∨ type = (leafColumn content).1) :
      Carries (.leaf info content) type
  /-- The columns of the members of a struct. -/
  | struct {info : Info} {fields : List (String × Ty)} {fs : List Field}
      (named : ∀ member ∈ fields, ∃ f ∈ fs, f.name = member.1)
      (carried : ∀ member ∈ fields, ∀ f ∈ fs, f.name = member.1 → Carries member.2 f.type) :
      Carries (.members info .struct fields) (.struct fs)
  /-- The columns of the members of a union, and the one that names the branches. -/
  | union {info : Info} {fields : List (String × Ty)} {fs : List Field}
      (named : ∀ member ∈ fields, ∃ f ∈ fs, f.name = member.1)
      (carried : ∀ member ∈ fields, ∀ f ∈ fs, f.name = member.1 → Carries member.2 f.type)
      (selector : ∃ i, place? fieldSelected (.struct fs) = some (i, .utf8)) :
      Carries (.members info .union fields) (.struct fs)
  /-- The column of an optional type carries the type inside. -/
  | optional {info : Info} {inner : Ty} {type : ColumnType} (carried : Carries inner type) :
      Carries (.wrapped info .optional inner) type
  /-- The column of a constrained type carries the type inside. -/
  | constrained {info : Info} {constraint : String} {inner : Ty} {type : ColumnType}
      (carried : Carries inner type) : Carries (.wrapped info (.constrained constraint) inner) type
  /-- The column of lists. -/
  | list {info : Info} {maxSize : ℕ} {inner : Ty} {item : Field}
      (carried : Carries inner item.type) :
      Carries (.wrapped info (.list maxSize) inner) (.list .small item)
  /-- The column of blocks, into which nothing looks. -/
  | array {info : Info} {shape : List ℕ} {inner : Ty} {type : ColumnType} :
      Carries (.wrapped info (.array shape) inner) type
  /-- The column of a hypothesis carries its best candidate. -/
  | hypothesis {info : Info} {types : List (Ty × Float)} {type : ColumnType}
      (carried : ∀ best, bestOf? types = some best → Carries best type) :
      Carries (.hypothesis info types) type

/-- A column that stores the values of a type carries them. -/
lemma StoredIn.carries {t : Ty} {type : ColumnType} (h : StoredIn t type) : Carries t type := by
  induction h with
  | leaf => exact .leaf (Or.inr rfl)
  | struct named _ ih => exact .struct named ih
  | union named _ selector ih => exact .union named ih selector
  | optional _ ih => exact .optional ih
  | constrained _ ih => exact .constrained ih
  | list _ ih => exact .list ih
  | array => exact .array
  | hypothesis _ ih => exact .hypothesis ih

/-- The columns of the members of a struct or union. -/
lemma Carries.of_members {info : Info} {form : Form} {fields : List (String × Ty)}
    {type : ColumnType} (h : Carries (.members info form fields) type) :
    ∃ fs, type = .struct fs ∧ ∀ member ∈ fields, (∃ f ∈ fs, f.name = member.1) ∧
      ∀ f ∈ fs, f.name = member.1 → Carries member.2 f.type := by
  cases h with
  | struct named carried => exact ⟨_, rfl, fun m hm => ⟨named m hm, carried m hm⟩⟩
  | union named carried selector => exact ⟨_, rfl, fun m hm => ⟨named m hm, carried m hm⟩⟩

/-- The column of a member of a struct or union. -/
lemma Carries.member {info : Info} {form : Form} {fields : List (String × Ty)}
    {type : ColumnType} (h : Carries (.members info form fields) type) {member : String × Ty}
    (hmember : member ∈ fields) :
    ∃ i part, place? member.1 type = some (i, part) ∧ Carries member.2 part := by
  obtain ⟨fs, rfl, hcarried⟩ := h.of_members
  obtain ⟨hnamed, hpart⟩ := hcarried member hmember
  obtain ⟨i, f, hf, hname, hplace⟩ := @exists_place? member.1 (.struct fs) hnamed
  exact ⟨i, f.type, hplace, hpart f (List.mem_of_getElem? hf) hname⟩

/-- A value has nulls only where it may: as a value of an optional type, or in the branches of a
union that are not selected. What stands inside lists and blocks is left aside. -/
inductive NullsPlaced : Ty → ColumnType → Cell → Prop
  /-- The value of a leaf is not null, but where the column only holds nulls. -/
  | leaf {info : Info} {content : Leaf} {type : ColumnType} {cell : Cell}
      (present : (leafColumn content).1 ≠ .null → cell.isNull = false) :
      NullsPlaced (.leaf info content) type cell
  /-- A struct is not null, and its members have nulls only where they may. -/
  | struct {info : Info} {fields : List (String × Ty)} {type : ColumnType} {cell : Cell}
      (present : cell.isNull = false)
      (placed : ∀ member ∈ fields, ∀ part under, PartAt member.1 type cell part under →
        NullsPlaced member.2 part under) :
      NullsPlaced (.members info .struct fields) type cell
  /-- A union is not null, and the selected member has nulls only where it may. -/
  | union {info : Info} {fields : List (String × Ty)} {type : ColumnType} {cell : Cell}
      (present : cell.isNull = false)
      (placed : ∀ name t part under, Selects type cell name → lookup? name fields = some t →
        PartAt name type cell part under → NullsPlaced t part under) :
      NullsPlaced (.members info .union fields) type cell
  /-- The value of an optional type may be null. -/
  | optional {info : Info} {inner : Ty} {type : ColumnType} {cell : Cell}
      (placed : cell.isNull = false → NullsPlaced inner type cell) :
      NullsPlaced (.wrapped info .optional inner) type cell
  /-- A constrained type has nulls where the type inside may have them. -/
  | constrained {info : Info} {constraint : String} {inner : Ty} {type : ColumnType} {cell : Cell}
      (placed : NullsPlaced inner type cell) :
      NullsPlaced (.wrapped info (.constrained constraint) inner) type cell
  /-- Lists are not looked into. -/
  | list {info : Info} {maxSize : ℕ} {inner : Ty} {type : ColumnType} {cell : Cell} :
      NullsPlaced (.wrapped info (.list maxSize) inner) type cell
  /-- Blocks are not looked into. -/
  | array {info : Info} {shape : List ℕ} {inner : Ty} {type : ColumnType} {cell : Cell} :
      NullsPlaced (.wrapped info (.array shape) inner) type cell
  /-- A hypothesis has nulls where its best candidate may have them. -/
  | hypothesis {info : Info} {types : List (Ty × Float)} {type : ColumnType} {cell : Cell}
      (placed : ∀ best, bestOf? types = some best → NullsPlaced best type cell) :
      NullsPlaced (.hypothesis info types) type cell

/-- The dates that are stored as counts of days are within the calendar's range, whether they count
or not. What stands inside lists and blocks is left aside. -/
inductive DatesReadable : Ty → ColumnType → Cell → Prop
  /-- A date is within the calendar's range. -/
  | leaf {info : Info} {content : Leaf} {type : ColumnType} {cell : Cell}
      (readable : ∀ format lo hi days, content = .datetime format lo hi .date → cell = .int days →
        ∃ text, Calendar.dateText? days = some text) :
      DatesReadable (.leaf info content) type cell
  /-- The dates of all members. -/
  | members {info : Info} {form : Form} {fields : List (String × Ty)} {type : ColumnType}
      {cell : Cell}
      (readable : ∀ member ∈ fields, ∀ part under, PartAt member.1 type cell part under →
        DatesReadable member.2 part under) :
      DatesReadable (.members info form fields) type cell
  /-- The dates inside an optional type. -/
  | optional {info : Info} {inner : Ty} {type : ColumnType} {cell : Cell}
      (readable : DatesReadable inner type cell) :
      DatesReadable (.wrapped info .optional inner) type cell
  /-- The dates inside a constrained type. -/
  | constrained {info : Info} {constraint : String} {inner : Ty} {type : ColumnType} {cell : Cell}
      (readable : DatesReadable inner type cell) :
      DatesReadable (.wrapped info (.constrained constraint) inner) type cell
  /-- Lists are not looked into. -/
  | list {info : Info} {maxSize : ℕ} {inner : Ty} {type : ColumnType} {cell : Cell} :
      DatesReadable (.wrapped info (.list maxSize) inner) type cell
  /-- Blocks are not looked into. -/
  | array {info : Info} {shape : List ℕ} {inner : Ty} {type : ColumnType} {cell : Cell} :
      DatesReadable (.wrapped info (.array shape) inner) type cell
  /-- The dates of the best candidate. -/
  | hypothesis {info : Info} {types : List (Ty × Float)} {type : ColumnType} {cell : Cell}
      (readable : ∀ best, bestOf? types = some best → DatesReadable best type cell) :
      DatesReadable (.hypothesis info types) type cell

/-! ### Membership -/

/-- A cell is admitted by a leaf: numbers lie between the bounds, both included, names are listed,
texts and dates lie between the bounds as ISO texts. Leaves of other kinds admit everything. -/
def LeafAdmits : Leaf → Cell → Prop
  | .integer lo hi _, .int n => lo ≤ n ∧ n ≤ hi
  | .float lo hi _, .float x => lo ≤ x ∧ x ≤ hi
  | .enum nameValues _, .text name => ∃ value, (name, value) ∈ nameValues
  | .datetime _ lo hi .text, .text text => lo ≤ text ∧ text ≤ hi
  | .datetime _ lo hi .date, .int days =>
    ∃ text, Calendar.dateText? days = some text ∧ lo ≤ text ∧ text ≤ hi
  | .datetime _ _ _ .timestamp, _ => True
  | .null, _ | .unit, _ | .boolean, _ | .id .., _ | .text _, _ | .bytes, _ => True
  | _, _ => False

/-- A value belongs to a type. -/
inductive Belongs : Ty → ColumnType → Cell → Prop
  /-- Of a leaf: it is admitted. -/
  | leaf {info : Info} {content : Leaf} {type : ColumnType} {cell : Cell}
      (admitted : LeafAdmits content cell) : Belongs (.leaf info content) type cell
  /-- Of a struct: every field belongs. -/
  | struct {info : Info} {fields : List (String × Ty)} {type : ColumnType} {cell : Cell}
      (belongs : ∀ member ∈ fields, ∀ part under, PartAt member.1 type cell part under →
        Belongs member.2 part under) :
      Belongs (.members info .struct fields) type cell
  /-- Of a union: the selected branch is one of its members and belongs. -/
  | union {info : Info} {fields : List (String × Ty)} {type : ColumnType} {cell : Cell}
      {name : String} {t : Ty} {part : ColumnType} {under : Cell}
      (selected : Selects type cell name) (member : lookup? name fields = some t)
      (found : PartAt name type cell part under) (belongs : Belongs t part under) :
      Belongs (.members info .union fields) type cell
  /-- Of an optional type: it is null. -/
  | null {info : Info} {inner : Ty} {type : ColumnType} {cell : Cell}
      (absent : cell.isNull = true) : Belongs (.wrapped info .optional inner) type cell
  /-- Of an optional type: it belongs to the type inside. -/
  | present {info : Info} {inner : Ty} {type : ColumnType} {cell : Cell}
      (belongs : Belongs inner type cell) : Belongs (.wrapped info .optional inner) type cell
  /-- Of a constrained type: it belongs to the type inside. -/
  | constrained {info : Info} {constraint : String} {inner : Ty} {type : ColumnType} {cell : Cell}
      (belongs : Belongs inner type cell) :
      Belongs (.wrapped info (.constrained constraint) inner) type cell
  /-- Every list belongs. -/
  | list {info : Info} {maxSize : ℕ} {inner : Ty} {type : ColumnType} {cell : Cell} :
      Belongs (.wrapped info (.list maxSize) inner) type cell
  /-- Every block belongs. -/
  | array {info : Info} {shape : List ℕ} {inner : Ty} {type : ColumnType} {cell : Cell} :
      Belongs (.wrapped info (.array shape) inner) type cell
  /-- Of a hypothesis: it belongs to the best candidate. -/
  | hypothesis {info : Info} {types : List (Ty × Float)} {type : ColumnType} {cell : Cell}
      (belongs : ∀ best, bestOf? types = some best → Belongs best type cell) :
      Belongs (.hypothesis info types) type cell

end Ty

end Lineage
