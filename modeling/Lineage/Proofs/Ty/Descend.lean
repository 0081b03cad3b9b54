import Lineage.Proofs.Ty.Address
import Lineage.Proofs.Ty.Projection
import Lineage.Proofs.Ty.Rowwise

set_option autoImplicit false

/-!
# One label after the other

Labels are followed in a type and in the column that stores it at once. One label leads from a
struct or union to a member and the column of this, and through an optional or constrained type to
what is inside, which the same column stores. What holds of one such step holds of all labels.

## Main definitions

* `Lineage.Ty.Enters`: one column holds the parts of another.
* `Lineage.Ty.Steps`: one label leads from a type and a column to others.
* `Lineage.Ty.StoredAs`: a type is stored in a given way.
* `Lineage.Cell.Whole`: a cell has all its parts.

## Main results

* `Lineage.Ty.descend_cons_eq_ok`: labels are followed step by step.
* `Lineage.Ty.descend_append_eq_ok`: some labels and then others.
* `Lineage.Ty.along?_of_descend`: the type that is found is the one under the path.
* `Lineage.Ty.storedAs_descend`, `Lineage.Ty.wholeCells_descend`: the column that is found stores
  the type that is found, and its cells have all their parts.
-/

namespace Lineage

/-! ### Cells with all their parts -/

namespace Cell

mutual

/-- A cell has all its parts: a struct holds one for every field, and they have theirs. The items
of lists are left aside. -/
def Whole : ColumnType → Cell → Prop
  | .struct fs, .struct _ ps => WholeParts fs ps
  | .struct _, _ => False
  | _, _ => True

/-- The parts of a struct, one for every field, have all their parts. -/
def WholeParts : List (FieldOf ColumnType) → List Cell → Prop
  | [], [] => True
  | ⟨_, type, _⟩ :: fs, p :: ps => Whole type p ∧ WholeParts fs ps
  | _, _ => False

end

/-- Whether a cell has all its parts does not depend on whether it counts. -/
lemma Whole.absent {type : ColumnType} {cell : Cell} (h : Whole type cell) :
    Whole type cell.absent := by
  cases type with
  | struct fs => cases cell with
    | struct present ps => exact h
    | _ => exact h.elim
  | scalar s | list layout item => trivial

/-- The part for a field of a struct that has all its parts. -/
lemma WholeParts.getD {fs : List Field} {ps : List Cell} (h : WholeParts fs ps) {i : ℕ} {f : Field}
    (hf : fs[i]? = some f) : Whole f.type ((ps[i]?).getD .null) := by
  induction fs generalizing ps i with
  | nil => cases hf
  | cons g fs ih =>
    cases ps with
    | nil => exact h.elim
    | cons p ps =>
      cases i with
      | zero =>
        cases hf
        exact h.1
      | succ i => exact ih h.2 hf

/-- A struct that has all its parts holds a part for every field. -/
lemma Whole.of_struct {type : ColumnType} {cell : Cell} (h : Whole type cell)
    (hstruct : type.isStruct = true) :
    ∃ present ps, cell = .struct present ps ∧ WholeParts type.fields ps := by
  cases type with
  | struct fs => cases cell with
    | struct present ps => exact ⟨present, ps, rfl, h⟩
    | _ => exact h.elim
  | scalar s | list layout item => cases hstruct

end Cell

namespace Ty

variable {label : String} {t part : Ty} {c under : Column}

/-! ### One step -/

/-- Where no label follows, the type and the column are found. -/
@[simp]
lemma descend_nil (c : Column) (t : Ty) : descend c [] t = .ok (t, c) := by
  rw [descend]

/-- One column holds the parts under a label of the structs of another, with the nulls of these. -/
def Enters (label : String) (c under : Column) : Prop :=
  c.type.isStruct = true ∧ ∃ child, childColumn c label = .ok child ∧ childUnder c child = .ok under

/-- A label leads from a type and a column to a part and the column that holds it. -/
inductive Steps (label : String) : Ty → Column → Ty → Column → Prop
  /-- A struct or union has the label of a member, whose column is entered. -/
  | member {info : Info} {form : Form} {fields : List (String × Ty)} {part : Ty} {c under : Column}
      (found : lookup? label fields = some part) (enters : Enters label c under) :
      Steps label (.members info form fields) c part under
  /-- Any label leads into an optional type, whose values are stored like the type inside. -/
  | optional {info : Info} {inner : Ty} {c : Column} :
      Steps label (.wrapped info .optional inner) c inner c
  /-- Any label leads into a constrained type, whose values are stored like the type inside. -/
  | constrained {info : Info} {constraint : String} {inner : Ty} {c : Column} :
      Steps label (.wrapped info (.constrained constraint) inner) c inner c

/-- A label that leads to a part is a step of a path to it. -/
lemma Steps.step?_eq (h : Steps label t c part under) : t.step? label = some part := by
  cases h with
  | member found enters => exact found
  | optional | constrained => rfl

/-- Looking up the name of the first of given members. -/
lemma lookup?_cons_self (name : String) (t : Ty) (rest : List (String × Ty)) :
    lookup? name ((name, t) :: rest) = some t := by
  simp [lookup?]

/-- Where a member has the label, its column is entered and the others are followed from there. -/
lemma descendMember_of_lookup? {fields : List (String × Ty)}
    (found : lookup? label fields = some part)
    (c : Column) (rest : List String) : descendMember c label rest fields =
      if c.type.isStruct then do
        let child ← childColumn c label
        let under ← childUnder c child
        descend under rest part
      else .error (.schema ("expected a struct array, got " ++ c.type.render)) := by
  induction fields with
  | nil => cases found
  | cons field fields ih =>
    obtain ⟨name, t⟩ := field
    rw [descendMember]
    by_cases hname : name = label
    · subst hname
      cases (lookup?_cons_self name t fields).symm.trans found
      rw [if_pos rfl]
    · rw [lookup?_cons_of_ne hname] at found
      rw [if_neg hname, ih found]

/-- Where no member has the label, nothing is found. -/
lemma descendMember_of_lookup?_eq_none {fields : List (String × Ty)}
    (h : lookup? label fields = none) (c : Column) (rest : List String) :
    descendMember c label rest fields =
      .error (.pathNotFound (Path.ofLabels (label :: rest)) label) := by
  induction fields with
  | nil => rw [descendMember]
  | cons field fields ih =>
    obtain ⟨name, t⟩ := field
    have hname : name ≠ label := by
      rintro rfl
      cases (lookup?_cons_self name t fields).symm.trans h
    rw [lookup?_cons_of_ne hname] at h
    rw [descendMember, if_neg hname, ih h]

/-- The member with the first label is entered, and the others are followed from there. -/
lemma descendMember_eq_ok {rest : List String} {fields : List (String × Ty)} {item : Ty × Column} :
    descendMember c label rest fields = .ok item ↔
      ∃ part under, lookup? label fields = some part ∧ Enters label c under ∧
        descend under rest part = .ok item := by
  cases found : lookup? label fields with
  | none => simp [descendMember_of_lookup?_eq_none found]
  | some part =>
    rw [descendMember_of_lookup? found]
    by_cases hstruct : c.type.isStruct = true
    · simp only [hstruct, if_true, Outcome.bind_eq_ok, Enters, true_and, Option.some.injEq]
      constructor
      · rintro ⟨child, hchild, under, hunder, hrest⟩
        exact ⟨part, under, rfl, ⟨child, hchild, hunder⟩, hrest⟩
      · rintro ⟨_, under, rfl, ⟨child, hchild, hunder⟩, hrest⟩
        exact ⟨child, hchild, under, hunder, hrest⟩
    · simp [hstruct, Enters]

/-- **Labels are followed step by step.** -/
theorem descend_cons_eq_ok {rest : List String} {item : Ty × Column} :
    descend c (label :: rest) t = .ok item ↔
      ∃ part under, Steps label t c part under ∧ descend under rest part = .ok item := by
  cases t with
  | members info form fields =>
    rw [descend, descendMember_eq_ok]
    constructor
    · rintro ⟨part, under, found, enters, hrest⟩
      exact ⟨part, under, .member found enters, hrest⟩
    · rintro ⟨part, under, ⟨found, enters⟩, hrest⟩
      exact ⟨part, under, found, enters, hrest⟩
  | wrapped info wrapper inner =>
    cases wrapper with
    | optional =>
      rw [descend]
      exact ⟨fun h => ⟨inner, c, .optional, h⟩, fun ⟨_, _, hstep, h⟩ => by cases hstep; exact h⟩
    | constrained constraint =>
      rw [descend]
      exact ⟨fun h => ⟨inner, c, .constrained, h⟩, fun ⟨_, _, hstep, h⟩ => by cases hstep; exact h⟩
    | list maxSize | array shape =>
      rw [descend]
      · exact ⟨nofun, fun ⟨_, _, hstep, _⟩ => nomatch hstep⟩
      all_goals simp
  | leaf info content | hypothesis info types =>
    rw [descend]
    · exact ⟨nofun, fun ⟨_, _, hstep, _⟩ => nomatch hstep⟩
    all_goals simp

/-- **Some labels and then others** lead to what the others lead to from where the first lead. -/
theorem descend_append_eq_ok {p q : List String} {item : Ty × Column} :
    descend c (p ++ q) t = .ok item ↔
      ∃ mid, descend c p t = .ok mid ∧ descend mid.2 q mid.1 = .ok item := by
  induction p generalizing t c with
  | nil => simp
  | cons label p ih =>
    rw [List.cons_append, descend_cons_eq_ok]
    constructor
    · rintro ⟨part, under, hstep, hrest⟩
      obtain ⟨mid, hmid, hitem⟩ := ih.mp hrest
      exact ⟨mid, descend_cons_eq_ok.mpr ⟨part, under, hstep, hmid⟩, hitem⟩
    · rintro ⟨mid, hmid, hitem⟩
      obtain ⟨part, under, hstep, hrest⟩ := descend_cons_eq_ok.mp hmid
      exact ⟨part, under, hstep, ih.mpr ⟨mid, hrest, hitem⟩⟩

/-- **What every step keeps is kept by all labels.** -/
theorem descend_induction {P : Ty → Column → Prop}
    (hstep : ∀ {label t c part under}, Steps label t c part under → P t c → P part under)
    {labels : List String} {item : Ty × Column} (h : descend c labels t = .ok item) (hP : P t c) :
    P item.1 item.2 := by
  induction labels generalizing t c with
  | nil =>
    cases (descend_nil c t).symm.trans h
    exact hP
  | cons label rest ih =>
    obtain ⟨part, under, hfirst, hrest⟩ := descend_cons_eq_ok.mp h
    exact ih hrest (hstep hfirst hP)

/-- **The type that is found is the one under the path.** -/
theorem along?_of_descend {labels : List String} {item : Ty × Column}
    (h : descend c labels t = .ok item) : along? labels t = some item.1 := by
  induction labels generalizing t c with
  | nil =>
    cases (descend_nil c t).symm.trans h
    rfl
  | cons label rest ih =>
    obtain ⟨part, under, hstep, hrest⟩ := descend_cons_eq_ok.mp h
    rw [along?, hstep.step?_eq, Option.bind_some, ih hrest]

/-! ### The columns that are found -/

/-- The parts of structs under a label are those at one place, with the nulls of the structs. -/
lemma Enters.eq (h : Enters label c under) :
    ∃ i f, Column.fieldIndex? label c.type.fields = some i ∧
    c.type.fields[i]? = some f ∧ under = ⟨f.type, c.cells.map (partUnder i)⟩ := by
  obtain ⟨-, child, hchild, hunder⟩ := h
  obtain ⟨i, hi, hat⟩ := Option.bind_eq_some_iff.mp (Outcome.ofOption_eq_ok.mp hchild)
  obtain ⟨_, hentry, rfl⟩ := Option.map_eq_some_iff.mp hat
  obtain ⟨f, hf, rfl⟩ := Option.map_eq_some_iff.mp hentry
  rw [childUnder_eq c.type f.type i c.cells] at hunder
  split at hunder
  · cases hunder
  · exact ⟨i, f, hi, hf, (Except.ok.inj hunder).symm⟩

/-- The cells of a column have all their parts. -/
def WholeCells (c : Column) : Prop := ∀ cell ∈ c.cells, Cell.Whole c.type cell

/-- Along one label, cells have all their parts if the cells before have. -/
lemma Steps.wholeCells (h : Steps label t c part under) (hc : WholeCells c) : WholeCells under := by
  cases h with
  | member found enters =>
    obtain ⟨i, f, -, hf, rfl⟩ := enters.eq
    refine List.forall_mem_map.mpr fun cell hcell => ?_
    obtain ⟨present, ps, rfl, hps⟩ := (hc cell hcell).of_struct enters.1
    have hpart := hps.getD hf
    unfold partUnder
    split
    · exact hpart.absent
    · exact hpart
  | optional | constrained => exact hc

/-- **The cells under labels have all their parts** if the cells of the column have. -/
theorem wholeCells_descend {labels : List String} {item : Ty × Column}
    (h : descend c labels t = .ok item) (hc : WholeCells c) : WholeCells item.2 :=
  descend_induction (P := fun _ c => WholeCells c) Steps.wholeCells h hc

/-- Values of a type are stored in a given way, up to nulls. -/
def StoredAs (t : Ty) (type : ColumnType) : Prop :=
  ∃ stored, t.columnType = .ok stored ∧ compatible stored.1 type = true

/-- A struct is stored as a struct. -/
lemma StoredAs.isStruct {type : ColumnType} (h : StoredAs t type) (hstruct : t.isStruct = true) :
    type.isStruct = true := by
  obtain ⟨stored, hstored, hcompatible⟩ := h
  match t, hstruct with
  | .members info .struct fields, _ =>
    obtain ⟨expected, -, rfl⟩ := Outcome.map_eq_ok.mp hstored
    cases type with
    | struct fs => rfl
    | scalar s | list layout item => simp [compatible] at hcompatible

/-- The first column under the label of a member stores this member. -/
lemma storedAs_member {form : Form} {fields : List (String × Ty)}
    {expected tail actual : List Field}
    (hexpected : fieldsOf fields = .ok expected)
    (hcompatible : compatibleFields (expected.map (formField form) ++ tail) actual = true)
    (found : lookup? label fields = some part) {i : ℕ} {f : Field}
    (hindex : Column.fieldIndex? label actual = some i) (hf : actual[i]? = some f) :
    StoredAs part f.type := by
  induction fields generalizing expected actual i with
  | nil => cases found
  | cons field rest ih =>
    obtain ⟨name, t⟩ := field
    obtain ⟨stored, others, hstored, hothers, rfl⟩ := fieldsOf_cons_eq_ok.mp hexpected
    cases actual with
    | nil => cases hf
    | cons g actual =>
      simp only [List.map_cons, List.cons_append, formField, compatibleFields, Bool.and_eq_true,
        beq_iff_eq] at hcompatible
      obtain ⟨⟨hname, hfirst⟩, hrest⟩ := hcompatible
      by_cases hlabel : name = label
      · subst hlabel
        cases (lookup?_cons_self name t rest).symm.trans found
        rw [Column.fieldIndex?, List.findIdx?_cons, if_pos (by simp [hname])] at hindex
        cases hindex
        cases hf
        exact ⟨stored, hstored, hfirst⟩
      · rw [lookup?_cons_of_ne hlabel] at found
        rw [Column.fieldIndex?, List.findIdx?_cons, if_neg (by simp [← hname, hlabel])] at hindex
        obtain ⟨j, hj, rfl⟩ := Option.map_eq_some_iff.mp hindex
        exact ih hothers hrest found hj hf

/-- Along one label, a column stores the part that the label leads to. -/
lemma Steps.storedAs (h : Steps label t c part under) (hc : StoredAs t c.type) :
    StoredAs part under.type := by
  obtain ⟨stored, hstored, hcompatible⟩ := hc
  cases h with
  | @member _ form fields _ _ _ found enters =>
    obtain ⟨expected, hexpected, rfl⟩ := Outcome.map_eq_ok.mp hstored
    obtain ⟨i, f, hi, hf, rfl⟩ := enters.eq
    obtain ⟨type, cells⟩ := c
    cases type with
    | struct actual =>
      rw [formFields_eq] at hcompatible
      exact storedAs_member hexpected hcompatible found hi hf
    | scalar s | list layout item => cases enters.1
  | optional | constrained =>
    obtain ⟨inner, hinner, hwrapped⟩ := Outcome.bind_eq_ok.mp hstored
    cases hwrapped
    exact ⟨_, hinner, hcompatible⟩

/-- **The column under labels stores the type under them** if the column stores the type. -/
theorem storedAs_descend {labels : List String} {item : Ty × Column}
    (h : descend c labels t = .ok item) (hc : StoredAs t c.type) : StoredAs item.1 item.2.type :=
  descend_induction (P := fun t c => StoredAs t c.type) Steps.storedAs h hc

end Ty

end Lineage
