import Lineage.Proofs.Ty.Descend

set_option autoImplicit false

/-!
# Columns that are stored as a type says

That a column is stored as a type says, up to nulls, is taken apart along the type: every column of
a struct stores the member of its name, a union has one column more, and the columns of wrapped
types store the type inside.

## Main definitions

* `Lineage.Ty.StoresMembers`: the columns of the members of a struct or union.

## Main results

* `Lineage.Ty.storedAs_of_columnType`: the column that a type says its values are stored in.
* `Lineage.Ty.StoredAs.of_members`: a struct or union is stored in such columns.
* `Lineage.Ty.StoredAs.leaf`, `Lineage.Ty.StoredAs.list`, `Lineage.Ty.StoredAs.hypothesis`: the
  columns of other types.
-/

namespace Lineage.Ty

variable {t : Ty} {type : ColumnType} {info : Info} {form : Form} {fields : List (String × Ty)}

/-! ### Compatible columns -/

mutual

/-- A column type is as expected if it is the same. -/
theorem compatible_self : ∀ type : ColumnType, compatible type type = true
  | .scalar s => by cases s <;> simp [compatible]
  | .struct fs => compatibleFields_self fs
  | .list .small ⟨_, item, _⟩ => compatible_self item
  | .list .large _ => by simp [compatible]
  | .list (.fixed _) _ => by simp [compatible]

/-- Fields are as expected if they are the same. -/
theorem compatibleFields_self : ∀ fs : List (FieldOf ColumnType), compatibleFields fs fs = true
  | [] => rfl
  | ⟨_, type, _⟩ :: fs => by
    simp [compatibleFields, compatible_self type, compatibleFields_self fs]

end

/-- Fields are as expected if each of them has the name and a type that is as expected. -/
lemma compatibleFields_iff {es fs : List Field} : compatibleFields es fs = true ↔
    List.Forall₂ (fun e f : Field => e.name = f.name ∧ compatible e.type f.type = true) es fs := by
  induction es generalizing fs with
  | nil => cases fs <;> simp [compatibleFields]
  | cons e es ih => cases fs with
    | nil => simp [compatibleFields]
    | cons f fs =>
      rw [List.forall₂_cons, ← ih, compatibleFields]
      simp only [Bool.and_eq_true, beq_iff_eq]

/-- **The column that a type says its values are stored in** stores them. -/
theorem storedAs_of_columnType {nullable : Bool} (h : t.columnType = .ok (type, nullable)) :
    StoredAs t type := ⟨_, h, compatible_self type⟩

/-! ### Members -/

/-- Every field stores a member. -/
lemma exists_member_of_fieldsOf {expected : List Field} (h : fieldsOf fields = .ok expected)
    {f : Field} (hf : f ∈ expected) :
    ∃ t, (f.name, t) ∈ fields ∧ t.columnType = .ok (f.type, f.nullable) := by
  induction fields generalizing expected with
  | nil =>
    cases h
    cases hf
  | cons field fields ih =>
    obtain ⟨name, t⟩ := field
    obtain ⟨stored, others, hstored, hothers, rfl⟩ := fieldsOf_cons_eq_ok.mp h
    rcases List.mem_cons.mp hf with rfl | hf
    · exact ⟨t, List.mem_cons_self, hstored⟩
    · obtain ⟨t, hmem, ht⟩ := ih hothers hf
      exact ⟨t, List.mem_cons_of_mem _ hmem, ht⟩

/-- The columns of a struct or union: a member has one of its name, and so have the names of a
union's branches. Every column stores a member of its name, if it is not the one of these names. -/
structure StoresMembers (form : Form) (fields : List (String × Ty)) (fs : List Field) : Prop where
  /-- Every member has a column. -/
  named : ∀ member ∈ fields, ∃ f ∈ fs, f.name = member.1
  /-- The names of the branches have a column. -/
  selector : form = .union → ∃ f ∈ fs, f.name = fieldSelected
  /-- Every column stores a member or the names of the branches. -/
  stores : ∀ f ∈ fs, (form = .union ∧ f.name = fieldSelected ∧ f.type = .utf8) ∨
    ∃ t, (f.name, t) ∈ fields ∧ StoredAs t f.type

/-- The names of members are those of their columns. -/
lemma exists_field_of_member {expected : List Field} (h : fieldsOf fields = .ok expected)
    {member : String × Ty} (hmember : member ∈ fields) : ∃ e ∈ expected, e.name = member.1 := by
  have hnames := map_name_fieldsOf h
  have hmem : member.1 ∈ expected.map FieldOf.name := hnames ▸ List.mem_map_of_mem hmember
  obtain ⟨e, he, hname⟩ := List.mem_map.mp hmem
  exact ⟨e, he, hname⟩

/-- **The columns of a struct or union.** -/
theorem StoredAs.of_members (h : StoredAs (.members info form fields) type) :
    ∃ fs, type = .struct fs ∧ StoresMembers form fields fs := by
  obtain ⟨stored, hstored, hcompatible⟩ := h
  obtain ⟨expected, hexpected, rfl⟩ := Outcome.map_eq_ok.mp hstored
  obtain ⟨fs, rfl⟩ : ∃ fs, type = .struct fs := by
    cases type with
    | struct fs => exact ⟨fs, rfl⟩
    | scalar s | list layout item => simp [compatible] at hcompatible
  have hcolumns := compatibleFields_iff.mp hcompatible
  rw [formFields_eq] at hcolumns
  refine ⟨fs, rfl, fun member hmember => ?_, fun hunion => ?_, fun f hf => ?_⟩
  · obtain ⟨e, he, hname⟩ := exists_field_of_member hexpected hmember
    have hmem := List.mem_append_left (formTail form) (List.mem_map_of_mem (f := formField form) he)
    obtain ⟨f, hf, hsame, -⟩ := Outcome.exists_mem_of_forall₂ hcolumns hmem
    exact ⟨f, hf, hsame.symm.trans hname⟩
  · subst hunion
    have hmem := List.mem_append_right (expected.map (formField .union))
      (List.mem_singleton_self selectorField)
    obtain ⟨f, hf, hsame, -⟩ := Outcome.exists_mem_of_forall₂ hcolumns hmem
    exact ⟨f, hf, hsame.symm⟩
  · obtain ⟨e, he, hname, htype⟩ := Outcome.exists_mem_of_forall₂ hcolumns.flip hf
    rcases List.mem_append.mp he with he | he
    · obtain ⟨e', he', rfl⟩ := List.mem_map.mp he
      obtain ⟨t, hmem, hstored⟩ := exists_member_of_fieldsOf hexpected he'
      refine Or.inr ⟨t, ?_, _, hstored, htype⟩
      rwa [← hname]
    · cases form with
      | struct => cases he
      | union =>
        obtain rfl := List.mem_singleton.mp he
        exact Or.inl ⟨rfl, hname.symm, (of_decide_eq_true htype).symm⟩

/-! ### Other types -/

/-- A constrained type is stored like the type inside. -/
lemma StoredAs.constrained {constraint : String}
    (h : StoredAs (.wrapped info (.constrained constraint) t) type) : StoredAs t type := by
  obtain ⟨stored, hstored, hcompatible⟩ := h
  obtain ⟨inner, hinner, hwrapped⟩ := Outcome.bind_eq_ok.mp hstored
  cases hwrapped
  exact ⟨_, hinner, hcompatible⟩

/-- An optional type is stored like the type inside. -/
lemma StoredAs.optional (h : StoredAs (.wrapped info .optional t) type) : StoredAs t type := by
  obtain ⟨stored, hstored, hcompatible⟩ := h
  obtain ⟨inner, hinner, hwrapped⟩ := Outcome.bind_eq_ok.mp hstored
  cases hwrapped
  exact ⟨_, hinner, hcompatible⟩

/-- The items of the column of a list store the type inside. -/
lemma StoredAs.list {maxSize : ℕ} (h : StoredAs (.wrapped info (.list maxSize) t) type) :
    ∃ item, type = .list .small item ∧ StoredAs t item.type := by
  obtain ⟨stored, hstored, hcompatible⟩ := h
  obtain ⟨inner, hinner, hwrapped⟩ := Outcome.bind_eq_ok.mp hstored
  cases hwrapped
  cases type with
  | list layout item =>
    cases layout with
    | small => exact ⟨item, rfl, _, hinner, hcompatible⟩
    | large | fixed length => simp [compatible] at hcompatible
  | scalar s | struct fs => simp [compatible] at hcompatible

/-- The column of a hypothesis stores its best candidate. -/
lemma StoredAs.hypothesis {types : List (Ty × Float)} (h : StoredAs (.hypothesis info types) type)
    {best : Ty} (hbest : bestOf? types = some best) : StoredAs best type := by
  obtain ⟨stored, hstored, hcompatible⟩ := h
  rw [columnType_hypothesis, hbest] at hstored
  exact ⟨stored, hstored, hcompatible⟩

/-- The column of a leaf that has values is the one that the leaf says. -/
lemma StoredAs.leaf {content : Leaf} (h : StoredAs (.leaf info content) type) :
    (leafColumn content).1 = .null ∨ type = (leafColumn content).1 := by
  obtain ⟨stored, hstored, hcompatible⟩ := h
  cases hstored
  cases content with
  | null | unit => exact Or.inl rfl
  | boolean | bytes | enum | text => exact Or.inr (of_decide_eq_true hcompatible).symm
  | id _ base | integer _ _ base | float _ _ base | datetime _ _ _ base =>
    cases base <;> exact Or.inr (of_decide_eq_true hcompatible).symm

end Lineage.Ty
