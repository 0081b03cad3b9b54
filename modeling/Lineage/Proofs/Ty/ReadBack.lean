import Lineage.Proofs.Ty.Pruning

set_option autoImplicit false

/-!
# Types read back from columns

A type says how its values are stored, and from columns the widest type that is stored in this way
can be told. It is stored in the same way again, although structs and unions share one kind of
column, a branch of a union is nullable as an optional part is, and a block keeps only its length.

## Main definitions

* `Lineage.Ty.NoMember`: no struct or union of a type has a member of a given name.
* `Lineage.Ty.ReadsBack`: a way of storing values from which a type can be told that is stored so.

## Main results

* `Lineage.Ty.ofColumnType_columnType`: the type that is told from the columns of a type is stored
  in the same columns.

## Design

The flag that says whether nulls occur is not part of the type of a column: the column of a branch
is read without nulls and becomes nullable by being a branch. So the induction is about column types
under either flag, and only in the end about the flag that the type goes with.
-/

namespace Lineage.Ty

variable {name : String} {fields : List (String × Ty)} {type : ColumnType}

/-! ### Types without members of a name -/

/-- No struct or union of a type has a member of a given name. -/
inductive NoMember (name : String) : Ty → Prop
  /-- A leaf has no members. -/
  | leaf {info : Info} {content : Leaf} : NoMember name (.leaf info content)
  /-- No member has the name, and no member below. -/
  | members {info : Info} {form : Form} {fields : List (String × Ty)}
      (here : ∀ member ∈ fields, member.1 ≠ name)
      (below : ∀ member ∈ fields, NoMember name member.2) :
      NoMember name (.members info form fields)
  /-- The type inside. -/
  | wrapped {info : Info} {wrapper : Wrapper} {inner : Ty} (inside : NoMember name inner) :
      NoMember name (.wrapped info wrapper inner)
  /-- Every candidate. -/
  | hypothesis {info : Info} {types : List (Ty × Float)}
      (candidates : ∀ candidate ∈ types, NoMember name candidate.1) :
      NoMember name (.hypothesis info types)

/-! ### Columns that read back -/

/-- From columns a type can be told, under either flag, that is stored in columns of the same type,
with nulls if they are counted or if there is nothing else. -/
structure ReadsBack (stored : ColumnType × Bool) : Prop where
  /-- A type is told, and it is stored in the same way. -/
  told : ∀ nullable, ∃ t, ofColumnType nullable stored.1 = .ok t ∧
    t.columnType = .ok (stored.1, nullable || decide (stored.1 = .null))
  /-- A column of nothing but nulls has nulls. -/
  nullable : stored.1 = .null → stored.2 = true

/-- From columns that read back a type is told that is stored in these columns. -/
lemma ReadsBack.exists_told {stored : ColumnType × Bool} (h : ReadsBack stored) :
    ∃ t, ofColumnType stored.2 stored.1 = .ok t ∧ t.columnType = .ok stored := by
  obtain ⟨t, htold, hstored⟩ := h.told stored.2
  have hflag : (stored.2 || decide (stored.1 = .null)) = stored.2 := by
    rw [Bool.or_eq_left_iff_imp, decide_eq_true_iff]
    exact h.nullable
  rw [hflag] at hstored
  exact ⟨t, htold, hstored⟩

/-- How a type is stored when it is made optional. -/
lemma columnType_optionalIf {t : Ty} (h : t.columnType = .ok (type, false)) (nullable : Bool) :
    (optionalIf nullable t).columnType = .ok (type, nullable) := by
  cases nullable with
  | false => exact h
  | true => simp [optionalIf, optional, wrap, columnType, h, wrapperColumn]

/-- Columns read back from which a type without nulls is told that is stored in them, and with nulls
the optional type around it. -/
lemma ReadsBack.of_optionalIf {t : Ty} {flag : Bool} (hnull : type ≠ .null)
    (htold : ∀ nullable, ofColumnType nullable type = .ok (optionalIf nullable t))
    (hstored : t.columnType = .ok (type, false)) : ReadsBack (type, flag) where
  told nullable := by
    refine ⟨optionalIf nullable t, htold nullable, ?_⟩
    rw [columnType_optionalIf hstored nullable, decide_eq_false hnull, Bool.or_false]
  nullable h := absurd h hnull

/-- Scalars read back for which there is a widest type. -/
lemma readsBack_scalar {s : Scalar} {t : Ty} (hnull : s ≠ .null) (htold : ofScalar s = .ok t)
    (hstored : t.columnType = .ok (.scalar s, false)) : ReadsBack (.scalar s, false) := by
  refine .of_optionalIf (fun h => hnull (ColumnType.scalar.inj h)) (fun nullable => ?_) hstored
  rw [ofColumnType, htold]
  · rfl
  · exact hnull

/-- Nulls read back. -/
lemma readsBack_null : ReadsBack (.null, true) where
  told nullable := ⟨ofLeaf .null, rfl, by cases nullable <;> rfl⟩
  nullable _ := rfl

/-- The columns of leaves read back. -/
lemma readsBack_leafColumn (content : Leaf) : ReadsBack (leafColumn content) := by
  cases content with
  | null => exact readsBack_null
  | unit => exact readsBack_null
  | boolean => exact readsBack_scalar (by decide) rfl rfl
  | bytes => exact readsBack_scalar (by decide) rfl rfl
  | id unique base reference => cases base <;> exact readsBack_scalar (by decide) rfl rfl
  | integer min max base => cases base <;> exact readsBack_scalar (by decide) rfl rfl
  | enum nameValues ordered => exact readsBack_scalar (by decide) rfl rfl
  | text encoding => exact readsBack_scalar (by decide) rfl rfl
  | float min max base => cases base <;> exact readsBack_scalar (by decide) rfl rfl
  | datetime format min max base => cases base <;> exact readsBack_scalar (by decide) rfl rfl

/-- The members of a struct are told from columns that read back. -/
lemma exists_membersOf_struct {expected : List Field}
    (h : ∀ f ∈ expected, ReadsBack (f.type, f.nullable)) :
    ∃ told, membersOf false expected = .ok told ∧ fieldsOf told = .ok expected := by
  induction expected with
  | nil => exact ⟨[], rfl, rfl⟩
  | cons f rest ih =>
    obtain ⟨hf, hrest⟩ := List.forall_mem_cons.mp h
    obtain ⟨others, hothers, hfields⟩ := ih hrest
    obtain ⟨t, htold, hstored⟩ := hf.exists_told
    refine ⟨(f.name, t) :: others, ?_, fieldsOf_cons_eq_ok.mpr ⟨_, _, hstored, hfields, rfl⟩⟩
    simp [membersOf, htold, hothers]

/-- The branches of a union are told from columns that read back, next to the column that names the
branch. -/
lemma exists_membersOf_union {expected : List Field}
    (h : ∀ f ∈ expected, f.name ≠ fieldSelected ∧ ReadsBack (f.type, f.nullable)) :
    ∃ told fields, membersOf true (formFields .union expected) = .ok told ∧
      fieldsOf told = .ok fields ∧ formFields .union fields = formFields .union expected := by
  induction expected with
  | nil => exact ⟨[], [], rfl, rfl, rfl⟩
  | cons f rest ih =>
    obtain ⟨⟨hname, hf⟩, hrest⟩ := List.forall_mem_cons.mp h
    obtain ⟨others, fields, hothers, hfields, hform⟩ := ih hrest
    obtain ⟨t, htold, hstored⟩ := hf.told false
    refine ⟨(f.name, t) :: others, _, ?_, fieldsOf_cons_eq_ok.mpr ⟨_, _, hstored, hfields, rfl⟩, ?_⟩
    · have hstep : formFields .union (f :: rest) =
          ⟨f.name, f.type, true⟩ :: formFields .union rest := rfl
      simp [hstep, membersOf, hname, htold, hothers]
    · exact congrArg (⟨f.name, f.type, true⟩ :: ·) hform

/-- The columns of structs and unions read back. -/
lemma readsBack_members (form : Form) {expected : List Field}
    (h : ∀ f ∈ expected, f.name ≠ fieldSelected ∧ ReadsBack (f.type, f.nullable)) :
    ReadsBack (.struct (formFields form expected), false) := by
  cases form with
  | struct =>
    obtain ⟨told, htold, hfields⟩ := exists_membersOf_struct fun f hf => (h f hf).2
    have hform : storesUnion expected = false :=
      List.any_eq_false.mpr fun f hf => by simp [(h f hf).1]
    refine .of_optionalIf (t := struct told) ColumnType.noConfusion (fun nullable => ?_) ?_
    · simp [ofColumnType, formFields, hform, htold, Except.map]
    · simp [struct, columnType, hfields, Except.map]
  | union =>
    obtain ⟨told, fields, htold, hfields, hform⟩ := exists_membersOf_union h
    have hselected : storesUnion (formFields .union expected) = true :=
      List.any_eq_true.mpr ⟨selectorField, by simp [formFields], by decide⟩
    refine .of_optionalIf (t := union told) ColumnType.noConfusion (fun nullable => ?_) ?_
    · simp [ofColumnType, hselected, htold, Except.map]
    · simp [union, columnType, hfields, hform, Except.map]

/-- A block that is as long as another one is not too long either. -/
lemma blockLength_self {shape : List ℕ} {n : ℕ} (h : blockLength shape = .ok n) :
    blockLength [n] = .ok n := by
  unfold blockLength at h ⊢
  dsimp only at h ⊢
  split at h
  · rename_i hlt
    cases h
    simpa using hlt
  · cases h

/-- The columns of wrapped types read back if those of the types inside do. -/
lemma readsBack_wrapperColumn {inner stored : ColumnType × Bool} {wrapper : Wrapper}
    (h : ReadsBack inner) (hstored : wrapperColumn inner wrapper = .ok stored) :
    ReadsBack stored := by
  cases wrapper with
  | optional =>
    cases hstored
    exact ⟨h.told, fun _ => rfl⟩
  | constrained constraint =>
    cases hstored
    exact h
  | list maxSize =>
    cases hstored
    obtain ⟨t, htold, hinner⟩ := h.exists_told
    refine .of_optionalIf (t := list t (Number.word64 - 1)) ColumnType.noConfusion
      (fun nullable => ?_) ?_
    · simp [ofColumnType, htold, Except.map]
    · simp [list, wrap, columnType, hinner, wrapperColumn]
  | array shape =>
    obtain ⟨n, hn, rfl⟩ := Outcome.map_eq_ok.mp hstored
    obtain ⟨t, htold, hinner⟩ := h.exists_told
    refine .of_optionalIf (t := array t [n]) ColumnType.noConfusion (fun nullable => ?_) ?_
    · simp [ofColumnType, htold, Except.map]
    · simp [array, wrap, columnType, hinner, wrapperColumn, blockLength_self hn, Except.map]

/-! ### Types and their columns -/

/-- Columns of types without a member of the name of the selected branch read back. -/
lemma readsBack_columnType {t : Ty} (hname : NoMember fieldSelected t) :
    ∀ {stored}, t.columnType = .ok stored → ReadsBack stored := by
  induction t using Ty.induction with
  | leaf info content =>
    intro stored hstored
    cases hstored
    exact readsBack_leafColumn content
  | members info form fields ih =>
    cases hname with
    | members here below =>
      intro stored hstored
      obtain ⟨expected, hexpected, rfl⟩ := Outcome.map_eq_ok.mp hstored
      refine readsBack_members form fun f hf => ?_
      obtain ⟨t, hmem, ht⟩ := exists_member_of_fieldsOf hexpected hf
      exact ⟨here _ hmem, ih _ hmem (below _ hmem) ht⟩
  | wrapped info wrapper inner ih =>
    cases hname with
    | wrapped inside =>
      intro stored hstored
      obtain ⟨stored', hinner, hwrapper⟩ := Outcome.bind_eq_ok.mp hstored
      exact readsBack_wrapperColumn (ih inside hinner) hwrapper
  | hypothesis info types ih =>
    cases hname with
    | hypothesis candidates =>
      intro stored hstored
      rw [columnType_hypothesis] at hstored
      cases hbest : bestOf? types with
      | none =>
        rw [hbest] at hstored
        cases hstored
        exact readsBack_null
      | some best =>
        rw [hbest] at hstored
        obtain ⟨score, hmem⟩ := mem_of_bestOf? hbest
        exact ih _ hmem (candidates _ hmem) hstored

end Lineage.Ty
