import Lineage.Proofs.Ty.ReadBack

set_option autoImplicit false

/-!
# Types that are told from data

Where the type of data is not declared, it is told from the columns of a batch. There are more ways
to store values than types tell apart: unsigned numbers are told as signed ones of twice the width,
texts with wide offsets as plain ones, a point in time as one that is counted in microseconds. Only
a column that some type is stored in is one that its own type is stored in again.

## Main definitions

* `Lineage.Ty.StoredLike`: a type is stored in columns that agree with a given one, perhaps exactly.
* `Lineage.Ty.Native`: a column is one that types are stored in.
* `Lineage.Ty.Regular`: a column is one that the type that is told from it and its cells is stored
  in.
* `Lineage.Ty.TellsBack`: the type that is told from a batch is stored in the columns of the batch.

## Main results

* `Lineage.Ty.storedLike_ofColumnType_iff`, `Lineage.Ty.storedLike_ofCells_iff`: which columns the
  types that are told from them are stored in.
* `Lineage.Ty.nullable_of_ofColumnType`, `Lineage.Ty.nullable_of_ofCells`: which of them have nulls.
* `Lineage.Ty.checkBatch_iff_of_ofBatch`: which batches are as the type says that is told from one
  of them.

## Design

Items of a block have to be the expected ones exactly, those of a list and the parts of a struct
only up to the names of items and whether they are nullable. So the induction is about both ways of
comparing columns at once: a list in a block is compared exactly, although a list alone is not.
-/

namespace Lineage

/-- Induction on column types: a column type has what the types of its fields or its item have. -/
@[elab_as_elim]
theorem ColumnType.induction {P : ColumnType → Prop} (scalar : ∀ content, P (.scalar content))
    (struct : ∀ fields, (∀ f ∈ fields, P f.type) → P (.struct fields))
    (list : ∀ layout item, P item.type → P (.list layout item)) (type : ColumnType) : P type :=
  @ColumnType.rec P (fun fields => ∀ f ∈ fields, P f.type) (fun f => P f.type) scalar struct list
    (List.forall_mem_nil _) (fun _ _ hfirst hrest => List.forall_mem_cons.mpr ⟨hfirst, hrest⟩)
    (fun _ _ _ h => h) type

/-- The scalars that types are stored as. -/
def Scalar.isNative : Scalar → Bool
  | .null | .boolean | .float32 | .float64 | .utf8 | .binary | .date32 => true
  | .integer .i8 | .integer .i16 | .integer .i32 | .integer .i64 => true
  | .timestamp .microsecond => true
  | _ => false

namespace Ty

variable {exact nullable : Bool} {t : Ty} {type : ColumnType} {fs branches : List Field}
  {ms : List (String × Ty)} {info : Info}

/-! ### Columns that agree -/

/-- A column type agrees with an expected one: it is as expected, or exactly the same. -/
def Agrees (exact : Bool) (expected actual : ColumnType) : Prop :=
  if exact then expected = actual else compatible expected actual = true

/-- A field agrees with an expected one: the name is the same and the type agrees. Whether it is
nullable counts only for exactly the same fields. -/
structure AgreesField (exact : Bool) (expected actual : Field) : Prop where
  /-- The name is the same. -/
  name : expected.name = actual.name
  /-- The type agrees. -/
  type : Agrees exact expected.type actual.type
  /-- Whether nulls may occur. -/
  nullable : exact = true → expected.nullable = actual.nullable

/-- Only the same field agrees exactly. -/
lemma agreesField_true_iff {e f : Field} : AgreesField true e f ↔ e = f := by
  constructor
  · obtain ⟨name, type, nullable⟩ := e
    rintro ⟨hname, htype, hnullable⟩
    cases hname
    cases htype
    cases hnullable rfl
    rfl
  · rintro rfl
    exact ⟨rfl, rfl, fun _ => rfl⟩

/-- Structs agree if their fields do. -/
lemma agrees_struct_iff {es : List Field} :
    Agrees exact (.struct es) (.struct fs) ↔ List.Forall₂ (AgreesField exact) es fs := by
  cases exact with
  | false =>
    refine compatibleFields_iff.trans ⟨fun h => h.imp fun e f hf => ⟨hf.1, hf.2, nofun⟩,
      fun h => h.imp fun e f hf => ⟨hf.name, hf.type⟩⟩
  | true =>
    have hfield : AgreesField true = Eq := funext₂ fun e f => propext agreesField_true_iff
    rw [hfield, List.forall₂_eq_eq_eq]
    exact ⟨ColumnType.struct.inj, congrArg _⟩

/-- Only the field of the names of selected branches agrees with it. -/
lemma agreesField_selectorField_iff {f : Field} : AgreesField exact selectorField f ↔
    f.name = fieldSelected ∧ f.type = .utf8 ∧ (exact = true → f.nullable = false) := by
  have htype : Agrees exact .utf8 f.type ↔ f.type = .utf8 := by
    cases exact with
    | true => exact eq_comm
    | false =>
      cases f.type <;> simp [Agrees, compatible, ColumnType.utf8, eq_comm]
  constructor
  · exact fun h => ⟨h.name.symm, htype.mp h.type, fun hexact => (h.nullable hexact).symm⟩
  · rintro ⟨hname, hutf8, hnullable⟩
    exact ⟨hname.symm, htype.mpr hutf8, fun hexact => (hnullable hexact).symm⟩

/-- A type is stored in columns that agree with a column type. -/
def StoredLike (exact : Bool) (t : Ty) (type : ColumnType) : Prop :=
  ∃ stored, t.columnType = .ok stored ∧ Agrees exact stored.1 type

/-- How an optional type is stored. -/
lemma columnType_optionalIf_eq_ok {stored : ColumnType × Bool} :
    (optionalIf nullable t).columnType = .ok stored ↔
      ∃ inner, t.columnType = .ok inner ∧ stored = (inner.1, nullable || inner.2) := by
  cases nullable with
  | false => simp [optionalIf]
  | true =>
    simp only [optionalIf, if_true, optional, wrap, columnType, Outcome.bind_eq_ok, wrapperColumn,
      Except.ok.injEq, Bool.true_or]
    simp only [eq_comm]

/-- Nulls do not change in which columns a type is stored. -/
lemma storedLike_optionalIf :
    StoredLike exact (optionalIf nullable t) type ↔ StoredLike exact t type := by
  simp only [StoredLike, columnType_optionalIf_eq_ok]
  constructor
  · rintro ⟨_, ⟨inner, hinner, rfl⟩, h⟩
    exact ⟨inner, hinner, h⟩
  · rintro ⟨inner, hinner, h⟩
    exact ⟨_, ⟨inner, hinner, rfl⟩, h⟩

/-- A struct or union is stored in the columns of its members. -/
lemma storedLike_members {form : Form} : StoredLike exact (.members info form ms) (.struct fs) ↔
    ∃ es, fieldsOf ms = .ok es ∧ List.Forall₂ (AgreesField exact) (formFields form es) fs := by
  simp only [StoredLike, columnType, Outcome.map_eq_ok]
  constructor
  · rintro ⟨_, ⟨es, hes, rfl⟩, h⟩
    exact ⟨es, hes, agrees_struct_iff.mp h⟩
  · rintro ⟨es, hes, h⟩
    exact ⟨_, ⟨es, hes, rfl⟩, agrees_struct_iff.mpr h⟩

/-- The type that is told from a scalar is stored as this scalar if types are stored as it. -/
lemma storedLike_ofScalar {s : Scalar} (h : ofScalar s = .ok t) :
    StoredLike exact t (.scalar s) ↔ s.isNative = true := by
  cases s with
  | integer width =>
    cases h
    cases width <;> cases exact <;>
      simp [StoredLike, integersOf, ofLeaf, columnType, leafColumn, Agrees, compatible,
        Scalar.isNative, ColumnType.int64]
  | timestamp unit =>
    cases h
    cases unit <;> cases exact <;>
      simp [StoredLike, anyDatetime, ofLeaf, columnType, leafColumn, Agrees, compatible,
        Scalar.isNative]
  | other name => cases h
  | null | boolean | float16 | float32 | float64 | utf8 | largeUtf8 | utf8View | binary
      | largeBinary | binaryView | date32 | date64 =>
    cases h
    cases exact <;>
      simp [StoredLike, ofLeaf, anyDate, text, float, columnType, leafColumn, Agrees, compatible,
        Scalar.isNative, ColumnType.null, ColumnType.boolean, ColumnType.utf8, ColumnType.float64]

/-! ### Columns that types are stored in -/

/-- The fields of a struct are those of branches and one more for the names of selected branches. In
columns of exactly this type the branches are nullable and the names are not. -/
structure Branching (exact : Bool) (fs branches : List Field) : Prop where
  /-- No branch has the name of the last field. -/
  names : ∀ f ∈ branches, f.name ≠ fieldSelected
  /-- Branches are nullable. -/
  nullable : exact = true → ∀ f ∈ branches, f.nullable = true
  /-- The last field holds the names of the selected branches. -/
  selector : ∃ selector, fs = branches ++ [selector] ∧ selector.name = fieldSelected ∧
    selector.type = .utf8 ∧ (exact = true → selector.nullable = false)

/-- A column type is one that types are stored in: exactly, or up to the names of items and whether
parts are nullable. -/
inductive Native : Bool → ColumnType → Prop
  /-- A scalar that types are stored in. -/
  | scalar {exact : Bool} {s : Scalar} (h : s.isNative = true) : Native exact (.scalar s)
  /-- A struct, the parts of which are. -/
  | struct {exact : Bool} {fs : List Field} (plain : storesUnion fs = false)
      (parts : ∀ f ∈ fs, Native exact f.type)
      (nulls : exact = true → ∀ f ∈ fs, f.type = .null → f.nullable = true) :
      Native exact (.struct fs)
  /-- A union, the branches of which are. -/
  | union {exact : Bool} {fs branches : List Field} (branching : Branching exact fs branches)
      (parts : ∀ f ∈ branches, Native exact f.type) : Native exact (.struct fs)
  /-- A list, the items of which are. -/
  | list {exact : Bool} {item : Field} (inside : Native exact item.type)
      (named : exact = true → item.name = itemName)
      (nulls : exact = true → item.type = .null → item.nullable = true) :
      Native exact (.list .small item)
  /-- A block, the items of which are exactly so. -/
  | block {exact : Bool} {n : ℕ} {item : Field} (short : n < Number.pow2 31)
      (inside : Native true item.type) (named : item.name = itemName)
      (nulls : item.type = .null → item.nullable = true) : Native exact (.list (.fixed n) item)

/-! ### Members -/

/-- Members that are told from things one by one are stored in fields that are related to these
things, if this is so for each of them. -/
lemma exists_fieldsOf_iff {α : Type} (name : α → String) (told : α → Ty → Prop)
    {R : Field → α → Prop} {good : α → Prop} {as : List α}
    (hms : List.Forall₂ (fun a m => m.1 = name a ∧ told a m.2) as ms)
    (h : ∀ a ∈ as, ∀ t, told a t →
      ((∃ stored, t.columnType = .ok stored ∧ R ⟨name a, stored.1, stored.2⟩ a) ↔ good a)) :
    (∃ es, fieldsOf ms = .ok es ∧ List.Forall₂ R es as) ↔ ∀ a ∈ as, good a := by
  induction hms with
  | nil => exact iff_of_true ⟨[], rfl, .nil⟩ (List.forall_mem_nil _)
  | @cons a m as ms hfirst _ ih =>
    obtain ⟨hfirst', hrest⟩ := List.forall_mem_cons.mp h
    obtain ⟨name, t⟩ := m
    obtain ⟨rfl, ht⟩ := hfirst
    rw [List.forall_mem_cons, ← ih hrest, ← hfirst' t ht]
    simp only [fieldsOf_cons_eq_ok]
    constructor
    · rintro ⟨_, ⟨stored, others, hstored, hothers, rfl⟩, hR⟩
      obtain ⟨hR, hRs⟩ := List.forall₂_cons.mp hR
      exact ⟨⟨stored, hstored, hR⟩, others, hothers, hRs⟩
    · rintro ⟨⟨stored, hstored, hR⟩, others, hothers, hRs⟩
      exact ⟨_, ⟨stored, others, hstored, hothers, rfl⟩, .cons hR hRs⟩

/-- The members of a struct are told from its fields. -/
lemma forall₂_membersOf_struct (h : membersOf false fs = .ok ms) :
    List.Forall₂ (fun f m => m.1 = f.name ∧ ofColumnType f.nullable f.type = .ok m.2) fs ms := by
  induction fs generalizing ms with
  | nil =>
    cases h
    exact .nil
  | cons f fs ih =>
    simp only [membersOf, Bool.false_and, Bool.false_eq_true, if_false, Outcome.bind_eq_ok,
      Except.ok.injEq, Bool.not_false, Bool.true_and] at h
    obtain ⟨t, ht, others, hothers, rfl⟩ := h
    exact .cons ⟨rfl, ht⟩ (ih hothers)

/-- The branches of a union are told from its fields, but for those with the name of the field that
says which branch is selected, and without nulls. -/
lemma forall₂_membersOf_union (h : membersOf true fs = .ok ms) :
    List.Forall₂ (fun f m => m.1 = f.name ∧ ofColumnType false f.type = .ok m.2)
      (fs.filter fun f => f.name ≠ fieldSelected) ms := by
  induction fs generalizing ms with
  | nil =>
    cases h
    exact .nil
  | cons f fs ih =>
    simp only [membersOf, Bool.true_and, beq_iff_eq, Bool.not_true, Bool.false_and] at h
    split at h
    · rename_i hname
      rw [List.filter_cons_of_neg (by simpa using hname)]
      exact ih h
    · rename_i hname
      rw [List.filter_cons_of_pos (by simpa using hname)]
      simp only [Outcome.bind_eq_ok, Except.ok.injEq] at h
      obtain ⟨t, ht, others, hothers, rfl⟩ := h
      exact .cons ⟨rfl, ht⟩ (ih hothers)

/-- No branch that is told has the name of the field that says which is selected. -/
lemma name_ne_of_membersOf_union (h : membersOf true fs = .ok ms) {member : String × Ty}
    (hmember : member ∈ ms) : member.1 ≠ fieldSelected := by
  obtain ⟨f, hf, hname, -⟩ :=
    Outcome.exists_mem_of_forall₂ (forall₂_membersOf_union h).flip hmember
  rw [hname]
  exact of_decide_eq_true (List.mem_filter.mp hf).2

/-- The fields of the branches, in front of the field that says which is selected. -/
lemma filter_branches {selector : Field} (hnames : ∀ f ∈ branches, f.name ≠ fieldSelected)
    (hselector : selector.name = fieldSelected) :
    ((branches ++ [selector]).filter fun f => f.name ≠ fieldSelected) = branches := by
  rw [List.filter_append, List.filter_eq_self.mpr fun f hf => decide_eq_true (hnames f hf),
    List.filter_cons_of_neg (by simp [hselector]), List.filter_nil, List.append_nil]

/-- Items are related to some items and one more exactly if the last of them is related to this
one, and those before to the others. -/
lemma forall₂_append_singleton_iff {α β : Type} {R : α → β → Prop} {as : List α} {a : α}
    {bs : List β} : List.Forall₂ R (as ++ [a]) bs ↔
      ∃ bs' b, bs = bs' ++ [b] ∧ List.Forall₂ R as bs' ∧ R a b := by
  constructor
  · intro h
    have htake := List.forall₂_take_append bs as [a] h.flip
    have hdrop := List.forall₂_drop_append bs as [a] h.flip
    obtain ⟨b, rest, hb, hrest, heq⟩ := List.forall₂_cons_right_iff.mp hdrop
    rw [List.forall₂_nil_right_iff.mp hrest] at heq
    exact ⟨bs.take as.length, b, by rw [← heq, List.take_append_drop], htake.flip, hb⟩
  · rintro ⟨bs', b, rfl, hbs, hb⟩
    exact List.rel_append hbs (.cons hb .nil)

/-- A struct that is told from fields is stored in columns that agree with them if its parts are. -/
lemma storedLike_struct_iff (told : Field → Ty → Prop) {good : Field → Prop}
    (hms : List.Forall₂ (fun f m => m.1 = f.name ∧ told f m.2) fs ms)
    (h : ∀ f ∈ fs, ∀ t, told f t →
      ((∃ stored, t.columnType = .ok stored ∧ AgreesField exact ⟨f.name, stored.1, stored.2⟩ f) ↔
        good f)) :
    StoredLike exact (.members info .struct ms) (.struct fs) ↔ ∀ f ∈ fs, good f := by
  rw [storedLike_members]
  exact exists_fieldsOf_iff FieldOf.name told hms h

/-- A union that is told from fields is stored in columns that agree with them if the fields are
those of branches and the last one, and the branches are. -/
lemma storedLike_union_iff (hms : membersOf true fs = .ok ms)
    (h : ∀ f ∈ fs, ∀ t, ofColumnType false f.type = .ok t →
      (StoredLike exact t f.type ↔ Native exact f.type)) :
    StoredLike exact (.members info .union ms) (.struct fs) ↔
      ∃ branches, Branching exact fs branches ∧ ∀ f ∈ branches, Native exact f.type := by
  have htold := forall₂_membersOf_union hms
  -- The branches alone, once it is known which fields they are.
  have hbranches : ∀ branches : List Field, (fs.filter fun f => f.name ≠ fieldSelected) = branches →
      ((∃ es, fieldsOf ms = .ok es ∧
          List.Forall₂ (fun e f => AgreesField exact ⟨e.name, e.type, true⟩ f) es branches) ↔
        ∀ f ∈ branches, Native exact f.type ∧ (exact = true → f.nullable = true)) := by
    rintro _ rfl
    refine exists_fieldsOf_iff FieldOf.name (fun f t => ofColumnType false f.type = .ok t) htold
      fun f hf t ht => ?_
    rw [← h f (List.mem_of_mem_filter hf) t ht]
    constructor
    · rintro ⟨stored, hstored, hagrees⟩
      exact ⟨⟨stored, hstored, hagrees.type⟩, fun hexact => (hagrees.nullable hexact).symm⟩
    · rintro ⟨⟨stored, hstored, hagrees⟩, hnullable⟩
      exact ⟨stored, hstored, rfl, hagrees, fun hexact => (hnullable hexact).symm⟩
  rw [storedLike_members]
  simp only [formFields, forall₂_append_singleton_iff, List.forall₂_map_left_iff,
    agreesField_selectorField_iff]
  constructor
  · rintro ⟨es, hes, branches, selector, rfl, hagree, hselector⟩
    have hnames : ∀ f ∈ branches, f.name ≠ fieldSelected := by
      intro f hf
      obtain ⟨e, he, hagree⟩ := Outcome.exists_mem_of_forall₂ hagree.flip hf
      obtain ⟨t, hmem, -⟩ := exists_member_of_fieldsOf hes he
      rw [← hagree.name]
      exact name_ne_of_membersOf_union hms hmem
    have hparts := (hbranches branches (filter_branches hnames hselector.1)).mp ⟨es, hes, hagree⟩
    exact ⟨branches, ⟨hnames, fun hexact f hf => (hparts f hf).2 hexact, selector, rfl, hselector⟩,
      fun f hf => (hparts f hf).1⟩
  · rintro ⟨branches, ⟨hnames, hnullable, selector, rfl, hselector⟩, hparts⟩
    obtain ⟨es, hes, hagree⟩ := (hbranches branches (filter_branches hnames hselector.1)).mpr
      fun f hf => ⟨hparts f hf, fun hexact => hnullable hexact f hf⟩
    exact ⟨es, hes, branches, selector, rfl, hagree, hselector⟩

/-! ### Nulls -/

/-- A type that is stored without nulls has nulls exactly if they are counted. -/
lemma nullable_of_optionalIf {stored : ColumnType × Bool}
    (h : ∀ inner, t.columnType = .ok inner → inner.2 = false)
    (hstored : (optionalIf nullable t).columnType = .ok stored) : stored.2 = nullable := by
  obtain ⟨inner, hinner, rfl⟩ := columnType_optionalIf_eq_ok.mp hstored
  rw [h inner hinner, Bool.or_false]

/-- Structs and unions are stored without nulls. -/
lemma nullable_of_members {form : Form} {stored : ColumnType × Bool}
    (h : (members info form ms).columnType = .ok stored) : stored.2 = false := by
  obtain ⟨es, -, rfl⟩ := Outcome.map_eq_ok.mp h
  rfl

/-- What is told from a scalar other than null is stored without nulls. -/
lemma nullable_of_ofScalar {s : Scalar} (hs : s ≠ .null) (h : ofScalar s = .ok t)
    {stored : ColumnType × Bool} (hstored : t.columnType = .ok stored) : stored.2 = false := by
  cases s with
  | null => exact absurd rfl hs
  | integer width =>
    cases h
    cases width <;> cases hstored <;> rfl
  | other name => cases h
  | boolean | float16 | float32 | float64 | utf8 | largeUtf8 | utf8View | binary | largeBinary
      | binaryView | date32 | date64 | timestamp unit =>
    cases h
    cases hstored
    rfl

/-- What is told from a scalar other than null. -/
lemma ofColumnType_scalar {s : Scalar} (hs : s ≠ .null) (nullable : Bool) :
    ofColumnType nullable (.scalar s) = (ofScalar s).map (optionalIf nullable) := by
  rw [ofColumnType]
  exact hs

/-- What is told from a struct. -/
lemma ofColumnType_struct_eq_ok :
    ofColumnType nullable (.struct fs) = .ok t ↔ ∃ ms, membersOf (storesUnion fs) fs = .ok ms ∧
      t = optionalIf nullable
        (.members plainInfo (if storesUnion fs then .union else .struct) ms) := by
  rw [ofColumnType]
  cases storesUnion fs <;> simp only [Bool.false_eq_true, if_false, if_true, Outcome.map_eq_ok,
    struct, union, @eq_comm Ty t]

/-- The wrapper of a type with the given layout of its cells. -/
def layoutWrapper : ListLayout → Wrapper
  | .fixed n => .array [n]
  | .small | .large => .list (Number.word64 - 1)

/-- What is told from lists. -/
lemma ofColumnType_list_eq_ok {layout : ListLayout} {item : Field} :
    ofColumnType nullable (.list layout item) = .ok t ↔
      ∃ inner, ofColumnType item.nullable item.type = .ok inner ∧
        t = optionalIf nullable (wrap (layoutWrapper layout) inner) := by
  rw [ofColumnType, Outcome.map_eq_ok]
  cases layout <;> simp [layoutWrapper, list, array, eq_comm]

/-- The layout in which a type that is told from lists of a given layout is stored. -/
def storedLayout : ListLayout → ListLayout
  | .fixed n => .fixed n
  | .small | .large => .small

/-- How a type that is told from lists is stored: without nulls, and only if blocks are not too
long. -/
lemma columnType_layoutWrapper_eq_ok {layout : ListLayout} {inner : Ty}
    {stored : ColumnType × Bool} : (wrap (layoutWrapper layout) inner).columnType = .ok stored ↔
      (∀ n, layout = .fixed n → n < Number.pow2 31) ∧ ∃ item, inner.columnType = .ok item ∧
        stored = (.list (storedLayout layout) ⟨itemName, item.1, item.2⟩, false) := by
  have hwrapper : ∀ item, wrapperColumn item (layoutWrapper layout) = .ok stored ↔
      (∀ n, layout = .fixed n → n < Number.pow2 31) ∧
        stored = (.list (storedLayout layout) ⟨itemName, item.1, item.2⟩, false) := by
    intro item
    cases layout with
    | small | large => simp [layoutWrapper, wrapperColumn, storedLayout, eq_comm]
    | fixed n =>
      by_cases hn : n < Number.pow2 31 <;>
        simp [layoutWrapper, wrapperColumn, storedLayout, blockLength, Except.map, hn, eq_comm]
  simp only [wrap, columnType, Outcome.bind_eq_ok, hwrapper]
  tauto

/-- **The type that is told from a column has nulls** if they are counted, or if there is nothing
else. -/
theorem nullable_of_ofColumnType (h : ofColumnType nullable type = .ok t)
    {stored : ColumnType × Bool} (hstored : t.columnType = .ok stored) :
    stored.2 = (nullable || decide (type = .null)) := by
  cases type with
  | scalar s =>
    by_cases hs : s = .null
    · subst hs
      cases h
      cases hstored
      exact (Bool.or_true nullable).symm
    · rw [ofColumnType_scalar hs] at h
      obtain ⟨inner, hinner, rfl⟩ := Outcome.map_eq_ok.mp h
      rw [nullable_of_optionalIf (fun _ => nullable_of_ofScalar hs hinner) hstored]
      simp [ColumnType.null, hs]
  | struct fs =>
    obtain ⟨ms, -, rfl⟩ := ofColumnType_struct_eq_ok.mp h
    rw [nullable_of_optionalIf (fun _ => nullable_of_members) hstored]
    exact (Bool.or_false nullable).symm
  | list layout item =>
    obtain ⟨inner, -, rfl⟩ := ofColumnType_list_eq_ok.mp h
    rw [nullable_of_optionalIf (fun _ hinner => ?_) hstored]
    · exact (Bool.or_false nullable).symm
    · obtain ⟨-, _, -, rfl⟩ := columnType_layoutWrapper_eq_ok.mp hinner
      rfl

/-- What is told from a column is stored in the same columns with nulls where this one has them,
unless the column holds nothing but nulls and is not nullable. -/
lemma exists_stored_iff (h : ofColumnType nullable type = .ok t) :
    (∃ stored, t.columnType = .ok stored ∧ Agrees exact stored.1 type ∧
        (exact = true → stored.2 = nullable)) ↔
      StoredLike exact t type ∧ (exact = true → type = .null → nullable = true) := by
  constructor
  · rintro ⟨stored, hstored, hagrees, hnullable⟩
    refine ⟨⟨stored, hstored, hagrees⟩, fun hexact hnull => ?_⟩
    rw [← hnullable hexact, nullable_of_ofColumnType h hstored, decide_eq_true hnull, Bool.or_true]
  · rintro ⟨⟨stored, hstored, hagrees⟩, hnull⟩
    refine ⟨stored, hstored, hagrees, fun hexact => ?_⟩
    rw [nullable_of_ofColumnType h hstored, Bool.or_eq_left_iff_imp, decide_eq_true_iff]
    exact hnull hexact

/-! ### Types told from columns -/

/-- Fields of branches and their names store a union. -/
lemma Branching.storesUnion_eq (h : Branching exact fs branches) : storesUnion fs = true := by
  obtain ⟨selector, rfl, hname, htype, -⟩ := h.selector
  exact List.any_eq_true.mpr ⟨selector, by simp, by simp [hname, htype]⟩

/-- Columns of scalars. -/
lemma native_scalar_iff {s : Scalar} : Native exact (.scalar s) ↔ s.isNative = true :=
  ⟨fun h => by cases h; assumption, .scalar⟩

/-- Columns of structs that store no union. -/
lemma native_struct_iff (hplain : storesUnion fs = false) :
    Native exact (.struct fs) ↔
      ∀ f ∈ fs, Native exact f.type ∧ (exact = true → f.type = .null → f.nullable = true) := by
  constructor
  · intro h f hf
    cases h with
    | struct _ parts nulls => exact ⟨parts f hf, fun hexact => nulls hexact f hf⟩
    | union branching _ => exact absurd branching.storesUnion_eq (by simp [hplain])
  · exact fun h => .struct hplain (fun f hf => (h f hf).1) fun hexact f hf => (h f hf).2 hexact

/-- Columns of structs that store a union. -/
lemma native_union_iff (hunion : storesUnion fs = true) :
    Native exact (.struct fs) ↔
      ∃ branches, Branching exact fs branches ∧ ∀ f ∈ branches, Native exact f.type := by
  constructor
  · intro h
    cases h with
    | struct plain _ _ => exact absurd plain (by simp [hunion])
    | union branching parts => exact ⟨_, branching, parts⟩
  · exact fun ⟨branches, hbranching, hparts⟩ => .union hbranching hparts

/-- Lists agree with those of types if their items do. -/
lemma agrees_small_iff {stored : ColumnType × Bool} {item : Field} :
    Agrees exact (.list .small ⟨itemName, stored.1, stored.2⟩) (.list .small item) ↔
      (exact = true → item.name = itemName) ∧ Agrees exact stored.1 item.type ∧
        (exact = true → stored.2 = item.nullable) := by
  obtain ⟨name, type, nullable⟩ := item
  cases exact <;> simp [Agrees, compatible, @eq_comm String name]

/-- Blocks agree with those of types if their items are the same. -/
lemma agrees_fixed_iff {n : ℕ} {stored : ColumnType × Bool} {item : Field} :
    Agrees exact (.list (.fixed n) ⟨itemName, stored.1, stored.2⟩) (.list (.fixed n) item) ↔
      item.name = itemName ∧ Agrees true stored.1 item.type ∧
        (true = true → stored.2 = item.nullable) := by
  obtain ⟨name, type, nullable⟩ := item
  cases exact <;> simp [Agrees, compatible, @eq_comm String name]

/-- Lists with wide offsets agree with none of a type. -/
lemma not_agrees_large {expected item : Field} :
    ¬ Agrees exact (.list .small expected) (.list .large item) := by
  cases exact <;> simp [Agrees, compatible]

/-- A type that is told from lists is stored in columns that agree with them if blocks are not too
long and its items are stored in such columns. -/
lemma storedLike_layoutWrapper {layout : ListLayout} {inner : Ty} {item : Field} :
    StoredLike exact (wrap (layoutWrapper layout) inner) (.list layout item) ↔
      (∀ n, layout = .fixed n → n < Number.pow2 31) ∧ ∃ stored, inner.columnType = .ok stored ∧
        Agrees exact (.list (storedLayout layout) ⟨itemName, stored.1, stored.2⟩)
          (.list layout item) := by
  simp only [StoredLike, columnType_layoutWrapper_eq_ok]
  constructor
  · rintro ⟨_, ⟨hshort, stored, hstored, rfl⟩, hagrees⟩
    exact ⟨hshort, stored, hstored, hagrees⟩
  · rintro ⟨hshort, stored, hstored, hagrees⟩
    exact ⟨_, ⟨hshort, stored, hstored, rfl⟩, hagrees⟩

/-- Columns of lists. -/
lemma native_small_iff {item : Field} : Native exact (.list .small item) ↔
    (exact = true → item.name = itemName) ∧ Native exact item.type ∧
      (exact = true → item.type = .null → item.nullable = true) := by
  refine ⟨fun h => ?_, fun ⟨named, inside, nulls⟩ => .list inside named nulls⟩
  cases h with
  | list inside named nulls => exact ⟨named, inside, nulls⟩

/-- Columns of blocks. -/
lemma native_fixed_iff {n : ℕ} {item : Field} : Native exact (.list (.fixed n) item) ↔
    n < Number.pow2 31 ∧ item.name = itemName ∧ Native true item.type ∧
      (true = true → item.type = .null → item.nullable = true) := by
  refine ⟨fun h => ?_, fun ⟨short, named, inside, nulls⟩ => .block short inside named (nulls rfl)⟩
  cases h with
  | block short inside named nulls => exact ⟨short, named, inside, fun _ => nulls⟩

/-- The type that is told from lists is stored in such columns exactly if this is so for the type
that is told from their items. -/
lemma storedLike_list_iff {layout : ListLayout} {item : Field} {inner : Ty}
    (hinner : ofColumnType item.nullable item.type = .ok inner)
    (hitem : ∀ {exact : Bool}, StoredLike exact inner item.type ↔ Native exact item.type) :
    StoredLike exact (wrap (layoutWrapper layout) inner) (.list layout item) ↔
      Native exact (.list layout item) := by
  rw [storedLike_layoutWrapper]
  cases layout with
  | small =>
    rw [native_small_iff, ← hitem, ← exists_stored_iff hinner]
    simp only [storedLayout, agrees_small_iff]
    constructor
    · rintro ⟨-, stored, hstored, hname, hitem⟩
      exact ⟨hname, stored, hstored, hitem⟩
    · rintro ⟨hname, stored, hstored, hitem⟩
      exact ⟨nofun, stored, hstored, hname, hitem⟩
  | large => exact iff_of_false (fun ⟨_, _, _, h⟩ => not_agrees_large h) nofun
  | fixed n =>
    rw [native_fixed_iff, ← hitem, ← exists_stored_iff hinner]
    simp only [storedLayout, agrees_fixed_iff, ListLayout.fixed.injEq, forall_eq']
    constructor
    · rintro ⟨hshort, stored, hstored, hname, hitem⟩
      exact ⟨hshort, hname, stored, hstored, hitem⟩
    · rintro ⟨hshort, hname, stored, hstored, hitem⟩
      exact ⟨hshort, stored, hstored, hname, hitem⟩

/-- **The type that is told from a column is stored in such columns** exactly if the column is one
that types are stored in. -/
theorem storedLike_ofColumnType_iff (h : ofColumnType nullable type = .ok t) :
    StoredLike exact t type ↔ Native exact type := by
  induction type using ColumnType.induction generalizing exact nullable t with
  | scalar s =>
    rw [native_scalar_iff]
    by_cases hs : s = .null
    · subst hs
      cases h
      exact storedLike_ofScalar rfl
    · rw [ofColumnType_scalar hs] at h
      obtain ⟨inner, hinner, rfl⟩ := Outcome.map_eq_ok.mp h
      rw [storedLike_optionalIf]
      exact storedLike_ofScalar hinner
  | struct fs ih =>
    obtain ⟨ms, hms, rfl⟩ := ofColumnType_struct_eq_ok.mp h
    rw [storedLike_optionalIf]
    cases hunion : storesUnion fs with
    | false =>
      rw [hunion] at hms
      rw [native_struct_iff hunion]
      refine storedLike_struct_iff (fun f t => ofColumnType f.nullable f.type = .ok t)
        (forall₂_membersOf_struct hms) fun f hf t ht => ?_
      rw [← ih f hf ht, ← exists_stored_iff ht]
      exact exists_congr fun stored => and_congr_right fun _ =>
        ⟨fun h => ⟨h.type, h.nullable⟩, fun h => ⟨rfl, h.1, h.2⟩⟩
    | true =>
      rw [hunion] at hms
      rw [native_union_iff hunion]
      exact storedLike_union_iff hms fun f hf t ht => ih f hf ht
  | list layout item ih =>
    obtain ⟨inner, hinner, rfl⟩ := ofColumnType_list_eq_ok.mp h
    rw [storedLike_optionalIf]
    exact storedLike_list_iff hinner (ih hinner)

/-! ### Types told from cells -/

/-- A column type is one from which, with its cells, a type is told that is stored in such columns:
structs are told part by part, and a field of any type that has the name of the one that says which
branch is selected makes them a union. -/
inductive Regular : ColumnType → Prop
  /-- A struct, the parts of which are. -/
  | struct {fs : List Field} (plain : ∀ f ∈ fs, f.name ≠ fieldSelected)
      (parts : ∀ f ∈ fs, Regular f.type) : Regular (.struct fs)
  /-- A union, the branches of which are columns that types are stored in. -/
  | union {fs branches : List Field} (branching : Branching false fs branches)
      (parts : ∀ f ∈ branches, Native false f.type) : Regular (.struct fs)
  /-- Another column that types are stored in. -/
  | other {type : ColumnType} (hstruct : type.isStruct = false) (h : Native false type) :
      Regular type

/-- Fields that end with the names of the selected branches have one of this name. -/
lemma Branching.exists_selector (h : Branching exact fs branches) :
    ∃ f ∈ fs, f.name = fieldSelected := by
  obtain ⟨selector, rfl, hname, -⟩ := h.selector
  exact ⟨selector, by simp, hname⟩

/-- Structs without a field that says which branch is selected. -/
lemma regular_struct_iff (hplain : ∀ f ∈ fs, f.name ≠ fieldSelected) :
    Regular (.struct fs) ↔ ∀ f ∈ fs, Regular f.type := by
  constructor
  · intro h
    cases h with
    | struct _ parts => exact parts
    | union branching _ =>
      obtain ⟨f, hf, hname⟩ := branching.exists_selector
      exact absurd hname (hplain f hf)
    | other hstruct _ => cases hstruct
  · exact .struct hplain

/-- Structs with a field that says which branch is selected. -/
lemma regular_union_iff (hunion : ∃ f ∈ fs, f.name = fieldSelected) :
    Regular (.struct fs) ↔
      ∃ branches, Branching false fs branches ∧ ∀ f ∈ branches, Native false f.type := by
  constructor
  · intro h
    cases h with
    | struct plain _ =>
      obtain ⟨f, hf, hname⟩ := hunion
      exact absurd hname (plain f hf)
    | union branching parts => exact ⟨_, branching, parts⟩
    | other hstruct _ => cases hstruct
  · exact fun ⟨branches, hbranching, hparts⟩ => .union hbranching hparts

/-- Columns without parts. -/
lemma regular_iff_native (hstruct : type.isStruct = false) :
    Regular type ↔ Native false type := by
  refine ⟨fun h => ?_, .other hstruct⟩
  cases h with
  | struct _ _ => cases hstruct
  | union _ _ => cases hstruct
  | other _ h => exact h

/-- What is told from the cells of a column without parts. -/
lemma ofCells_of_not_struct (hstruct : type.isStruct = false)
    (cells : List Cell) : ofCells cells type = ofColumnType (cells.any Cell.isNull) type := by
  cases type with
  | struct fs => cases hstruct
  | scalar s => cases s <;> rfl
  | list layout item => rfl

/-- The members of a struct are told from cells of its fields. -/
lemma forall₂_membersOfCells {cells : List Cell} {i : ℕ} (h : membersOfCells cells i fs = .ok ms) :
    List.Forall₂ (fun f m => m.1 = f.name ∧ ∃ cells, ofCells cells f.type = .ok m.2) fs ms := by
  induction fs generalizing i ms with
  | nil =>
    cases h
    exact .nil
  | cons f fs ih =>
    simp only [membersOfCells, Outcome.bind_eq_ok, Except.ok.injEq] at h
    obtain ⟨t, ht, others, hothers, rfl⟩ := h
    exact .cons ⟨rfl, _, ht⟩ (ih hothers)

/-- What is told from the cells of a struct without a field that says which branch is selected. -/
lemma ofCells_struct_eq_ok {cells : List Cell}
    (hplain : ∀ f ∈ fs, f.name ≠ fieldSelected) : ofCells cells (.struct fs) = .ok t ↔
      ∃ ms, membersOfCells cells 0 fs = .ok ms ∧
        t = optionalIf (cells.any Cell.isNull) (struct ms) := by
  have hany : (fs.any fun f => f.name == fieldSelected) = false :=
    List.any_eq_false.mpr fun f hf => by simp [hplain f hf]
  rw [ofCells, hany]
  simp only [Bool.false_eq_true, if_false, Outcome.map_eq_ok, @eq_comm Ty t]

/-- What is told from the cells of a struct with a field that says which branch is selected. -/
lemma ofCells_union_eq_ok {cells : List Cell}
    (hunion : ∃ f ∈ fs, f.name = fieldSelected) : ofCells cells (.struct fs) = .ok t ↔
      ∃ ms, membersOf true fs = .ok ms ∧
        t = optionalIf (cells.any Cell.isNull) (union ms) := by
  have hany : (fs.any fun f => f.name == fieldSelected) = true := by
    obtain ⟨f, hf, hname⟩ := hunion
    exact List.any_eq_true.mpr ⟨f, hf, by simp [hname]⟩
  rw [ofCells, hany]
  simp only [if_true, Outcome.map_eq_ok, @eq_comm Ty t]

/-- **The type that is told from the cells of a column is stored in such columns** exactly if the
column is regular. -/
theorem storedLike_ofCells_iff {cells : List Cell} (h : ofCells cells type = .ok t) :
    StoredLike false t type ↔ Regular type := by
  induction type using ColumnType.induction generalizing cells t with
  | scalar s =>
    rw [ofCells_of_not_struct rfl] at h
    rw [regular_iff_native rfl]
    exact storedLike_ofColumnType_iff h
  | struct fs ih =>
    by_cases hunion : ∃ f ∈ fs, f.name = fieldSelected
    · obtain ⟨ms, hms, rfl⟩ := (ofCells_union_eq_ok hunion).mp h
      rw [storedLike_optionalIf, regular_union_iff hunion]
      exact storedLike_union_iff hms fun f hf t ht => storedLike_ofColumnType_iff ht
    · push Not at hunion
      obtain ⟨ms, hms, rfl⟩ := (ofCells_struct_eq_ok hunion).mp h
      rw [storedLike_optionalIf, regular_struct_iff hunion]
      refine storedLike_struct_iff (fun f t => ∃ cells, ofCells cells f.type = .ok t)
        (forall₂_membersOfCells hms) fun f hf t ht => ?_
      obtain ⟨cells, ht⟩ := ht
      rw [← ih f hf ht]
      exact exists_congr fun stored => and_congr_right fun _ =>
        ⟨fun h => h.type, fun h => ⟨rfl, h, nofun⟩⟩
  | list layout item ih =>
    rw [ofCells_of_not_struct rfl] at h
    rw [regular_iff_native rfl]
    exact storedLike_ofColumnType_iff h

/-- **The type that is told from the cells of a column has nulls** if there are some, or if there is
nothing else. -/
theorem nullable_of_ofCells {cells : List Cell} (h : ofCells cells type = .ok t)
    {stored : ColumnType × Bool} (hstored : t.columnType = .ok stored) :
    stored.2 = (cells.any Cell.isNull || decide (type = .null)) := by
  cases type with
  | scalar s =>
    rw [ofCells_of_not_struct rfl] at h
    exact nullable_of_ofColumnType h hstored
  | struct fs =>
    have hnullable : stored.2 = cells.any Cell.isNull := by
      by_cases hunion : ∃ f ∈ fs, f.name = fieldSelected
      · obtain ⟨ms, -, rfl⟩ := (ofCells_union_eq_ok hunion).mp h
        exact nullable_of_optionalIf (fun _ => nullable_of_members) hstored
      · push Not at hunion
        obtain ⟨ms, -, rfl⟩ := (ofCells_struct_eq_ok hunion).mp h
        exact nullable_of_optionalIf (fun _ => nullable_of_members) hstored
    rw [hnullable]
    exact (Bool.or_false _).symm
  | list layout item =>
    rw [ofCells_of_not_struct rfl] at h
    exact nullable_of_ofColumnType h hstored

/-! ### Types told from batches -/

variable {b b' : Batch}

/-- The columns of a batch with the fields at their places. -/
lemma mem_columns_iff {entry : Field × Column} : entry ∈ b.columns ↔
    ∃ i, b.fields[i]? = some entry.1 ∧ entry.2 = ⟨entry.1.type, b.cellsAt i⟩ := by
  obtain ⟨f, c⟩ := entry
  simp only [Batch.columns, List.mem_map, List.mem_zipIdx_iff_getElem?, Prod.exists, Prod.mk.injEq]
  constructor
  · rintro ⟨f, i, hf, rfl, rfl⟩
    exact ⟨i, hf, rfl⟩
  · rintro ⟨i, hf, rfl⟩
    exact ⟨f, i, hf, rfl, rfl⟩

/-- The fields of the columns of a batch. -/
lemma map_fst_columns (b : Batch) : b.columns.map Prod.fst = b.fields := by
  rw [Batch.columns, List.map_map]
  exact List.zipIdx_map_fst 0 b.fields

/-- Where a nullable column of one batch holds no nulls, the column of another batch that is found
under its name holds none. -/
def NullsWithin (b b' : Batch) : Prop :=
  ∀ entry ∈ b.columns, entry.1.nullable = true → entry.1.type ≠ .null → entry.2.nullCount = 0 →
    ∀ c, b'.column? entry.1.name = some c → c.nullCount = 0

/-- Columns with distinct names hold nulls where they do. -/
lemma nullsWithin_self (hnodup : (b.fields.map FieldOf.name).Nodup) : NullsWithin b b := by
  intro entry hentry _ _ hcount c hc
  obtain ⟨i, hf, hcolumn⟩ := mem_columns_iff.mp hentry
  cases (column?_eq_some hnodup hf).symm.trans hc
  rwa [← hcolumn]

/-- A column with nulls is told to be nullable, and one that holds nothing else. -/
lemma nullable_eq_false_iff {c : Column} (h : ofColumn c = .ok t) {stored : ColumnType × Bool}
    (hstored : t.columnType = .ok stored) :
    stored.2 = false ↔ c.type ≠ .null ∧ c.nullCount = 0 := by
  rw [nullable_of_ofCells h hstored, Batch.nullCount_eq_zero_iff, Bool.or_eq_false_iff,
    List.any_eq_false, decide_eq_false_iff_not]
  simp only [Bool.not_eq_true]
  tauto

/-- A column of a batch is as the type that is told from a column of another batch says exactly if
this one is regular and the nulls of the former are told. -/
lemma exists_checkColumn_iff {f : Field} {c : Column} (htype : c.type = f.type)
    (h : ofColumn c = .ok t) :
    (∃ stored, t.columnType = .ok stored ∧
        checkColumn b' ⟨f.name, stored.1, stored.2⟩ f = .ok ()) ↔
      Regular f.type ∧ (f.nullable = true → f.type ≠ .null → c.nullCount = 0 →
        ∀ c', b'.column? f.name = some c' → c'.nullCount = 0) := by
  simp only [checkColumn_eq_ok, true_and]
  rw [← htype, ← storedLike_ofCells_iff h]
  constructor
  · rintro ⟨stored, hstored, hagrees, hnulls⟩
    exact ⟨⟨stored, hstored, hagrees⟩, fun hnullable htype hcount =>
      hnulls ((nullable_eq_false_iff h hstored).mpr ⟨htype, hcount⟩) hnullable⟩
  · rintro ⟨⟨stored, hstored, hagrees⟩, hnulls⟩
    refine ⟨stored, hstored, hagrees, fun hfalse hnullable => ?_⟩
    obtain ⟨htype, hcount⟩ := (nullable_eq_false_iff h hstored).mp hfalse
    exact hnulls hnullable htype hcount

/-- **A batch with the fields of the one its type is told from** is stored as this type says exactly
if all columns are regular and it has nulls only where the first batch has. -/
theorem checkBatch_iff_of_ofBatch (h : ofBatch b = .ok t) (hfields : b'.fields = b.fields) :
    t.checkBatch b' = .ok () ↔ (∀ f ∈ b.fields, Regular f.type) ∧ NullsWithin b b' := by
  obtain ⟨ms, hms, ht⟩ := Outcome.bind_eq_ok.mp h
  cases ht
  have htold : List.Forall₂ (fun entry m => m.1 = entry.1.name ∧ ofColumn entry.2 = .ok m.2)
      b.columns ms := by
    refine (Outcome.mapM_eq_ok.mp hms).imp fun entry m hm => ?_
    obtain ⟨t, ht, rfl⟩ := Outcome.map_eq_ok.mp hm
    exact ⟨rfl, ht⟩
  have hbatchFields : (struct ms).batchFields = fieldsOf ms := by
    rw [struct, batchFields]
    cases fieldsOf ms <;> rfl
  rw [checkBatch_eq_ok, hbatchFields, hfields, ← map_fst_columns b]
  simp only [List.forall₂_map_right_iff, List.forall_mem_map]
  have hcolumn : ∀ entry ∈ b.columns, ∀ t, ofColumn entry.2 = .ok t →
      ((∃ stored, t.columnType = .ok stored ∧
          checkColumn b' ⟨entry.1.name, stored.1, stored.2⟩ entry.1 = .ok ()) ↔
        Regular entry.1.type ∧
          (entry.1.nullable = true → entry.1.type ≠ .null → entry.2.nullCount = 0 →
            ∀ c, b'.column? entry.1.name = some c → c.nullCount = 0)) := by
    intro entry hentry t ht
    obtain ⟨i, -, hcolumn⟩ := mem_columns_iff.mp hentry
    exact exists_checkColumn_iff (by rw [hcolumn]) ht
  rw [exists_fieldsOf_iff _ _ htold hcolumn]
  exact forall₂_and

/-- The type that is told from a batch is stored in its columns. -/
structure TellsBack (b : Batch) : Prop where
  /-- All columns are regular. -/
  regular : ∀ f ∈ b.fields, Regular f.type
  /-- Where no nulls are told, none are found. -/
  nulls : NullsWithin b b

/-- Batches with columns of distinct names. -/
lemma tellsBack_iff_of_nodup (hnodup : (b.fields.map FieldOf.name).Nodup) :
    TellsBack b ↔ ∀ f ∈ b.fields, Regular f.type :=
  ⟨TellsBack.regular, fun h => ⟨h, nullsWithin_self hnodup⟩⟩

end Ty

end Lineage
