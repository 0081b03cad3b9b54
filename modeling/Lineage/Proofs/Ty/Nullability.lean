import Lineage.Proofs.Ty.Item

set_option autoImplicit false

/-!
# Whether items may be null

Whether an item may be null is told twice: from the labels that lead to it, and from the column that
its type is stored in. An item below an optional type or in a branch of a union may be null whatever
its type is. Otherwise the labels only tell nulls of types that are optional or have no other value,
and say nothing of those of the type that a constraint or a hypothesis stands for.

## Main definitions

* `Lineage.Ty.passed`: the types that labels take a step from.
* `Lineage.Ty.ThroughNulls`: labels lead through an optional type or a union.
* `Lineage.Ty.StoresNulls`: values of a type are stored in columns with nulls.
* `Lineage.Ty.HidesNulls`: they are, and the type is constrained or a hypothesis.

## Main results

* `Lineage.Ty.itemNullable_iff`: what the labels tell.
* `Lineage.Ty.itemNullable_agrees_iff`: when the two agree.
* `Lineage.Ty.not_agrees_positiveDigits`: they need not, and then a null keeps the item from being
  had.
-/

namespace Lineage.Ty

variable {labels : List String} {t part : Ty}

/-- The types that labels take a step from, beginning with the first. -/
def passed : List String → Ty → List Ty
  | [], _ => []
  | label :: rest, t => t :: ((t.step? label).map (passed rest)).getD []

/-- A type is a list or an array. -/
def isSequence : Ty → Bool
  | .wrapped _ (.list _) _ => true
  | .wrapped _ (.array _) _ => true
  | _ => false

/-- A type is stored like another one: the type under a constraint or the best candidate. -/
def isVeil : Ty → Bool
  | .wrapped _ (.constrained _) _ => true
  | .hypothesis _ _ => true
  | _ => false

/-- Labels lead through an optional type or into a branch of a union. -/
def ThroughNulls (labels : List String) (t : Ty) : Prop :=
  ∃ s ∈ passed labels t, s.isOptional = true ∨ s.isUnion = true

/-- Values of a type are stored in columns with nulls. -/
def StoresNulls (t : Ty) : Prop := ∃ type, t.columnType = .ok (type, true)

/-- Values of a type are stored in columns with nulls, because a constraint or a hypothesis stands
for such a type. -/
def HidesNulls (t : Ty) : Prop := t.isVeil = true ∧ t.StoresNulls

/-- Labels that take a step lead through nulls there or later. -/
lemma throughNulls_cons {label : String} (hstep : t.step? label = some part) :
    ThroughNulls (label :: labels) t ↔
      (t.isOptional = true ∨ t.isUnion = true) ∨ ThroughNulls labels part := by
  simp [ThroughNulls, passed, hstep]

/-! ### What labels tell -/

/-- **What labels tell of nulls**: an item may be null if they lead through an optional type or a
union, or if its type is optional or has no other value.

**Proof sketch.** By induction on the labels. Through an optional type or a union both sides
hold at once; through a struct or a constrained type they are those of what is inside. -/
theorem itemNullable_iff (hpart : along? labels t = some part)
    (hplain : ∀ s ∈ passed labels t, s.isSequence = false) :
    itemNullable labels t = true ↔ ThroughNulls labels t ∨ itemNullable [] part = true := by
  induction labels generalizing t with
  | nil =>
    cases hpart
    simp [ThroughNulls, passed]
  | cons label rest ih =>
    obtain ⟨next, hstep, hrest⟩ := Option.bind_eq_some_iff.mp hpart
    rw [passed, hstep, Option.map_some, Option.getD_some, List.forall_mem_cons] at hplain
    have hnext := ih hrest hplain.2
    rw [throughNulls_cons hstep]
    cases t with
    | members info form fields =>
      cases form with
      | union => simp [itemNullable, isUnion]
      | struct =>
        have hfirst : itemNullable (label :: rest) (.members info .struct fields) =
            itemNullable rest next := by
          rw [itemNullable, memberNullable_of_lookup? hstep]
        rw [hfirst, hnext]
        simp [isOptional, isUnion]
    | wrapped info wrapper inner =>
      cases hstep
      cases wrapper with
      | optional => simp [itemNullable, isOptional]
      | constrained constraint =>
        have hfirst : itemNullable (label :: rest) (.wrapped info (.constrained constraint) next) =
            itemNullable rest next := by
          rw [itemNullable]
        rw [hfirst, hnext]
        simp [isOptional, isUnion]
      | list maxSize | array shape => cases hplain.1
    | leaf info content | hypothesis info types => cases hstep

/-! ### What columns tell -/

/-- A type that is optional or has no other value than null is stored with nulls, if it is stored at
all. -/
lemma storesNulls_of_nullable (h : itemNullable [] t = true)
    (hstored : t.isOptional = true → ∃ stored, t.columnType = .ok stored) : t.StoresNulls := by
  cases t with
  | leaf info content =>
    cases content with
    | null | unit => exact ⟨.null, rfl⟩
    | _ => simp [itemNullable] at h
  | wrapped info wrapper inner =>
    cases wrapper with
    | optional =>
      obtain ⟨stored, hstored⟩ := hstored rfl
      obtain ⟨inner', -, hwrapped⟩ := Outcome.bind_eq_ok.mp hstored
      cases hwrapped
      exact ⟨inner'.1, hstored⟩
    | list maxSize | array shape | constrained constraint => simp [itemNullable] at h
  | members info form fields | hypothesis info types => simp [itemNullable] at h

/-- A type that is stored with nulls is optional or has no other value, if no constraint and no
hypothesis hides it. -/
lemma StoresNulls.nullable (h : t.StoresNulls) (hveil : t.isVeil = false) :
    itemNullable [] t = true := by
  obtain ⟨type, hstored⟩ := h
  cases t with
  | leaf info content =>
    cases content with
    | null | unit => simp [itemNullable]
    | boolean | bytes | enum | text => cases hstored
    | id _ base | integer _ _ base | float _ _ base | datetime _ _ _ base =>
      cases base <;> cases hstored
  | members info form fields =>
    obtain ⟨_, -, heq⟩ := Outcome.map_eq_ok.mp hstored
    cases heq
  | wrapped info wrapper inner =>
    obtain ⟨inner', -, hwrapped⟩ := Outcome.bind_eq_ok.mp hstored
    cases wrapper with
    | optional => simp [itemNullable]
    | list maxSize => cases hwrapped
    | array shape =>
      obtain ⟨_, -, heq⟩ := Outcome.map_eq_ok.mp hwrapped
      cases heq
    | constrained constraint => cases hveil
  | hypothesis info types => cases hveil

/-- A type that is stored with nulls is optional or has no other value exactly if it does not hide
them. -/
lemma StoresNulls.nullable_iff (h : t.StoresNulls) :
    itemNullable [] t = true ↔ ¬t.HidesNulls := by
  constructor
  · rintro hnullable ⟨hveil, -⟩
    match t, hveil with
    | .wrapped _ (.constrained _) _, _ | .hypothesis _ _, _ => simp [itemNullable] at hnullable
  · intro hhides
    exact h.nullable (by simpa using fun hveil => hhides ⟨hveil, h⟩)

/-- Labels and columns tell the same of a type exactly if it hides no nulls and is stored at all, if
it is optional. -/
lemma nullable_iff_storesNulls_iff : (itemNullable [] t = true ↔ t.StoresNulls) ↔
    ¬t.HidesNulls ∧ (t.isOptional = true → ∃ stored, t.columnType = .ok stored) := by
  constructor
  · intro h
    refine ⟨fun hhides => ?_, fun hoptional => ?_⟩
    · exact hhides.2.nullable_iff.mp (h.mpr hhides.2) hhides
    · match t, hoptional with
      | .wrapped _ .optional _, _ =>
        obtain ⟨type, hstored⟩ := h.mp (by simp [itemNullable])
        exact ⟨_, hstored⟩
  · rintro ⟨hhides, hstored⟩
    exact ⟨fun h => storesNulls_of_nullable h hstored, fun h => h.nullable_iff.mpr hhides⟩

/-! ### Agreement -/

/-- **When labels and columns agree on nulls.** Let labels lead to a type through no list and no
array. They tell that the item may be null if and only if they lead through an optional type or a
union or the type is stored with nulls: this holds exactly if they do lead so, or else the type
hides no nulls and, if it is optional, is stored at all. That all nulls of the column are told by
the labels holds exactly if they lead so or no nulls are hidden. Of rows in which the item is found
it makes up a batch exactly if nulls are told or there are none.

**Proof sketch.** What the labels tell is that they lead through nulls, or what they tell of
the part itself (`itemNullable_iff`). For the part, labels and columns tell the same if it
hides no nulls (`nullable_iff_storesNulls_iff`). The batch of an item is had if nulls are told
or there are none (`itemBatch_ofLabels_eq_ok`). -/
theorem itemNullable_agrees_iff (hpart : t.get (Path.ofLabels labels) = .ok part)
    (hplain : ∀ s ∈ passed labels t, s.isSequence = false) :
    ((itemNullable labels t = true ↔ ThroughNulls labels t ∨ part.StoresNulls) ↔
      ThroughNulls labels t ∨ ¬part.HidesNulls ∧
        (part.isOptional = true → ∃ stored, part.columnType = .ok stored)) ∧
    ((part.StoresNulls → itemNullable labels t = true) ↔
      ThroughNulls labels t ∨ ¬part.HidesNulls) ∧
    ∀ (b : Batch) (under : Column), descend b.toColumn labels t = .ok (part, under) →
      ((∃ item, t.itemBatch (Path.ofLabels labels) false b = .ok item) ↔
        itemNullable labels t = true ∨ under.nullCount = 0) := by
  have htold := itemNullable_iff (get_ofLabels_eq_ok.mp hpart) hplain
  refine ⟨?_, ?_, fun b under hunder => ?_⟩
  · rw [htold, ← nullable_iff_storesNulls_iff]
    tauto
  · rw [htold]
    constructor
    · intro h
      by_contra hnot
      obtain ⟨hthrough, hhides⟩ := not_or.mp hnot
      have hhides := not_not.mp hhides
      exact hhides.2.nullable_iff.mp ((h hhides.2).resolve_left hthrough) hhides
    · rintro (hthrough | hhides) hstored
      · exact .inl hthrough
      · exact .inr (hstored.nullable_iff.mpr hhides)
  · constructor
    · rintro ⟨item, hitem⟩
      obtain ⟨found, hfound, hnulls, -⟩ := itemBatch_ofLabels_eq_ok.mp hitem
      cases hunder.symm.trans hfound
      exact hnulls
    · exact fun hnulls => ⟨_, itemBatch_ofLabels_eq_ok.mpr ⟨_, hunder, hnulls, rfl⟩⟩

/-! ### Digits that may be missing -/

/-- Rows with a digit that may be missing, below a constraint. -/
def checkedRows : Ty :=
  struct [("row", wrap (.constrained "checked") (struct [("digit", optional (integer 0 9))]))]

/-- The labels of the digit. -/
def digitLabels : List String := ["row", "constrained_value", "digit"]

/-- A digit that may be missing, found through a constraint: labels and column tell that it may be
null. -/
theorem itemNullable_agrees_iff_checkedRows :
    checkedRows.get (Path.ofLabels digitLabels) = .ok (optional (integer 0 9)) ∧
    (∀ s ∈ passed digitLabels checkedRows, s.isSequence = false) ∧
    (itemNullable digitLabels checkedRows = true ↔
      ThroughNulls digitLabels checkedRows ∨ (optional (integer 0 9)).StoresNulls) := by
  have hpart : checkedRows.get (Path.ofLabels digitLabels) = .ok (optional (integer 0 9)) :=
    get_ofLabels_eq_ok.mpr rfl
  have hplain : ∀ s ∈ passed digitLabels checkedRows, s.isSequence = false := by
    simp [checkedRows, digitLabels, passed, struct, wrap, step?, lookup?, isSequence]
  refine ⟨hpart, hplain, (itemNullable_agrees_iff hpart hplain).1.mpr (.inr ⟨?_, fun _ => ?_⟩)⟩
  · rintro ⟨hveil, -⟩
    cases hveil
  · exact ⟨_, rfl⟩

/-- Rows with a digit that may be missing, itself under a constraint. -/
def positiveDigits : Ty :=
  struct [("digit", wrap (.constrained "positive") (optional (integer 0 9)))]

/-- A digit and a missing one. -/
def oneDigit : Batch := ⟨[⟨"digit", .int64, true⟩], [[.int 1], [.null]]⟩

/-- A type that is stored with nulls and an item that may not be null by its labels: the batch is as
the type says, and the item is not had because of its null. -/
theorem not_agrees_positiveDigits :
    positiveDigits.get (Path.ofLabels ["digit"]) =
      .ok (wrap (.constrained "positive") (optional (integer 0 9))) ∧
    (∀ s ∈ passed ["digit"] positiveDigits, s.isSequence = false) ∧
    (wrap (.constrained "positive") (optional (integer 0 9))).StoresNulls ∧
    itemNullable ["digit"] positiveDigits = false ∧
    checkBatch positiveDigits oneDigit = .ok () ∧
    positiveDigits.itemBatch (Path.ofLabels ["digit"]) false oneDigit = .error .columns := by
  refine ⟨get_ofLabels_eq_ok.mpr rfl, ?_, ⟨.int64, rfl⟩, rfl, rfl, ?_⟩
  · simp [positiveDigits, passed, struct, wrap, step?, lookup?, isSequence]
  · rw [itemBatch, if_neg Bool.false_ne_true, itemContent, Path.labels_ofLabels]
    rfl

end Lineage.Ty
