import Lineage.Proofs.Ty.Marks
import Lineage.Proofs.Ty.Pruning

set_option autoImplicit false

/-!
# Values that a type lets pass

A column that has passed the check against a type is read back as that type says, if its columns
have different names. Of its values those are marked that the type lets pass: those that belong to
it, where nulls belong to every leaf. The check does not look for them, nor for values out of
bounds.

## Main definitions

* `Lineage.Ty.DistinctColumns`: all columns of a struct or union have different names.
* `Lineage.Ty.Passes`: a type lets a value pass.

## Main results

* `Lineage.Ty.StoredAs.carries`: a column that is stored as a type says carries its values.
* `Lineage.Ty.Marks.iff_passes`: the marked values are those that the type lets pass.
-/

namespace Lineage.Ty

variable {t : Ty} {type : ColumnType} {cell : Cell} {mark : Cell → Bool} {info : Info}
  {fields : List (String × Ty)}

/-! ### Columns with different names -/

/-- In every struct and union of a type, the columns have different names: the members do, and no
member of a union has the name of the column that names the branches. -/
inductive DistinctColumns : Ty → Prop
  /-- A leaf has no members. -/
  | leaf {info : Info} {content : Leaf} : DistinctColumns (.leaf info content)
  /-- The columns of the members have different names, and so have those of their members. -/
  | members {info : Info} {form : Form} {fields : List (String × Ty)}
      (nodup : (fields.map Prod.fst).Nodup)
      (selector : form = .union → fieldSelected ∉ fields.map Prod.fst)
      (below : ∀ member ∈ fields, DistinctColumns member.2) :
      DistinctColumns (.members info form fields)
  /-- The type inside. -/
  | wrapped {info : Info} {wrapper : Wrapper} {inner : Ty} (inside : DistinctColumns inner) :
      DistinctColumns (.wrapped info wrapper inner)
  /-- Every candidate. -/
  | hypothesis {info : Info} {types : List (Ty × Float)}
      (candidates : ∀ candidate ∈ types, DistinctColumns candidate.1) :
      DistinctColumns (.hypothesis info types)

/-- If all columns have different names, the members have. -/
lemma DistinctColumns.distinctNames (h : t.DistinctColumns) : t.DistinctNames := by
  induction h with
  | leaf => exact .leaf
  | members nodup _ _ ih => exact .members nodup ih
  | wrapped _ ih => exact .wrapped ih
  | hypothesis _ ih => exact .hypothesis ih

/-- The type inside a wrapped type. -/
lemma DistinctColumns.inner {wrapper : Wrapper} {inner : Ty}
    (h : (Ty.wrapped info wrapper inner).DistinctColumns) : inner.DistinctColumns := by
  cases h with
  | wrapped inside => exact inside

/-- **A column that is stored as a type says carries its values**, if the columns have different
names.

**Proof sketch.** By induction on the type. The columns of a struct or a union store its
members or the names of the branches. As all names are different, the column that is found
under the name of a member stores this member, and the column of the names is none of a
member. -/
theorem StoredAs.carries (hstored : StoredAs t type) (hdistinct : t.DistinctColumns) :
    Carries t type := by
  induction t using induction generalizing type with
  | leaf info content => exact .leaf hstored.leaf
  | members info form fields ih =>
    obtain ⟨fs, rfl, hmembers⟩ := hstored.of_members
    cases hdistinct with
    | members nodup selector below =>
      -- a column under the name of a member stores this member, as no other has its name
      have hcarried : ∀ member ∈ fields, ∀ f ∈ fs, f.name = member.1 →
          Carries member.2 f.type := by
        intro member hmember f hf hname
        rcases hmembers.stores f hf with ⟨hunion, hselected, -⟩ | ⟨t, hmem, hpart⟩
        · refine absurd ?_ (selector hunion)
          rw [← hselected, hname]
          exact List.mem_map_of_mem hmember
        · rw [hname] at hmem
          have hsame : some t = some member.2 :=
            (lookup?_of_mem nodup hmem).symm.trans (lookup?_of_mem nodup hmember)
          obtain rfl := Option.some.inj hsame
          exact ih member hmember hpart (below member hmember)
      cases form with
      | struct => exact .struct hmembers.named hcarried
      | union =>
        obtain ⟨i, f, hf, hname, hplace⟩ :=
          @exists_place? fieldSelected (.struct fs) (hmembers.selector rfl)
        refine .union hmembers.named hcarried ⟨i, ?_⟩
        rcases hmembers.stores f (List.mem_of_getElem? hf) with ⟨-, -, htext⟩ | ⟨t, hmem, -⟩
        · rw [hplace, htext]
        · exact absurd (hname ▸ List.mem_map_of_mem hmem) (selector rfl)
  | wrapped info wrapper inner ih =>
    cases wrapper with
    | optional => exact .optional (ih hstored.optional hdistinct.inner)
    | constrained constraint => exact .constrained (ih hstored.constrained hdistinct.inner)
    | list maxSize =>
      obtain ⟨item, rfl, hitem⟩ := hstored.list
      exact .list (ih hitem hdistinct.inner)
    | array shape => exact .array
  | hypothesis info types ih =>
    cases hdistinct with
    | hypothesis candidates =>
      refine .hypothesis fun best hbest => ?_
      obtain ⟨score, hmem⟩ := mem_of_bestOf? hbest
      exact ih _ hmem (hstored.hypothesis hbest) (candidates _ hmem)

/-! ### Passing -/

/-- A type lets a value pass: as `Belongs` says, but leaves let nulls pass, wherever they stand. -/
inductive Passes : Ty → ColumnType → Cell → Prop
  /-- Of a leaf: it is null. -/
  | absent {info : Info} {content : Leaf} {type : ColumnType} {cell : Cell}
      (absent : cell.isNull = true) : Passes (.leaf info content) type cell
  /-- Of a leaf: it is admitted. -/
  | leaf {info : Info} {content : Leaf} {type : ColumnType} {cell : Cell}
      (admitted : LeafAdmits content cell) : Passes (.leaf info content) type cell
  /-- Of a struct: every field passes. -/
  | struct {info : Info} {fields : List (String × Ty)} {type : ColumnType} {cell : Cell}
      (passes : ∀ member ∈ fields, ∀ part under, PartAt member.1 type cell part under →
        Passes member.2 part under) :
      Passes (.members info .struct fields) type cell
  /-- Of a union: the selected branch is one of its members and passes. -/
  | union {info : Info} {fields : List (String × Ty)} {type : ColumnType} {cell : Cell}
      {name : String} {t : Ty} {part : ColumnType} {under : Cell}
      (selected : Selects type cell name) (member : lookup? name fields = some t)
      (found : PartAt name type cell part under) (passes : Passes t part under) :
      Passes (.members info .union fields) type cell
  /-- Of an optional type: it is null. -/
  | null {info : Info} {inner : Ty} {type : ColumnType} {cell : Cell}
      (absent : cell.isNull = true) : Passes (.wrapped info .optional inner) type cell
  /-- Of an optional type: the type inside lets it pass. -/
  | present {info : Info} {inner : Ty} {type : ColumnType} {cell : Cell}
      (passes : Passes inner type cell) : Passes (.wrapped info .optional inner) type cell
  /-- Of a constrained type: the type inside lets it pass. -/
  | constrained {info : Info} {constraint : String} {inner : Ty} {type : ColumnType} {cell : Cell}
      (passes : Passes inner type cell) :
      Passes (.wrapped info (.constrained constraint) inner) type cell
  /-- Every list passes. -/
  | list {info : Info} {maxSize : ℕ} {inner : Ty} {type : ColumnType} {cell : Cell} :
      Passes (.wrapped info (.list maxSize) inner) type cell
  /-- Every block passes. -/
  | array {info : Info} {shape : List ℕ} {inner : Ty} {type : ColumnType} {cell : Cell} :
      Passes (.wrapped info (.array shape) inner) type cell
  /-- Of a hypothesis: the best candidate lets it pass. -/
  | hypothesis {info : Info} {types : List (Ty × Float)} {type : ColumnType} {cell : Cell}
      (passes : ∀ best, bestOf? types = some best → Passes best type cell) :
      Passes (.hypothesis info types) type cell

/-- A leaf lets nulls pass and what it admits. -/
lemma passes_leaf_iff {content : Leaf} : Passes (.leaf info content) type cell ↔
    cell.isNull = true ∨ LeafAdmits content cell := by
  constructor
  · intro h
    cases h with
    | absent absent => exact .inl absent
    | leaf admitted => exact .inr admitted
  · rintro (hnull | hadmits)
    · exact .absent hnull
    · exact .leaf hadmits

/-- A struct lets pass of which every field passes. -/
lemma passes_struct_iff : Passes (.members info .struct fields) type cell ↔
    ∀ member ∈ fields, ∀ column under, PartAt member.1 type cell column under →
      Passes member.2 column under := by
  constructor
  · intro h
    cases h with
    | struct passes => exact passes
  · exact .struct

/-- A union lets pass of which the selected branch passes. -/
lemma passes_union_iff : Passes (.members info .union fields) type cell ↔
    ∃ name t column under, Selects type cell name ∧ lookup? name fields = some t ∧
      PartAt name type cell column under ∧ Passes t column under := by
  constructor
  · intro h
    cases h with
    | union selected member found passes => exact ⟨_, _, _, _, selected, member, found, passes⟩
  · rintro ⟨name, t, column, under, selected, member, found, passes⟩
    exact .union selected member found passes

/-- An optional type lets nulls pass and what the type inside does. -/
lemma passes_optional_iff :
    Passes (.wrapped info .optional t) type cell ↔ Passes t type cell ∨ cell.isNull = true := by
  constructor
  · intro h
    cases h with
    | null absent => exact Or.inr absent
    | present passes => exact Or.inl passes
  · rintro (hpasses | hnull)
    · exact .present hpasses
    · exact .null hnull

/-- A constrained type lets pass what the type inside does. -/
lemma passes_constrained_iff {constraint : String} :
    Passes (.wrapped info (.constrained constraint) t) type cell ↔ Passes t type cell := by
  constructor
  · intro h
    cases h with
    | constrained passes => exact passes
  · exact .constrained

/-- A hypothesis lets pass what its best candidate does. -/
lemma passes_hypothesis_iff {types : List (Ty × Float)} :
    Passes (.hypothesis info types) type cell ↔
      ∀ best, bestOf? types = some best → Passes best type cell := by
  constructor
  · intro h
    cases h with
    | hypothesis passes => exact passes
  · exact .hypothesis

/-! ### Marks -/

/-- The marks of a column of one cell. -/
lemma Marks.selects_one (hmark : Marks t type mark) (h : Legible t type cell) :
    selectRows ⟨type, [cell]⟩ t = .ok [mark cell] :=
  hmark.selects (List.forall_mem_singleton.mpr h)

/-- The mark of a legible cell is what comes of a column of this cell alone. -/
lemma Marks.eq_of_selectRows (hmark : Marks t type mark) (h : Legible t type cell) {m : Bool}
    (hselect : selectRows ⟨type, [cell]⟩ t = .ok [m]) : mark cell = m := by
  have hone := hmark.selects_one h
  rw [hselect] at hone
  simpa using (Except.ok.inj hone).symm

/-- There is one way only to mark legible cells. -/
lemma Marks.eq {mark' : Cell → Bool} (hmark : Marks t type mark) (hmark' : Marks t type mark')
    (h : Legible t type cell) : mark cell = mark' cell :=
  hmark.eq_of_selectRows h (hmark'.selects_one h)

/-- A scalar column of a known type has one null only. -/
lemma eq_null_of_isNull {s : Scalar} (hs : ∀ text, s ≠ .other text)
    (hfits : Cell.Fits (.scalar s) cell) (hnull : cell.isNull = true) : cell = .null := by
  rw [Cell.Fits] at hfits
  rcases hfits with rfl | hvalue
  · rfl
  · cases cell with
    | null => rfl
    | struct present parts => cases s <;> first | exact hvalue.elim | exact absurd rfl (hs _)
    | _ => cases hnull

/-- A null in the column of a leaf is marked. -/
lemma selectByLeaf_null {content : Leaf}
    (hcolumn : (leafColumn content).1 = .null ∨ type = (leafColumn content).1)
    (hfits : Cell.Fits type cell) (hnull : cell.isNull = true) :
    selectByLeaf ⟨type, [cell]⟩ content = .ok [true] := by
  cases content with
  | null | unit | boolean | bytes | id | text => rfl
  | enum nameValues ordered =>
    obtain rfl := hcolumn.resolve_left nofun
    obtain rfl := eq_null_of_isNull (by simp) hfits hnull
    rfl
  | integer lo hi base | float lo hi base | datetime format lo hi base =>
    cases base <;>
    · obtain rfl := hcolumn.resolve_left nofun
      obtain rfl := eq_null_of_isNull (by simp) hfits hnull
      rfl

/-- The marks of a leaf. -/
lemma Marks.iff_passes_leaf {content : Leaf} (hmark : Marks (.leaf info content) type mark)
    (hcarries : Carries (.leaf info content) type) (h : Legible (.leaf info content) type cell) :
    mark cell = true ↔ Passes (.leaf info content) type cell := by
  cases hnull : cell.isNull with
  | true =>
    cases hcarries with
    | leaf stored =>
      have hselect := selectByLeaf_null stored h.1 hnull
      exact iff_of_true (hmark.eq_of_selectRows h hselect) (.absent hnull)
  | false =>
    rw [hmark.belongs h (.leaf fun _ => hnull)]
    constructor
    · rintro ⟨admitted⟩
      exact .leaf admitted
    · intro hpasses
      cases hpasses with
      | absent absent => cases hnull.symm.trans absent
      | leaf admitted => exact .leaf admitted

/-- What is known of the part of structs under the name of a member. -/
structure PartMarks (type : ColumnType) (member : String × Ty) (i : ℕ) (part : ColumnType)
    (mark : Cell → Bool) : Prop where
  /-- Where the part is. -/
  place : place? member.1 type = some (i, part)
  /-- Its values are marked. -/
  marks : Marks member.2 part mark
  /-- Those are marked that pass. -/
  iff_passes : ∀ {cell}, Legible member.2 part cell → (mark cell = true ↔ Passes member.2 part cell)

/-- The part of a struct under the name of a member is marked if it passes. -/
lemma PartMarks.iff_of_partAt {member : String × Ty} {i : ℕ} {part part' : ColumnType}
    (h : PartMarks type member i part mark) (hmember : member ∈ fields)
    (hlegible : LegibleParts fields type cell) {under : Cell}
    (hpart : PartAt member.1 type cell part' under) :
    mark (cell.part i) = true ↔ Passes member.2 part' under := by
  have hunder := hlegible member hmember part' under hpart
  obtain ⟨rfl, rfl⟩ := (partAt_iff h.place).mp hpart
  exact h.iff_passes hunder

variable {i : String × Ty → ℕ} {part : String × Ty → ColumnType}
  {partMark : String × Ty → Cell → Bool}

/-- The marks of structs. -/
lemma Marks.iff_passes_struct (hmark : Marks (.members info .struct fields) type mark)
    (hstruct : type.isStruct = true)
    (hparts : ∀ member ∈ fields, PartMarks type member (i member) (part member) (partMark member))
    (h : Legible (.members info .struct fields) type cell) :
    mark cell = true ↔ Passes (.members info .struct fields) type cell := by
  rw [hmark.eq (marks_struct hstruct fun member hmember =>
    (hparts member hmember).marks.member (hparts member hmember).place) h, List.all_eq_true]
  constructor
  · exact fun hall => .struct fun member hmember part under hpart =>
      ((hparts member hmember).iff_of_partAt hmember h.parts hpart).mp (hall member hmember)
  · intro hpasses member hmember
    cases hpasses with
    | struct passes =>
      have hpart : PartAt member.1 type cell _ _ := ⟨_, (hparts member hmember).place, rfl⟩
      exact ((hparts member hmember).iff_of_partAt hmember h.parts hpart).mpr
        (passes member hmember _ _ hpart)

/-- The marks of unions. -/
lemma Marks.iff_passes_union (hmark : Marks (.members info .union fields) type mark)
    (hstruct : type.isStruct = true) {selector : ℕ}
    (hselector : place? fieldSelected type = some (selector, .utf8))
    (hparts : ∀ member ∈ fields, PartMarks type member (i member) (part member) (partMark member))
    (h : Legible (.members info .union fields) type cell) :
    mark cell = true ↔ Passes (.members info .union fields) type cell := by
  rw [hmark.eq (marks_union hstruct hselector fun member hmember =>
    (hparts member hmember).marks.member (hparts member hmember).place) h, rowMark_eq_true_iff]
  constructor
  · rintro ⟨name, t, hname, hfound, htrue⟩
    have hmember := mem_of_lookup? hfound
    have hpart : PartAt name type cell _ _ := ⟨_, (hparts _ hmember).place, rfl⟩
    exact .union ((selects_iff hselector).mpr hname) hfound hpart
      (((hparts _ hmember).iff_of_partAt hmember h.parts hpart).mp htrue)
  · intro hpasses
    cases hpasses with
    | @union _ _ _ _ name t part under selected hfound hpart passes =>
      have hmember := mem_of_lookup? hfound
      exact ⟨name, t, (selects_iff hselector).mp selected, hfound,
        ((hparts _ hmember).iff_of_partAt hmember h.parts hpart).mpr passes⟩

/-- The marks of hypotheses. -/
lemma Marks.iff_passes_hypothesis {types : List (Ty × Float)}
    (hmark : Marks (.hypothesis info types) type mark)
    (h : Legible (.hypothesis info types) type cell)
    (hcarries : ∀ best, bestOf? types = some best → Carries best type)
    (hbest : ∀ best bestMark, bestOf? types = some best → Marks best type bestMark →
      (bestMark cell = true ↔ Passes best type cell)) :
    mark cell = true ↔ Passes (.hypothesis info types) type cell := by
  rw [passes_hypothesis_iff]
  cases htypes : bestOf? types with
  | none =>
    refine iff_of_true (hmark.eq (marks_noCandidates htypes) h) fun best hsome => ?_
    cases hsome
  | some best =>
    obtain ⟨bestMark, hbestMark⟩ := (hcarries best htypes).exists_marks
    rw [hmark.eq (hbestMark.hypothesis htypes) h, hbest best bestMark htypes hbestMark]
    exact ⟨fun hpasses _ heq => Option.some.inj heq ▸ hpasses, fun hall => hall best rfl⟩

/-- **The marked values are those that the type lets pass.**

**Proof sketch.** By induction on the type. There is one way only to mark legible cells
(`Marks.eq`), so the marks are those that were put together from the marks of the parts. A
leaf marks nulls also where they should not stand (`selectByLeaf_null`), and this is all that
`Passes` allows beyond `Belongs`. -/
theorem Marks.iff_passes (hcarries : Carries t type) (hmark : Marks t type mark)
    (h : Legible t type cell) : mark cell = true ↔ Passes t type cell := by
  -- parts are stored in other columns and have other marks
  induction t using induction generalizing type mark cell with
  | leaf info content => exact hmark.iff_passes_leaf hcarries h
  | members info form fields ih =>
    obtain ⟨fs, htype, -⟩ := hcarries.of_members
    have hstruct : type.isStruct = true := by rw [htype, ColumnType.isStruct]
    have hparts : ∀ member ∈ fields, ∃ i part mark, PartMarks type member i part mark := by
      intro member hmember
      obtain ⟨i, part, hplace, hpart⟩ := hcarries.member hmember
      obtain ⟨partMark, hpartMark⟩ := hpart.exists_marks
      exact ⟨i, part, partMark, hplace, hpartMark, fun hunder =>
        ih member hmember hpart hpartMark hunder⟩
    choose! i part partMark hparts using hparts
    cases hcarries with
    | struct => exact hmark.iff_passes_struct hstruct hparts h
    | union named carried selector =>
      obtain ⟨selector, hselector⟩ := selector
      exact hmark.iff_passes_union hstruct hselector hparts h
  | wrapped info wrapper inner ih =>
    cases hcarries with
    | optional carried =>
      obtain ⟨innerMark, hinner⟩ := carried.exists_marks
      rw [hmark.eq hinner.optional h, Bool.or_eq_true, ih carried hinner h.optional,
        passes_optional_iff]
    | constrained carried =>
      obtain ⟨innerMark, hinner⟩ := carried.exists_marks
      rw [hmark.eq (hinner.constrained _) h, ih carried hinner h.constrained,
        passes_constrained_iff]
    | list => exact iff_of_true (hmark.eq_of_selectRows h rfl) .list
    | array => exact iff_of_true (hmark.eq_of_selectRows h rfl) .array
  | hypothesis info types ih =>
    cases hcarries with
    | hypothesis carried =>
      refine hmark.iff_passes_hypothesis h carried fun best bestMark hbest hbestMark => ?_
      obtain ⟨score, hmem⟩ := mem_of_bestOf? hbest
      exact ih _ hmem (carried best hbest) hbestMark (h.hypothesis hbest)

end Lineage.Ty
