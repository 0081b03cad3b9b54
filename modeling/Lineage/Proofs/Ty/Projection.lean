import Lineage.Proofs.Ty.Described
import Lineage.Proofs.Ty.Rowwise

set_option autoImplicit false

/-!
# Batches cut down to a type

A batch that a plain type describes is cut down to a type that is cut out of it. What comes of this
is described by the smaller type: columns and types are dropped alike.

## Main definitions

* `Lineage.Ty.CutsColumns`: columns that one type describes are, cut down to another, described by
  this one.

## Main results

* `Lineage.Ty.projectColumn_nulls`: a column that is cut down keeps its nulls.
* `Lineage.Ty.Cut.cutsColumns`: types cut out of plain types describe the columns cut down to them.
* `Lineage.Ty.Describes.projectBatch`: the same for batches.
-/

namespace Lineage.Ty

/-! ### Structs that are cut down -/

/-- The structs that are put together from parts. -/
lemma eq_of_assembleStruct {cells : List Cell} {parts : List (Field × List Cell)} {c' : Column}
    (h : assembleStruct cells parts = .ok c') :
    c' = ⟨.struct (parts.map Prod.fst), structCells cells (parts.map Prod.snd)⟩ := by
  unfold assembleStruct at h
  dsimp only at h
  split at h
  · exact (Except.ok.inj h).symm
  · cases h

/-- A struct or union is cut down where there is a part for every member, and the parts that are
left make structs. -/
lemma projectColumn_members_eq_ok {info : Info} {form : Form} {fields : List (String × Ty)}
    {c c' : Column} : projectColumn c (.members info form fields) = .ok c' ↔
    c.type.isStruct = true ∧ ∃ kept,
      c.children.mapM (fun entry => projectMember form entry.1 entry.2 fields) = .ok kept ∧
      (∀ member ∈ fields, ∃ f ∈ c.type.fields, f.name = member.1) ∧
      assembleStruct c.cells kept.flatten = .ok c' := by
  have hmissing : (fields.find? fun member =>
      (Column.fieldIndex? member.1 c.type.fields).isNone) = none ↔
        ∀ member ∈ fields, ∃ f ∈ c.type.fields, f.name = member.1 := by
    rw [List.find?_eq_none]
    refine forall₂_congr fun member _ => ?_
    rw [Bool.not_eq_true, Option.isNone_eq_false_iff, Column.fieldIndex?, List.findIdx?_isSome,
      List.any_eq_true]
    simp only [beq_iff_eq]
  rw [← hmissing, projectColumn]
  split
  · rename_i hstruct
    rw [and_iff_right hstruct, Outcome.bind_eq_ok]
    refine exists_congr fun kept => and_congr_right fun _ => ?_
    split
    · rename_i hsome
      simp [hsome]
    · rename_i hnone
      rw [and_iff_right hnone]
  · rename_i hstruct
    simp [hstruct]

/-- What becomes of a column of structs: the parts that are left make other structs. -/
lemma of_projectColumn_members {info : Info} {form : Form} {fields : List (String × Ty)}
    {c c' : Column} (h : projectColumn c (.members info form fields) = .ok c') :
    c.type.isStruct = true ∧ ∃ kept,
      c.children.mapM (fun entry => projectMember form entry.1 entry.2 fields) = .ok kept ∧
      c' = ⟨.struct (kept.flatten.map Prod.fst),
        structCells c.cells (kept.flatten.map Prod.snd)⟩ := by
  obtain ⟨hstruct, kept, hkept, -, hassemble⟩ := projectColumn_members_eq_ok.mp h
  exact ⟨hstruct, kept, hkept, eq_of_assembleStruct hassemble⟩

/-! ### Nulls -/

/-- Structs put together from other parts keep their nulls. -/
lemma map_isNull_structCells (cells : List Cell) (parts : List (List Cell)) :
    (structCells cells parts).map Cell.isNull = cells.map Cell.isNull := by
  have hcell : ∀ (cell : Cell) (ps : List Cell),
      (Cell.struct (!cell.isNull) ps).isNull = cell.isNull := by
    intro cell ps
    rw [Cell.isNull, Bool.not_not]
  rw [structCells, List.map_map]
  refine Eq.trans ?_ (congrArg (List.map Cell.isNull) (List.zipIdx_map_fst 0 cells))
  rw [List.map_map]
  exact List.map_congr_left fun entry _ => hcell entry.1 _

/-- Lists with other items keep their nulls. -/
lemma map_isNull_relist (cells pool : List Cell) :
    (relist cells pool).map Cell.isNull = cells.map Cell.isNull := by
  induction cells generalizing pool with
  | nil => rfl
  | cons cell cells ih => cases cell <;> simp [relist, ih, Cell.isNull]

/-- Where a column is cut down, nulls stay nulls, nothing else becomes null, and a column of nulls
stays one. -/
def KeepsNulls (c c' : Column) : Prop :=
  c'.cells.map Cell.isNull = c.cells.map Cell.isNull ∧ (c.type = .null → c'.type = .null)

mutual

/-- **A column that is cut down keeps its nulls.** -/
theorem projectColumn_nulls : ∀ (t : Ty) {c c' : Column}, projectColumn c t = .ok c' →
    KeepsNulls c c'
  | .leaf _ _, c, _, h => by
    simp only [projectColumn] at h
    cases h
    exact ⟨rfl, fun hnull => hnull⟩
  | .members _ form fields, c, _, h => by
    obtain ⟨hstruct, kept, -, rfl⟩ := of_projectColumn_members h
    refine ⟨map_isNull_structCells _ _, fun hnull => ?_⟩
    rw [hnull] at hstruct
    cases hstruct
  | .wrapped _ wrapper inner, c, _, h => by
    cases wrapper with
    | optional | constrained constraint =>
      simp only [projectColumn] at h
      exact projectColumn_nulls inner h
    | array shape =>
      simp only [projectColumn] at h
      cases h
      exact ⟨rfl, fun hnull => hnull⟩
    | list maxSize =>
      simp only [projectColumn] at h
      split at h
      · rename_i item hlist
        obtain ⟨items, -, h⟩ := Outcome.bind_eq_ok.mp h
        cases h
        refine ⟨map_isNull_relist _ _, fun hnull => ?_⟩
        rw [hlist] at hnull
        cases hnull
      · cases h
        exact ⟨rfl, fun hnull => hnull⟩
  | .hypothesis _ types, c, _, h => by
    rw [projectColumn_hypothesis] at h
    cases hbest : bestOf? types with
    | none =>
      rw [hbest] at h
      cases h
      exact ⟨rfl, fun hnull => hnull⟩
    | some best =>
      rw [hbest] at h
      obtain ⟨score, hmem⟩ := mem_of_bestOf? hbest
      exact projectCandidates_nulls types _ hmem h

/-- A column that is cut down to a candidate keeps its nulls. -/
theorem projectCandidates_nulls : ∀ (types : List (Ty × Float)), ∀ entry ∈ types,
    ∀ {c c' : Column}, projectColumn c entry.1 = .ok c' → KeepsNulls c c'
  | [], _, hentry, _, _, _ => by cases hentry
  | (t, _) :: rest, entry, hentry, _, _, h => by
    rcases List.mem_cons.mp hentry with rfl | hrest
    · exact projectColumn_nulls t h
    · exact projectCandidates_nulls rest entry hrest h

end

/-! ### Members -/

/-- One part of structs is cut down to the member of its name. -/
lemma projectMember_eq (form : Form) (f : Field) (c : Column) (fields : List (String × Ty)) :
    projectMember form f c fields =
      if form == .union && f.name == fieldSelected then .ok [(f, c.cells)]
      else match lookup? f.name fields with
        | none => .ok []
        | some t => (projectColumn c t).map fun part =>
          [(⟨f.name, part.type, f.nullable⟩, part.cells)] := by
  induction fields with
  | nil =>
    simp only [projectMember, lookup?, List.find?_nil, Option.map_none]
    split <;> rfl
  | cons field rest ih =>
    obtain ⟨name, t⟩ := field
    simp only [projectMember]
    split
    · rename_i hname
      subst hname
      simp [lookup?]
    · rename_i hname
      rw [ih]
      simp [lookup?, hname]

/-- Columns that one type describes are, cut down to another one, described by this one. -/
def CutsColumns (part whole : Ty) : Prop :=
  ∀ ⦃stored : ColumnType⦄ ⦃nullable : Bool⦄ ⦃c c' : Column⦄,
    columnType whole = .ok (stored, nullable) → compatible stored c.type = true →
    projectColumn c part = .ok c' →
    ∃ stored', columnType part = .ok (stored', nullable) ∧ compatible stored' c'.type = true

/-- The field of a member: in a union it is nullable. -/
def formField (form : Form) (f : Field) : Field := ⟨f.name, f.type, form == .union || f.nullable⟩

/-- The columns besides those of the members. -/
def formTail : Form → List Field
  | .struct => []
  | .union => [selectorField]

/-- The fields of members and what comes besides. -/
lemma formFields_eq (form : Form) (fields : List Field) :
    formFields form fields = fields.map (formField form) ++ formTail form := by
  cases form with
  | struct =>
    have hfield : formField .struct = fun f : Field => f := funext fun f => rfl
    rw [formTail, List.append_nil, hfield, List.map_id']
    rfl
  | union => rfl

/-- The columns of structs with their parts. -/
def cellsOf (entries : List (Field × Column)) : List (Field × List Cell) :=
  entries.map fun entry => (entry.1, entry.2.cells)

/-- The column that names the branch stays as it is. -/
lemma suits_formTail {counted : Bool} {form : Form} {all : List (String × Ty)}
    {entries : List (Field × Column)} {kept : List (List (Field × List Cell))}
    (hsuits : List.Forall₂ (Suits counted) (formTail form) (cellsOf entries))
    (hkept : (entries.mapM fun entry => projectMember form entry.1 entry.2 all) = .ok kept) :
    List.Forall₂ (Suits counted) (formTail form) kept.flatten := by
  cases entries with
  | nil =>
    cases hkept
    exact hsuits
  | cons entry rest =>
    cases form with
    | struct => cases hsuits
    | union =>
      cases hsuits with
      | cons hfirst hrest =>
        cases rest with
        | cons _ _ => cases hrest
        | nil =>
          obtain ⟨first, others, hprojected, hothers, rfl⟩ := Outcome.mapM_cons_eq_ok.mp hkept
          cases hothers
          have hname : fieldSelected = entry.1.name := hfirst.name
          have hselected : (Form.union == Form.union && entry.1.name == fieldSelected) = true := by
            simp [← hname]
          rw [projectMember_eq, if_pos hselected] at hprojected
          cases hprojected
          exact .cons hfirst .nil

/-- The fields of a member and of those after it. -/
lemma fieldsOf_cons_eq_ok {name : String} {t : Ty} {rest : List (String × Ty)}
    {expected : List Field} : fieldsOf ((name, t) :: rest) = .ok expected ↔
      ∃ stored others, columnType t = .ok stored ∧ fieldsOf rest = .ok others ∧
        expected = ⟨name, stored.1, stored.2⟩ :: others := by
  simp only [fieldsOf, Outcome.bind_eq_ok, Except.ok.injEq]
  constructor
  · rintro ⟨stored, hstored, others, hothers, rfl⟩
    exact ⟨stored, others, hstored, hothers, rfl⟩
  · rintro ⟨stored, others, hstored, hothers, rfl⟩
    exact ⟨stored, hstored, others, hothers, rfl⟩

/-- The first of the columns that suit expected ones. -/
lemma suits_cons {counted : Bool} {e : Field} {expected : List Field}
    {entries : List (Field × Column)}
    (h : List.Forall₂ (Suits counted) (e :: expected) (cellsOf entries)) :
    ∃ entry rest, entries = entry :: rest ∧ Suits counted e (entry.1, entry.2.cells) ∧
      List.Forall₂ (Suits counted) expected (cellsOf rest) := by
  cases entries with
  | nil => cases h
  | cons entry rest =>
    cases h with
    | cons hfirst hrest => exact ⟨entry, rest, rfl, hfirst, hrest⟩

/-- A member does not name the branch. -/
lemma not_selected {form : Form} {name : String} {f : Field} (hname : name = f.name)
    (hne : ¬fieldSelected = name) : ¬(form == .union && f.name == fieldSelected) = true := by
  subst hname
  simp [Ne.symm hne]

/-- Looking up a name that is not the first one. -/
lemma lookup?_cons_of_ne {label name : String} (h : name ≠ label) (t : Ty)
    (rest : List (String × Ty)) : lookup? label ((name, t) :: rest) = lookup? label rest := by
  simp [lookup?, h]

/-- A name that no member has is not found. -/
lemma lookup?_eq_none {label : String} {fields : List (String × Ty)}
    (h : label ∉ fields.map Prod.fst) : lookup? label fields = none := by
  rw [lookup?, Option.map_eq_none_iff, List.find?_eq_none]
  intro field hfield
  simpa using fun heq : field.1 = label => h (heq ▸ List.mem_map_of_mem hfield)

/-- A column that suits an expected one still has no unexpected nulls when it is cut down: nulls are
where they were, and a column that holds more than nulls held more before. -/
lemma Suits.nulls_projectColumn {counted : Bool} {expected f : Field} {c c' : Column} {part : Ty}
    (h : Suits counted expected (f, c.cells)) (htype : c.type = f.type)
    (hproject : projectColumn c part = .ok c') (hcounted : counted = true)
    (hnullable : expected.nullable = false) (hstored : c'.type ≠ .null) :
    ∀ cell ∈ c'.cells, cell.isNull = false := by
  intro cell hcell
  obtain ⟨hnulls, hnull⟩ := projectColumn_nulls part hproject
  have hbefore : f.type ≠ .null := fun heq => hstored (hnull (htype.trans heq))
  have hmem : cell.isNull ∈ c.cells.map Cell.isNull := hnulls ▸ List.mem_map_of_mem hcell
  obtain ⟨old, hold, heq⟩ := List.mem_map.mp hmem
  rw [← heq]
  exact h.nulls hcounted hnullable hbefore old hold

/-- **The parts of structs that are left** suit the members that are left, if the parts of the
structs suit all members. -/
theorem suits_kept {counted : Bool} {form : Form} {left fields all : List (String × Ty)}
    (h : Kept CutsColumns left fields) (hnodup : (fields.map Prod.fst).Nodup)
    (hselected : fieldSelected ∉ fields.map Prod.fst)
    (hall : ∀ name ∈ fields.map Prod.fst, lookup? name all = lookup? name left)
    {expected : List Field} (hexpected : fieldsOf fields = .ok expected)
    {entries : List (Field × Column)} (htypes : ∀ entry ∈ entries, entry.2.type = entry.1.type)
    (hsuits : List.Forall₂ (Suits counted) (formFields form expected) (cellsOf entries))
    {kept : List (List (Field × List Cell))}
    (hkept : (entries.mapM fun entry => projectMember form entry.1 entry.2 all) = .ok kept) :
    ∃ expected', fieldsOf left = .ok expected' ∧
      List.Forall₂ (Suits counted) (formFields form expected') kept.flatten := by
  simp only [formFields_eq] at hsuits ⊢
  induction h generalizing expected entries kept with
  | nil =>
    cases hexpected
    exact ⟨[], rfl, suits_formTail hsuits hkept⟩
  | @drop name whole left fields rest ih =>
    obtain ⟨hname, hnodup⟩ := List.nodup_cons.mp hnodup
    obtain ⟨hne, hselected⟩ := not_or.mp (List.mem_cons.not.mp hselected)
    obtain ⟨stored, others, -, hothers, rfl⟩ := fieldsOf_cons_eq_ok.mp hexpected
    obtain ⟨entry, entries, rfl, hfirst, hrest⟩ := suits_cons hsuits
    obtain ⟨part, parts, hpart, hparts, rfl⟩ := Outcome.mapM_cons_eq_ok.mp hkept
    -- The first member is gone, and no other one has its name.
    have hentry : name = entry.1.name := hfirst.name
    have hgone : lookup? entry.1.name all = none := by
      rw [← hentry, hall name List.mem_cons_self]
      exact lookup?_eq_none fun hmem => hname (rest.names.subset hmem)
    rw [projectMember_eq, if_neg (not_selected hentry hne), hgone] at hpart
    cases hpart
    rw [List.flatten_cons, List.nil_append]
    exact ih hnodup hselected (fun other hother => hall other (List.mem_cons_of_mem _ hother))
      hothers (fun entry' hentry => htypes entry' (List.mem_cons_of_mem _ hentry)) hparts hrest
  | @keep name part whole left fields first rest ih =>
    obtain ⟨hname, hnodup⟩ := List.nodup_cons.mp hnodup
    obtain ⟨hne, hselected⟩ := not_or.mp (List.mem_cons.not.mp hselected)
    obtain ⟨⟨stored, nullable⟩, others, hstored, hothers, rfl⟩ := fieldsOf_cons_eq_ok.mp hexpected
    obtain ⟨entry, entries, rfl, hfirst, hrest⟩ := suits_cons hsuits
    obtain ⟨cut, parts, hcut, hparts, rfl⟩ := Outcome.mapM_cons_eq_ok.mp hkept
    have hentry : name = entry.1.name := hfirst.name
    have hfound : lookup? entry.1.name all = some part := by
      rw [← hentry, hall name List.mem_cons_self]
      simp [lookup?]
    rw [projectMember_eq, if_neg (not_selected hentry hne), hfound] at hcut
    obtain ⟨c, hc, rfl⟩ := Outcome.map_eq_ok.mp hcut
    have hcompatible : compatible stored entry.2.type = true := by
      rw [htypes entry List.mem_cons_self]
      exact hfirst.type
    obtain ⟨stored', hstored', hcompatible'⟩ := first hstored hcompatible hc
    obtain ⟨others', hothers', hsuits'⟩ := ih hnodup hselected (fun other hother => by
        rw [hall other (List.mem_cons_of_mem _ hother), lookup?_cons_of_ne]
        rintro rfl
        exact hname hother) hothers
      (fun entry' hentry => htypes entry' (List.mem_cons_of_mem _ hentry)) hparts hrest
    exact ⟨⟨name, stored', nullable⟩ :: others',
      fieldsOf_cons_eq_ok.mpr ⟨_, _, hstored', hothers', rfl⟩, .cons ⟨hfirst.name, hcompatible',
        hfirst.nulls_projectColumn (htypes entry List.mem_cons_self) hc⟩ hsuits'⟩

/-! ### Columns -/

/-- Fields are as expected if each of them is. -/
lemma suits_false_iff {expected : List Field} {parts : List (Field × List Cell)} :
    List.Forall₂ (Suits false) expected parts ↔
      compatibleFields expected (parts.map Prod.fst) = true := by
  induction expected generalizing parts with
  | nil => cases parts <;> simp [compatibleFields]
  | cons e expected ih =>
    cases parts with
    | nil => simp [compatibleFields]
    | cons part parts =>
      have hsuits : Suits false e part ↔
          e.name = part.1.name ∧ compatible e.type part.1.type = true :=
        ⟨fun h => ⟨h.name, h.type⟩, fun h => ⟨h.1, h.2, fun hcounted => by cases hcounted⟩⟩
      rw [List.forall₂_cons, ih, hsuits, List.map_cons, compatibleFields]
      simp only [Bool.and_eq_true, beq_iff_eq]

/-- Some of the members of structs. -/
lemma CutsColumns.members {info : Info} {form : Form} {left fields : List (String × Ty)}
    (h : Kept CutsColumns left fields) (hnodup : (fields.map Prod.fst).Nodup)
    (hselected : fieldSelected ∉ fields.map Prod.fst) :
    CutsColumns (.members info form left) (.members info form fields) := by
  intro stored nullable c c' hstored hcompatible hproject
  obtain ⟨expected, hexpected, heq⟩ := Outcome.map_eq_ok.mp hstored
  cases heq
  obtain ⟨hstruct, kept, hkept, rfl⟩ := of_projectColumn_members hproject
  obtain ⟨type, cells⟩ := c
  cases type with
  | scalar content => cases hstruct
  | list layout item => cases hstruct
  | struct actual =>
    have hnames : (cellsOf (Column.children ⟨.struct actual, cells⟩)).map Prod.fst = actual := by
      rw [cellsOf, Column.children, List.map_map, List.map_map]
      exact List.zipIdx_map_fst 0 actual
    have htypes : ∀ entry ∈ Column.children ⟨.struct actual, cells⟩,
        entry.2.type = entry.1.type := by
      intro entry hentry
      obtain ⟨_, _, rfl⟩ := List.mem_map.mp hentry
      rfl
    have hsuits := suits_false_iff.mpr ((congrArg _ hnames).trans hcompatible)
    obtain ⟨expected', hexpected', hsuits'⟩ := suits_kept h hnodup hselected (fun _ _ => rfl)
      hexpected htypes hsuits hkept
    exact ⟨_, Outcome.map_eq_ok.mpr ⟨expected', hexpected', rfl⟩, suits_false_iff.mp hsuits'⟩

/-- The items of lists. -/
lemma CutsColumns.list {info : Info} {maxSize : ℕ} {part whole : Ty} (h : CutsColumns part whole) :
    CutsColumns (.wrapped info (.list maxSize) part) (.wrapped info (.list maxSize) whole) := by
  intro stored nullable c c' hstored hcompatible hproject
  obtain ⟨⟨inner, hasNulls⟩, hinner, heq⟩ := Outcome.bind_eq_ok.mp hstored
  cases heq
  simp only [projectColumn] at hproject
  split at hproject
  · rename_i item hlist
    obtain ⟨items, hitems, heq⟩ := Outcome.bind_eq_ok.mp hproject
    cases heq
    rw [hlist] at hcompatible
    have hitem : compatible inner item.type = true := hcompatible
    obtain ⟨inner', hinner', hcompatible'⟩ := h hinner hitem hitems
    refine ⟨.list .small ⟨itemName, inner', hasNulls⟩, ?_, hcompatible'⟩
    rw [columnType, hinner']
    rfl
  · -- Lists are stored as such, and as nothing else.
    rename_i hother
    obtain ⟨type, cells⟩ := c
    cases type with
    | list layout item =>
      cases layout with
      | small => exact absurd rfl (hother item)
      | large | fixed length => cases hcompatible
    | scalar content | struct fields => cases hcompatible

/-- Values that may be absent. -/
lemma CutsColumns.optional {info : Info} {part whole : Ty} (h : CutsColumns part whole) :
    CutsColumns (.wrapped info .optional part) (.wrapped info .optional whole) := by
  intro stored nullable c c' hstored hcompatible hproject
  obtain ⟨⟨inner, hasNulls⟩, hinner, heq⟩ := Outcome.bind_eq_ok.mp hstored
  cases heq
  simp only [projectColumn] at hproject
  obtain ⟨inner', hinner', hcompatible'⟩ := h hinner hcompatible hproject
  refine ⟨inner', ?_, hcompatible'⟩
  rw [columnType, hinner']
  rfl

/-- Values subject to a condition. -/
lemma CutsColumns.constrained {info : Info} {constraint : String} {part whole : Ty}
    (h : CutsColumns part whole) :
    CutsColumns (.wrapped info (.constrained constraint) part)
      (.wrapped info (.constrained constraint) whole) := by
  intro stored nullable c c' hstored hcompatible hproject
  obtain ⟨⟨inner, hasNulls⟩, hinner, heq⟩ := Outcome.bind_eq_ok.mp hstored
  cases heq
  simp only [projectColumn] at hproject
  obtain ⟨inner', hinner', hcompatible'⟩ := h hinner hcompatible hproject
  refine ⟨inner', ?_, hcompatible'⟩
  rw [columnType, hinner']
  rfl

/-- The best of candidates is found at one place in both lists. -/
lemma Scored.bestOf? {R : Ty → Ty → Prop} {left types : List (Ty × Float)}
    (h : Scored R left types) : (bestOf? left = none ∧ bestOf? types = none) ∨
      ∃ part whole, bestOf? left = some part ∧ bestOf? types = some whole ∧ R part whole := by
  -- The choice goes by the scores, which are the same.
  have hfold : ∀ {left types : List (Ty × Float)}, Scored R left types → ∀ {part whole score},
      R part whole → ∃ part' whole' score', R part' whole' ∧
        left.foldl better (part, score) = (part', score') ∧
        types.foldl better (whole, score) = (whole', score') := by
    intro left types h
    induction h with
    | nil =>
      intro part whole score hbest
      exact ⟨part, whole, score, hbest, rfl, rfl⟩
    | @cons next next' score' _ _ hnext _ ih =>
      intro part whole score hbest
      simp only [List.foldl_cons, better]
      split
      · exact ih hnext
      · exact ih hbest
  cases h with
  | nil => exact Or.inl ⟨rfl, rfl⟩
  | cons first rest =>
    obtain ⟨part, whole, score, hbest, hleft, htypes⟩ := hfold rest first
    refine Or.inr ⟨part, whole, ?_, ?_, hbest⟩
    · rw [Ty.bestOf?, hleft]
    · rw [Ty.bestOf?, htypes]

/-- A hypothesis is stored as its best candidate is. If it has none, it is stored as nulls. -/
lemma columnType_hypothesis (info : Info) (types : List (Ty × Float)) :
    columnType (.hypothesis info types) =
      ((bestOf? types).map columnType).getD (.ok (.null, true)) := by
  have hbest : bestOf? (columnTypes types) = (bestOf? types).map columnType :=
    bestOf?_changed rfl (fun _ _ _ => rfl) types
  rw [columnType, hbest]

/-- The best of candidates. -/
lemma CutsColumns.hypothesis {info : Info} {left types : List (Ty × Float)}
    (h : Scored CutsColumns left types) :
    CutsColumns (.hypothesis info left) (.hypothesis info types) := by
  intro stored nullable c c' hstored hcompatible hproject
  rw [columnType_hypothesis] at hstored ⊢
  rw [projectColumn_hypothesis] at hproject
  rcases h.bestOf? with ⟨hleft, htypes⟩ | ⟨part, whole, hleft, htypes, hbest⟩
  · rw [htypes] at hstored
    rw [hleft] at hproject ⊢
    cases hstored
    cases hproject
    exact ⟨.null, rfl, hcompatible⟩
  · rw [htypes] at hstored
    rw [hleft] at hproject ⊢
    exact hbest hstored hcompatible hproject

mutual

/-- **Types cut out of plain types describe the columns that are cut down to them.** -/
theorem Cut.cutsColumns : ∀ {part : Ty} (whole : Ty), Cut part whole → Plain whole →
    CutsColumns part whole
  | _, .leaf _ _, h, _ => by
    cases h with
    | leaf h =>
      intro stored nullable c c' hstored hcompatible hproject
      cases hproject
      exact ⟨stored, (congrArg Except.ok h).trans hstored, hcompatible⟩
  | _, .members _ _ fields, h, hplain => by
    cases h with
    | members h =>
      obtain ⟨hnodup, hselected, hfields⟩ := hplain
      exact CutsColumns.members (Kept.cutsColumns fields h hfields) hnodup hselected
  | _, .wrapped _ wrapper inner, h, hplain => by
    cases h with
    | wrapped h =>
      have ih := Cut.cutsColumns inner h hplain.2
      cases wrapper with
      | optional => exact ih.optional
      | list maxSize => exact ih.list
      | constrained constraint => exact ih.constrained
      | array shape => exact absurd rfl (hplain.1 shape)
  | _, .hypothesis _ types, h, hplain => by
    cases h with
    | hypothesis h => exact CutsColumns.hypothesis (Scored.cutsColumns types h hplain)

/-- The members that are left describe the columns that are cut down to them. -/
theorem Kept.cutsColumns : ∀ {left : List (String × Ty)} (fields : List (String × Ty)),
    Kept Cut left fields → PlainMembers fields → Kept CutsColumns left fields
  | _, [], h, _ => by
    cases h
    exact .nil
  | _, (_, t) :: rest, h, hplain => by
    cases h with
    | drop h => exact .drop (Kept.cutsColumns rest h hplain.2)
    | keep first h =>
      exact .keep (Cut.cutsColumns t first hplain.1) (Kept.cutsColumns rest h hplain.2)

/-- Candidates describe the columns that are cut down to them. -/
theorem Scored.cutsColumns : ∀ {left : List (Ty × Float)} (types : List (Ty × Float)),
    Scored Cut left types → PlainScored types → Scored CutsColumns left types
  | _, [], h, _ => by
    cases h
    exact .nil
  | _, (t, _) :: rest, h, hplain => by
    cases h with
    | cons first h =>
      exact .cons (Cut.cutsColumns t first hplain.1) (Scored.cutsColumns rest h hplain.2)

end

/-! ### Batches -/

/-- The columns of rows that are put together from columns of one length. -/
lemma partsOf_structCells {cells : List Cell} {parts : List (Field × List Cell)}
    (hlength : ∀ part ∈ parts, part.2.length = cells.length) :
    partsOf ⟨parts.map Prod.fst, (structCells cells (parts.map Prod.snd)).map Cell.parts⟩ =
      parts := by
  refine List.ext_getElem (by simp [partsOf]) fun j hj hj' => ?_
  have hpart := hlength parts[j] (List.getElem_mem hj')
  simp only [partsOf, List.getElem_map, List.getElem_zipIdx, Nat.zero_add]
  refine Prod.ext rfl (List.ext_getElem ?_ fun i hi hi' => ?_)
  · simp [Batch.cellsAt, structCells, hpart]
  · simp [Batch.cellsAt, structCells, Cell.parts, Batch.cellAt, hj', hi']

/-- Rows of some of the members. -/
lemma Describes.projectMembers {info : Info} {form : Form} {left fields : List (String × Ty)}
    {b b' : Batch} {c : Column} (h : Kept CutsColumns left fields)
    (hnodup : (fields.map Prod.fst).Nodup) (hselected : fieldSelected ∉ fields.map Prod.fst)
    (hb : Describes (.members info form fields) b)
    (hproject : projectColumn b.toColumn (.members info form left) = .ok c)
    (hrows : Batch.ofColumn c = .ok b') : Describes (.members info form left) b' := by
  obtain ⟨_, hfields, hsuits⟩ := hb
  obtain ⟨expected, hexpected, rfl⟩ := Outcome.map_eq_ok.mp hfields
  obtain ⟨-, kept, hkept, rfl⟩ := of_projectColumn_members hproject
  have hentries : cellsOf b.toColumn.children = partsOf b := by
    rw [cellsOf, Column.children, partsOf, List.map_map]
    refine List.map_congr_left fun entry _ => Prod.ext rfl ?_
    show (b.rows.map (Cell.struct true)).map (Cell.part entry.2) = b.rows.map (Batch.cellAt entry.2)
    rw [List.map_map]
    rfl
  have htypes : ∀ entry ∈ b.toColumn.children, entry.2.type = entry.1.type := by
    intro entry hentry
    obtain ⟨_, _, rfl⟩ := List.mem_map.mp hentry
    rfl
  obtain ⟨expected', hexpected', hsuits'⟩ := suits_kept h hnodup hselected (fun _ _ => rfl)
    hexpected htypes (hentries ▸ hsuits) hkept
  have hlength := (columnwise_children (fun f type => columnwise_projectMember form f left type)
    b.fields.zipIdx).length (Outcome.map_eq_ok.mpr ⟨kept, hkept, rfl⟩)
  refine ⟨_, Outcome.map_eq_ok.mpr ⟨expected', hexpected', rfl⟩, ?_⟩
  unfold Batch.ofColumn at hrows
  split at hrows
  · cases hrows
  · cases hrows
    rw [← partsOf_structCells hlength] at hsuits'
    exact hsuits'

/-- **A described batch that is cut down to a cut type** is described by this type. -/
theorem Describes.projectBatch : ∀ (whole : Ty) {part : Ty}, Cut part whole → Plain whole →
    ∀ {b b' : Batch}, Describes whole b → part.projectBatch b false = .ok b' → Describes part b'
  | .members _ form fields, _, h, hplain, b, b', hb, hproject => by
    cases h with
    | members h =>
      obtain ⟨hnodup, hselected, hfields⟩ := hplain
      obtain ⟨c, hc, hrows⟩ := Outcome.bind_eq_ok.mp hproject
      split at hrows
      · exact hb.projectMembers (Kept.cutsColumns fields h hfields) hnodup hselected hc hrows
      · cases hrows
  | .wrapped _ wrapper inner, _, h, hplain, b, b', hb, hproject => by
    cases h with
    | wrapped h =>
      obtain ⟨expected, hfields, hsuits⟩ := hb
      cases wrapper with
      | constrained constraint =>
        have hinner : Describes inner b := ⟨expected, hfields, hsuits⟩
        obtain ⟨expected', hfields', hsuits'⟩ :=
          Describes.projectBatch inner h hplain.2 hinner hproject
        exact ⟨expected', hfields', hsuits'⟩
      | optional | list maxSize | array shape => cases hfields
  | .leaf _ _, _, _, _, _, _, hb, _ => by
    obtain ⟨_, hfields, -⟩ := hb
    cases hfields
  | .hypothesis _ _, _, _, _, _, _, hb, _ => by
    obtain ⟨_, hfields, -⟩ := hb
    cases hfields

end Lineage.Ty
