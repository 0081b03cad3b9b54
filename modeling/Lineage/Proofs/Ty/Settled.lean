import Lineage.Proofs.Ty.Pruning

set_option autoImplicit false

/-!
# Columns that have been cut down

A column that has been cut down to a type is not cut down any further by it. Its cells have the same
marks as before: parts that are gone are parts the type says nothing about. For the marks every
member of a struct or union must be found under its name. Where two members of one name differ, what
is left is cut down to the first of them, and the other may ask for parts that are gone.

## Main definitions

* `Lineage.Ty.FoundByName`: members are found under their names.

## Main results

* `Lineage.Ty.projectColumn_of_projectColumn`: a column is cut down once and for all.
* `Lineage.Ty.DistinctNames.foundByName`: members with different names are found.
* `Lineage.Ty.selectRows_trimColumn`: the marks of cells that are cut down.
-/

namespace Lineage.Ty

variable {t : Ty} {c c' : Column} {cells cells' : List Cell} {label : String} {info : Info}
  {form : Form} {fields : List (String × Ty)}

/-! ### Structs that have been put together -/

/-- A struct needs only the nulls of the cells that it is put together for. -/
lemma structCells_congr (h : cells'.map Cell.isNull = cells.map Cell.isNull)
    (parts : List (List Cell)) : structCells cells' parts = structCells cells parts := by
  have hnulls : ∀ cells : List Cell, structCells cells parts =
      (cells.map Cell.isNull).zipIdx.map fun entry =>
        .struct (!entry.1) (parts.map fun part => (part[entry.2]?).getD .null) := by
    intro cells
    rw [List.zipIdx_map, List.map_map]
    rfl
  rw [hnulls, hnulls, h]

/-- Structs need only the nulls of the cells that they are put together for. -/
lemma assembleStruct_congr (h : cells'.map Cell.isNull = cells.map Cell.isNull)
    (parts : List (Field × List Cell)) :
    assembleStruct cells' parts = assembleStruct cells parts := by
  unfold assembleStruct
  rw [h, structCells_congr h]

/-- The parts of structs are those that they have been put together from. -/
lemma children_structCells {parts : List (Field × List Cell)}
    (hlength : ∀ part ∈ parts, part.2.length = cells.length) :
    Column.children ⟨.struct (parts.map Prod.fst), structCells cells (parts.map Prod.snd)⟩ =
      parts.map fun part => (part.1, ⟨part.1.type, part.2⟩) := by
  refine List.ext_getElem (by simp [Column.children, ColumnType.fields]) fun j hj hj' => ?_
  rw [List.length_map] at hj'
  have hpart := hlength parts[j] (List.getElem_mem hj')
  have hcells : (structCells cells (parts.map Prod.snd)).map (Cell.part j) = parts[j].2 := by
    refine List.ext_getElem (by simp [structCells, hpart]) fun i hi hi' => ?_
    simp [structCells, Cell.part, hj', hi']
  simp only [Column.children, ColumnType.fields, List.getElem_map, List.getElem_zipIdx,
    Nat.zero_add, hcells]

/-! ### Cutting down once more -/

/-- What is left of a part of structs has the name of the part and a cell for each of its cells, and
is left as it is when it is cut down once more. -/
lemma projectMember_of_projectMember
    (ih : ∀ member ∈ fields, ∀ {c c' : Column}, projectColumn c member.2 = .ok c' →
      projectColumn c' member.2 = .ok c')
    {f : Field} {kept : List (Field × List Cell)}
    (h : projectMember form f ⟨f.type, cells⟩ fields = .ok kept) :
    ∀ part ∈ kept, part.1.name = f.name ∧ part.2.length = cells.length ∧
      projectMember form part.1 ⟨part.1.type, part.2⟩ fields = .ok [part] := by
  rw [projectMember_eq] at h
  split at h
  · rename_i hselector
    cases h
    refine List.forall_mem_singleton.mpr ⟨rfl, rfl, ?_⟩
    rw [projectMember_eq, if_pos hselector]
  · rename_i hselector
    split at h
    · cases h
      exact List.forall_mem_nil _
    · rename_i t hlookup
      obtain ⟨part, hpart, rfl⟩ := Outcome.map_eq_ok.mp h
      have hnulls := congrArg List.length (projectColumn_nulls t hpart).1
      rw [List.length_map, List.length_map] at hnulls
      refine List.forall_mem_singleton.mpr ⟨rfl, hnulls, ?_⟩
      rw [projectMember_eq, if_neg hselector, hlookup]
      dsimp only
      rw [ih _ (mem_of_lookup? hlookup) hpart]
      rfl

/-- Something is left of a part of structs that has the name of a member. -/
lemma projectMember_ne_nil {f : Field} {kept : List (Field × List Cell)}
    (hname : f.name ∈ fields.map Prod.fst) (h : projectMember form f c fields = .ok kept) :
    kept ≠ [] := by
  rw [projectMember_eq] at h
  split at h
  · cases h
    exact List.cons_ne_nil _ _
  · split at h
    · rename_i hnone
      obtain ⟨member, hmember, hsame⟩ := List.mem_map.mp hname
      have hother := List.find?_eq_none.mp (Option.map_eq_none_iff.mp hnone) member hmember
      exact absurd hsame (by simpa using hother)
    · obtain ⟨part, -, rfl⟩ := Outcome.map_eq_ok.mp h
      exact List.cons_ne_nil _ _

/-- Structs and unions are cut down once and for all if their members are. -/
lemma projectColumn_of_projectColumn_members
    (ih : ∀ member ∈ fields, ∀ {c c' : Column}, projectColumn c member.2 = .ok c' →
      projectColumn c' member.2 = .ok c')
    (h : projectColumn c (.members info form fields) = .ok c') :
    projectColumn c' (.members info form fields) = .ok c' := by
  obtain ⟨-, kept, hkept, hnamed, hassemble⟩ := projectColumn_members_eq_ok.mp h
  have hforall := Outcome.mapM_eq_ok.mp hkept
  -- What is left of each part, and what becomes of it the next time.
  have hagain : ∀ part ∈ kept.flatten, part.2.length = c.cells.length ∧
      projectMember form part.1 ⟨part.1.type, part.2⟩ fields = .ok [part] := by
    intro part hpart
    obtain ⟨parts, hparts, hpart⟩ := List.mem_flatten.mp hpart
    obtain ⟨entry, hentry, hproject⟩ := Outcome.exists_mem_of_forall₂ hforall.flip hparts
    obtain ⟨⟨f, i⟩, -, rfl⟩ := List.mem_map.mp hentry
    obtain ⟨-, hlength, hsame⟩ := projectMember_of_projectMember ih hproject part hpart
    exact ⟨hlength.trans (List.length_map _), hsame⟩
  have hnulls : c'.cells.map Cell.isNull = c.cells.map Cell.isNull := by
    rw [eq_of_assembleStruct hassemble]
    exact map_isNull_structCells _ _
  refine projectColumn_members_eq_ok.mpr ⟨?_, kept.flatten.map fun part => [part], ?_, ?_, ?_⟩
  · rw [eq_of_assembleStruct hassemble]
    rfl
  · rw [eq_of_assembleStruct hassemble,
      children_structCells fun part hpart => (hagain part hpart).1, List.mapM_map]
    exact Outcome.mapM_eq_map fun part hpart => (hagain part hpart).2
  · intro member hmember
    obtain ⟨f, hf, hname⟩ := hnamed member hmember
    obtain ⟨i, hi⟩ := List.mem_iff_getElem?.mp hf
    have hentry : (f, (⟨f.type, c.cells.map (Cell.part i)⟩ : Column)) ∈ c.children :=
      List.mem_map.mpr ⟨(f, i), List.mem_zipIdx_iff_getElem?.mpr hi, rfl⟩
    obtain ⟨parts, hparts, hproject⟩ := Outcome.exists_mem_of_forall₂ hforall hentry
    obtain ⟨part, hpart⟩ := List.exists_mem_of_ne_nil parts
      (projectMember_ne_nil (hname ▸ List.mem_map_of_mem hmember) hproject)
    obtain ⟨hsame, -⟩ := projectMember_of_projectMember ih hproject part hpart
    rw [eq_of_assembleStruct hassemble]
    exact ⟨part.1, List.mem_map_of_mem (List.mem_flatten.mpr ⟨parts, hparts, hpart⟩),
      hsame.trans hname⟩
  · rw [assembleStruct_congr hnulls, ← List.flatMap_def, List.flatMap_singleton']
    exact hassemble

/-- Lists whose items are kept. -/
lemma onItems_id : onItems id = id := by
  funext cell
  cases cell <;> simp [onItems]

/-- The items of lists with other items. -/
lemma listItems_map_onItems (f : Cell → Cell) (cells : List Cell) :
    listItems (cells.map (onItems f)) = (listItems cells).map f := by
  induction cells with
  | nil => rfl
  | cons cell cells ih =>
    have hcons : ∀ (cell : Cell) (cells : List Cell),
        listItems (cell :: cells) = listItems [cell] ++ listItems cells :=
      fun cell cells => listItems_append [cell] cells
    rw [List.map_cons, hcons, hcons cell, ih, List.map_append]
    cases cell <;> simp [onItems, listItems]

/-- Lists are cut down once and for all if their items are. -/
lemma projectColumn_of_projectColumn_list {inner : Ty} {maxSize : ℕ}
    (ih : ∀ {c c' : Column}, projectColumn c inner = .ok c' → projectColumn c' inner = .ok c')
    (h : projectColumn c (.wrapped info (.list maxSize) inner) = .ok c') :
    projectColumn c' (.wrapped info (.list maxSize) inner) = .ok c' := by
  obtain ⟨type, cells⟩ := c
  simp only [projectColumn] at h
  split at h
  · rename_i item
    obtain ⟨items, hitems, h⟩ := Outcome.bind_eq_ok.mp h
    cases h
    -- The items of the new lists are those that are left, and stay in the same lists.
    have hcut := eq_trimColumn_of_projectColumn inner hitems
    have hrelist : relist cells items.cells = cells.map (onItems (trim item.type inner).2) := by
      rw [hcut, trimColumn, relist_map_listItems]
    have hsame : listItems (relist cells items.cells) = items.cells := by
      rw [hrelist, listItems_map_onItems, hcut]
      rfl
    have hagain : relist (relist cells items.cells) items.cells = relist cells items.cells := by
      have hid := relist_map_listItems id (relist cells items.cells)
      rwa [onItems_id, List.map_id, List.map_id, hsame] at hid
    simp only [projectColumn, hsame]
    rw [show (⟨items.type, items.cells⟩ : Column) = items from rfl, ih hitems, Outcome.ok_bind,
      hagain]
  · rename_i hother
    cases h
    rw [projectColumn]
    split
    · rename_i item hlist
      exact absurd hlist (hother item)
    · rfl

/-- **A column is cut down to a type once and for all.**

**Proof sketch.** Induction on the type, for all columns. Leaves and arrays leave a column as it is,
and what a wrapper or a hypothesis does is what the type inside or the best candidate does. The
parts that are left of structs, and the items that are left of lists, are cut down by the same types
the next time, and come out as they are by induction. -/
theorem projectColumn_of_projectColumn (t : Ty) : ∀ {c c' : Column}, projectColumn c t = .ok c' →
    projectColumn c' t = .ok c' := by
  induction t using Ty.induction with
  | leaf info content =>
    intro c c' _
    rw [projectColumn]
  | members info form fields ih => exact projectColumn_of_projectColumn_members ih
  | wrapped info wrapper inner ih =>
    intro c c' h
    cases wrapper with
    | optional | constrained constraint =>
      rw [projectColumn] at h ⊢
      exact ih h
    | array shape => rw [projectColumn]
    | list maxSize => exact projectColumn_of_projectColumn_list ih h
  | hypothesis info types ih =>
    intro c c' h
    rw [projectColumn_hypothesis] at h ⊢
    cases hbest : bestOf? types with
    | none => rfl
    | some best =>
      obtain ⟨score, hmem⟩ := mem_of_bestOf? hbest
      rw [hbest] at h
      exact ih _ hmem h

/-! ### Members that are found under their names -/

/-- Every member that cells are tested by is the one that is found under its name: members of one
name are of one type. The items of lists and arrays are not tested, and of the candidates of a
hypothesis only the best is. -/
inductive FoundByName : Ty → Prop
  /-- A leaf has no members. -/
  | leaf {info : Info} {content : Leaf} : FoundByName (.leaf info content)
  /-- The members are found, and so are their members. -/
  | members {info : Info} {form : Form} {fields : List (String × Ty)}
      (found : ∀ member ∈ fields, lookup? member.1 fields = some member.2)
      (below : ∀ member ∈ fields, FoundByName member.2) : FoundByName (.members info form fields)
  /-- The type inside. -/
  | optional {info : Info} {inner : Ty} (inside : FoundByName inner) :
      FoundByName (.wrapped info .optional inner)
  /-- The type inside. -/
  | constrained {info : Info} {constraint : String} {inner : Ty} (inside : FoundByName inner) :
      FoundByName (.wrapped info (.constrained constraint) inner)
  /-- Items are not tested. -/
  | list {info : Info} {maxSize : ℕ} {inner : Ty} :
      FoundByName (.wrapped info (.list maxSize) inner)
  /-- Items are not tested. -/
  | array {info : Info} {shape : List ℕ} {inner : Ty} :
      FoundByName (.wrapped info (.array shape) inner)
  /-- The best candidate. -/
  | hypothesis {info : Info} {types : List (Ty × Float)}
      (best : ∀ best, bestOf? types = some best → FoundByName best) :
      FoundByName (.hypothesis info types)

/-- **Members with different names** are found under their names. -/
theorem DistinctNames.foundByName (h : t.DistinctNames) : t.FoundByName := by
  induction h with
  | leaf => exact .leaf
  | members nodup below ih => exact .members (fun member => lookup?_of_mem nodup) ih
  | @wrapped info wrapper inner inside ih =>
    cases wrapper with
    | optional => exact .optional ih
    | constrained constraint => exact .constrained ih
    | list maxSize => exact .list
    | array shape => exact .array
  | hypothesis candidates ih =>
    refine .hypothesis fun best hbest => ?_
    obtain ⟨score, hmem⟩ := mem_of_bestOf? hbest
    exact ih _ hmem

/-! ### Marks of cells that have been cut down -/

/-- The part under a label of structs that are cut down: what is left of the part that they have
there. -/
lemma childColumn_trimColumn {i : ℕ} {f : Field} (info : Info)
    (hindex : Column.fieldIndex? label c.type.fields = some i) (hf : c.type.fields[i]? = some f)
    {left : Field × (Cell → Cell)} (hleft : trimMember form f fields = some left) :
    childColumn (trimColumn c (.members info form fields)) label =
      .ok ⟨left.1.type, (c.cells.map (Cell.part i)).map left.2⟩ := by
  obtain ⟨j, hplace, hparts⟩ := place?_trim info hindex hf hleft
  rw [trimColumn, childColumn_of_place? hplace, List.map_map, List.map_map]
  exact congrArg (fun cells => Except.ok (Column.mk left.1.type cells))
    (List.map_congr_left fun cell _ => hparts cell)

/-- The field of a part of structs. -/
lemma exists_field_of_childColumn {part : Column} (h : childColumn c label = .ok part) :
    ∃ i f, Column.fieldIndex? label c.type.fields = some i ∧ c.type.fields[i]? = some f ∧
      f.name = label ∧ part = ⟨f.type, c.cells.map (Cell.part i)⟩ := by
  obtain ⟨i, hindex, hchild⟩ := Option.bind_eq_some_iff.mp (Outcome.ofOption_eq_ok.mp h)
  obtain ⟨⟨f, column⟩, hentry, rfl⟩ := Option.map_eq_some_iff.mp hchild
  obtain ⟨f', hf, hsame⟩ := Option.map_eq_some_iff.mp hentry
  cases hsame
  obtain ⟨hlt, hname, -⟩ := List.findIdx?_eq_some_iff_getElem.mp hindex
  cases (List.getElem?_eq_getElem hlt).symm.trans hf
  exact ⟨i, _, hindex, hf, beq_iff_eq.mp hname, rfl⟩

/-- A part of structs that are cut down is cut down to the member of its name, but for the names of
branches, which stay as they are. -/
lemma childColumn_trimColumn_of_lookup? {part : Column} (info : Info) (form : Form)
    (h : childColumn c label = .ok part) (found : lookup? label fields = some t) :
    ∃ left, childColumn (trimColumn c (.members info form fields)) label = .ok left ∧
      (left = part ∨ left = trimColumn part t) := by
  obtain ⟨i, f, hindex, hf, hname, rfl⟩ := exists_field_of_childColumn h
  obtain ⟨s, hs, hkept⟩ := trimMember_of_lookup? form hname found
  refine ⟨_, childColumn_trimColumn info hindex hf hs, ?_⟩
  rcases hkept with hwhole | rfl
  · rw [hwhole, List.map_id]
    exact Or.inl rfl
  · exact Or.inr rfl

/-- The names of the branches of a union's rows stay as they are. -/
lemma selectedBranches_trimColumn {names : List (Option String)} (info : Info)
    (h : selectedBranches c = .ok names) :
    selectedBranches (trimColumn c (.members info .union fields)) = .ok names := by
  obtain ⟨selector, hselector, hnames⟩ := Outcome.bind_eq_ok.mp h
  obtain ⟨i, f, hindex, hf, hname, rfl⟩ := exists_field_of_childColumn hselector
  have hkept : trimMember .union f fields = some (f, id) := by
    rw [trimMember_eq, hname]
    rfl
  have hsame := childColumn_trimColumn info hindex hf hkept
  rw [List.map_id] at hsame
  exact Outcome.bind_eq_ok.mpr ⟨_, hsame, hnames⟩

/-- Where a part of one column has marks, so has the part of its name of another column, and these
are the same. -/
def MarkedAlike (c c' : Column) (name : String) (t : Ty) : Prop :=
  ∀ ⦃part : Column⦄ ⦃marks : List Bool⦄, childColumn c name = .ok part →
    selectRows part t = .ok marks →
    ∃ left, childColumn c' name = .ok left ∧ selectRows left t = .ok marks

/-- The marks by the fields of structs whose parts are marked alike. -/
lemma selectFields_of_markedAlike (h : ∀ member ∈ fields, MarkedAlike c c' member.1 member.2)
    {mask marks : List Bool} (hselect : selectFields c mask fields = .ok marks) :
    selectFields c' mask fields = .ok marks := by
  induction fields generalizing mask with
  | nil => exact hselect
  | cons field fields ih =>
    obtain ⟨name, t⟩ := field
    obtain ⟨hfirst, hothers⟩ := List.forall_mem_cons.mp h
    obtain ⟨part, hpart, hselect⟩ := Outcome.bind_eq_ok.mp hselect
    obtain ⟨first, hmarks, hrest⟩ := Outcome.bind_eq_ok.mp hselect
    obtain ⟨left, hleft, hsame⟩ := hfirst hpart hmarks
    rw [selectFields, hleft, Outcome.ok_bind, hsame, Outcome.ok_bind]
    exact ih hothers hrest

/-- The marks by the branches of unions whose parts are marked alike. -/
lemma selectBranches_of_markedAlike (h : ∀ member ∈ fields, MarkedAlike c c' member.1 member.2)
    {branches : List (String × List Bool)} (hselect : selectBranches c fields = .ok branches) :
    selectBranches c' fields = .ok branches := by
  induction fields generalizing branches with
  | nil => exact hselect
  | cons field fields ih =>
    obtain ⟨name, t⟩ := field
    obtain ⟨hfirst, hothers⟩ := List.forall_mem_cons.mp h
    obtain ⟨part, hpart, hselect⟩ := Outcome.bind_eq_ok.mp hselect
    obtain ⟨first, hmarks, hselect⟩ := Outcome.bind_eq_ok.mp hselect
    obtain ⟨others, hrest, hbranches⟩ := Outcome.bind_eq_ok.mp hselect
    obtain ⟨left, hleft, hsame⟩ := hfirst hpart hmarks
    rw [selectBranches, hleft, Outcome.ok_bind, hsame, Outcome.ok_bind, ih hothers hrest]
    exact hbranches

/-- Structs and unions whose parts are marked alike when they are cut down have the same marks. -/
lemma selectRows_trimColumn_members {marks : List Bool}
    (hmember : ∀ member ∈ fields,
      MarkedAlike c (trimColumn c (.members info form fields)) member.1 member.2)
    (h : selectRows c (.members info form fields) = .ok marks) :
    selectRows (trimColumn c (.members info form fields)) (.members info form fields) =
      .ok marks := by
  have hstruct : requireStruct form (trimColumn c (.members info form fields)) = .ok () := by
    rw [trimColumn, trim_members]
    rfl
  cases form with
  | struct =>
    rw [selectRows] at h ⊢
    obtain ⟨-, -, h⟩ := Outcome.bind_eq_ok.mp h
    rw [hstruct, Outcome.ok_bind, trimColumn, List.map_map]
    exact selectFields_of_markedAlike hmember h
  | union =>
    rw [selectRows] at h ⊢
    obtain ⟨-, -, h⟩ := Outcome.bind_eq_ok.mp h
    obtain ⟨names, hnames, h⟩ := Outcome.bind_eq_ok.mp h
    obtain ⟨branches, hbranches, h⟩ := Outcome.bind_eq_ok.mp h
    rw [hstruct, Outcome.ok_bind, selectedBranches_trimColumn info hnames, Outcome.ok_bind,
      selectBranches_of_markedAlike hmember hbranches, Outcome.ok_bind]
    exact h

/-- Optional cells have the same marks when they are cut down if the cells inside have: nulls stay
nulls. -/
lemma selectRows_trimColumn_optional {inner : Ty} {marks : List Bool}
    (ih : ∀ {marks}, selectRows c inner = .ok marks →
      selectRows (trimColumn c inner) inner = .ok marks)
    (h : selectRows c (.wrapped info .optional inner) = .ok marks) :
    selectRows (trimColumn c (.wrapped info .optional inner)) (.wrapped info .optional inner) =
      .ok marks := by
  rw [selectRows] at h
  obtain ⟨mask, hmask, h⟩ := Outcome.bind_eq_ok.mp h
  have hsame : trimColumn c (.wrapped info .optional inner) = trimColumn c inner := by
    rw [trimColumn, trim]
    rfl
  have hnulls : ∀ cells : List Cell,
      List.zipWith (fun m cell => m || cell.isNull) mask (cells.map (trim c.type inner).2) =
        List.zipWith (fun m cell => m || Cell.isNull cell) mask cells := by
    intro cells
    rw [List.zipWith_map_right]
    simp only [isNull_trim]
  rw [hsame, selectRows, ih hmask, Outcome.ok_bind, trimColumn, hnulls]
  exact h

/-- **Cells that are cut down to a type have the same marks by it.**

**Proof sketch.** Induction on how the members are found. The part of a struct under the name of a
member is cut down to that very member, which is the one that is found under the name; by induction
it has the same marks as before, and so has the struct. Of a list only the nulls count, which
cutting down leaves. -/
theorem selectRows_trimColumn (hfound : t.FoundByName) : ∀ {c : Column} {marks : List Bool},
    selectRows c t = .ok marks → selectRows (trimColumn c t) t = .ok marks := by
  induction hfound with
  | leaf =>
    intro c marks h
    rwa [trimColumn_of_eq (by rw [trim])]
  | @members info form fields found below ih =>
    intro c marks h
    have hmember : ∀ member ∈ fields,
        MarkedAlike c (trimColumn c (.members info form fields)) member.1 member.2 := by
      intro member hmember part marks hpart hmarks
      -- The part under the name is the one that is found there, or what is left of it.
      obtain ⟨left, hleft, rfl | rfl⟩ :=
        childColumn_trimColumn_of_lookup? info form hpart (found member hmember)
      · exact ⟨_, hleft, hmarks⟩
      · exact ⟨_, hleft, ih member hmember hmarks⟩
    exact selectRows_trimColumn_members hmember h
  | optional inside ih =>
    intro c marks h
    exact selectRows_trimColumn_optional ih h
  | @constrained info constraint inner inside ih =>
    intro c marks h
    have hsame : trimColumn c (.wrapped info (.constrained constraint) inner) =
        trimColumn c inner := by
      rw [trimColumn, trim]
      rfl
    rw [selectRows] at h
    rw [hsame, selectRows]
    exact ih h
  | @list info maxSize inner =>
    intro c marks h
    simp only [selectRows] at h ⊢
    rwa [trimColumn, List.map_map]
  | @array info shape inner =>
    intro c marks h
    rwa [trimColumn_of_eq (by rw [trim])]
  | @hypothesis info types best ih =>
    intro c marks h
    rw [selectRows_hypothesis] at h ⊢
    rcases trim_hypothesis c.type info types with ⟨hbest, heq⟩ | ⟨best', hmem, hbest, heq⟩
    · rw [trimColumn_of_eq heq]
      exact h
    · rw [hbest] at h ⊢
      rw [trimColumn, heq]
      exact ih _ hbest h

end Lineage.Ty
