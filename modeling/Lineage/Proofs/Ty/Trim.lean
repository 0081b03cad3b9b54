import Lineage.Proofs.Ty.Descend
import Lineage.Proofs.Ty.Membership

set_option autoImplicit false

/-!
# Values cut down to a type

What cutting a column down to a type leaves of each of its cells: the parts that have no member are
left out of structs, also of those inside lists; everything else stays as it is.

## Main definitions

* `Lineage.Ty.trim`: the column type and the cells that are left.
* `Lineage.Ty.CutByCell`: columns that are cut down cell by cell.
* `Lineage.Ty.trimColumn`: what is left of a column.

## Main results

* `Lineage.Ty.cutByCell_members`: structs are cut down cell by cell if their parts are.
* `Lineage.Ty.Carries.cutByCell`: a column that carries the values of a type is cut down to the type
  cell by cell.
* `Lineage.Ty.eq_trimColumn_of_projectColumn`: so is every column that can be cut down.
* `Lineage.Ty.trim_absent`: cutting a cell down and taking its value away can be done in any order.
-/

namespace Lineage.Ty

/-- What the items of lists become. -/
def onItems (f : Cell → Cell) : Cell → Cell
  | .list items => .list (items.map f)
  | cell => cell

/-- Structs with some parts left out: fields with the parts they hold. -/
abbrev Parts := List (Field × (Cell → Cell))

/-- The parts of structs, given what becomes of each of them; some are left out. -/
def keptParts (trimmed : Field → Option (Field × (Cell → Cell))) (fields : List Field) : Parts :=
  fields.zipIdx.filterMap fun entry =>
    (trimmed entry.1).map fun part => (part.1, part.2 ∘ Cell.part entry.2)

/-- A struct with given parts of a cell, null where the cell is. -/
def restruct (parts : Parts) (cell : Cell) : Cell :=
  .struct (!cell.isNull) (parts.map fun part => part.2 cell)

mutual

/-- What is left of a column of a type that is cut down to a type: its type, and what becomes of
each cell. -/
def trim (type : ColumnType) : Ty → ColumnType × (Cell → Cell)
  | .leaf _ _ => (type, id)
  | .members _ form fields =>
    let parts := keptParts (fun f => trimMember form f fields) type.fields
    (.struct (parts.map Prod.fst), restruct parts)
  | .wrapped _ .optional inner => trim type inner
  | .wrapped _ (.constrained _) inner => trim type inner
  | .wrapped _ (.list _) inner =>
    match type with
    | .list .small item =>
      (.list .small ⟨item.name, (trim item.type inner).1, item.nullable⟩,
        onItems (trim item.type inner).2)
    | _ => (type, id)
  | .wrapped _ (.array _) _ => (type, id)
  | .hypothesis _ types => (bestOf? (trimCandidates type types)).getD (type, id)

/-- What is left of a part of structs: what the first member of its name leaves. The names of the
branches of a union stay, other parts without member do not. -/
def trimMember (form : Form) (f : Field) : List (String × Ty) → Option (Field × (Cell → Cell))
  | [] => if form == .union && f.name == fieldSelected then some (f, id) else none
  | (name, t) :: rest =>
    if name = f.name then
      if form == .union && f.name == fieldSelected then some (f, id)
      else some (⟨f.name, (trim f.type t).1, f.nullable⟩, (trim f.type t).2)
    else trimMember form f rest

/-- What each candidate leaves. -/
def trimCandidates (type : ColumnType) :
    List (Ty × Float) → List ((ColumnType × (Cell → Cell)) × Float)
  | [] => []
  | (t, score) :: rest => (trim type t, score) :: trimCandidates type rest

end

/-! ### What is left -/

/-- What is left of structs. -/
lemma trim_members (type : ColumnType) (info : Info) (form : Form) (fields : List (String × Ty)) :
    trim type (.members info form fields) =
      (.struct ((keptParts (fun f => trimMember form f fields) type.fields).map Prod.fst),
        restruct (keptParts (fun f => trimMember form f fields) type.fields)) := by
  rw [trim]

/-- What is left of lists; what is not stored as lists stays as it is. -/
lemma trim_list (type : ColumnType) (info : Info) (maxSize : ℕ) (inner : Ty) :
    (∃ item, type = .list .small item ∧ trim type (.wrapped info (.list maxSize) inner) =
      (.list .small ⟨item.name, (trim item.type inner).1, item.nullable⟩,
        onItems (trim item.type inner).2)) ∨
    (∀ item, type ≠ .list .small item) ∧
      trim type (.wrapped info (.list maxSize) inner) = (type, id) := by
  by_cases hlist : ∃ item, type = .list .small item
  · obtain ⟨item, rfl⟩ := hlist
    refine Or.inl ⟨item, rfl, ?_⟩
    rw [trim]
  · have hother := not_exists.mp hlist
    refine Or.inr ⟨hother, ?_⟩
    rw [trim]
    exact hother

/-- The best candidate of a hypothesis says what is left; without candidates all is. -/
lemma trim_hypothesis (type : ColumnType) (info : Info) (types : List (Ty × Float)) :
    (bestOf? types = none ∧ trim type (.hypothesis info types) = (type, id)) ∨
    ∃ best ∈ types, bestOf? types = some best.1 ∧
      trim type (.hypothesis info types) = trim type best.1 := by
  rw [trim, bestOf?_changed rfl (fun _ _ _ => rfl) types]
  cases hbest : bestOf? types with
  | none => exact Or.inl ⟨rfl, rfl⟩
  | some best =>
    obtain ⟨score, hmem⟩ := mem_of_bestOf? hbest
    exact Or.inr ⟨_, hmem, rfl, rfl⟩

/-! ### Nulls -/

/-- Structs with some parts left out are null where they were. -/
@[simp]
lemma isNull_restruct (parts : Parts) (cell : Cell) :
    (restruct parts cell).isNull = cell.isNull := by
  rw [restruct, Cell.isNull, Bool.not_not]

/-- Lists with other items are null where they were. -/
@[simp]
lemma isNull_onItems (f : Cell → Cell) (cell : Cell) : (onItems f cell).isNull = cell.isNull := by
  cases cell <;> rfl

/-- What is left of a cell is null where the cell is. -/
@[simp]
lemma isNull_trim (t : Ty) (type : ColumnType) (cell : Cell) :
    ((trim type t).2 cell).isNull = cell.isNull := by
  induction t using induction generalizing type cell with
  | leaf info content => rfl
  | members info form fields ih => exact isNull_restruct _ _
  | wrapped info wrapper inner ih =>
    cases wrapper with
    | optional | constrained constraint => exact ih type cell
    | array shape => rfl
    | list maxSize =>
      rcases trim_list type info maxSize inner with ⟨item, -, heq⟩ | ⟨-, heq⟩
      · rw [heq]
        exact isNull_onItems _ cell
      · rw [heq]
        rfl
  | hypothesis info types ih =>
    rcases trim_hypothesis type info types with ⟨-, heq⟩ | ⟨best, hmem, -, heq⟩
    · rw [heq]
      rfl
    · rw [heq]
      exact ih best hmem type cell

/-! ### Parts of structs -/

/-- What is left of a part of structs, by the member of its name. -/
lemma trimMember_eq (form : Form) (f : Field) (fields : List (String × Ty)) :
    trimMember form f fields =
      if form == .union && f.name == fieldSelected then some (f, id)
      else (lookup? f.name fields).map fun t =>
        (⟨f.name, (trim f.type t).1, f.nullable⟩, (trim f.type t).2) := by
  induction fields with
  | nil => rfl
  | cons field rest ih =>
    obtain ⟨name, t⟩ := field
    rw [trimMember]
    by_cases hname : name = f.name
    · subst hname
      rw [if_pos rfl, lookup?_cons_self]
      rfl
    · rw [if_neg hname, ih, lookup?_cons_of_ne hname]

/-- What is left of a part of structs keeps its nulls, and may be null if the part may. -/
lemma of_trimMember {form : Form} {f f' : Field} {fields : List (String × Ty)} {g : Cell → Cell}
    (h : trimMember form f fields = some (f', g)) :
    f'.nullable = f.nullable ∧ ∀ cell, (g cell).isNull = cell.isNull := by
  rw [trimMember_eq] at h
  split at h
  · cases h
    exact ⟨rfl, fun cell => rfl⟩
  · obtain ⟨t, -, h⟩ := Option.map_eq_some_iff.mp h
    cases h
    exact ⟨rfl, isNull_trim t f.type⟩

/-- The cells of parts. -/
def partCells (cells : List Cell) (parts : Parts) : List (Field × List Cell) :=
  parts.map fun part => (part.1, cells.map part.2)

/-- A column is cut down to a type cell by cell. -/
def CutByCell (t : Ty) (c : Column) : Prop :=
  projectColumn c t = .ok ⟨(trim c.type t).1, c.cells.map (trim c.type t).2⟩

/-- One part of structs is cut down cell by cell if it is for the member of its name. -/
lemma projectMember_eq_trimMember {form : Form} {f : Field} {cells : List Cell}
    {fields : List (String × Ty)} (h : ¬(form == .union && f.name == fieldSelected) = true →
      ∀ member ∈ fields, f.name = member.1 → CutByCell member.2 ⟨f.type, cells⟩) :
    projectMember form f ⟨f.type, cells⟩ fields =
      .ok (partCells cells (trimMember form f fields).toList) := by
  rw [projectMember_eq, trimMember_eq]
  split
  · simp [partCells]
  · rename_i hselector
    cases hfound : lookup? f.name fields with
    | none => rfl
    | some t =>
      exact congrArg (Except.map _) (h hselector (f.name, t) (mem_of_lookup? hfound) rfl)

/-- Structs are put together again from the cells of their parts. -/
lemma structCells_partCells (cells : List Cell) (parts : Parts) :
    structCells cells ((partCells cells parts).map Prod.snd) = cells.map (restruct parts) := by
  refine List.ext_getElem (by simp [structCells]) fun i hi hi' => ?_
  have hlt : i < cells.length := by simpa using hi'
  simp [structCells, partCells, restruct, Function.comp_def, hlt]

/-- Structs are put together from the cells of parts that are null only where they may be. -/
lemma assembleStruct_partCells {cells : List Cell} {parts : Parts}
    (h : ∀ part ∈ parts, part.1.nullable = false → ∀ cell ∈ cells, cell.isNull = false →
      (part.2 cell).isNull = false) :
    assembleStruct cells (partCells cells parts) =
      .ok ⟨.struct (parts.map Prod.fst), cells.map (restruct parts)⟩ := by
  have hfits : (partCells cells parts).all (fun part => part.1.nullable ||
      (part.2.zip (cells.map Cell.isNull)).all fun entry => !entry.1.isNull || entry.2) = true := by
    rw [partCells, List.all_map, List.all_eq_true]
    intro part hpart
    rw [Function.comp_apply, Bool.or_eq_true, List.zip_map', List.all_map, List.all_eq_true]
    cases hnullable : part.1.nullable with
    | true => exact Or.inl rfl
    | false =>
      refine Or.inr fun cell hcell => ?_
      cases hnull : cell.isNull with
      | true => simp [hnull]
      | false => simp [h part hpart hnullable cell hcell hnull]
  unfold assembleStruct
  dsimp only
  rw [if_pos hfits, structCells_partCells, partCells, List.map_map]
  rfl

/-- Parts of structs in which nulls stand only where they may are, cut down, the same. -/
lemma keptParts_isNull {form : Form} {fields : List (String × Ty)} {fs : List Field} {cell : Cell}
    (hfits : Cell.Fits (.struct fs) cell) (hpresent : cell.isNull = false) :
    ∀ part ∈ keptParts (fun f => trimMember form f fields) fs, part.1.nullable = false →
      (part.2 cell).isNull = false := by
  intro part hpart hnullable
  obtain ⟨⟨f, i⟩, hentry, hpart⟩ := List.mem_filterMap.mp hpart
  obtain ⟨⟨f', g⟩, hkept, rfl⟩ := Option.map_eq_some_iff.mp hpart
  obtain ⟨hsame, hnulls⟩ := of_trimMember hkept
  have hf := List.mem_zipIdx_iff_getElem?.mp hentry
  exact (hnulls _).trans ((hfits.of_struct hf).2 (hsame ▸ hnullable) hpresent)

/-- The cells of the parts that are left, part by part. -/
lemma flatten_partCells (trimmed : Field → Option (Field × (Cell → Cell))) (fs : List Field)
    (cells : List Cell) :
    (fs.zipIdx.map fun entry =>
        partCells (cells.map (Cell.part entry.2)) (trimmed entry.1).toList).flatten =
      partCells cells (keptParts trimmed fs) := by
  rw [keptParts, partCells, List.map_filterMap, List.filterMap_eq_flatMap_toList, List.flatMap_def]
  refine congrArg List.flatten (List.map_congr_left fun entry _ => ?_)
  cases trimmed entry.1 <;> simp [partCells]

/-- The parts of structs, each cut down cell by cell. -/
lemma mapM_projectMember {form : Form} {fields : List (String × Ty)} {fs : List Field}
    {cells : List Cell} (h : ∀ (i : ℕ) (f : Field), fs[i]? = some f →
      ¬(form == .union && f.name == fieldSelected) = true → ∀ member ∈ fields, f.name = member.1 →
        CutByCell member.2 ⟨f.type, cells.map (Cell.part i)⟩) :
    ∃ kept, ((Column.children ⟨.struct fs, cells⟩).mapM fun entry =>
        projectMember form entry.1 entry.2 fields) = .ok kept ∧
      kept.flatten = partCells cells (keptParts (fun f => trimMember form f fields) fs) := by
  rw [Column.children, List.mapM_map]
  exact ⟨_, Outcome.mapM_eq_map fun entry hentry => projectMember_eq_trimMember
    (h entry.2 entry.1 (List.mem_zipIdx_iff_getElem?.mp hentry)),
    flatten_partCells (fun f => trimMember form f fields) fs cells⟩

/-- **A column of structs is cut down cell by cell** if it has a part for every member, and if the
parts are.

**Proof sketch.** The parts are cut down one by one (`mapM_projectMember`) and the structs are
put together again from what is left of them. A part that may not be null is null only under a
null, before and after. -/
theorem cutByCell_members {form : Form} {fields : List (String × Ty)} {fs : List Field}
    {cells : List Cell} (info : Info) (hnamed : ∀ member ∈ fields, ∃ f ∈ fs, f.name = member.1)
    (hparts : ∀ (i : ℕ) (f : Field), fs[i]? = some f →
      ¬(form == .union && f.name == fieldSelected) = true → ∀ member ∈ fields, f.name = member.1 →
        CutByCell member.2 ⟨f.type, cells.map (Cell.part i)⟩)
    (hfits : ∀ cell ∈ cells, Cell.Fits (.struct fs) cell) :
    CutByCell (.members info form fields) ⟨.struct fs, cells⟩ := by
  obtain ⟨kept, hkept, hflatten⟩ := mapM_projectMember hparts
  have hassemble := assembleStruct_partCells fun part hpart hnullable cell hcell hpresent =>
    @keptParts_isNull form fields fs cell (hfits cell hcell) hpresent part hpart hnullable
  refine projectColumn_members_eq_ok.mpr ⟨rfl, kept, hkept, hnamed, ?_⟩
  rw [hflatten, hassemble, trim_members]
  rfl

/-! ### Lists -/

/-- The items of lists that fit their column fit theirs. -/
lemma fits_listItems {item : Field} {cells : List Cell}
    (h : ∀ cell ∈ cells, Cell.Fits (.list .small item) cell) :
    ∀ cell ∈ listItems cells, Cell.Fits item.type cell := by
  intro cell hcell
  obtain ⟨whole, hwhole, hcell⟩ := List.mem_flatMap.mp hcell
  cases whole with
  | list items => exact (h _ hwhole).of_list cell hcell
  | _ => cases hcell

/-- Lists with items that are changed one by one. -/
lemma relist_map_listItems (f : Cell → Cell) (cells : List Cell) :
    relist cells ((listItems cells).map f) = cells.map (onItems f) := by
  induction cells with
  | nil => rfl
  | cons cell cells ih =>
    cases cell with
    | list items =>
      have hitems : listItems (.list items :: cells) = items ++ listItems cells := rfl
      rw [hitems, List.map_append, relist, List.take_left' (List.length_map f),
        List.drop_left' (List.length_map f), ih]
      rfl
    | _ => exact congrArg _ ih

/-! ### Columns -/

/-- **A column that carries the values of a type is cut down to it cell by cell.**

**Proof sketch.** Induction on the type. As the column carries its values, structs have a part
for every member and lists are stored as such, so that nothing is refused; and since the cells
fit, no null stands where the type that is left forbids it. -/
theorem Carries.cutByCell {t : Ty} {type : ColumnType} {cells : List Cell}
    (hcarries : Carries t type) (hfits : ∀ cell ∈ cells, Cell.Fits type cell) :
    CutByCell t ⟨type, cells⟩ := by
  unfold CutByCell
  induction t using induction generalizing type cells with
  | leaf info content =>
    rw [projectColumn, trim, List.map_id]
  | members info form fields ih =>
    obtain ⟨fs, rfl, hmembers⟩ := hcarries.of_members
    refine cutByCell_members info (fun member hmember => (hmembers member hmember).1) ?_ hfits
    intro i f hf _ member hmember hname
    refine ih member hmember ((hmembers member hmember).2 f (List.mem_of_getElem? hf) hname) ?_
    rw [List.forall_mem_map]
    exact fun cell hcell => ((hfits cell hcell).of_struct hf).1
  | wrapped info wrapper inner ih =>
    cases hcarries with
    | optional carried | constrained carried =>
      rw [projectColumn, trim]
      exact ih carried hfits
    | list carried =>
      simp only [projectColumn, ih carried (fits_listItems hfits), Outcome.ok_bind,
        relist_map_listItems, trim]
    | array => rw [projectColumn, trim, List.map_id]
  | hypothesis info types ih =>
    cases hcarries with
    | hypothesis carried =>
      rw [projectColumn_hypothesis]
      rcases trim_hypothesis type info types with ⟨hbest, heq⟩ | ⟨best, hmem, hbest, heq⟩
      · rw [hbest, heq, List.map_id]
        rfl
      · rw [hbest, heq]
        exact ih best hmem (carried best.1 hbest) hfits

/-- What is left of structs are structs. -/
lemma isStruct_trim {t : Ty} {fs : List Field} (hcarries : Carries t (.struct fs)) :
    (trim (.struct fs) t).1.isStruct = true := by
  induction t using induction with
  | leaf info content =>
    rw [trim]
    rfl
  | members info form fields ih =>
    rw [trim]
    rfl
  | wrapped info wrapper inner ih =>
    cases hcarries with
    | optional carried | constrained carried =>
      rw [trim]
      exact ih carried
    | array =>
      rw [trim]
      rfl
  | hypothesis info types ih =>
    cases hcarries with
    | hypothesis carried =>
      rcases trim_hypothesis (.struct fs) info types with ⟨-, heq⟩ | ⟨best, hmem, hbest, heq⟩
      · rw [heq]
        rfl
      · rw [heq]
        exact ih best hmem (carried best.1 hbest)

/-! ### Columns that can be cut down -/

/-- What is left of a column that is cut down to a type. -/
def trimColumn (c : Column) (t : Ty) : Column := ⟨(trim c.type t).1, c.cells.map (trim c.type t).2⟩

/-- A column of which everything is left. -/
lemma trimColumn_of_eq {c : Column} {t : Ty} (h : trim c.type t = (c.type, id)) :
    trimColumn c t = c := by
  rw [trimColumn, h]
  exact congrArg (Column.mk c.type) (List.map_id c.cells)

/-- The parts of structs with one name: what is left of them. -/
lemma eq_partCells_of_projectMember {form : Form} {fields : List (String × Ty)}
    (ih : ∀ member ∈ fields, ∀ {c c' : Column}, projectColumn c member.2 = .ok c' →
      c' = trimColumn c member.2)
    {f : Field} {cells : List Cell} {kept : List (Field × List Cell)}
    (h : projectMember form f ⟨f.type, cells⟩ fields = .ok kept) :
    kept = partCells cells (trimMember form f fields).toList := by
  rw [projectMember_eq] at h
  rw [trimMember_eq]
  split at h
  · rename_i hselector
    cases h
    rw [if_pos hselector]
    simp [partCells]
  · rename_i hselector
    rw [if_neg hselector]
    split at h
    · rename_i hlookup
      cases h
      rw [hlookup]
      rfl
    · rename_i t hlookup
      obtain ⟨c', hc', rfl⟩ := Outcome.map_eq_ok.mp h
      rw [hlookup, ih _ (mem_of_lookup? hlookup) hc']
      rfl

/-- Structs that can be cut down are cut down cell by cell if their parts are. -/
lemma eq_trimColumn_of_projectColumn_members {info : Info} {form : Form}
    {fields : List (String × Ty)} {c c' : Column}
    (ih : ∀ member ∈ fields, ∀ {c c' : Column}, projectColumn c member.2 = .ok c' →
      c' = trimColumn c member.2)
    (h : projectColumn c (.members info form fields) = .ok c') :
    c' = trimColumn c (.members info form fields) := by
  obtain ⟨-, kept, hkept, rfl⟩ := of_projectColumn_members h
  have hparts : kept = c.type.fields.zipIdx.map fun entry =>
      partCells (c.cells.map (Cell.part entry.2)) (trimMember form entry.1 fields).toList := by
    rw [Outcome.mapM_eq_ok, Column.children, List.forall₂_map_left_iff] at hkept
    rw [← List.forall₂_eq_eq_eq, List.forall₂_map_right_iff]
    exact hkept.flip.imp fun part entry hpart => eq_partCells_of_projectMember ih hpart
  rw [hparts, flatten_partCells fun f => trimMember form f fields, structCells_partCells,
    trimColumn, trim_members, partCells, List.map_map]
  rfl

/-- Lists that can be cut down are cut down cell by cell if their items are. -/
lemma eq_trimColumn_of_projectColumn_list {info : Info} {maxSize : ℕ} {inner : Ty} {c c' : Column}
    (ih : ∀ {c c' : Column}, projectColumn c inner = .ok c' → c' = trimColumn c inner)
    (h : projectColumn c (.wrapped info (.list maxSize) inner) = .ok c') :
    c' = trimColumn c (.wrapped info (.list maxSize) inner) := by
  obtain ⟨type, cells⟩ := c
  simp only [projectColumn] at h
  rcases trim_list type info maxSize inner with ⟨item, rfl, heq⟩ | ⟨hother, heq⟩
  · obtain ⟨items, hitems, h⟩ := Outcome.bind_eq_ok.mp h
    cases h
    rw [trimColumn, heq, ih hitems, trimColumn, relist_map_listItems]
  · rw [trimColumn_of_eq heq]
    split at h
    · rename_i item
      exact absurd rfl (hother item)
    · exact (Except.ok.inj h).symm

/-- **Columns that can be cut down are cut down cell by cell.**

**Proof sketch.** Induction on the type, for all columns. Unlike in `Carries.cutByCell` nothing is
known about the column, but it can be cut down, and so can the columns of its parts and items. -/
theorem eq_trimColumn_of_projectColumn (t : Ty) : ∀ {c c' : Column}, projectColumn c t = .ok c' →
    c' = trimColumn c t := by
  induction t using Ty.induction with
  | leaf info content =>
    intro c c' h
    rw [projectColumn] at h
    cases h
    exact (trimColumn_of_eq (by rw [trim])).symm
  | members info form fields ih => exact eq_trimColumn_of_projectColumn_members ih
  | wrapped info wrapper inner ih =>
    intro c c' h
    cases wrapper with
    | optional | constrained constraint =>
      rw [projectColumn] at h
      rw [trimColumn, trim]
      exact ih h
    | array shape =>
      rw [projectColumn] at h
      cases h
      exact (trimColumn_of_eq (by rw [trim])).symm
    | list maxSize => exact eq_trimColumn_of_projectColumn_list ih h
  | hypothesis info types ih =>
    intro c c' h
    rw [projectColumn_hypothesis] at h
    rcases trim_hypothesis c.type info types with ⟨hbest, heq⟩ | ⟨best, hmem, hbest, heq⟩
    · rw [hbest] at h
      cases h
      exact (trimColumn_of_eq heq).symm
    · rw [hbest] at h
      rw [trimColumn, heq]
      exact ih best hmem h

/-- **Cutting a cell down and taking its value away** can be done in any order. -/
theorem trim_absent (t : Ty) : ∀ (type : ColumnType) (cell : Cell),
    (trim type t).2 cell.absent = ((trim type t).2 cell).absent := by
  induction t using Ty.induction with
  | leaf info content =>
    intro type cell
    rw [trim]
    rfl
  | members info form fields ih =>
    intro type cell
    rw [trim_members]
    refine congrArg₂ Cell.struct (by simp) (List.map_congr_left fun part hpart => ?_)
    obtain ⟨entry, -, hentry⟩ := List.mem_filterMap.mp hpart
    obtain ⟨kept, -, rfl⟩ := Option.map_eq_some_iff.mp hentry
    exact congrArg kept.2 (Cell.part_absent entry.2 cell)
  | wrapped info wrapper inner ih =>
    intro type cell
    cases wrapper with
    | optional | constrained constraint =>
      rw [trim]
      exact ih type cell
    | array shape =>
      rw [trim]
      rfl
    | list maxSize =>
      rcases trim_list type info maxSize inner with ⟨item, -, heq⟩ | ⟨-, heq⟩
      · rw [heq]
        cases cell <;> rfl
      · rw [heq]
        rfl
  | hypothesis info types ih =>
    intro type cell
    rcases trim_hypothesis type info types with ⟨-, heq⟩ | ⟨best, hmem, -, heq⟩
    · rw [heq]
      rfl
    · rw [heq]
      exact ih best hmem type cell

/-- Only what is left of a column of nulls is a column of nulls. -/
lemma eq_null_of_trim (t : Ty) {type : ColumnType} (h : (trim type t).1 = .null) :
    type = .null := by
  induction t using Ty.induction with
  | leaf info content =>
    rw [trim] at h
    exact h
  | members info form fields ih =>
    rw [trim_members] at h
    cases h
  | wrapped info wrapper inner ih =>
    cases wrapper with
    | optional | constrained constraint =>
      rw [trim] at h
      exact ih h
    | array shape =>
      rw [trim] at h
      exact h
    | list maxSize =>
      rcases trim_list type info maxSize inner with ⟨item, -, heq⟩ | ⟨-, heq⟩
      · rw [heq] at h
        cases h
      · rw [heq] at h
        exact h
  | hypothesis info types ih =>
    rcases trim_hypothesis type info types with ⟨-, heq⟩ | ⟨best, hmem, -, heq⟩
    · rw [heq] at h
      exact h
    · rw [heq] at h
      exact ih best hmem h

end Lineage.Ty
