import Lineage.Proofs.Column.Narrow
import Lineage.Proofs.Ty.Pruning

set_option autoImplicit false

/-!
# Projected columns

A column that is cut down to a type which is cut out of its own keeps its nulls and, of its parts,
all that the type still has, with their values. It keeps no others, but for two exceptions: nothing
looks into arrays, and in a union everything with the name of the column that names the branches
stays as it is. So the column that is left is stored as the type says exactly if these are left
whole by the type.

## Main definitions

* `Lineage.Ty.CutOutsideArrays`: a type is cut out of another one outside its arrays.
* `Lineage.Ty.Projects`: what is to be shown of a type that is cut out of another one.

## Main results

* `Lineage.Ty.Projects.members`, `Lineage.Ty.Projects.list`, `Lineage.Ty.Projects.array`: the steps
  along types.
* `Lineage.Ty.Cut.projects`: columns of a type that are cut down to a type cut out of it.
* `Lineage.Ty.projectColumn_select`: the same for types that are cut out by a path.
-/

namespace Lineage.Ty

open ColumnType (Within FieldsWithin)

variable {t left part whole : Ty} {c : Column} {form : Form} {info : Info} {label : String}
  {all fields remaining : List (String × Ty)} {type : ColumnType} {nullable : Bool}

/-! ### Types that are cut outside their arrays -/

mutual

/-- A type is cut out of another one outside its arrays: arrays have items that are stored as
before, and so is a branch of a union with the name of the column that names the branches. -/
inductive CutOutsideArrays : Ty → Ty → Prop
  /-- A leaf. -/
  | leaf {info : Info} {content content' : Leaf} :
      CutOutsideArrays (.leaf info content) (.leaf info content')
  /-- Some of the members. -/
  | members {info : Info} {form : Form} {remaining fields : List (String × Ty)}
      (h : KeptOutsideArrays form remaining fields) :
      CutOutsideArrays (.members info form remaining) (.members info form fields)
  /-- A wrapper that is not an array. -/
  | wrapped {info : Info} {wrapper : Wrapper} {part whole : Ty}
      (hwrapper : ∀ shape, wrapper ≠ .array shape) (h : CutOutsideArrays part whole) :
      CutOutsideArrays (.wrapped info wrapper part) (.wrapped info wrapper whole)
  /-- An array of items that are stored as before. -/
  | array {info : Info} {shape : List ℕ} {part whole : Ty}
      (h : part.columnType = whole.columnType) :
      CutOutsideArrays (.wrapped info (.array shape) part) (.wrapped info (.array shape) whole)
  /-- The best candidate. -/
  | hypothesis {info : Info} {candidates types : List (Ty × Float)}
      (h : ∀ part whole, bestOf? candidates = some part → bestOf? types = some whole →
        CutOutsideArrays part whole) :
      CutOutsideArrays (.hypothesis info candidates) (.hypothesis info types)

/-- Some of the members are left, cut outside arrays. A branch with the name of the column that
names the branches is left, stored as before. -/
inductive KeptOutsideArrays : Form → List (String × Ty) → List (String × Ty) → Prop
  /-- There are no members. -/
  | nil {form : Form} : KeptOutsideArrays form [] []
  /-- The first member is gone. -/
  | drop {form : Form} {name : String} {whole : Ty} {remaining fields : List (String × Ty)}
      (hname : ¬(form == .union && name == fieldSelected) = true)
      (rest : KeptOutsideArrays form remaining fields) :
      KeptOutsideArrays form remaining ((name, whole) :: fields)
  /-- The first member is left. -/
  | keep {form : Form} {name : String} {part whole : Ty} {remaining fields : List (String × Ty)}
      (hname : ¬(form == .union && name == fieldSelected) = true)
      (first : CutOutsideArrays part whole) (rest : KeptOutsideArrays form remaining fields) :
      KeptOutsideArrays form ((name, part) :: remaining) ((name, whole) :: fields)
  /-- The first member has the name of the column that names the branches. -/
  | selector {form : Form} {name : String} {part whole : Ty} {remaining fields : List (String × Ty)}
      (hname : (form == .union && name == fieldSelected) = true)
      (first : part.columnType = whole.columnType)
      (rest : KeptOutsideArrays form remaining fields) :
      KeptOutsideArrays form ((name, part) :: remaining) ((name, whole) :: fields)

end

/-- The members that are left have names that members have. -/
lemma KeptOutsideArrays.names (h : KeptOutsideArrays form remaining fields) :
    (remaining.map Prod.fst).Sublist (fields.map Prod.fst) := by
  induction fields generalizing remaining with
  | nil =>
    cases h
    exact .slnil
  | cons field fields ih =>
    cases h with
    | drop _ rest => exact .cons _ (ih rest)
    | keep _ _ rest | selector _ _ rest => exact .cons_cons _ (ih rest)

/-- A member that is gone, which does not have the name of the column that names the branches. -/
lemma keptOutsideArrays_drop_iff (hname : ¬(form == .union && label == fieldSelected) = true)
    (hgone : label ∉ remaining.map Prod.fst) :
    KeptOutsideArrays form remaining ((label, whole) :: fields) ↔
      KeptOutsideArrays form remaining fields := by
  refine ⟨fun h => ?_, .drop hname⟩
  cases h with
  | drop _ rest => exact rest
  | keep _ _ _ | selector _ _ _ => exact absurd List.mem_cons_self hgone

/-- A branch with the name of the column that names the branches may not be gone. -/
lemma not_keptOutsideArrays (hname : (form == .union && label == fieldSelected) = true)
    (hgone : label ∉ remaining.map Prod.fst) :
    ¬KeptOutsideArrays form remaining ((label, whole) :: fields) := by
  intro h
  cases h with
  | drop hother _ => exact hother hname
  | keep _ _ _ | selector _ _ _ => exact hgone List.mem_cons_self

/-- A member that is left, which does not have the name of the column that names the branches. -/
lemma keptOutsideArrays_keep_iff (hname : ¬(form == .union && label == fieldSelected) = true)
    (hfresh : label ∉ fields.map Prod.fst) :
    KeptOutsideArrays form ((label, part) :: remaining) ((label, whole) :: fields) ↔
      CutOutsideArrays part whole ∧ KeptOutsideArrays form remaining fields := by
  refine ⟨fun h => ?_, fun h => .keep hname h.1 h.2⟩
  cases h with
  | drop _ rest => exact absurd (rest.names.subset List.mem_cons_self) hfresh
  | keep _ first rest => exact ⟨first, rest⟩
  | selector hother _ _ => exact absurd hother hname

/-- A branch that is left, with the name of the column that names the branches. -/
lemma keptOutsideArrays_selector_iff (hname : (form == .union && label == fieldSelected) = true) :
    KeptOutsideArrays form ((label, part) :: remaining) ((label, whole) :: fields) ↔
      part.columnType = whole.columnType ∧ KeptOutsideArrays form remaining fields := by
  refine ⟨fun h => ?_, fun h => .selector hname h.1 h.2⟩
  cases h with
  | drop hother _ | keep hother _ _ => exact absurd hname hother
  | selector _ first rest => exact ⟨first, rest⟩

/-! ### What is to be shown -/

/-- What is to be shown of a type that is cut out of another one, for columns of the latter: they
can be cut down, their cells lose what their type loses, and their type is what the type says
exactly if it is cut outside arrays. -/
structure Projects (left t : Ty) (type : ColumnType) (nullable : Bool) : Prop where
  /-- Columns are cut down cell by cell. -/
  cut : ∀ cells : List Cell, (∀ cell ∈ cells, Cell.Fits type cell) → CutByCell left ⟨type, cells⟩
  /-- Cells lose what their type loses. -/
  cell : ∀ cell, Cell.Fits type cell →
    (trim type left).2 cell = Cell.narrow (trim type left).1 type cell
  /-- The type of the column loses parts. -/
  within : (trim type left).1.Within type
  /-- The parts that the type has are left; these are all exactly if the type is cut outside
  arrays. -/
  stored : ∃ stored, left.columnType = .ok (stored, nullable) ∧ stored.Within (trim type left).1 ∧
    ((trim type left).1 = stored ↔ CutOutsideArrays left t)

/-- Columns of a type are cut down to a type as is to be shown. -/
def AllProject (left t : Ty) : Prop :=
  ∀ ⦃type : ColumnType⦄ ⦃nullable : Bool⦄, t.columnType = .ok (type, nullable) →
    Projects left t type nullable

/-! ### Members -/

/-- What is left of a field of structs. -/
def leftField (form : Form) (remaining : List (String × Ty)) (f : Field) : Option Field :=
  (trimMember form f remaining).map Prod.fst

/-- What is left of a field, by the member of its name. -/
lemma leftField_eq (form : Form) (remaining : List (String × Ty)) (f : Field) :
    leftField form remaining f =
      if form == .union && f.name == fieldSelected then some f
      else (lookup? f.name remaining).map fun t => ⟨f.name, (trim f.type t).1, f.nullable⟩ := by
  rw [leftField, trimMember_eq]
  split
  · rfl
  · rw [Option.map_map]
    rfl

/-- A field with the name of the column that names the branches is left as it is. -/
lemma leftField_of_selector (hname : (form == .union && label == fieldSelected) = true)
    (members : List (String × Ty)) (type : ColumnType) (nullable : Bool) :
    leftField form members (formField form ⟨label, type, nullable⟩) =
      some (formField form ⟨label, type, nullable⟩) := by
  rw [leftField_eq]
  exact if_pos hname

/-- Any other field is cut down to the member of its name. -/
lemma leftField_of_not_selector (hname : ¬(form == .union && label == fieldSelected) = true)
    (members : List (String × Ty)) (type : ColumnType) (nullable : Bool) :
    leftField form members (formField form ⟨label, type, nullable⟩) =
      (lookup? label members).map fun t => formField form ⟨label, (trim type t).1, nullable⟩ := by
  rw [leftField_eq]
  exact if_neg hname

/-- The fields that are left of structs. -/
lemma map_fst_keptParts (kept : Field → Option (Field × (Cell → Cell))) (fs : List Field) :
    (keptParts kept fs).map Prod.fst = fs.filterMap fun f => (kept f).map Prod.fst := by
  have hfields : (fs.zipIdx.map Prod.fst).filterMap (fun f => (kept f).map Prod.fst) =
      (keptParts kept fs).map Prod.fst := by
    rw [keptParts, List.map_filterMap, List.filterMap_map]
    refine List.filterMap_congr fun entry _ => ?_
    rw [Function.comp_apply, Option.map_map]
    rfl
  rw [← hfields, List.zipIdx_map_fst]

/-- What is left of a struct, part by part. -/
lemma restruct_keptParts (kept : Field → Option (Field × (Cell → Cell))) {fs : List Field}
    {ps : List Cell} (hlength : ps.length = fs.length) (present : Bool) :
    restruct (keptParts kept fs) (.struct present ps) =
      .struct present ((fs.zip ps).filterMap fun entry =>
        (kept entry.1).map fun part => part.2 entry.2) := by
  have hzip : fs.zipIdx.map (fun entry => (entry.1, (Cell.struct present ps).part entry.2)) =
      fs.zip ps := by
    refine List.ext_getElem (by simp [hlength]) fun i hi hi' => ?_
    have hlt : i < ps.length := by
      rw [List.length_zip] at hi'
      omega
    simp [Cell.part, hlt]
  rw [restruct, keptParts, List.map_filterMap, ← hzip, List.filterMap_map, Cell.isNull,
    Bool.not_not]
  refine congrArg (Cell.struct present) (List.filterMap_congr fun entry _ => ?_)
  rw [Function.comp_apply, Option.map_map]
  rfl

/-- A member that is left was one of the members. -/
lemma Kept.exists_of_lookup? {R : Ty → Ty → Prop} (h : Kept R remaining fields)
    (found : lookup? label remaining = some part) :
    ∃ whole, (label, whole) ∈ fields ∧ R part whole := by
  have hmem := mem_of_lookup? found
  clear found
  induction h with
  | nil => cases hmem
  | drop _ ih =>
    obtain ⟨whole, hwhole, hrelated⟩ := ih hmem
    exact ⟨whole, List.mem_cons_of_mem _ hwhole, hrelated⟩
  | keep first _ ih =>
    rcases List.mem_cons.mp hmem with heq | hrest
    · cases heq
      exact ⟨_, List.mem_cons_self, first⟩
    · obtain ⟨whole, hwhole, hrelated⟩ := ih hrest
      exact ⟨whole, List.mem_cons_of_mem _ hwhole, hrelated⟩

/-- **The column of a member that is left** is cut down to what is left of the member. -/
lemma Kept.projects (h : Kept AllProject remaining fields) (hnodup : (fields.map Prod.fst).Nodup)
    {expected : List Field} (hexpected : fieldsOf fields = .ok expected) {f : Field}
    (hf : f ∈ formFields form expected)
    (hname : ¬(form == .union && f.name == fieldSelected) = true)
    (found : lookup? f.name remaining = some part) :
    ∃ whole nullable, Projects part whole f.type nullable := by
  obtain ⟨whole, hwhole, hproject⟩ := h.exists_of_lookup? found
  rw [formFields_eq] at hf
  rcases List.mem_append.mp hf with hmember | htail
  · obtain ⟨e, he, rfl⟩ := List.mem_map.mp hmember
    obtain ⟨whole', hmem, hstored⟩ := exists_member_of_fieldsOf hexpected he
    have heq := (lookup?_of_mem hnodup hmem).symm.trans (lookup?_of_mem hnodup hwhole)
    cases heq
    exact ⟨whole, e.nullable, hproject hstored⟩
  · cases form with
    | struct => cases htail
    | union =>
      obtain rfl := List.mem_singleton.mp htail
      exact absurd rfl hname

/-- The columns of the members that are left, and what is left of the columns of all members: these
are all the parts that the members have, and no others exactly if the members are cut outside
arrays. -/
structure FieldsLeft (form : Form) (all remaining fields : List (String × Ty))
    (expected expected' : List Field) : Prop where
  /-- The parts that the members have are left. -/
  within : FieldsWithin (expected'.map (formField form))
    ((expected.map (formField form)).filterMap (leftField form all))
  /-- No others are left. -/
  eq_iff : (expected.map (formField form)).filterMap (leftField form all) =
    expected'.map (formField form) ↔ KeptOutsideArrays form remaining fields

/-- A member that is gone, with its column; but a column with the name of the one that names the
branches is left. -/
lemma FieldsLeft.drop {name : String} {type : ColumnType} {nullable : Bool}
    {expected expected' : List Field} (h : FieldsLeft form all remaining fields expected expected')
    (hgone : name ∉ remaining.map Prod.fst) (hall : lookup? name all = lookup? name remaining)
    (hexpected' : fieldsOf remaining = .ok expected') :
    FieldsLeft form all remaining ((name, whole) :: fields)
      (⟨name, type, nullable⟩ :: expected) expected' := by
  by_cases hname : (form == .union && name == fieldSelected) = true
  · have hleft : ((⟨name, type, nullable⟩ :: expected).map (formField form)).filterMap
        (leftField form all) = formField form ⟨name, type, nullable⟩ ::
          (expected.map (formField form)).filterMap (leftField form all) :=
      List.filterMap_cons_some (leftField_of_selector hname all type nullable)
    refine ⟨hleft ▸ .drop h.within,
      iff_of_false (fun heq => ?_) (not_keptOutsideArrays hname hgone)⟩
    obtain ⟨f, hf, hfield⟩ := List.mem_map.mp (heq ▸ hleft ▸ List.mem_cons_self)
    have hsame : f.name = name := congrArg FieldOf.name hfield
    have hmem : f.name ∈ expected'.map FieldOf.name := List.mem_map_of_mem hf
    rw [map_name_fieldsOf hexpected', hsame] at hmem
    exact hgone hmem
  · have hleft : leftField form all (formField form ⟨name, type, nullable⟩) = none := by
      rw [leftField_of_not_selector hname, hall, lookup?_eq_none hgone]
      rfl
    constructor
    · rw [List.map_cons, List.filterMap_cons_none hleft]
      exact h.within
    · rw [List.map_cons, List.filterMap_cons_none hleft, keptOutsideArrays_drop_iff hname hgone]
      exact h.eq_iff

/-- A member that is left, with what is left of its column; but a column with the name of the one
that names the branches is left whole. -/
lemma FieldsLeft.keep {name : String} {type stored : ColumnType} {nullable : Bool}
    {expected expected' : List Field} (h : FieldsLeft form all remaining fields expected expected')
    (hfresh : name ∉ fields.map Prod.fst) (hall : lookup? name all = some part)
    (hwhole : whole.columnType = .ok (type, nullable))
    (hpart : part.columnType = .ok (stored, nullable))
    (hinner : stored.Within (trim type part).1) (hwithin : (trim type part).1.Within type)
    (hsame : (trim type part).1 = stored ↔ CutOutsideArrays part whole) :
    FieldsLeft form all ((name, part) :: remaining) ((name, whole) :: fields)
      (⟨name, type, nullable⟩ :: expected) (⟨name, stored, nullable⟩ :: expected') := by
  by_cases hname : (form == .union && name == fieldSelected) = true
  · have hleft := leftField_of_selector hname all type nullable
    have hfirst : type = stored ↔ part.columnType = whole.columnType := by
      rw [hpart, hwhole]
      simp [eq_comm]
    constructor
    · rw [List.map_cons, List.map_cons, List.filterMap_cons_some hleft]
      exact .keep (hinner.trans _ hwithin) h.within
    · rw [List.map_cons, List.map_cons, List.filterMap_cons_some hleft,
        keptOutsideArrays_selector_iff hname, ← hfirst, ← h.eq_iff, List.cons_eq_cons, formField,
        formField, FieldOf.mk.injEq]
      simp
  · have hleft : leftField form all (formField form ⟨name, type, nullable⟩) =
        some (formField form ⟨name, (trim type part).1, nullable⟩) := by
      rw [leftField_of_not_selector hname, hall]
      rfl
    constructor
    · rw [List.map_cons, List.map_cons, List.filterMap_cons_some hleft]
      exact .keep hinner h.within
    · rw [List.map_cons, List.map_cons, List.filterMap_cons_some hleft,
        keptOutsideArrays_keep_iff hname hfresh, ← hsame, ← h.eq_iff, List.cons_eq_cons, formField,
        formField, FieldOf.mk.injEq]
      simp

/-- Members that are left, and the columns that are left of those of all members. -/
lemma Kept.exists_fieldsOf (form : Form) (h : Kept AllProject remaining fields)
    (hnodup : (fields.map Prod.fst).Nodup)
    (hall : ∀ name ∈ fields.map Prod.fst, lookup? name all = lookup? name remaining)
    {expected : List Field} (hexpected : fieldsOf fields = .ok expected) :
    ∃ expected', fieldsOf remaining = .ok expected' ∧
      FieldsLeft form all remaining fields expected expected' := by
  induction h generalizing expected with
  | nil =>
    cases hexpected
    exact ⟨[], rfl, .nil, iff_of_true rfl .nil⟩
  | @drop name whole remaining fields rest ih =>
    obtain ⟨hfresh, hnodup⟩ := List.nodup_cons.mp hnodup
    obtain ⟨⟨type, nullable⟩, others, -, hothers, rfl⟩ := fieldsOf_cons_eq_ok.mp hexpected
    obtain ⟨expected', hexpected', hleft⟩ := ih hnodup
      (fun other hother => hall other (List.mem_cons_of_mem _ hother)) hothers
    have hgone : name ∉ remaining.map Prod.fst := fun hmem => hfresh (rest.names.subset hmem)
    exact ⟨expected', hexpected', hleft.drop hgone (hall name List.mem_cons_self) hexpected'⟩
  | @keep name part whole remaining fields first rest ih =>
    obtain ⟨hfresh, hnodup⟩ := List.nodup_cons.mp hnodup
    obtain ⟨⟨type, nullable⟩, others, hstored, hothers, rfl⟩ := fieldsOf_cons_eq_ok.mp hexpected
    obtain ⟨expected', hexpected', hleft⟩ := ih hnodup (fun other hother => by
      rw [hall other (List.mem_cons_of_mem _ hother), lookup?_cons_of_ne]
      rintro rfl
      exact hfresh hother) hothers
    have hproject := first hstored
    have hfound := (hall name List.mem_cons_self).trans (lookup?_cons_self name part remaining)
    obtain ⟨stored, hpart, hinner, hsame⟩ := hproject.stored
    exact ⟨⟨name, stored, nullable⟩ :: expected',
      fieldsOf_cons_eq_ok.mpr ⟨_, _, hpart, hexpected', rfl⟩,
      hleft.keep hfresh hfound hstored hpart hinner hproject.within hsame⟩

/-- The column that names the branches is left as it is. -/
lemma filterMap_formTail (form : Form) (remaining : List (String × Ty)) :
    (formTail form).filterMap (leftField form remaining) = formTail form := by
  cases form with
  | struct => rfl
  | union =>
    have hleft : leftField .union remaining selectorField = some selectorField := by
      rw [leftField_eq]
      exact if_pos rfl
    rw [formTail, List.filterMap_cons_some hleft]
    rfl

/-- What is left of the columns of members keeps its name, and of its type and its cells what the
member has. -/
lemma Kept.of_trimMember (h : Kept AllProject remaining fields)
    (hnodup : (fields.map Prod.fst).Nodup) {expected : List Field}
    (hexpected : fieldsOf fields = .ok expected) {f : Field} (hf : f ∈ formFields form expected)
    {kept : Field × (Cell → Cell)} (hkept : trimMember form f remaining = some kept) :
    kept.1.name = f.name ∧ kept.1.nullable = f.nullable ∧ kept.1.type.Within f.type ∧
      ∀ cell, Cell.Fits f.type cell → kept.2 cell = Cell.narrow kept.1.type f.type cell := by
  rw [trimMember_eq] at hkept
  split at hkept
  · cases hkept
    exact ⟨rfl, rfl, .refl f.type, fun cell hfits => (Cell.narrow_self f.type hfits).symm⟩
  · rename_i hselector
    obtain ⟨part, found, rfl⟩ := Option.map_eq_some_iff.mp hkept
    obtain ⟨whole, nullable, hproject⟩ := h.projects hnodup hexpected hf hselector found
    exact ⟨rfl, rfl, hproject.within, hproject.cell⟩

/-- Whether something is left of a part of structs is said by its name. -/
lemma isSome_trimMember {f g : Field} (hname : f.name = g.name) :
    (trimMember form f remaining).isSome ↔ (trimMember form g remaining).isSome := by
  rw [trimMember_eq, trimMember_eq, hname]
  split
  · exact Iff.rfl
  · rw [Option.isSome_map, Option.isSome_map]

/-- Structs can be cut down to the members that are left, cell by cell. -/
lemma Kept.cutByCell (h : Kept AllProject remaining fields) (hnodup : (fields.map Prod.fst).Nodup)
    {expected : List Field} (hexpected : fieldsOf fields = .ok expected) {cells : List Cell}
    (hfits : ∀ cell ∈ cells, Cell.Fits (.struct (formFields form expected)) cell) :
    CutByCell (.members info form remaining) ⟨.struct (formFields form expected), cells⟩ := by
  refine cutByCell_members info ?_ ?_ hfits
  · -- Every member that is left has the column that it had.
    intro member hmember
    have hmem : member.1 ∈ expected.map FieldOf.name := by
      rw [map_name_fieldsOf hexpected]
      exact h.names.subset (List.mem_map_of_mem hmember)
    obtain ⟨e, he, hname⟩ := List.mem_map.mp hmem
    refine ⟨formField form e, ?_, hname⟩
    rw [formFields_eq]
    exact List.mem_append_left _ (List.mem_map_of_mem he)
  · intro i f hf hselector member hmember hname
    have hleft : (remaining.map Prod.fst).Nodup := h.names.nodup hnodup
    have found : lookup? f.name remaining = some member.2 := by
      rw [hname]
      exact lookup?_of_mem hleft hmember
    obtain ⟨whole, nullable, hproject⟩ :=
      h.projects hnodup hexpected (List.mem_of_getElem? hf) hselector found
    refine hproject.cut _ (List.forall_mem_map.mpr fun cell hcell => ?_)
    exact ((hfits cell hcell).of_struct hf).1

/-- The type that is left of a column of structs has the fields that are left. -/
lemma trim_formFields (info : Info) (form : Form) (remaining : List (String × Ty))
    (expected : List Field) :
    (trim (.struct (formFields form expected)) (.members info form remaining)).1 =
      .struct ((formFields form expected).filterMap (leftField form remaining)) := by
  rw [trim_members, map_fst_keptParts]
  rfl

/-- The cells that are left of structs have lost the parts that their type has lost. -/
lemma Kept.narrow_eq (h : Kept AllProject remaining fields) (hnodup : (fields.map Prod.fst).Nodup)
    {expected : List Field} (hexpected : fieldsOf fields = .ok expected) {cell : Cell}
    (hfits : Cell.Fits (.struct (formFields form expected)) cell) :
    (trim (.struct (formFields form expected)) (.members info form remaining)).2 cell =
      Cell.narrow (trim (.struct (formFields form expected)) (.members info form remaining)).1
        (.struct (formFields form expected)) cell := by
  cases cell with
  | struct present ps =>
    have hparts : Cell.FitsParts present (formFields form expected) ps := hfits
    have hcell : (trim (.struct (formFields form expected)) (.members info form remaining)).2
        (.struct present ps) = restruct (keptParts (fun f => trimMember form f remaining)
          (formFields form expected)) (.struct present ps) := by
      rw [trim_members]
      rfl
    have hnarrow : Cell.narrowParts ((formFields form expected).filterMap
        fun f => (trimMember form f remaining).map Prod.fst) (formFields form expected) ps =
          ((formFields form expected).zip ps).filterMap fun entry =>
            (trimMember form entry.1 remaining).map fun kept => kept.2 entry.2 :=
      Cell.narrowParts_filterMap (fun f kept => name_of_trimMember) (fun f g => isSome_trimMember)
        hparts.length_eq fun entry hentry kept hkept => (h.of_trimMember hnodup hexpected
          (List.of_mem_zip hentry).1 hkept).2.2.2 _ (hparts.of_mem_zip entry hentry)
    rw [hcell, restruct_keptParts _ hparts.length_eq, trim_formFields, Cell.narrow, ← hnarrow]
    rfl
  | _ => exact hfits.elim

/-- **Columns of structs and unions.** -/
theorem Projects.members {expected : List Field} (h : Kept AllProject remaining fields)
    (hnodup : (fields.map Prod.fst).Nodup) (hexpected : fieldsOf fields = .ok expected) :
    Projects (.members info form remaining) (.members info form fields)
      (.struct (formFields form expected)) false := by
  refine ⟨fun cells hfits => h.cutByCell hnodup hexpected hfits,
    fun cell hfits => h.narrow_eq hnodup hexpected hfits, ?_, ?_⟩
  · rw [trim_formFields]
    refine .struct (ColumnType.fieldsWithin_filterMap fun f hf f' hleft => ?_)
    obtain ⟨kept, hkept, rfl⟩ := Option.map_eq_some_iff.mp hleft
    obtain ⟨hname, hnullable, hwithin, -⟩ := h.of_trimMember hnodup hexpected hf hkept
    exact ⟨hname, hnullable, hwithin⟩
  · obtain ⟨expected', hexpected', hwithin, hiff⟩ :=
      Kept.exists_fieldsOf form h hnodup (fun _ _ => rfl) hexpected
    refine ⟨.struct (formFields form expected'), Outcome.map_eq_ok.mpr ⟨_, hexpected', rfl⟩, ?_, ?_⟩
    · rw [trim_formFields, formFields_eq, formFields_eq, List.filterMap_append, filterMap_formTail]
      exact .struct (hwithin.append_right _)
    · rw [trim_formFields, formFields_eq, formFields_eq, List.filterMap_append,
        filterMap_formTail, ColumnType.struct.injEq, List.append_left_inj, hiff]
      refine ⟨.members, fun hcut => ?_⟩
      cases hcut with
      | members hkept => exact hkept

/-! ### Other types -/

/-- Columns that stay as they are. -/
lemma Projects.of_whole {stored : ColumnType} (hproject : ∀ c, projectColumn c left = .ok c)
    (htrim : trim type left = (type, id)) (hstored : left.columnType = .ok (stored, nullable))
    (hwithin : stored.Within type) (hiff : type = stored ↔ CutOutsideArrays left t) :
    Projects left t type nullable := by
  refine ⟨fun cells _ => ?_, fun cell hfits => ?_, ?_, stored, hstored, ?_, ?_⟩
  · unfold CutByCell
    rw [hproject, htrim, List.map_id]
  · rw [htrim]
    exact (Cell.narrow_self type hfits).symm
  · rw [htrim]
    exact .refl type
  · rw [htrim]
    exact hwithin
  · rw [htrim]
    exact hiff

/-- Columns that are cut down like those of another type. -/
lemma Projects.of_same {hasNulls : Bool} (h : Projects part whole type nullable)
    (hproject : ∀ c, projectColumn c left = projectColumn c part)
    (htrim : trim type left = trim type part)
    (hstored : ∀ stored, part.columnType = .ok (stored, nullable) →
      left.columnType = .ok (stored, hasNulls))
    (hcut : CutOutsideArrays part whole ↔ CutOutsideArrays left t) :
    Projects left t type hasNulls := by
  obtain ⟨stored, hpart, hwithin, hiff⟩ := h.stored
  refine ⟨fun cells hfits => ?_, ?_, ?_, stored, hstored stored hpart, ?_, ?_⟩
  · have hcells := h.cut cells hfits
    unfold CutByCell at hcells ⊢
    rw [hproject, htrim]
    exact hcells
  · rw [htrim]
    exact h.cell
  · rw [htrim]
    exact h.within
  · rw [htrim]
    exact hwithin
  · rw [htrim]
    exact hiff.trans hcut

/-- A wrapped type is cut outside arrays where the type inside is, if it is not an array. -/
lemma cutOutsideArrays_wrapped {wrapper : Wrapper} (hwrapper : ∀ shape, wrapper ≠ .array shape) :
    CutOutsideArrays part whole ↔
      CutOutsideArrays (.wrapped info wrapper part) (.wrapped info wrapper whole) := by
  refine ⟨.wrapped hwrapper, fun hcut => ?_⟩
  cases hcut with
  | wrapped _ hinner => exact hinner
  | array _ => exact absurd rfl (hwrapper _)

/-- **Columns of leaves.** -/
theorem Projects.leaf {content content' : Leaf} (h : leafColumn content = leafColumn content') :
    AllProject (.leaf info content) (.leaf info content') := by
  intro type nullable hstored
  exact .of_whole (fun c => by rw [projectColumn]) (by rw [trim])
    ((congrArg Except.ok h).trans hstored) (.refl type) (iff_of_true rfl .leaf)

/-- **Columns with nulls.** -/
theorem Projects.optional (h : Projects part whole type nullable) :
    Projects (.wrapped info .optional part) (.wrapped info .optional whole) type true :=
  h.of_same (fun c => by rw [projectColumn]) (by rw [trim])
    (fun stored hpart => by rw [columnType, hpart]; rfl) (cutOutsideArrays_wrapped (by simp))

/-- **Columns of constrained values.** -/
theorem Projects.constrained {constraint : String} (h : Projects part whole type nullable) :
    Projects (.wrapped info (.constrained constraint) part)
      (.wrapped info (.constrained constraint) whole) type nullable :=
  h.of_same (fun c => by rw [projectColumn]) (by rw [trim])
    (fun stored hpart => by rw [columnType, hpart]; rfl) (cutOutsideArrays_wrapped (by simp))

/-- **Columns of lists.** -/
theorem Projects.list {maxSize : ℕ} (h : Projects part whole type nullable) :
    Projects (.wrapped info (.list maxSize) part) (.wrapped info (.list maxSize) whole)
      (.list .small ⟨itemName, type, nullable⟩) false := by
  have htrim : trim (.list .small ⟨itemName, type, nullable⟩) (.wrapped info (.list maxSize) part) =
      (.list .small ⟨itemName, (trim type part).1, nullable⟩, onItems (trim type part).2) := by
    rw [trim]
  obtain ⟨stored, hpart, hwithin, hiff⟩ := h.stored
  refine ⟨fun cells hfits => ?_, fun cell hfits => ?_, ?_,
    .list .small ⟨itemName, stored, nullable⟩, ?_, ?_, ?_⟩
  · unfold CutByCell
    have hitems := h.cut (listItems cells) (fits_listItems hfits)
    unfold CutByCell at hitems
    simp only [projectColumn, hitems, Outcome.ok_bind, relist_map_listItems, htrim]
  · rw [htrim]
    cases cell with
    | list items =>
      rw [Cell.narrow]
      exact congrArg Cell.list
        (List.map_congr_left fun item hitem => h.cell item (hfits.of_list item hitem))
    | null => rw [Cell.narrow] <;> simp [onItems]
    | _ => exact hfits.elim
  · rw [htrim]
    exact .list h.within
  · rw [columnType, hpart]
    rfl
  · rw [htrim]
    exact .list hwithin
  · rw [htrim]
    simp only [ColumnType.list.injEq, FieldOf.mk.injEq, true_and, and_true, hiff]
    exact cutOutsideArrays_wrapped (by simp)

/-- **Columns of arrays.** Nothing looks into them. -/
theorem Projects.array {shape : List ℕ} {length : ℕ} (h : Projects part whole type nullable)
    (hwhole : whole.columnType = .ok (type, nullable)) (hlength : blockLength shape = .ok length) :
    Projects (.wrapped info (.array shape) part) (.wrapped info (.array shape) whole)
      (.list (.fixed length) ⟨itemName, type, nullable⟩) false := by
  obtain ⟨stored, hpart, hwithin, -⟩ := h.stored
  have hstored : columnType (.wrapped info (.array shape) part) =
      .ok (.list (.fixed length) ⟨itemName, stored, nullable⟩, false) := by
    rw [columnType, hpart, Outcome.ok_bind, wrapperColumn, hlength]
    rfl
  have hsame : part.columnType = whole.columnType ↔ type = stored := by
    rw [hpart, hwhole]
    simp [eq_comm]
  refine .of_whole (fun c => by rw [projectColumn]) (by rw [trim]) hstored
    (.list (hwithin.trans _ h.within)) ?_
  simp only [ColumnType.list.injEq, FieldOf.mk.injEq, true_and, and_true, ← hsame]
  refine ⟨.array, fun hcut => ?_⟩
  cases hcut with
  | wrapped hother _ => exact absurd rfl (hother shape)
  | array hequal => exact hequal

/-- **Columns of hypotheses.** -/
theorem Projects.hypothesis {candidates types : List (Ty × Float)}
    (h : Scored AllProject candidates types) :
    AllProject (.hypothesis info candidates) (.hypothesis info types) := by
  intro type nullable hstored
  rw [columnType_hypothesis] at hstored
  rcases h.bestOf? with ⟨hnone, hnone'⟩ | ⟨part, whole, hpart, hwhole, hbest⟩
  · rw [hnone'] at hstored
    cases hstored
    have htrim : trim .null (.hypothesis info candidates) = (.null, id) := by
      rcases trim_hypothesis .null info candidates with ⟨-, heq⟩ | ⟨_, -, hsome, -⟩
      · exact heq
      · cases hnone.symm.trans hsome
    refine .of_whole (fun c => ?_) htrim ?_ (.refl _) (iff_of_true rfl (.hypothesis ?_))
    · rw [projectColumn_hypothesis, hnone]
      rfl
    · rw [columnType_hypothesis, hnone]
      rfl
    · intro part whole hpart
      cases hnone.symm.trans hpart
  · rw [hwhole] at hstored
    have htrim : trim type (.hypothesis info candidates) = trim type part := by
      rcases trim_hypothesis type info candidates with ⟨hnone, -⟩ | ⟨best, -, hsome, heq⟩
      · cases hnone.symm.trans hpart
      · cases hpart.symm.trans hsome
        exact heq
    refine (hbest hstored).of_same (fun c => ?_) htrim (fun stored hleft => ?_)
      ⟨fun hcut => .hypothesis fun part' whole' hpart' hwhole' => ?_, fun hcut => ?_⟩
    · rw [projectColumn_hypothesis, hpart]
      rfl
    · rw [columnType_hypothesis, hpart]
      exact hleft
    · cases hpart.symm.trans hpart'
      cases hwhole.symm.trans hwhole'
      exact hcut
    · cases hcut with
      | hypothesis hall => exact hall part whole hpart hwhole

/-! ### Columns of a type -/

mutual

/-- **Columns of a type that are cut down to a type cut out of it.**

**Proof sketch.** Induction on the type that is cut. The steps along it are `Projects.leaf`,
`Projects.members` and so on, one for each kind of type; they also say how far the type that
is left and the column that is left agree. -/
theorem Cut.projects : ∀ {left : Ty} (t : Ty), Cut left t → t.DistinctNames → AllProject left t
  | _, .leaf _ _, hcut, _ => by
    cases hcut with
    | leaf h => exact Projects.leaf h
  | _, .members _ _ fields, hcut, hnames => by
    intro type nullable hstored
    obtain ⟨hnodup, hbelow⟩ := hnames.of_members
    obtain ⟨expected, hexpected, heq⟩ := Outcome.map_eq_ok.mp hstored
    cases heq
    cases hcut with
    | members h => exact Projects.members (Kept.allProject fields h hbelow) hnodup hexpected
  | _, .wrapped _ wrapper inner, hcut, hnames => by
    intro type nullable hstored
    obtain ⟨⟨stored, hasNulls⟩, hinner, hwrapped⟩ := Outcome.bind_eq_ok.mp hstored
    cases hcut with
    | wrapped h =>
      have hprojects := Cut.projects inner h hnames.of_wrapped hinner
      cases wrapper with
      | optional =>
        cases hwrapped
        exact hprojects.optional
      | constrained constraint =>
        cases hwrapped
        exact hprojects.constrained
      | list maxSize =>
        cases hwrapped
        exact hprojects.list
      | array shape =>
        obtain ⟨length, hlength, heq⟩ := Outcome.map_eq_ok.mp hwrapped
        cases heq
        exact hprojects.array hinner hlength
  | _, .hypothesis _ types, hcut, hnames => by
    cases hcut with
    | hypothesis h =>
      cases hnames with
      | hypothesis candidates => exact Projects.hypothesis (Scored.allProject types h candidates)

/-- Members that are left of others. -/
theorem Kept.allProject : ∀ {remaining : List (String × Ty)} (fields : List (String × Ty)),
    Kept Cut remaining fields → (∀ member ∈ fields, DistinctNames member.2) →
      Kept AllProject remaining fields
  | _, [], h, _ => by
    cases h
    exact .nil
  | _, (_, t) :: rest, h, hnames => by
    obtain ⟨hfirst, hrest⟩ := List.forall_mem_cons.mp hnames
    cases h with
    | drop h => exact .drop (Kept.allProject rest h hrest)
    | keep first h => exact .keep (Cut.projects t first hfirst) (Kept.allProject rest h hrest)

/-- Candidates cut out of others. -/
theorem Scored.allProject : ∀ {candidates : List (Ty × Float)} (types : List (Ty × Float)),
    Scored Cut candidates types → (∀ candidate ∈ types, DistinctNames candidate.1) →
      Scored AllProject candidates types
  | _, [], h, _ => by
    cases h
    exact .nil
  | _, (t, _) :: rest, h, hnames => by
    obtain ⟨hfirst, hrest⟩ := List.forall_mem_cons.mp hnames
    cases h with
    | cons first h => exact .cons (Cut.projects t first hfirst) (Scored.allProject rest h hrest)

end

/-- Parcels: what is in them, and whether they were sent or lost. -/
def parcel : Ty := .struct
  [("items", .list (.struct [("name", .text), ("weight", .text)]) 10),
    ("state", .optional (.union
      [("sent", .struct [("day", .text), ("by", .text)]), ("lost", .text)])),
    ("note", .text)]

/-- Parcels of which the names of the items and the days are left. -/
def parcelNames : Ty := .struct
  [("items", .list (.struct [("name", .text)]) 10),
    ("state", .optional (.union [("sent", .struct [("day", .text)])]))]

/-- The path to the names of the items and the days. -/
def itemNames : Path := .node "" [
  .node "state" [.node optionalValue [.node "sent" [.node "day" []]]],
  .node "items" [.node listValues [.node "name" []]]]

/-- A parcel with two items that was sent, and one without items of which nothing is known. -/
def parcels : Column where
  type := .struct [
    ⟨"items", .list .small ⟨itemName, .struct [⟨"name", .utf8, false⟩, ⟨"weight", .utf8, false⟩],
      false⟩, false⟩,
    ⟨"state", .struct [⟨"sent", .struct [⟨"day", .utf8, false⟩, ⟨"by", .utf8, false⟩], true⟩,
      ⟨"lost", .utf8, true⟩, selectorField], true⟩,
    ⟨"note", .utf8, false⟩]
  cells := [
    .struct true [
      .list [.struct true [.text "cup", .text "1"], .struct true [.text "pan", .text "2"]],
      .struct true [.struct true [.text "May 2", .text "rail"], .null, .text "sent"],
      .text "fragile"],
    .struct true [.list [],
      .struct false [.struct false [.null, .null], .null, .null], .text ""]]

/-- What is left of these parcels. -/
def parcelsNames : Column where
  type := .struct [
    ⟨"items", .list .small ⟨itemName, .struct [⟨"name", .utf8, false⟩], false⟩, false⟩,
    ⟨"state", .struct [⟨"sent", .struct [⟨"day", .utf8, false⟩], true⟩, selectorField], true⟩]
  cells := [
    .struct true [.list [.struct true [.text "cup"], .struct true [.text "pan"]],
      .struct true [.struct true [.text "May 2"], .text "sent"]],
    .struct true [.list [], .struct false [.struct false [.null], .null]]]

/-- Pairs of texts, one in each array. -/
def boxedPair : Ty := .array (.struct [("left", .text), ("right", .text)]) [1]

/-- The left ones of these texts. -/
def boxedLeft : Ty := .array (.struct [("left", .text)]) [1]

/-- A pair. -/
def boxedPairs : Column where
  type := .list (.fixed 1)
    ⟨itemName, .struct [⟨"left", .utf8, false⟩, ⟨"right", .utf8, false⟩], false⟩
  cells := [.list [.struct true [.text "a", .text "b"]]]

end Lineage.Ty
