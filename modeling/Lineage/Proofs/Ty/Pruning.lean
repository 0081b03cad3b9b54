import Lineage.Proofs.Ty.Select
import Lineage.Proofs.Ty.Stored
import Lineage.Proofs.Ty.Trim

set_option autoImplicit false

/-!
# Items of pruned columns

A type is pruned by a path: what the path does not lead through goes, and with it goes its column.
The labels of a branch of the path then lead to what they led to before, to the same type and the
same column.

## Main definitions

* `Lineage.Ty.DistinctNames`: members have different names.
* `Lineage.Ty.ColumnOf`: a column that a type says its values are stored in.

## Main results

* `Lineage.Ty.keeps_trim`: a column that is cut down to its own type stays as it is.
* `Lineage.Ty.descend_trimColumn`: labels along which everything is kept.
* `Lineage.Ty.descend_projectColumn`: the labels of a branch of the path.

## Design

The induction along the labels is about `trimColumn`, which says what is left of a column whether or
not it can be cut down. So nothing has to be known about the columns below a label.
-/

namespace Lineage.Ty

variable {label : String} {labels : List String} {t left : Ty} {c : Column} {form : Form}
  {fields : List (String × Ty)}

/-! ### Types with distinct names -/

/-- In every struct and union of a type, the members have different names. -/
inductive DistinctNames : Ty → Prop
  /-- A leaf has no members. -/
  | leaf {info : Info} {content : Leaf} : DistinctNames (.leaf info content)
  /-- The members have different names, and so have their members. -/
  | members {info : Info} {form : Form} {fields : List (String × Ty)}
      (nodup : (fields.map Prod.fst).Nodup) (below : ∀ member ∈ fields, DistinctNames member.2) :
      DistinctNames (.members info form fields)
  /-- The type inside. -/
  | wrapped {info : Info} {wrapper : Wrapper} {inner : Ty} (inside : DistinctNames inner) :
      DistinctNames (.wrapped info wrapper inner)
  /-- Every candidate. -/
  | hypothesis {info : Info} {types : List (Ty × Float)}
      (candidates : ∀ candidate ∈ types, DistinctNames candidate.1) :
      DistinctNames (.hypothesis info types)

/-- The members of a struct or union with distinct names. -/
lemma DistinctNames.of_members {info : Info} (h : DistinctNames (.members info form fields)) :
    (fields.map Prod.fst).Nodup ∧ ∀ member ∈ fields, DistinctNames member.2 := by
  cases h with
  | members nodup below => exact ⟨nodup, below⟩

/-- The type inside a wrapped type with distinct names. -/
lemma DistinctNames.of_wrapped {info : Info} {wrapper : Wrapper} {inner : Ty}
    (h : DistinctNames (.wrapped info wrapper inner)) : DistinctNames inner := by
  cases h with
  | wrapped inside => exact inside

/-- Of members with different names, each is the one that is found under its name. -/
lemma lookup?_of_mem (hnodup : (fields.map Prod.fst).Nodup) (h : (label, t) ∈ fields) :
    lookup? label fields = some t := by
  induction fields with
  | nil => cases h
  | cons field fields ih =>
    obtain ⟨hfirst, hnodup⟩ := List.nodup_cons.mp hnodup
    rcases List.mem_cons.mp h with rfl | h
    · exact lookup?_cons_self label t fields
    · have hne : field.1 ≠ label := fun heq => hfirst (heq ▸ List.mem_map_of_mem h)
      exact (lookup?_cons_of_ne hne field.2 fields).trans (ih hnodup h)

/-! ### Columns cut down to their own type -/

/-- Everything is left of the columns of a type. -/
structure Keeps (stored : ColumnType) (left : ColumnType × (Cell → Cell)) : Prop where
  /-- They keep their type. -/
  type : left.1 = stored
  /-- They keep their cells. -/
  cell : ∀ cell, Cell.Fits stored cell → left.2 cell = cell

/-- Everything is left of columns that do not change. -/
lemma keeps_self (type : ColumnType) : Keeps type (type, id) := ⟨rfl, fun _ _ => rfl⟩

/-- Everything is left of structs of all of whose parts everything is left. -/
lemma keeps_restruct {fs : List Field} {kept : Field → Option (Field × (Cell → Cell))}
    (h : ∀ f ∈ fs, ∃ left, kept f = some left ∧ left.1 = f ∧ Keeps f.type (left.1.type, left.2)) :
    Keeps (.struct fs)
      (.struct ((keptParts kept fs).map Prod.fst), restruct (keptParts kept fs)) := by
  constructor
  · have hfields : ∀ entry ∈ fs.zipIdx,
        ((kept entry.1).map fun part => (part.1, part.2 ∘ Cell.part entry.2)).map Prod.fst =
          some entry.1 := by
      intro entry hentry
      obtain ⟨left, hleft, hf, -⟩ := h entry.1 (List.fst_mem_of_mem_zipIdx hentry)
      rw [hleft]
      exact congrArg some hf
    rw [keptParts, List.map_filterMap, List.filterMap_congr hfields, List.filterMap_eq_map',
      List.zipIdx_map_fst]
  · intro cell hfits
    have hparts : ∀ entry ∈ fs.zipIdx,
        ((kept entry.1).map fun part => (part.1, part.2 ∘ Cell.part entry.2)).map
          (fun part => part.2 cell) = some (cell.part entry.2) := by
      intro entry hentry
      obtain ⟨left, hleft, -, hkeeps⟩ := h entry.1 (List.fst_mem_of_mem_zipIdx hentry)
      have hpart := hfits.of_struct (List.mk_mem_zipIdx_iff_getElem?.mp hentry)
      rw [hleft]
      exact congrArg some (hkeeps.cell _ hpart.1)
    cases cell with
    | struct present ps =>
      have hlength : ps.length = fs.length := Cell.FitsParts.length_eq hfits
      show restruct (keptParts kept fs) (.struct present ps) = .struct present ps
      rw [restruct, keptParts, List.map_filterMap, List.filterMap_congr hparts,
        List.filterMap_eq_map', Cell.isNull, Bool.not_not]
      refine congrArg (Cell.struct present) (List.ext_getElem (by simp [hlength]) ?_)
      intro i hi hi'
      simp [Cell.part, hi']
    | _ => exact hfits.elim

/-- Everything is left of a part of structs, if this holds for the member that it stores. -/
lemma keeps_trimMember (hnodup : (fields.map Prod.fst).Nodup) {f : Field}
    (hf : (form = .union ∧ f.name = fieldSelected) ∨
      ∃ t, (f.name, t) ∈ fields ∧ Keeps f.type (trim f.type t)) :
    ∃ left, trimMember form f fields = some left ∧ left.1 = f ∧
      Keeps f.type (left.1.type, left.2) := by
  rw [trimMember_eq]
  by_cases hselector : (form == .union && f.name == fieldSelected) = true
  · rw [if_pos hselector]
    exact ⟨_, rfl, rfl, keeps_self f.type⟩
  · rw [if_neg hselector]
    rcases hf with ⟨rfl, hname⟩ | ⟨t, hmem, hkeeps⟩
    · exact absurd (by simp [hname]) hselector
    · rw [lookup?_of_mem hnodup hmem]
      refine ⟨_, rfl, ?_, hkeeps⟩
      dsimp only
      rw [hkeeps.type]

/-- Everything is left of lists of whose items everything is left. -/
lemma keeps_onItems {layout : ListLayout} {item : Field} {left : ColumnType × (Cell → Cell)}
    (h : Keeps item.type left) : Keeps (.list layout item)
      (.list layout ⟨item.name, left.1, item.nullable⟩, onItems left.2) := by
  constructor
  · rw [h.type]
  · intro cell hfits
    cases cell with
    | list items =>
      have hitems : items.map left.2 = items.map id :=
        List.map_congr_left fun cell hcell => h.cell cell (hfits.of_list cell hcell)
      exact congrArg Cell.list (hitems.trans (List.map_id items))
    | _ => rfl

/-- **A column that is cut down to its own type** stays as it is.

**Proof sketch.** Induction on the type. Since members have different names, the member of a
column's name is the one that the column stores, so that by induction everything is left of
the column. -/
theorem keeps_trim (t : Ty) : t.DistinctNames → ∀ {type : ColumnType}, StoredAs t type →
    Keeps type (trim type t) := by
  induction t using Ty.induction with
  | leaf info content =>
    intro _ type _
    rw [trim]
    exact keeps_self type
  | members info form fields ih =>
    intro hnames type hstored
    obtain ⟨hnodup, hbelow⟩ := hnames.of_members
    obtain ⟨fs, rfl, hmembers⟩ := hstored.of_members
    rw [trim_members]
    refine keeps_restruct fun f hf => keeps_trimMember hnodup ?_
    -- A column of a union may also be the one that names the branch, which is kept as it is.
    rcases hmembers.stores f hf with ⟨hunion, hname, -⟩ | ⟨t, hmem, hpart⟩
    · exact Or.inl ⟨hunion, hname⟩
    · exact Or.inr ⟨t, hmem, ih _ hmem (hbelow _ hmem) hpart⟩
  | wrapped info wrapper inner ih =>
    intro hnames type hstored
    cases wrapper with
    | optional =>
      rw [trim]
      exact ih hnames.of_wrapped hstored.optional
    | constrained constraint =>
      rw [trim]
      exact ih hnames.of_wrapped hstored.constrained
    | array shape =>
      rw [trim]
      exact keeps_self type
    | list maxSize =>
      obtain ⟨item, rfl, hitem⟩ := hstored.list
      rw [trim]
      exact keeps_onItems (ih hnames.of_wrapped hitem)
  | hypothesis info types ih =>
    intro hnames type hstored
    rcases trim_hypothesis type info types with ⟨-, heq⟩ | ⟨best, hmem, hbest, heq⟩
    · rw [heq]
      exact keeps_self type
    · rw [heq]
      cases hnames with
      | hypothesis candidates =>
        exact ih best hmem (candidates best hmem) (hstored.hypothesis hbest)

/-! ### Columns of a type -/

/-- A column is stored in the way that a type says, and its cells fit. -/
structure ColumnOf (t : Ty) (c : Column) : Prop where
  /-- The type of the column is that of the type. -/
  stored : ∃ nullable, t.columnType = .ok (c.type, nullable)
  /-- The column can hold its cells. -/
  fits : ∀ cell ∈ c.cells, Cell.Fits c.type cell

/-- The first field with the name of a member stores this member. -/
lemma exists_field_of_fieldsOf {expected tail : List Field} (h : fieldsOf fields = .ok expected)
    (found : lookup? label fields = some t) :
    ∃ i f, Column.fieldIndex? label (expected.map (formField form) ++ tail) = some i ∧
      (expected.map (formField form) ++ tail)[i]? = some f ∧
      ∃ nullable, t.columnType = .ok (f.type, nullable) := by
  induction fields generalizing expected with
  | nil => cases found
  | cons field fields ih =>
    obtain ⟨name, whole⟩ := field
    obtain ⟨⟨stored, nullable⟩, others, hstored, hothers, rfl⟩ := fieldsOf_cons_eq_ok.mp h
    by_cases hlabel : name = label
    · subst hlabel
      cases (lookup?_cons_self name whole fields).symm.trans found
      refine ⟨0, formField form ⟨name, stored, nullable⟩, ?_, rfl, nullable, hstored⟩
      simp [Column.fieldIndex?, List.findIdx?_cons, formField]
    · rw [lookup?_cons_of_ne hlabel] at found
      obtain ⟨i, f, hi, hf, hpart⟩ := ih hothers found
      refine ⟨i + 1, f, ?_, hf, hpart⟩
      rw [Column.fieldIndex?] at hi
      simp [Column.fieldIndex?, List.findIdx?_cons, formField, hlabel, hi]

/-- **A column of structs has a column for every member**, with the nulls of the structs. -/
theorem ColumnOf.member {info : Info} {type : ColumnType} {cells : List Cell}
    (h : ColumnOf (.members info form fields) ⟨type, cells⟩)
    (found : lookup? label fields = some t) : ∃ i f,
      Column.fieldIndex? label type.fields = some i ∧ type.fields[i]? = some f ∧
      ColumnOf t ⟨f.type, cells.map (partUnder i)⟩ := by
  obtain ⟨⟨nullable, hstored⟩, hfits⟩ := h
  obtain ⟨expected, hexpected, heq⟩ := Outcome.map_eq_ok.mp hstored
  cases heq
  rw [formFields_eq] at hfits ⊢
  obtain ⟨i, f, hindex, hf, hpart⟩ := exists_field_of_fieldsOf hexpected found
  refine ⟨i, f, hindex, hf, hpart, List.forall_mem_map.mpr fun cell hcell => ?_⟩
  have hunder := ((hfits cell hcell).of_struct hf).1
  unfold partUnder
  split
  · exact hunder.absent
  · exact hunder

/-- The column inside a type that is optional or subject to a condition. -/
lemma ColumnOf.inner {info : Info} {wrapper : Wrapper} {inner : Ty}
    (h : ColumnOf (.wrapped info wrapper inner) c)
    (hwrapper : ∀ stored, ∃ hasNulls, wrapperColumn stored wrapper = .ok (stored.1, hasNulls)) :
    ColumnOf inner c := by
  obtain ⟨⟨nullable, hstored⟩, hfits⟩ := h
  obtain ⟨stored, hinner, hwrapped⟩ := Outcome.bind_eq_ok.mp hstored
  obtain ⟨hasNulls, heq⟩ := hwrapper stored
  have htype : stored.1 = c.type := (Prod.mk.inj (Except.ok.inj (heq.symm.trans hwrapped))).1
  exact ⟨⟨stored.2, htype ▸ hinner⟩, hfits⟩

/-- A column that is cut down to its own type stays as it is. -/
lemma ColumnOf.trimColumn_eq (h : ColumnOf t c) (hnames : t.DistinctNames) :
    trimColumn c t = c := by
  obtain ⟨⟨nullable, hstored⟩, hfits⟩ := h
  have hkeeps := keeps_trim t hnames (storedAs_of_columnType hstored)
  have hcells : c.cells.map (trim c.type t).2 = c.cells.map id :=
    List.map_congr_left fun cell hcell => hkeeps.cell cell (hfits cell hcell)
  rw [trimColumn, hkeeps.type, hcells, List.map_id]

/-! ### Parts of columns that are cut down -/

/-- The first part with a name of structs that are put together. -/
lemma place?_restruct {parts : Parts} {part : Field × (Cell → Cell)}
    (h : parts.find? (fun part => part.1.name == label) = some part) :
    ∃ j, place? label (.struct (parts.map Prod.fst)) = some (j, part.1.type) ∧
      ∀ cell, (restruct parts cell).part j = part.2 cell := by
  obtain ⟨hname, j, hj, rfl, hbefore⟩ := List.find?_eq_some_iff_getElem.mp h
  have hindex : Column.fieldIndex? label (parts.map Prod.fst) = some j := by
    rw [Column.fieldIndex?, List.findIdx?_map]
    exact List.findIdx?_eq_some_iff_getElem.mpr ⟨hj, hname, by simpa using hbefore⟩
  refine ⟨j, ?_, fun cell => ?_⟩
  · simp [place?, ColumnType.fields, hindex, hj]
  · simp [restruct, Cell.part, hj]

/-- What is left of a part keeps the name of the part. -/
lemma name_of_trimMember {f : Field} {left : Field × (Cell → Cell)}
    (h : trimMember form f fields = some left) : left.1.name = f.name := by
  rw [trimMember_eq] at h
  split at h
  · cases h
    rfl
  · obtain ⟨t, -, rfl⟩ := Option.map_eq_some_iff.mp h
    rfl

/-- **The part under a label of structs that are cut down** is what is left of the part that the
structs have there.

**Proof sketch.** The first field of the name is the first of the fields that are left with
the name, as names stay and the fields before have other ones. -/
theorem place?_trim {type : ColumnType} {i : ℕ} {f : Field} (info : Info)
    (hindex : Column.fieldIndex? label type.fields = some i) (hf : type.fields[i]? = some f)
    {part : Field × (Cell → Cell)} (hpart : trimMember form f fields = some part) :
    ∃ j, place? label (trim type (.members info form fields)).1 = some (j, part.1.type) ∧
      ∀ cell, ((trim type (.members info form fields)).2 cell).part j =
        part.2 (cell.part i) := by
  obtain ⟨hlt, hname, hbefore⟩ := List.findIdx?_eq_some_iff_getElem.mp hindex
  cases (List.getElem?_eq_getElem hlt).symm.trans hf
  rw [trim_members]
  -- The fields before have other names, and so has what is left of them.
  have hfind : type.fields.zipIdx.find? (fun entry =>
      ((trimMember form entry.1 fields).map fun part => (part.1, part.2 ∘ Cell.part entry.2)).any
        fun part => part.1.name == label) = some (type.fields[i], i) := by
    refine List.find?_eq_some_iff_getElem.mpr ⟨?_, i, by simpa using hlt, by simp, ?_⟩
    · simpa [hpart, name_of_trimMember hpart] using hname
    · intro j hj
      have hj' : j < type.fields.length := Nat.lt_trans hj hlt
      have hother := hbefore j hj
      simp only [List.getElem_zipIdx]
      cases hleft : trimMember form type.fields[j] fields with
      | none => simp
      | some left => simpa [hleft, name_of_trimMember hleft] using hother
  have hparts : (keptParts (fun f => trimMember form f fields) type.fields).find?
      (fun part => part.1.name == label) = some (part.1, part.2 ∘ Cell.part i) := by
    rw [keptParts, List.find?_filterMap, hfind, Option.bind_some, hpart, Option.map_some]
  exact place?_restruct hparts

/-- The column of a member that is left is cut down to what is left of the member, but for the names
of branches, which stay as they are. -/
lemma trimMember_of_lookup? (form : Form) {part : Ty} {f : Field} (hname : f.name = label)
    (kept : lookup? label fields = some part) : ∃ s : Ty, trimMember form f fields =
        some (⟨f.name, (trim f.type s).1, f.nullable⟩, (trim f.type s).2) ∧
      (trim f.type s = (f.type, id) ∨ s = part) := by
  rw [trimMember_eq, hname, kept]
  split
  · -- A leaf leaves everything, just as the names of branches stay.
    have hleaf : trim f.type (ofLeaf .null) = (f.type, id) := by
      rw [ofLeaf, trim]
    refine ⟨ofLeaf .null, ?_, Or.inl hleaf⟩
    rw [hleaf, ← hname]
  · exact ⟨part, rfl, Or.inr rfl⟩

/-- Parts under nulls are cut down like parts. -/
lemma partUnder_trim {type part : ColumnType} {s : Ty} {i j : ℕ} {cell : Cell}
    (hpart : ((trim type t).2 cell).part j = (trim part s).2 (cell.part i)) :
    partUnder j ((trim type t).2 cell) = (trim part s).2 (partUnder i cell) := by
  rw [partUnder, partUnder, isNull_trim, hpart]
  split
  · rw [trim_absent]
  · rfl

/-! ### Labels -/

/-- A column of nulls is cut down to one where everything is kept along labels. -/
lemma KeptAlong.trim_null (h : KeptAlong labels t left) : t.DistinctNames →
    ∀ {nullable : Bool}, t.columnType = .ok (.null, nullable) → (trim .null left).1 = .null := by
  induction h with
  | @here t =>
    exact fun hnames _ hstored => (keeps_trim t hnames (storedAs_of_columnType hstored)).type
  | member found kept below ih =>
    intro _ nullable hstored
    obtain ⟨expected, -, heq⟩ := Outcome.map_eq_ok.mp hstored
    cases heq
  | @wrapped label rest info wrapper inner part inside ih =>
    intro hnames nullable hstored
    obtain ⟨⟨stored, hasNulls⟩, hinner, hwrapped⟩ := Outcome.bind_eq_ok.mp hstored
    cases wrapper with
    | optional | constrained constraint =>
      cases hwrapped
      rw [trim]
      exact ih hnames.of_wrapped hinner
    | list maxSize => cases hwrapped
    | array shape =>
      obtain ⟨length, -, heq⟩ := Outcome.map_eq_ok.mp hwrapped
      cases heq

/-- Following labels from the place of the first of them. -/
lemma descendMember_of_place? (found : lookup? label fields = some t) {type part : ColumnType}
    {i : ℕ} (hplace : place? label type = some (i, part)) (cells : List Cell)
    (rest : List String) :
    descendMember ⟨type, cells⟩ label rest fields =
      if cells.any fun cell => cell.isNull && decide (part = .null) then .error .columns
      else descend ⟨part, cells.map (partUnder i)⟩ rest t := by
  obtain ⟨-, f, hf, -, -⟩ := place?_eq_some hplace
  have hstruct : type.isStruct = true := by
    cases type with
    | struct fs => rfl
    | scalar s | list layout item => cases hf
  rw [descendMember_of_lookup? found, if_pos hstruct, childColumn_of_place? hplace,
    Outcome.ok_bind, childUnder_eq]
  split <;> rfl

/-- A label under which a member is kept leads on to the same, if the labels behind it do in what is
left of the member. -/
lemma descend_trimColumn_member {info : Info} {rest : List String} {part : Ty}
    {remaining : List (String × Ty)} (found : lookup? label fields = some t)
    (kept : lookup? label remaining = some part)
    (hnull : ∀ {nullable : Bool}, t.columnType = .ok (.null, nullable) →
      (trim .null part).1 = .null)
    (hrest : ∀ {c : Column}, ColumnOf t c →
      descend (trimColumn c part) rest t = descend c rest t)
    (hc : ColumnOf (.members info form fields) c) :
    descend (trimColumn c (.members info form remaining)) (label :: rest)
        (.members info form fields) =
      descend c (label :: rest) (.members info form fields) := by
  obtain ⟨type, cells⟩ := c
  obtain ⟨i, f, hindex, hf, hunder⟩ := hc.member found
  have hplace : place? label type = some (i, f.type) := by
    rw [place?, hindex, Option.bind_some, hf, Option.map_some]
  obtain ⟨-, g, hg, hname, -⟩ := place?_eq_some hplace
  cases hf.symm.trans hg
  -- The column under the label is cut down to `s`: to what is left of the member, or not at all.
  obtain ⟨s, hs, hkept⟩ := trimMember_of_lookup? form hname kept
  obtain ⟨j, hplace', hparts⟩ := place?_trim info hindex hf hs
  have hcells : (cells.map (trim type (.members info form remaining)).2).map (partUnder j) =
      (cells.map (partUnder i)).map (trim f.type s).2 := by
    rw [List.map_map, List.map_map]
    exact List.map_congr_left fun cell _ => partUnder_trim (hparts cell)
  have hnulls : (trim f.type s).1 = .null ↔ f.type = .null := by
    refine ⟨eq_null_of_trim s, fun heq => ?_⟩
    rcases hkept with hwhole | rfl
    · rw [hwhole, heq]
    · obtain ⟨nullable, hstored⟩ := hunder.stored
      rw [heq] at hstored ⊢
      exact hnull hstored
  have hbelow : descend (trimColumn ⟨f.type, cells.map (partUnder i)⟩ s) rest t =
      descend ⟨f.type, cells.map (partUnder i)⟩ rest t := by
    rcases hkept with hwhole | rfl
    · rw [trimColumn_of_eq hwhole]
    · exact hrest hunder
  rw [descend, descend, trimColumn, descendMember_of_place? found hplace',
    descendMember_of_place? found hplace, hcells, ← hbelow, trimColumn]
  simp only [List.any_map, Function.comp_def, isNull_trim, hnulls]

/-- **Labels along which everything is kept** lead, in a column that is cut down, to what they lead
to in the whole column.

**Proof sketch.** Induction on how everything is kept along the labels. At their end the column is
cut down to its own type and stays as it is. Under a label the part of the cut column is what is
left of the part of the whole one; where it is a column of nulls, both ways are refused alike. -/
theorem descend_trimColumn (h : KeptAlong labels t left) : t.DistinctNames → ∀ {c : Column},
    ColumnOf t c → descend (trimColumn c left) labels t = descend c labels t := by
  induction h with
  | @here t =>
    intro hnames c hc
    rw [hc.trimColumn_eq hnames]
  | member found kept below ih =>
    intro hnames c hc
    have hpart := hnames.of_members.2 _ (mem_of_lookup? found)
    exact descend_trimColumn_member found kept (below.trim_null hpart) (ih hpart) hc
  | @wrapped label rest info wrapper inner part inside ih =>
    intro hnames c hc
    cases wrapper with
    | optional =>
      rw [descend, descend, trimColumn, trim]
      exact ih hnames.of_wrapped (hc.inner fun stored => ⟨_, rfl⟩)
    | constrained constraint =>
      rw [descend, descend, trimColumn, trim]
      exact ih hnames.of_wrapped (hc.inner fun stored => ⟨_, rfl⟩)
    | list maxSize | array shape =>
      rw [descend, descend]
      all_goals simp

/-- Readers with a note, and perhaps a name of two parts. -/
def reader : Ty :=
  .struct [("name", .optional (.struct [("first", .text), ("last", .text)])), ("note", .text)]

/-- Readers of whom only the last name is left. -/
def readerLast : Ty := .struct [("name", .optional (.struct [("last", .text)]))]

/-- The path to the last names. -/
def lastNames : Path := .ofLabels ["name", optionalValue, "last"]

/-- A reader with a name and one without. -/
def readers : Column where
  type := .struct [⟨"name", .struct [⟨"first", .utf8, false⟩, ⟨"last", .utf8, false⟩], true⟩,
    ⟨"note", .utf8, false⟩]
  cells := [.struct true [.struct true [.text "Ada", .text "Lovelace"], .text "poems"],
    .struct true [.struct false [.null, .null], .text "maps"]]

/-- The last names of these readers. -/
def readersLast : Column where
  type := .struct [⟨"name", .struct [⟨"last", .utf8, false⟩], true⟩]
  cells := [.struct true [.struct true [.text "Lovelace"]], .struct true [.struct false [.null]]]

end Lineage.Ty
