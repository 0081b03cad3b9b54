import Lineage.Proofs.Ty.Descend

set_option autoImplicit false

/-!
# Items of items

The item under some labels is a batch again, so the item under other labels of it can be asked for.
If the first item is a struct that is reached through no optional type and no union, its parts are
the columns of that batch, and the second item is what the first labels and then the others lead to
at once. Otherwise the batch has one column for the first item, which the other labels take for a
part of it.

## Main definitions

* `Lineage.Ty.itemForm`: an item as a batch.
* `Lineage.Batch.SameValues`: two batches hold the same cells, stored in the same way.
* `Lineage.Ty.memberLabel?`: the first label that is the name of a member.

## Main results

* `Lineage.Ty.itemBatch_ofLabels_eq_ok`: the batch of an item.
* `Lineage.Ty.itemNullable_append`: whether an item of an item may be null.
* `Lineage.Ty.itemBatch_append`: the item of an item and the item that is asked for at once.
-/

namespace Lineage

/-- The steps of the path of some labels. -/
lemma Path.labels_ofLabels (labels : List String) : (Path.ofLabels labels).labels = .ok labels := by
  have hchain : Path.stepsBelow? (Path.chain labels) = some labels := by
    induction labels with
    | nil => rw [Path.chain, Path.stepsBelow?]
    | cons label labels ih => rw [Path.chain, Path.stepsBelow?, ih, Option.map_some]
  rw [Path.labels, Path.ofLabels, Path.steps?, hchain]
  rfl

/-- Paths of different labels are different. -/
lemma Path.ofLabels_injective : Function.Injective Path.ofLabels := fun labels labels' h => by
  have hlabels := congrArg Path.labels h
  rw [Path.labels_ofLabels, Path.labels_ofLabels] at hlabels
  exact Except.ok.inj hlabels

/-- Two batches hold the same cells in columns that are stored in the same way. -/
structure Batch.SameValues (a b : Batch) : Prop where
  /-- The columns are stored in the same way. -/
  types : a.fields.map FieldOf.type = b.fields.map FieldOf.type
  /-- The cells are the same. -/
  rows : a.rows = b.rows

/-- All rows of a batch have a cell for every column, and these have all their parts. -/
def Batch.Whole (b : Batch) : Prop := ∀ row ∈ b.rows, Cell.WholeParts b.fields row

namespace Ty

variable {t : Ty} {c : Column}

/-! ### Items as batches -/

/-- The batch with one column. -/
def oneColumn (f : Field) (cells : List Cell) : Batch := ⟨[f], cells.map fun cell => [cell]⟩

/-- Whether an item makes up a batch with its parts. -/
def Spreads (nullable : Bool) (item : Ty × Column) : Prop :=
  item.1.isStruct = true ∧ nullable = false ∧ item.2.type.isStruct = true

instance (nullable : Bool) (item : Ty × Column) : Decidable (Spreads nullable item) :=
  inferInstanceAs (Decidable (_ ∧ _ ∧ _))

/-- An item as a batch: the parts of a struct that is never null, or one column. -/
def itemForm (name : String) (nullable : Bool) (item : Ty × Column) : Batch :=
  if Spreads nullable item then ⟨item.2.type.fields, item.2.cells.map Cell.parts⟩
  else oneColumn ⟨name, item.2.type, nullable⟩ item.2.cells

/-- The rows of one column hold nulls where they may if it is nullable or none of its cells is
null. -/
lemma allows_oneColumn (name : String) (nullable : Bool) (c : Column) :
    (∀ row ∈ c.cells.map fun cell => [cell], Batch.Allows [⟨name, c.type, nullable⟩] row) ↔
      nullable = true ∨ c.nullCount = 0 := by
  rw [Batch.nullCount_eq_zero_iff, List.forall_mem_map]
  constructor
  · intro h
    by_cases hnullable : nullable = true
    · exact .inl hnullable
    · by_cases htype : c.type = .null
      · exact .inr (.inl htype)
      · exact .inr (.inr fun cell hcell =>
          h cell hcell 0 ⟨name, c.type, nullable⟩ rfl (by simpa using hnullable) htype)
  · rintro h cell hcell i f hf hnullable htype
    cases i with
    | zero =>
      cases hf
      rcases h with h | h | h
      · exact absurd (h.symm.trans hnullable) (by simp)
      · exact absurd h htype
      · exact h cell hcell
    | succ i => cases hf

/-- A column of structs makes up a batch if none of them is null. -/
lemma ofColumn_eq_ok {b : Batch} : Batch.ofColumn c = .ok b ↔
    (∀ cell ∈ c.cells, cell.isNull = false) ∧ b = ⟨c.type.fields, c.cells.map Cell.parts⟩ := by
  unfold Batch.ofColumn
  split
  · rename_i h
    obtain ⟨cell, hcell, hnull⟩ := List.any_eq_true.mp h
    refine iff_of_false nofun fun h => ?_
    rw [h.1 cell hcell] at hnull
    cases hnull
  · rename_i h
    have hnone : ∀ cell ∈ c.cells, cell.isNull = false := fun cell hcell => by
      simpa using fun hnull => h (List.any_eq_true.mpr ⟨cell, hcell, hnull⟩)
    rw [Except.ok.injEq]
    exact ⟨fun heq => ⟨hnone, heq.symm⟩, fun heq => heq.2.symm⟩

/-- The batch of an item is had if the item may be null or is null in no row. -/
lemma itemResult_eq_ok {name : String} {nullable : Bool} {item : Ty × Column} {b : Batch} :
    (if item.1.isStruct && !nullable && item.2.type.isStruct then Batch.ofColumn item.2
      else Batch.make [⟨name, item.2.type, nullable⟩] (item.2.cells.map fun cell => [cell])) =
        .ok b ↔ (nullable = true ∨ item.2.nullCount = 0) ∧ b = itemForm name nullable item := by
  have hcond : (item.1.isStruct && !nullable && item.2.type.isStruct) = true ↔
      Spreads nullable item := by
    simp [Spreads, and_assoc]
  by_cases hspreads : Spreads nullable item
  · have hnull : item.2.type ≠ .null := fun h => by
      have htype := hspreads.2.2
      rw [h] at htype
      cases htype
    rw [if_pos (hcond.mpr hspreads), itemForm, if_pos hspreads, ofColumn_eq_ok,
      Batch.nullCount_eq_zero_iff]
    simp only [hspreads.2.1, hnull, Bool.false_eq_true, false_or]
  · rw [if_neg (mt hcond.mp hspreads), itemForm, if_neg hspreads, Batch.make_eq_ok,
      allows_oneColumn, and_comm]
    rfl

/-- **The batch of an item**: the item is found, and may be null or is null in no row. -/
theorem itemBatch_ofLabels_eq_ok {labels : List String} {a b : Batch} :
    t.itemBatch (Path.ofLabels labels) false a = .ok b ↔
      ∃ item, descend a.toColumn labels t = .ok item ∧
        (itemNullable labels t = true ∨ item.2.nullCount = 0) ∧
        b = itemForm (itemColumnName labels) (itemNullable labels t) item := by
  rw [itemBatch, if_neg Bool.false_ne_true, itemContent, Path.labels_ofLabels, Outcome.ok_bind,
    Outcome.bind_eq_ok]
  exact exists_congr fun item => and_congr_right fun _ => itemResult_eq_ok

/-! ### Whether an item may be null -/

/-- Whether the part under a label and others may be null, from the member with this label. -/
lemma memberNullable_of_lookup? {label : String} {fields : List (String × Ty)} {part : Ty}
    (found : lookup? label fields = some part) (rest : List String) :
    memberNullable label rest fields = itemNullable rest part := by
  induction fields with
  | nil => cases found
  | cons field fields ih =>
    obtain ⟨name, t⟩ := field
    rw [memberNullable]
    by_cases hname : name = label
    · subst hname
      cases (lookup?_cons_self name t fields).symm.trans found
      rw [if_pos rfl]
    · rw [lookup?_cons_of_ne hname] at found
      rw [if_neg hname, ih found]

/-- What is found under labels in an item that may be null may be null. -/
lemma itemNullable_of_nil {q : List String} {item : Ty × Column} (h : descend c q t = .ok item)
    (hnullable : itemNullable [] t = true) : itemNullable q t = true := by
  cases q with
  | nil => exact hnullable
  | cons label q =>
    obtain ⟨part, under, hstep, -⟩ := descend_cons_eq_ok.mp h
    cases hstep with
    | member found enters => simp [itemNullable] at hnullable
    | optional => rw [itemNullable]
    | constrained => simp [itemNullable] at hnullable

/-- **An item of an item may be null** exactly when the first item may be null or the other may be
in it.

**Proof sketch.** By induction on the first labels. Without any, an item that may be null
stays so below (`itemNullable_of_nil`). Through a member of a struct or a constrained type
both sides are those of what is inside, and an optional type or a union decides at once. -/
theorem itemNullable_append {p q : List String} {mid item : Ty × Column}
    (hmid : descend c p t = .ok mid) (hitem : descend mid.2 q mid.1 = .ok item) :
    itemNullable (p ++ q) t = (itemNullable p t || itemNullable q mid.1) := by
  induction p generalizing t c with
  | nil =>
    cases (descend_nil c t).symm.trans hmid
    rw [List.nil_append]
    cases hnullable : itemNullable [] t with
    | true => rw [itemNullable_of_nil hitem hnullable, Bool.true_or]
    | false => rw [Bool.false_or]
  | cons label p ih =>
    obtain ⟨part, under, hstep, hrest⟩ := descend_cons_eq_ok.mp hmid
    rw [List.cons_append]
    cases hstep with
    | @member _ form fields _ _ _ found enters =>
      cases form with
      | union => simp [itemNullable]
      | struct =>
        rw [itemNullable, itemNullable, memberNullable_of_lookup? found,
          memberNullable_of_lookup? found, ih hrest]
    | optional => simp [itemNullable]
    | constrained => rw [itemNullable, itemNullable, ih hrest]

/-! ### Items of one column -/

/-- The first label that is the name of a member; the labels before lead into wrappers. -/
def memberLabel? : List String → Ty → Option String
  | label :: _, .members _ _ _ => some label
  | _ :: rest, .wrapped _ _ inner => memberLabel? rest inner
  | _, _ => none

/-- Labels cannot be followed in a column that has no part under the first that names a member. -/
lemma descend_of_missing {labels : List String} {item : Ty × Column}
    (h : descend c labels t = .ok item) {label : String}
    (hlabel : memberLabel? labels t = some label)
    {whole : Column} (hstruct : whole.type.isStruct = true) {fault : Fault}
    (hmissing : childColumn whole label = .error fault) :
    descend whole labels t = .error fault := by
  induction labels generalizing t c with
  | nil => cases hlabel
  | cons first rest ih =>
    obtain ⟨part, under, hstep, hrest⟩ := descend_cons_eq_ok.mp h
    cases hstep with
    | member found enters =>
      cases hlabel
      rw [descend, descendMember_of_lookup? found, if_pos hstruct, hmissing, Outcome.error_bind]
    | optional | constrained =>
      rw [descend]
      exact ih hrest hlabel

/-- Labels that only lead into wrappers find the whole column. -/
lemma descend_of_memberLabel?_eq_none {labels : List String} {item : Ty × Column}
    (h : descend c labels t = .ok item) (hlabel : memberLabel? labels t = none) :
    item.2 = c ∧ ∀ whole, descend whole labels t = .ok (item.1, whole) := by
  induction labels generalizing t c with
  | nil =>
    cases (descend_nil c t).symm.trans h
    exact ⟨rfl, fun whole => descend_nil whole t⟩
  | cons first rest ih =>
    obtain ⟨part, under, hstep, hrest⟩ := descend_cons_eq_ok.mp h
    cases hstep with
    | member found enters => cases hlabel
    | optional | constrained =>
      obtain ⟨hcolumn, hwhole⟩ := ih hrest hlabel
      refine ⟨hcolumn, fun whole => ?_⟩
      rw [descend]
      exact hwhole whole

/-- The only part of one column is under its name. -/
lemma childColumn_oneColumn {label : String} {f : Field} (h : label ≠ f.name) (cells : List Cell) :
    childColumn (oneColumn f cells).toColumn label = .error (missingColumn label) := by
  have hindex : Column.fieldIndex? label [f] = none := by
    simp [Column.fieldIndex?, List.findIdx?_cons, Ne.symm h]
  rw [childColumn, Column.child?]
  show Outcome.ofOption _ ((Column.fieldIndex? label [f]).bind _) = _
  rw [hindex]
  rfl

/-! ### Items of items -/

/-- The parts that an item spreads are those of its column. -/
lemma toColumn_itemForm {nullable : Bool} {item : Ty × Column} (hspreads : Spreads nullable item)
    (hwhole : WholeCells item.2) (hnulls : item.2.nullCount = 0) (name : String) :
    (itemForm name nullable item).toColumn = item.2 := by
  obtain ⟨t, type, cells⟩ := item
  obtain ⟨fs, rfl⟩ : ∃ fs, type = .struct fs := by
    cases type with
    | struct fs => exact ⟨fs, rfl⟩
    | scalar s | list layout item => cases hspreads.2.2
  have hpresent := (Batch.nullCount_eq_zero_iff _).mp hnulls |>.resolve_left nofun
  have hcells : cells.map (Cell.struct true ∘ Cell.parts) = cells := by
    refine (List.map_congr_left fun cell hcell => ?_).trans (List.map_id cells)
    obtain ⟨present, ps, rfl, -⟩ := (hwhole cell hcell).of_struct rfl
    cases present with
    | true => rfl
    | false => cases hpresent _ hcell
  rw [itemForm, if_pos hspreads, Batch.toColumn, List.map_map, hcells]
  rfl

/-- A batch that is stored as a type says is a column that stores this type. -/
lemma storedAs_toColumn {b : Batch} (hstruct : t.isStruct = true) (hb : checkBatch t b = .ok ()) :
    StoredAs t b.toColumn.type := by
  obtain ⟨expected, hexpected, hcolumns⟩ := checkBatch_eq_ok.mp hb
  match t, hstruct with
  | .members info .struct fields, _ =>
    obtain ⟨stored, hstored, rfl⟩ := Outcome.map_eq_ok.mp hexpected
    refine ⟨_, Outcome.map_eq_ok.mpr ⟨stored, hstored, rfl⟩, ?_⟩
    have hsuits : List.Forall₂ (Suits false) stored (b.fields.map fun f => (f, [])) := by
      refine List.forall₂_map_right_iff.mpr (hcolumns.imp fun e f hcolumn => ?_)
      obtain ⟨hname, htype, -⟩ := checkColumn_eq_ok.mp hcolumn
      exact ⟨hname, htype, nofun⟩
    have hfields : (b.fields.map fun f => (f, ([] : List Cell))).map Prod.fst = b.fields := by
      rw [List.map_map]
      exact List.map_id _
    exact (congrArg (compatibleFields stored) hfields).symm.trans (suits_false_iff.mp hsuits)

/-- The fields of a struct are stored in smaller ways than the struct. -/
lemma sizeOf_type_lt {type : ColumnType} {f : Field} (hf : f ∈ type.fields) :
    sizeOf f.type < sizeOf type := by
  cases type with
  | struct fs =>
    have hlist : sizeOf f < sizeOf fs := List.sizeOf_lt_of_mem hf
    have hfield : sizeOf f.type < sizeOf f := by
      obtain ⟨name, type, nullable⟩ := f
      show sizeOf type < sizeOf (FieldOf.mk name type nullable)
      rw [FieldOf.mk.sizeOf_spec]
      omega
    have hstruct : sizeOf (ColumnType.struct fs) = 1 + sizeOf fs := ColumnType.struct.sizeOf_spec fs
    omega
  | scalar s | list layout item => cases hf

/-- A struct is not stored like one of its fields. -/
lemma type_notMem_fields (type : ColumnType) : type ∉ type.fields.map FieldOf.type := by
  intro h
  obtain ⟨f, hf, heq⟩ := List.mem_map.mp h
  have hlt := sizeOf_type_lt hf
  rw [heq] at hlt
  exact Nat.lt_irrefl _ hlt

/-- A struct around a value is not stored like a field of this value. -/
lemma struct_notMem_fields (f : Field) :
    ColumnType.struct [f] ∉ f.type.fields.map FieldOf.type := by
  intro h
  obtain ⟨g, hg, heq⟩ := List.mem_map.mp h
  have hlt := sizeOf_type_lt hg
  have hlt' : sizeOf f.type < sizeOf (ColumnType.struct [f]) :=
    sizeOf_type_lt (List.mem_singleton_self f)
  rw [heq] at hlt
  exact Nat.lt_asymm hlt hlt'

/-- A struct around a value is not stored like this value. -/
lemma struct_ne_type (f : Field) : ColumnType.struct [f] ≠ f.type :=
  fun h => type_notMem_fields (.struct [f]) (List.mem_singleton.mpr h)

/-- Asking for one item and then for an item of it gives the values of a batch. -/
def Composes (t : Ty) (p q : List String) (b whole : Batch) : Prop :=
  ∃ first mid second, t.itemBatch (Path.ofLabels p) false b = .ok first ∧
    t.get (Path.ofLabels p) = .ok mid ∧
    mid.itemBatch (Path.ofLabels q) false first = .ok second ∧ second.SameValues whole

section Append

variable {p q : List String} {b whole : Batch} {mid item : Ty × Column}

/-- An item of an item that spreads has the values that the item has that is asked for at once. -/
lemma composes_of_spreads (hmid : descend b.toColumn p t = .ok mid)
    (hitem : descend mid.2 q mid.1 = .ok item)
    (hwhole : whole = itemForm (itemColumnName (p ++ q)) (itemNullable (p ++ q) t) item)
    (hnulls : itemNullable (p ++ q) t = true ∨ item.2.nullCount = 0)
    (hspreads : Spreads (itemNullable p t) mid) (hcells : WholeCells mid.2)
    (hmidNulls : mid.2.nullCount = 0) : Composes t p q b whole := by
  have happend : itemNullable (p ++ q) t = itemNullable q mid.1 := by
    rw [itemNullable_append hmid hitem, hspreads.2.1, Bool.false_or]
  refine ⟨_, mid.1, itemForm (itemColumnName q) (itemNullable q mid.1) item,
    itemBatch_ofLabels_eq_ok.mpr ⟨mid, hmid, .inr hmidNulls, rfl⟩,
    get_ofLabels_eq_ok.mpr (along?_of_descend hmid),
    itemBatch_ofLabels_eq_ok.mpr ⟨item, ?_, happend ▸ hnulls, rfl⟩, ?_⟩
  · rw [toColumn_itemForm hspreads hcells hmidNulls]
    exact hitem
  · rw [hwhole, happend]
    unfold itemForm
    split <;> exact ⟨rfl, rfl⟩

/-- An item with a missing part has no item under the labels of this part. -/
lemma itemBatch_of_missing {labels : List String} (hitem : descend c labels t = .ok item)
    {label : String} (hlabel : memberLabel? labels t = some label) {f : Field}
    (hname : label ≠ f.name) (cells : List Cell) :
    t.itemBatch (Path.ofLabels labels) false (oneColumn f cells) =
      .error (missingColumn label) := by
  rw [itemBatch, if_neg Bool.false_ne_true, itemContent, Path.labels_ofLabels, Outcome.ok_bind,
    descend_of_missing hitem hlabel rfl (childColumn_oneColumn hname cells), Outcome.error_bind]

/-- The item under labels that only lead into wrappers is all of a batch of one column. -/
lemma itemBatch_of_memberLabel?_eq_none {labels : List String}
    (hitem : descend c labels t = .ok item) (hlabel : memberLabel? labels t = none) (f : Field)
    (cells : List Cell) : t.itemBatch (Path.ofLabels labels) false (oneColumn f cells) =
      .ok (itemForm (itemColumnName labels) (itemNullable labels t)
        (item.1, (oneColumn f cells).toColumn)) := by
  refine itemBatch_ofLabels_eq_ok.mpr ⟨(item.1, (oneColumn f cells).toColumn),
    (descend_of_memberLabel?_eq_none hitem hlabel).2 _, .inr ?_, rfl⟩
  refine (Batch.nullCount_eq_zero_iff _).mpr (.inr fun cell hcell => ?_)
  obtain ⟨row, -, rfl⟩ := List.mem_map.mp hcell
  rfl

/-- All of a batch of one column has the values of its item exactly when it is taken apart again,
and the item is not. -/
lemma sameValues_oneColumn {nullable nullable' : Bool} {item : Ty × Column}
    (hstored : StoredAs item.1 item.2.type) (name name' : String) {f : Field}
    (hf : f.type = item.2.type) :
    (itemForm name' nullable' (item.1, (oneColumn f item.2.cells).toColumn)).SameValues
        (itemForm name nullable item) ↔
      item.1.isStruct = true ∧ nullable' = false ∧ nullable = true := by
  have hspreads : Spreads nullable' (item.1, (oneColumn f item.2.cells).toColumn) ↔
      item.1.isStruct = true ∧ nullable' = false := by
    simp [Spreads, oneColumn, Batch.toColumn, ColumnType.isStruct]
  constructor
  · rintro ⟨htypes, -⟩
    by_cases hparts : item.1.isStruct = true ∧ nullable' = false
    · refine ⟨hparts.1, hparts.2, ?_⟩
      by_contra hnullable
      -- The item would be a struct that is stored like its only field.
      have hitem : Spreads nullable item :=
        ⟨hparts.1, by simpa using hnullable, hstored.isStruct hparts.1⟩
      rw [itemForm, if_pos (hspreads.mpr hparts), itemForm, if_pos hitem] at htypes
      refine absurd ?_ (type_notMem_fields item.2.type)
      rw [← htypes, ← hf]
      exact List.mem_singleton_self _
    · -- A struct around the item would be stored like the item or like one of its fields.
      rw [itemForm, if_neg (mt hspreads.mp hparts), itemForm] at htypes
      split at htypes
      · refine absurd ?_ (struct_notMem_fields f)
        rw [hf, ← htypes]
        exact List.mem_singleton_self _
      · exact absurd ((List.cons.inj htypes).1.trans hf.symm) (struct_ne_type f)
  · rintro ⟨hstruct, hnullable', hnullable⟩
    have hitem : ¬Spreads nullable item := fun h => by cases hnullable.symm.trans h.2.1
    rw [itemForm, if_pos (hspreads.mpr ⟨hstruct, hnullable'⟩), itemForm, if_neg hitem]
    refine ⟨congrArg (fun type => [type]) hf, ?_⟩
    show ((item.2.cells.map fun cell => [cell]).map (Cell.struct true)).map Cell.parts = _
    rw [List.map_map, List.map_map]
    rfl

/-- Where the first item is one column and the other labels only lead into wrappers, the values are
the same exactly when these lead to a struct that may only be null because the first item may. -/
lemma composes_iff_of_memberLabel?_eq_none (hmid : descend b.toColumn p t = .ok mid)
    (hitem : descend mid.2 q mid.1 = .ok item)
    (hwhole : whole = itemForm (itemColumnName (p ++ q)) (itemNullable (p ++ q) t) item)
    {first : Batch} (hfirst : t.itemBatch (Path.ofLabels p) false b = .ok first)
    (hapart : ¬Spreads (itemNullable p t) mid) (hstored : StoredAs item.1 item.2.type)
    (hlabel : memberLabel? q mid.1 = none) : Composes t p q b whole ↔
      item.1.isStruct = true ∧ itemNullable q mid.1 = false ∧ itemNullable p t = true := by
  obtain ⟨item', hitem', -, hform⟩ := itemBatch_ofLabels_eq_ok.mp hfirst
  cases hmid.symm.trans hitem'
  rw [itemForm, if_neg hapart] at hform
  have hcolumn := (descend_of_memberLabel?_eq_none hitem hlabel).1
  have hsecond := itemBatch_of_memberLabel?_eq_none hitem hlabel
    ⟨itemColumnName p, mid.2.type, itemNullable p t⟩ mid.2.cells
  rw [← hform] at hsecond
  have hsame : ∀ second, mid.1.itemBatch (Path.ofLabels q) false first = .ok second →
      (second.SameValues whole ↔ item.1.isStruct = true ∧ itemNullable q mid.1 = false ∧
        itemNullable p t = true) := by
    intro second h
    obtain rfl := Except.ok.inj (hsecond.symm.trans h)
    rw [hform, ← hcolumn, hwhole, sameValues_oneColumn hstored _ _ rfl,
      itemNullable_append hmid hitem]
    refine and_congr_right fun _ => and_congr_right fun hnullable => ?_
    rw [hnullable, Bool.or_false]
  have hget := get_ofLabels_eq_ok.mpr (along?_of_descend hmid)
  constructor
  · rintro ⟨first', mid', second, hfirst', hmid', h, hvalues⟩
    obtain rfl := Except.ok.inj (hfirst.symm.trans hfirst')
    obtain rfl := Except.ok.inj (hget.symm.trans hmid')
    exact (hsame second h).mp hvalues
  · exact fun h => ⟨first, mid.1, _, hfirst, hget, hsecond, (hsame _ hsecond).mpr h⟩

/-- **Items of items.** Of rows that are stored as a struct says, let the item under some labels
and then others be had. If the first labels lead to a struct, through no optional type and no union,
that is null in no row, then asking for their item and then for the item under the others in it
gives the same values. If that struct is null in some row, it is no batch. Otherwise, the first item
is one column, in which the others find no part of another name; if they only lead into wrappers,
they find the whole batch, which has the same values exactly when they lead to a struct that is not
null on their own account but because of the first labels.

**Proof sketch.** The way along both runs of labels is the way along the first and then along
the others (`descend_append_eq_ok`). An item that spreads is the same column again when it is
read as a batch (`toColumn_itemForm`), so that the others lead to the same cells
(`composes_of_spreads`). An item that is one column stands in a struct around it: a member of
another name is not found there (`itemBatch_of_missing`), and wrappers find the struct itself,
which is stored neither like the item nor like one of its fields unless it is taken apart
again (`sameValues_oneColumn`). -/
theorem itemBatch_append (hstruct : t.isStruct = true) (hb : checkBatch t b = .ok ())
    (hrows : b.Whole) (h : t.itemBatch (Path.ofLabels (p ++ q)) false b = .ok whole) :
    ∃ mid column target, t.get (Path.ofLabels p) = .ok mid ∧
      t.get (Path.ofLabels (p ++ q)) = .ok target ∧
      descend b.toColumn p t = .ok (mid, column) ∧
      (mid.isStruct = true → itemNullable p t = false → column.nullCount = 0 →
        Composes t p q b whole) ∧
      (itemNullable p t = false → column.nullCount ≠ 0 →
        ∀ first, t.itemBatch (Path.ofLabels p) false b ≠ .ok first) ∧
      (¬(mid.isStruct = true ∧ itemNullable p t = false) → ∀ first,
        t.itemBatch (Path.ofLabels p) false b = .ok first →
          (∀ label, memberLabel? q mid = some label → label ≠ itemColumnName p →
            mid.itemBatch (Path.ofLabels q) false first = .error (missingColumn label)) ∧
          (memberLabel? q mid = none → (Composes t p q b whole ↔
            target.isStruct = true ∧ itemNullable q mid = false ∧ itemNullable p t = true))) := by
  obtain ⟨⟨target, found⟩, hboth, hnulls, hwhole⟩ := itemBatch_ofLabels_eq_ok.mp h
  obtain ⟨⟨mid, column⟩, hmid, hitem⟩ := descend_append_eq_ok.mp hboth
  have hget := get_ofLabels_eq_ok.mpr (along?_of_descend hmid)
  have hstored := storedAs_descend hmid (storedAs_toColumn hstruct hb)
  have hcells : WholeCells column := wholeCells_descend hmid (List.forall_mem_map.mpr hrows)
  refine ⟨mid, column, target, hget, get_ofLabels_eq_ok.mpr (along?_of_descend hboth), hmid,
    ?_, ?_, ?_⟩
  · intro hstruct' hnullable hcolumn
    exact composes_of_spreads hmid hitem hwhole hnulls
      ⟨hstruct', hnullable, hstored.isStruct hstruct'⟩ hcells hcolumn
  · rintro hnullable hcolumn first hfirst
    obtain ⟨item, hitem', hnone, -⟩ := itemBatch_ofLabels_eq_ok.mp hfirst
    cases hmid.symm.trans hitem'
    exact hnone.elim (fun hn => by cases hnullable.symm.trans hn) hcolumn
  · intro hapart first hfirst
    obtain ⟨item, hitem', -, hform⟩ := itemBatch_ofLabels_eq_ok.mp hfirst
    cases hmid.symm.trans hitem'
    rw [itemForm, if_neg fun hspreads => hapart ⟨hspreads.1, hspreads.2.1⟩] at hform
    subst hform
    refine ⟨fun label hlabel hname => itemBatch_of_missing hitem hlabel hname _, fun hlabel => ?_⟩
    exact composes_iff_of_memberLabel?_eq_none hmid hitem hwhole hfirst
      (fun hspreads => hapart ⟨hspreads.1, hspreads.2.1⟩)
      (storedAs_descend hboth (storedAs_toColumn hstruct hb)) hlabel

end Append

/-! ### Users with and without a place -/

/-- Users with a place, which may be missing or not. -/
def usersAt (place : Ty) : Ty := struct [("name", text), ("place", place)]

/-- A place. -/
def place : Ty := struct [("street", text), ("number", integer 0 99)]

/-- How a place is stored. -/
def placeColumn : ColumnType := .struct [⟨"street", .utf8, false⟩, ⟨"number", .int64, false⟩]

/-- A house in a lane. -/
def millLane : Cell := .struct true [.text "Mill Lane", .int 7]

/-- One user with a place. -/
def oneUser : Batch :=
  ⟨[⟨"name", .utf8, false⟩, ⟨"place", placeColumn, false⟩], [[.text "Ada", millLane]]⟩

/-- The numbers of the places of users. -/
def oneNumber (nullable : Bool) : Batch := ⟨[⟨"number", .int64, nullable⟩], [[.int 7]]⟩

/-- The rows of the user have all their parts. -/
lemma whole_oneUser : oneUser.Whole := by
  simp [Batch.Whole, oneUser, placeColumn, millLane, Cell.WholeParts, Cell.Whole, ColumnType.utf8,
    ColumnType.int64]

/-- The number of a place that every user has. -/
lemma itemBatch_number :
    (usersAt place).itemBatch (Path.ofLabels ["place", "number"]) false oneUser =
    .ok (oneNumber false) :=
  itemBatch_ofLabels_eq_ok.mpr ⟨_, rfl, .inr rfl, rfl⟩

/-- The number of a place that some users may have. -/
lemma itemBatch_optional_number : (usersAt (optional place)).itemBatch
    (Path.ofLabels ["place", optionalValue, "number"]) false oneUser = .ok (oneNumber true) :=
  itemBatch_ofLabels_eq_ok.mpr ⟨_, rfl, .inl rfl, rfl⟩

/-- The place of a user, and of it the number: what is asked for at once. -/
theorem itemBatch_append_number :
    checkBatch (usersAt place) oneUser = .ok () ∧ oneUser.Whole ∧
      (usersAt place).itemBatch (Path.ofLabels (["place"] ++ ["number"])) false oneUser =
        .ok (oneNumber false) ∧
      Composes (usersAt place) ["place"] ["number"] oneUser (oneNumber false) := by
  obtain ⟨mid, column, -, hmid, -, hcolumn, hcomposes, -, -⟩ :=
    itemBatch_append (p := ["place"]) (q := ["number"]) (t := usersAt place) rfl rfl whole_oneUser
      itemBatch_number
  refine ⟨rfl, whole_oneUser, itemBatch_number, ?_⟩
  cases get_ofLabels_eq_ok.mp hmid
  cases hcolumn
  exact hcomposes rfl rfl rfl

/-- The place of a user that may have none, and of it the number: the place is one column, and the
number is looked for beside it. -/
theorem not_composes_optional :
    checkBatch (usersAt (optional place)) oneUser = .ok () ∧ oneUser.Whole ∧
      (usersAt (optional place)).itemBatch (Path.ofLabels (["place"] ++ [optionalValue, "number"]))
        false oneUser = .ok (oneNumber true) ∧
      ¬Composes (usersAt (optional place)) ["place"] [optionalValue, "number"] oneUser
        (oneNumber true) := by
  refine ⟨rfl, whole_oneUser, itemBatch_optional_number, ?_⟩
  rintro ⟨first, mid, second, hfirst, hmid, hsecond, -⟩
  obtain ⟨item, hitem, -, rfl⟩ := itemBatch_ofLabels_eq_ok.mp hfirst
  cases hitem
  cases get_ofLabels_eq_ok.mp hmid
  have hnumber : ∃ item, descend ⟨placeColumn, [millLane]⟩ [optionalValue, "number"]
      (optional place) = .ok item := ⟨_, rfl⟩
  obtain ⟨item, hitem⟩ := hnumber
  have hmissing := itemBatch_of_missing hitem rfl (f := ⟨"place", placeColumn, true⟩) (by decide)
    [millLane]
  cases hmissing.symm.trans hsecond

end Ty

end Lineage
