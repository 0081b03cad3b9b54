import Lineage.Proofs.Ty.Item
import Lineage.Proofs.Ty.Membership
import Lineage.Proofs.Ty.Stored

set_option autoImplicit false

/-!
# Items that are null

An item that is a struct and can never be null by its type makes up a batch with its parts. If it is
null in some row all the same, there is no such batch, and asking for it aborts. Checking a batch
against its type does not keep this from happening, since the check does not look at nulls inside
structs.

## Main definitions

* `Lineage.Ty.ReachesNull`: labels lead through structs to a struct that is null.

## Main results

* `Lineage.Ty.storedAs_of_checkBatch`: a batch that passes the check is stored as the type says.
* `Lineage.Ty.itemBatch_eq_abort_iff`: when asking for an item aborts.
* `Lineage.Ty.NullsPlaced.not_reachesNull`: where nulls only stand where the type has a place for
  them, no labels lead to a null struct.
* `Lineage.Ty.not_safe_unnamedUser`: a batch that passes the check and an item that aborts.
-/

namespace Lineage.Ty

variable {t : Ty} {type : ColumnType} {cell : Cell} {labels : List String} {c : Column}

/-! ### Batches that pass the check -/

/-- The columns of rows are those of the struct that stores them. -/
lemma columnType_of_batchFields : ∀ (t : Ty) {fields : List Field},
    t.batchFields = .ok fields → t.columnType = .ok (.struct fields, false)
  | .members info form ms, fields, h => by
    obtain ⟨fs, hfs, rfl⟩ := Outcome.map_eq_ok.mp h
    exact Outcome.map_eq_ok.mpr ⟨fs, hfs, rfl⟩
  | .wrapped info wrapper inner, fields, h => by
    cases wrapper with
    | constrained constraint =>
      rw [batchFields] at h
      exact Outcome.bind_eq_ok.mpr ⟨_, columnType_of_batchFields inner h, rfl⟩
    | optional | list maxSize | array shape => simp [batchFields] at h
  | .leaf info content, fields, h => by simp [batchFields] at h
  | .hypothesis info types, fields, h => by simp [batchFields] at h

/-- A batch that passes the check is stored as the type says. -/
theorem storedAs_of_checkBatch {b : Batch} (h : t.checkBatch b = .ok ()) :
    StoredAs t (.struct b.fields) := by
  obtain ⟨expected, hexpected, hcolumns⟩ := checkBatch_eq_ok.mp h
  refine ⟨_, columnType_of_batchFields t hexpected, compatibleFields_iff.mpr ?_⟩
  refine hcolumns.imp fun e f hcolumn => ?_
  obtain ⟨hname, htype, -⟩ := checkColumn_eq_ok.mp hcolumn
  exact ⟨hname, htype⟩

/-- The column of a member of a struct or union stores this member. -/
lemma StoredAs.member {info : Info} {form : Form} {fields : List (String × Ty)} {label : String}
    {i : ℕ} {part : ColumnType} (h : StoredAs (.members info form fields) type)
    (found : lookup? label fields = some t) (hplace : place? label type = some (i, part)) :
    StoredAs t part := by
  obtain ⟨stored, hstored, hcompatible⟩ := h
  obtain ⟨expected, hexpected, rfl⟩ := Outcome.map_eq_ok.mp hstored
  obtain ⟨hindex, f, hf, -, rfl⟩ := place?_eq_some hplace
  cases type with
  | struct actual =>
    rw [formFields_eq] at hcompatible
    exact storedAs_member hexpected hcompatible found hindex hf
  | scalar s | list layout item => cases hf

/-! ### Labels that lead to a null struct -/

/-- Labels lead through structs to a struct that is null, or that stands in one that is. No optional
type, union or list is entered. -/
inductive ReachesNull : List String → Ty → ColumnType → Cell → Prop
  /-- The struct is null. -/
  | here {info : Info} {fields : List (String × Ty)} {type : ColumnType} {cell : Cell}
      (null : cell.isNull = true) : ReachesNull [] (.members info .struct fields) type cell
  /-- A member is entered; where the struct is null, so is its part. -/
  | member {label : String} {rest : List String} {info : Info} {fields : List (String × Ty)}
      {t : Ty} {type part : ColumnType} {i : ℕ} {cell : Cell}
      (found : lookup? label fields = some t) (place : place? label type = some (i, part))
      (below : ReachesNull rest t part (partUnder i cell)) :
      ReachesNull (label :: rest) (.members info .struct fields) type cell
  /-- A constrained type is entered. -/
  | constrained {label : String} {rest : List String} {info : Info} {constraint : String}
      {inner : Ty} {type : ColumnType} {cell : Cell} (inside : ReachesNull rest inner type cell) :
      ReachesNull (label :: rest) (.wrapped info (.constrained constraint) inner) type cell

/-- Labels that lead to a null struct start in a struct. -/
lemma ReachesNull.isStruct (h : ReachesNull labels t type cell) (hstored : StoredAs t type) :
    type.isStruct = true := by
  induction h with
  | here null => exact hstored.isStruct rfl
  | member found place below ih => exact hstored.isStruct rfl
  | constrained inside ih => exact ih hstored.constrained

/-- **Labels that lead to a null struct can be followed**, and the item that they find cannot be
null by its type.

**Proof sketch.** By induction on the way. The column of a member that the way enters stores
this member (`StoredAs.member`). It is no column of nulls, because the way ends in a struct,
and so the nulls of the structs around can be put over it. -/
lemma ReachesNull.exists_item (h : ReachesNull labels t type cell) (hstored : StoredAs t type)
    {cells : List Cell} (hcell : cell ∈ cells) :
    itemNullable labels t = false ∧ ∃ item, descend ⟨type, cells⟩ labels t = .ok item ∧
      item.1.isStruct = true ∧ ∃ cell ∈ item.2.cells, cell.isNull = true := by
  induction h generalizing cells with
  | here null => exact ⟨by simp [itemNullable], _, descend_nil _ _, rfl, _, hcell, null⟩
  | @member label rest info fields t type part i cell found place below ih =>
    have hpart := hstored.member found place
    obtain ⟨hnullable, item, hitem, hfound⟩ := ih hpart (List.mem_map_of_mem hcell)
    have hnull : part ≠ .null := by
      rintro rfl
      cases below.isStruct hpart
    have hunder : childUnder ⟨type, cells⟩ ⟨part, cells.map (Cell.part i)⟩ =
        .ok ⟨part, cells.map (partUnder i)⟩ := by
      rw [childUnder_eq, if_neg (by simp [hnull])]
    have henters : Enters label ⟨type, cells⟩ ⟨part, cells.map (partUnder i)⟩ :=
      ⟨hstored.isStruct rfl, _, childColumn_of_place? place cells, hunder⟩
    refine ⟨?_, item, descend_cons_eq_ok.mpr ⟨_, _, .member found henters, hitem⟩, hfound⟩
    rwa [itemNullable, memberNullable_of_lookup? found]
  | constrained inside ih =>
    obtain ⟨hnullable, item, hitem, hfound⟩ := ih hstored.constrained hcell
    refine ⟨?_, item, descend_cons_eq_ok.mpr ⟨_, _, .constrained, hitem⟩, hfound⟩
    rwa [itemNullable]

/-- An item that is a struct, cannot be null by its type and is null is reached through structs. -/
lemma reachesNull_of_descend {item : Ty × Column} (h : descend c labels t = .ok item)
    (hstruct : item.1.isStruct = true) (hnullable : itemNullable labels t = false)
    (hnull : ∃ cell ∈ item.2.cells, cell.isNull = true) :
    ∃ cell ∈ c.cells, ReachesNull labels t c.type cell := by
  induction labels generalizing t c with
  | nil =>
    cases (descend_nil c t).symm.trans h
    obtain ⟨cell, hcell, hnull⟩ := hnull
    match t, hstruct with
    | .members info .struct fields, _ => exact ⟨cell, hcell, .here hnull⟩
  | cons label rest ih =>
    obtain ⟨part, under, hstep, hrest⟩ := descend_cons_eq_ok.mp h
    cases hstep with
    | @member _ form fields _ _ _ found enters =>
      cases form with
      | union => simp [itemNullable] at hnullable
      | struct =>
        rw [itemNullable, memberNullable_of_lookup? found] at hnullable
        obtain ⟨i, f, hindex, hf, rfl⟩ := enters.eq
        obtain ⟨below, hbelow, hreaches⟩ := ih hrest hnullable
        obtain ⟨cell, hcell, rfl⟩ := List.mem_map.mp hbelow
        refine ⟨cell, hcell, .member found ?_ hreaches⟩
        simp [place?, hindex, hf]
    | optional => simp [itemNullable] at hnullable
    | constrained =>
      rw [itemNullable] at hnullable
      obtain ⟨cell, hcell, hreaches⟩ := ih hrest hnullable
      exact ⟨cell, hcell, .constrained hreaches⟩

/-- **Where nulls only stand where the type has a place for them, no labels lead to a null
struct.** -/
theorem NullsPlaced.not_reachesNull (h : NullsPlaced t type cell) :
    ¬ReachesNull labels t type cell := by
  intro hreaches
  induction hreaches with
  | here null =>
    cases h with
    | struct present placed => exact Bool.false_ne_true (present.symm.trans null)
  | @member label rest info fields t type part i cell found place below ih =>
    cases h with
    | struct present placed =>
      rw [partUnder, present, if_neg Bool.false_ne_true] at ih
      exact ih (placed _ (mem_of_lookup? found) _ _ ⟨i, place, rfl⟩)
  | constrained inside ih =>
    cases h with
    | constrained placed => exact ih placed

/-! ### Items that abort -/

/-- A computation after one that does not abort aborts exactly if it does by itself. -/
lemma bind_eq_abort_iff {α β : Type} {x : Outcome α} {f : α → Outcome β} (hx : x ≠ .error .abort) :
    (x >>= f) = .error .abort ↔ ∃ a, x = .ok a ∧ f a = .error .abort := by
  cases x with
  | error fault =>
    rw [Outcome.error_bind]
    exact iff_of_false (fun h => hx (congrArg _ (Except.error.inj h))) (by simp)
  | ok a => simp

/-- Looking for the column of a name does not abort. -/
lemma childColumn_ne_abort (c : Column) (name : String) : childColumn c name ≠ .error .abort := by
  unfold childColumn Outcome.ofOption
  split <;> nofun

/-- Entering the column of a part does not abort. -/
lemma childUnder_ne_abort (c child : Column) : childUnder c child ≠ .error .abort := by
  unfold childUnder
  split
  · split <;> nofun
  · nofun

/-- Following labels does not abort. -/
lemma descend_ne_abort (c : Column) (labels : List String) (t : Ty) :
    descend c labels t ≠ .error .abort := by
  induction labels generalizing c t with
  | nil =>
    rw [descend_nil]
    nofun
  | cons label rest ih =>
    cases t with
    | members info form fields =>
      rw [descend]
      cases found : lookup? label fields with
      | none =>
        rw [descendMember_of_lookup?_eq_none found]
        nofun
      | some part =>
        rw [descendMember_of_lookup? found]
        split
        · intro habort
          obtain ⟨child, -, habort⟩ := (bind_eq_abort_iff (childColumn_ne_abort c label)).mp habort
          obtain ⟨under, -, habort⟩ := (bind_eq_abort_iff (childUnder_ne_abort c child)).mp habort
          exact ih under part habort
        · nofun
    | wrapped info wrapper inner =>
      cases wrapper with
      | optional | constrained constraint =>
        rw [descend]
        exact ih c inner
      | list maxSize | array shape =>
        rw [descend]
        · nofun
        all_goals simp
    | leaf info content | hypothesis info types =>
      rw [descend]
      · nofun
      all_goals simp

/-- Reading the labels of a path does not abort. -/
lemma labels_ne_abort (p : Path) : p.labels ≠ .error .abort := by
  unfold Path.labels Outcome.ofOption
  split <;> nofun

/-- Making a batch does not abort. -/
lemma make_ne_abort (fields : List Field) (rows : List (List Cell)) :
    Batch.make fields rows ≠ .error .abort := by
  unfold Batch.make
  dsimp only
  split <;> nofun

/-- A column of structs makes up no batch exactly if a struct is null. -/
lemma ofColumn_eq_abort_iff :
    Batch.ofColumn c = .error .abort ↔ ∃ cell ∈ c.cells, cell.isNull = true := by
  unfold Batch.ofColumn
  rw [← List.any_eq_true]
  split
  · rename_i h
    exact iff_of_true rfl h
  · rename_i h
    exact iff_of_false nofun h

/-- Putting an item in the place of the payload does not abort. -/
lemma itemBatch_wrapped_ne_abort (t : Ty) (p : Path) (b : Batch) :
    t.itemBatch p true b ≠ .error .abort := by
  rw [itemBatch, if_pos rfl]
  intro habort
  split at habort
  · cases habort
  · split at habort
    · cases habort
    · rename_i c _
      obtain ⟨labels, -, habort⟩ := (bind_eq_abort_iff (labels_ne_abort p)).mp habort
      obtain ⟨item, -, habort⟩ := (bind_eq_abort_iff (descend_ne_abort c labels t)).mp habort
      exact make_ne_abort _ _ habort

/-- **Asking for an item aborts** exactly if it is a struct that is null in some row, and is reached
through structs only. -/
theorem itemContent_eq_abort_iff (hstored : StoredAs t c.type) (p : Path) :
    itemContent t p c = .error .abort ↔ ∃ labels, p.labels = .ok labels ∧
      ∃ cell ∈ c.cells, ReachesNull labels t c.type cell := by
  rw [itemContent, bind_eq_abort_iff (labels_ne_abort p)]
  refine exists_congr fun labels => and_congr_right fun _ => ?_
  rw [bind_eq_abort_iff (descend_ne_abort c labels t)]
  constructor
  · rintro ⟨item, hitem, habort⟩
    dsimp only at habort
    split at habort
    · rename_i hcond
      simp only [Bool.and_eq_true, Bool.not_eq_true'] at hcond
      exact reachesNull_of_descend hitem hcond.1.1 hcond.1.2 (ofColumn_eq_abort_iff.mp habort)
    · exact absurd habort (make_ne_abort _ _)
  · rintro ⟨cell, hcell, hreaches⟩
    obtain ⟨hnullable, item, hitem, hstruct, hnull⟩ := hreaches.exists_item hstored hcell
    refine ⟨item, hitem, ?_⟩
    have htype : item.2.type.isStruct = true := (storedAs_descend hitem hstored).isStruct hstruct
    dsimp only
    rw [hstruct, hnullable, htype, if_pos (by simp)]
    exact ofColumn_eq_abort_iff.mpr hnull

/-- **When asking for an item of a batch aborts.** The batch passes the check. The item does not
take the place of a payload, and is a struct that is null in some row and is reached through structs
only. This does not happen where nulls only stand where the type has a place for them.

**Proof sketch.** Neither reading the path nor following the labels nor making a batch of one
column aborts. What is left is that a struct which is to be spread is null in some row
(`ofColumn_eq_abort_iff`). Such structs are those that a way through structs reaches
(`ReachesNull.exists_item` and `reachesNull_of_descend`), and no way reaches one where nulls
are in place. -/
theorem itemBatch_eq_abort_iff {b : Batch} (hcheck : t.checkBatch b = .ok ()) (p : Path)
    (wrapped : Bool) :
    (t.itemBatch p wrapped b = .error .abort ↔ wrapped = false ∧ ∃ labels, p.labels = .ok labels ∧
      ∃ row ∈ b.rows, ReachesNull labels t (.struct b.fields) (.struct true row)) ∧
    ((∀ row ∈ b.rows, NullsPlaced t (.struct b.fields) (.struct true row)) →
      t.itemBatch p wrapped b ≠ .error .abort) := by
  have hiff : t.itemBatch p wrapped b = .error .abort ↔ wrapped = false ∧
      ∃ labels, p.labels = .ok labels ∧
        ∃ row ∈ b.rows, ReachesNull labels t (.struct b.fields) (.struct true row) := by
    cases wrapped with
    | true => exact iff_of_false (itemBatch_wrapped_ne_abort t p b) nofun
    | false =>
      rw [itemBatch, if_neg Bool.false_ne_true]
      refine (itemContent_eq_abort_iff (c := b.toColumn) (storedAs_of_checkBatch hcheck) p).trans ?_
      simp [Batch.toColumn]
  refine ⟨hiff, fun hplaced habort => ?_⟩
  obtain ⟨-, labels, -, row, hrow, hreaches⟩ := hiff.mp habort
  exact (hplaced row hrow).not_reachesNull hreaches

/-! ### A user without name -/

/-- Users, each with a name of one part. -/
def namedUser : Ty := .struct [("user", .struct [("name", .struct [("first", .text)])])]

/-- The columns of such users; that of the names could hold nulls. -/
def userFields : List Field :=
  [⟨"user", .struct [⟨"name", .struct [⟨"first", .utf8, false⟩], true⟩], false⟩]

/-- The row of a user with a name. -/
def userNamed (first : String) : List Cell :=
  [.struct true [.struct true [.text first]]]

/-- Two users with names. -/
def namedUsers : Batch := ⟨userFields, [userNamed "Ada", userNamed "Grace"]⟩

/-- A user with a name and one without. -/
def unnamedUser : Batch :=
  ⟨userFields, [userNamed "Ada", [.struct true [.struct false [.null]]]]⟩

/-- Nulls stand where they may in a struct with one member if they do in this member. -/
lemma nullsPlaced_singleton {info : Info} {name : String} {part : ColumnType} {i : ℕ}
    (present : cell.isNull = false) (hplace : place? name type = some (i, part))
    (h : NullsPlaced t part (cell.part i)) :
    NullsPlaced (.members info .struct [(name, t)]) type cell := by
  refine .struct present fun member hmember part' under hpart => ?_
  obtain rfl := List.mem_singleton.mp hmember
  obtain ⟨rfl, rfl⟩ := (partAt_iff hplace).mp hpart
  exact h

/-- A user with a name has no nulls. -/
lemma nullsPlaced_userNamed (first : String) :
    NullsPlaced namedUser (.struct userFields) (.struct true (userNamed first)) :=
  nullsPlaced_singleton rfl rfl (nullsPlaced_singleton rfl rfl (nullsPlaced_singleton rfl rfl
    (.leaf fun _ => rfl)))

/-- The names of users with names can be asked for. -/
theorem itemBatch_eq_abort_iff_namedUsers :
    namedUser.checkBatch namedUsers = .ok () ∧
      namedUser.itemBatch (Path.ofLabels ["user", "name"]) false namedUsers ≠ .error .abort := by
  have hcheck : namedUser.checkBatch namedUsers = .ok () := rfl
  refine ⟨hcheck, (itemBatch_eq_abort_iff hcheck _ false).2 fun row hrow => ?_⟩
  simp only [namedUsers, List.mem_cons, List.not_mem_nil, or_false] at hrow
  rcases hrow with rfl | rfl <;> exact nullsPlaced_userNamed _

/-- A batch passes the check of its type, and asking for an item that the type has aborts: the name
of the second user is missing, which the check does not look at. -/
theorem not_safe_unnamedUser :
    namedUser.checkBatch unnamedUser = .ok () ∧
    namedUser.get (Path.ofLabels ["user", "name"]) = .ok (.struct [("first", .text)]) ∧
    namedUser.itemBatch (Path.ofLabels ["user", "name"]) false unnamedUser = .error .abort := by
  refine ⟨rfl, get_ofLabels_eq_ok.mpr rfl, ?_⟩
  rw [itemBatch, if_neg Bool.false_ne_true, itemContent, Path.labels_ofLabels]
  rfl

end Lineage.Ty
