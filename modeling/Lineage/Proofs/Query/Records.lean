import Lineage.Proofs.Json.Equal
import Lineage.Proofs.Json.Record
import Lineage.Proofs.Outcome
import Lineage.Query.Records

set_option autoImplicit false

/-!
# Records of rows

A row is written without its nulls, and the nulls are put back. If all columns have different names,
the record of a row has the values of its cells under the names of the columns, in their order. The
value of a column whose name is used once can be found in any case.

## Main definitions

* `Lineage.Batch.valueOf`: the value of a cell, null if the cell is.
* `Lineage.Batch.recordOf`: the values of a row under the names of the columns.

## Main results

* `Lineage.Batch.recordOfRow_eq_recordOf`: the record of a row has all values, nulls too.
* `Lineage.Batch.lookup?_recordOfRow`: the value of a column in the record of a row.
-/

namespace Lineage

/-! ### Members of objects -/

namespace Json

variable {key other : String} {value : Json} {ms acc : List (String × Json)}

/-- A key that is not there is set at the end. -/
lemma setMember_of_not_mem (value : Json) (h : key ∉ ms.map Prod.fst) :
    setMember key value ms = ms ++ [(key, value)] := by
  induction ms with
  | nil => rfl
  | cons entry ms ih =>
    rw [List.map_cons, List.mem_cons, not_or] at h
    rw [setMember, if_neg fun heq => h.1 heq.symm, ih h.2, List.cons_append]

/-- Members of different keys are set one after another. -/
lemma foldl_setMember (h : ((acc ++ ms).map Prod.fst).Nodup) :
    ms.foldl (fun acc entry => setMember entry.1 entry.2 acc) acc = acc ++ ms := by
  induction ms generalizing acc with
  | nil => exact (List.append_nil acc).symm
  | cons entry ms ih =>
    have hnew : entry.1 ∉ acc.map Prod.fst := by
      rw [List.map_append, List.nodup_append] at h
      exact fun hmem => h.2.2 _ hmem _ (List.mem_map_of_mem List.mem_cons_self) rfl
    rw [List.append_cons] at h ⊢
    rw [List.foldl_cons, setMember_of_not_mem _ hnew]
    exact ih h

/-- A key that is not there has no value. -/
lemma lookup?_of_not_mem (h : key ∉ ms.map Prod.fst) : lookup? key ms = none := by
  refine Option.map_eq_none_iff.mpr (List.find?_eq_none.mpr fun entry hentry => ?_)
  rintro hkey
  exact h (beq_iff_eq.mp hkey ▸ List.mem_map_of_mem hentry)

/-- The value of a key without the members of another one. -/
lemma lookup?_filter (h : key ≠ other) :
    lookup? key (ms.filter fun entry => entry.1 != other) = lookup? key ms := by
  unfold lookup?
  rw [List.find?_filter]
  congr 2
  funext entry
  by_cases hkey : entry.1 = key
  · simp [hkey, h]
  · simp [hkey]

/-- The value of a key where the first member is known. -/
lemma lookup?_cons (entry : String × Json) :
    lookup? key (entry :: ms) = if entry.1 = key then some entry.2 else lookup? key ms := by
  unfold lookup?
  rw [List.find?_cons]
  by_cases hkey : entry.1 = key
  · simp [hkey]
  · rw [if_neg hkey, beq_eq_false_iff_ne.mpr hkey]

/-- The value of a key after one was set. -/
lemma lookup?_setMember :
    lookup? key (setMember other value ms) =
      if other = key then some value else lookup? key ms := by
  induction ms with
  | nil => exact lookup?_cons (other, value)
  | cons entry ms ih =>
    by_cases hother : entry.1 = other
    · rw [setMember, if_pos hother, lookup?_cons, lookup?_cons, hother]
      split_ifs <;> rfl
    · rw [setMember, if_neg hother, lookup?_cons, lookup?_cons, ih]
      split_ifs with hkey hkey'
      · exact absurd (hkey.trans hkey'.symm) hother
      · rfl
      · rfl
      · rfl

/-- Members of other keys do not change the value of a key. -/
lemma lookup?_foldl_setMember_of_not_mem (h : key ∉ ms.map Prod.fst) :
    lookup? key (ms.foldl (fun acc entry => setMember entry.1 entry.2 acc) acc) =
      lookup? key acc := by
  induction ms generalizing acc with
  | nil => rfl
  | cons entry ms ih =>
    rw [List.map_cons, List.mem_cons, not_or] at h
    rw [List.foldl_cons, ih h.2, lookup?_setMember, if_neg (Ne.symm h.1)]

/-- The value of a key after members were set that have it once at most. -/
lemma lookup?_foldl_setMember (h : (ms.map Prod.fst).count key ≤ 1) :
    lookup? key (ms.foldl (fun acc entry => setMember entry.1 entry.2 acc) acc) =
      (lookup? key ms).or (lookup? key acc) := by
  induction ms generalizing acc with
  | nil => rfl
  | cons entry ms ih =>
    rw [List.map_cons, List.count_cons] at h
    rw [List.foldl_cons, lookup?_cons]
    by_cases hkey : entry.1 = key
    · rw [if_pos (beq_iff_eq.mpr hkey)] at h
      have hrest : key ∉ ms.map Prod.fst := List.count_eq_zero.mp (by omega)
      rw [lookup?_foldl_setMember_of_not_mem hrest, lookup?_setMember, if_pos hkey, if_pos hkey]
      rfl
    · rw [ih (by omega), lookup?_setMember, if_neg hkey, if_neg hkey]

end Json

namespace Batch

open Json (lookup?)

variable {fields : List Field} {row : List Cell} {ms record : Record} {name : String}

/-- The value of a cell of a type, null if the cell is. -/
def valueOf (type : ColumnType) (cell : Cell) : Json :=
  if cell.isNull then .null else (Cell.value? type cell).getD .null

/-- The values of a row under the names of the columns. -/
def recordOf (fields : List Field) (row : List Cell) : Record :=
  (fields.zip row).map fun e => (e.1.name, valueOf e.1.type e.2)

/-- The values of a row under the names of the columns, without nulls. -/
def presentOf (fields : List Field) (row : List Cell) : Record :=
  ((fields.zip row).filter fun e => !e.2.isNull).map fun e => (e.1.name, valueOf e.1.type e.2)

/-- The cells of a row that are not null have values. -/
def Writable (fields : List Field) (row : List Cell) : Prop :=
  ∀ e ∈ fields.zip row, e.2.isNull = false → (Cell.value? e.1.type e.2).isSome = true

/-- The values without nulls are some of the values. -/
lemma presentOf_sublist (fields : List Field) (row : List Cell) :
    (presentOf fields row).Sublist (recordOf fields row) :=
  List.filter_sublist.map _

/-- The value of a null. -/
lemma valueOf_of_isNull {type : ColumnType} {cell : Cell} (h : cell.isNull = true) :
    valueOf type cell = .null := if_pos h

/-- The cells of a row have values if the first and the others do. -/
lemma writable_cons {f : Field} {cell : Cell} : Writable (f :: fields) (cell :: row) ↔
    (cell.isNull = false → (Cell.value? f.type cell).isSome = true) ∧ Writable fields row :=
  List.forall_mem_cons

/-- The values of a row without nulls, from the first cell on. -/
lemma presentOf_cons (f : Field) (cell : Cell) : presentOf (f :: fields) (cell :: row) =
    if cell.isNull then presentOf fields row
    else (f.name, valueOf f.type cell) :: presentOf fields row := by
  unfold presentOf
  rw [List.zip_cons_cons, List.filter_cons]
  cases cell.isNull <;> rfl

/-- **The members of a row** are its values without nulls, if all cells have values. -/
theorem members?_eq_some_iff :
    Cell.members? fields row = some ms ↔ Writable fields row ∧ ms = presentOf fields row := by
  induction fields generalizing row ms with
  | nil => exact ⟨fun h => ⟨(fun e he => by cases he), (Option.some.inj h).symm⟩,
      fun h => by rw [h.2]; rfl⟩
  | cons f fields ih =>
    cases row with
    | nil => exact ⟨fun h => ⟨(fun e he => by cases he), (Option.some.inj h).symm⟩,
        fun h => by rw [h.2]; rfl⟩
    | cons cell row =>
      rw [writable_cons, presentOf_cons]
      cases hrest : Cell.members? fields row with
      | none =>
        have hnot : ¬Writable fields row := fun h =>
          absurd (hrest.symm.trans (ih.mpr ⟨h, rfl⟩)) (by simp)
        simp [Cell.members?, hrest, hnot]
      | some rest =>
        obtain ⟨hwritable, rfl⟩ := ih.mp hrest
        cases hnull : cell.isNull with
        | true => simp [Cell.members?, hrest, hnull, hwritable, @eq_comm Record ms]
        | false =>
          cases hvalue : Cell.value? f.type cell with
          | none => simp [Cell.members?, hrest, hnull, hvalue]
          | some value => simp [Cell.members?, hrest, hnull, hvalue, hwritable, valueOf,
              @eq_comm Record ms]

/-! ### Columns of different names -/

section Names

variable (hrow : row.length = fields.length) (hnames : (fields.map FieldOf.name).Nodup)

include hrow in
/-- The cells of a row stand under the names of the fields. -/
lemma map_name_zip : (fields.zip row).map (fun e => e.1.name) = fields.map FieldOf.name := by
  have hzip : (fields.zip row).map Prod.fst = fields := List.map_fst_zip hrow.ge
  calc (fields.zip row).map (fun e => e.1.name)
      = ((fields.zip row).map Prod.fst).map FieldOf.name := (List.map_map ..).symm
    _ = fields.map FieldOf.name := by rw [hzip]

include hrow in
/-- The values of a row have the names of the fields. -/
lemma map_fst_recordOf : (recordOf fields row).map Prod.fst = fields.map FieldOf.name := by
  rw [recordOf, List.map_map]
  exact map_name_zip hrow

include hrow hnames

/-- The value under the name of a field, where values that are missing are nulls. -/
lemma lookup?_presentOf {e : Field × Cell} (he : e ∈ fields.zip row) :
    (lookup? e.1.name (presentOf fields row)).getD .null = valueOf e.1.type e.2 := by
  have hnodup : ((presentOf fields row).map Prod.fst).Nodup :=
    (map_fst_recordOf hrow ▸ hnames).sublist ((presentOf_sublist fields row).map Prod.fst)
  cases hnull : e.2.isNull with
  | false =>
    have hmem : e ∈ (fields.zip row).filter fun e => !e.2.isNull :=
      List.mem_filter.mpr ⟨he, by rw [hnull]; rfl⟩
    rw [Json.lookup?_of_mem hnodup (List.mem_map_of_mem hmem)]
    rfl
  | true =>
    -- Another cell that is not null stands under another name.
    have hmissing : e.1.name ∉ (presentOf fields row).map Prod.fst := by
      intro hname
      obtain ⟨_, hentry, hsame⟩ := List.mem_map.mp hname
      obtain ⟨e', he', rfl⟩ := List.mem_map.mp hentry
      obtain ⟨hmem, hvalue⟩ := List.mem_filter.mp he'
      have hinj := List.inj_on_of_nodup_map (map_name_zip hrow ▸ hnames)
      obtain rfl := hinj hmem he hsame
      rw [hnull] at hvalue
      cases hvalue
    rw [Json.lookup?_of_not_mem hmissing, valueOf_of_isNull hnull]
    rfl

end Names

/-- Fields that no value was given yet get theirs, nulls where there is none. -/
lemma fillRecord_eq {record full : Record}
    (h : (full.map Prod.fst ++ fields.map FieldOf.name).Nodup) :
    fillRecord fields record full =
      full ++ fields.map fun f => (f.name, (lookup? f.name record).getD .null) := by
  induction fields generalizing record full with
  | nil => exact (List.append_nil full).symm
  | cons f fields ih =>
    obtain ⟨-, hfields, hnew⟩ := List.nodup_append.mp h
    have hname : f.name ∉ full.map Prod.fst :=
      fun hmem => hnew _ hmem _ (List.mem_map_of_mem List.mem_cons_self) rfl
    have hrest : ∀ f' ∈ fields, f'.name ≠ f.name := fun f' hf' heq =>
      (List.nodup_cons.mp hfields).1 (heq ▸ List.mem_map_of_mem hf')
    have hfull : ((full ++ [(f.name, (lookup? f.name record).getD .null)]).map Prod.fst ++
        fields.map FieldOf.name).Nodup := by
      rwa [List.map_append, List.append_assoc]
    have hvalues : (fields.map fun f' => (f'.name,
          (lookup? f'.name (record.filter fun entry => entry.1 != f.name)).getD .null)) =
        fields.map fun f' => (f'.name, (lookup? f'.name record).getD .null) :=
      List.map_congr_left fun f' hf' => by rw [Json.lookup?_filter (hrest f' hf')]
    dsimp only [fillRecord]
    rw [Json.setMember_of_not_mem _ hname, ih hfull, hvalues, List.append_assoc]
    rfl

/-- **The record of a row** has all values under their names, in the order of the columns. There is
one exactly if all cells have values. -/
theorem recordOfRow_eq_ok_iff (hrow : row.length = fields.length)
    (hnames : (fields.map FieldOf.name).Nodup) : recordOfRow fields row = .ok record ↔
      Writable fields row ∧ record = recordOf fields row := by
  have hnodup : ((presentOf fields row).map Prod.fst).Nodup :=
    (map_fst_recordOf hrow ▸ hnames).sublist ((presentOf_sublist fields row).map Prod.fst)
  have hmembers : (presentOf fields row).foldl
      (fun acc entry => Json.setMember entry.1 entry.2 acc) [] = presentOf fields row :=
    Json.foldl_setMember hnodup
  have hlength : (recordOf fields row).length = fields.length := by
    rw [recordOf, List.length_map, List.length_zip, hrow, Nat.min_self]
  have hfilled : (if (presentOf fields row).length = fields.length then presentOf fields row
      else fillRecord fields (presentOf fields row) []) = recordOf fields row := by
    split
    · rename_i hall
      exact (presentOf_sublist fields row).eq_of_length (hall.trans hlength.symm)
    · have hzip : (fields.zip row).map Prod.fst = fields := List.map_fst_zip hrow.ge
      have hvalues : (fields.map fun f =>
          (f.name, (lookup? f.name (presentOf fields row)).getD .null)) = recordOf fields row :=
        calc (fields.map fun f => (f.name, (lookup? f.name (presentOf fields row)).getD .null))
            = ((fields.zip row).map Prod.fst).map fun f =>
                (f.name, (lookup? f.name (presentOf fields row)).getD .null) := by rw [hzip]
          _ = (fields.zip row).map fun e =>
                (e.1.name, (lookup? e.1.name (presentOf fields row)).getD .null) := List.map_map
          _ = recordOf fields row :=
              List.map_congr_left fun e he => by rw [lookup?_presentOf hrow hnames he]
      have hfields : (([] : Record).map Prod.fst ++ fields.map FieldOf.name).Nodup := hnames
      rw [fillRecord_eq hfields, hvalues, List.nil_append]
  rw [recordOfRow, Outcome.bind_eq_ok]
  constructor
  · rintro ⟨ms, hms, hrecord⟩
    obtain ⟨hwritable, rfl⟩ := members?_eq_some_iff.mp (Outcome.ofOption_eq_ok.mp hms)
    dsimp only at hrecord
    rw [hmembers, hfilled] at hrecord
    exact ⟨hwritable, (Except.ok.inj hrecord).symm⟩
  · rintro ⟨hwritable, rfl⟩
    refine ⟨_, Outcome.ofOption_eq_ok.mpr (members?_eq_some_iff.mpr ⟨hwritable, rfl⟩), ?_⟩
    dsimp only
    rw [hmembers, hfilled]

/-- The records of a table. -/
lemma toRecords_eq_map {b : Batch} (hrows : ∀ row ∈ b.rows, row.length = b.fields.length)
    (hnames : (b.fields.map FieldOf.name).Nodup)
    (hwritable : ∀ row ∈ b.rows, Writable b.fields row) :
    b.toRecords = .ok (b.rows.map (recordOf b.fields)) :=
  Outcome.mapM_eq_map fun row hrow =>
    (recordOfRow_eq_ok_iff (hrows row hrow) hnames).mpr ⟨hwritable row hrow, rfl⟩

/-- All cells of a table that has records have values. -/
lemma writable_of_toRecords {b : Batch} (hrows : ∀ row ∈ b.rows, row.length = b.fields.length)
    (hnames : (b.fields.map FieldOf.name).Nodup) {records : List Record}
    (h : b.toRecords = .ok records) : ∀ row ∈ b.rows, Writable b.fields row := fun row hrow =>
  let ⟨_, hrecord⟩ := Outcome.exists_of_mapM_eq_ok h hrow
  ((recordOfRow_eq_ok_iff (hrows row hrow) hnames).mp hrecord).1

/-! ### One column -/

/-- A name that no field has is no name of a value. -/
lemma not_mem_presentOf (h : name ∉ fields.map FieldOf.name) :
    name ∉ (presentOf fields row).map Prod.fst := by
  intro hmem
  obtain ⟨_, hentry, rfl⟩ := List.mem_map.mp hmem
  obtain ⟨e, he, rfl⟩ := List.mem_map.mp hentry
  exact h (List.mem_map_of_mem (List.of_mem_zip (List.mem_of_mem_filter he)).1)

/-- A name that no field has gets no value. -/
lemma lookup?_fillRecord_of_not_mem {full : Record} (h : name ∉ fields.map FieldOf.name) :
    lookup? name (fillRecord fields record full) = lookup? name full := by
  induction fields generalizing record full with
  | nil => rfl
  | cons f fields ih =>
    rw [List.map_cons, List.mem_cons, not_or] at h
    dsimp only [fillRecord]
    rw [ih h.2, Json.lookup?_setMember, if_neg (Ne.symm h.1)]

/-- A name that one field has gets its value, null where there is none. -/
lemma lookup?_fillRecord {full : Record} (h : (fields.map FieldOf.name).count name = 1) :
    lookup? name (fillRecord fields record full) = some ((lookup? name record).getD .null) := by
  induction fields generalizing record full with
  | nil => cases h
  | cons f fields ih =>
    rw [List.map_cons, List.count_cons] at h
    dsimp only [fillRecord]
    by_cases hname : f.name = name
    · have hrest : name ∉ fields.map FieldOf.name := by
        rw [if_pos (beq_iff_eq.mpr hname)] at h
        exact List.count_eq_zero.mp (by omega)
      rw [lookup?_fillRecord_of_not_mem hrest, Json.lookup?_setMember, if_pos hname, hname]
    · rw [if_neg (by simpa using hname)] at h
      rw [ih (by omega), Json.lookup?_filter (Ne.symm hname)]

section Column

variable {f : Field} {cell : Cell} (he : (f, cell) ∈ fields.zip row)
  (hname : (fields.map FieldOf.name).count f.name = 1)

include he hname

/-- The value of a column whose name is used once, where nulls are left out. -/
lemma lookup?_presentOf_of_count :
    lookup? f.name (presentOf fields row) =
      if cell.isNull then none else some (valueOf f.type cell) := by
  induction fields generalizing row with
  | nil => cases he
  | cons g fields ih =>
    cases row with
    | nil => cases he
    | cons c row =>
      rw [List.map_cons, List.count_cons] at hname
      rw [List.zip_cons_cons, List.mem_cons] at he
      rw [presentOf_cons]
      rcases he with heq | hrest
      · cases heq
        rw [if_pos (beq_iff_eq.mpr rfl)] at hname
        have hmissing : f.name ∉ fields.map FieldOf.name := List.count_eq_zero.mp (by omega)
        split
        · exact Json.lookup?_of_not_mem (not_mem_presentOf hmissing)
        · rw [Json.lookup?_cons, if_pos rfl]
      · have hmem : f.name ∈ fields.map FieldOf.name :=
          List.mem_map_of_mem (List.of_mem_zip hrest).1
        have hpos := List.count_pos_iff.mpr hmem
        have hother : g.name ≠ f.name := fun heq => by
          rw [if_pos (beq_iff_eq.mpr heq)] at hname
          omega
        rw [if_neg (by simpa using hother)] at hname
        split
        · exact ih hrest (by omega)
        · rw [Json.lookup?_cons, if_neg hother, ih hrest (by omega)]

/-- **The value of a column** in the record of a row, if its name is used once. -/
theorem lookup?_recordOfRow (hrow : row.length = fields.length)
    (h : recordOfRow fields row = .ok record) :
    (lookup? f.name record).getD .null = valueOf f.type cell := by
  obtain ⟨ms, hms, hrecord⟩ := Outcome.bind_eq_ok.mp h
  obtain ⟨-, rfl⟩ := members?_eq_some_iff.mp (Outcome.ofOption_eq_ok.mp hms)
  have hcount : ((presentOf fields row).map Prod.fst).count f.name ≤ 1 := by
    rw [← hname, ← map_fst_recordOf hrow]
    exact ((presentOf_sublist fields row).map Prod.fst).count_le f.name
  have hvalue : (lookup? f.name ((presentOf fields row).foldl
      (fun acc entry => Json.setMember entry.1 entry.2 acc) [])).getD .null =
        valueOf f.type cell := by
    rw [Json.lookup?_foldl_setMember hcount, lookup?_presentOf_of_count he hname]
    cases hnull : cell.isNull with
    | true => exact (valueOf_of_isNull hnull).symm
    | false => rfl
  obtain rfl := (Except.ok.inj hrecord).symm
  split
  · exact hvalue
  · rw [lookup?_fillRecord hname, Option.getD_some, hvalue]

end Column

end Batch

end Lineage
