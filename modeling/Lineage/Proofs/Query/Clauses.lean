import Lineage.Proofs.Outcome
import Lineage.Proofs.Query.Words

set_option autoImplicit false

/-!
# Clauses of queries

A text is cut into the clauses of its query at the places of its keywords. Where these are the
keywords between words, each clause is what stands between two of them.

## Main definitions

* `Lineage.Query.clausePredicates`, `Lineage.Query.clauseLimit`: what the clauses at two places say.

## Main results

* `Lineage.Query.parse_eq_clauses`: the query of a text from the places of its keywords.
* `Lineage.Query.parse_eq_of_words`: the query of a text that is laid out in words.
-/

namespace Lineage.Query

open Text (trim_of_forall)

variable {cs word first : List Char}

/-! ### Places -/

/-- The predicates of the clause at a place, up to another place. -/
def clausePredicates (place : Option ℕ) (stop : ℕ) (cs : List Char) : Outcome (List Predicate) :=
  match place with
  | none => .ok []
  | some place => do
    let clause ← cut (place + 7) (max stop (place + 7)) cs
    (splitAnd clause.length clause).mapM parsePredicate

/-- The limit of the clause at a place, up to the end. -/
def clauseLimit (place : Option ℕ) (cs : List Char) : Outcome (Option ℕ) :=
  match place with
  | none => .ok none
  | some place => do
    let number ← cut (place + 7) (max cs.length (place + 7)) cs
    (parseLimit (Text.stripChars number)).map some

/-- **The clauses of a text** make up its query, where its keywords are found and a table is
named. -/
theorem parse_eq_clauses {text : String} {selection region table : List Char} {source : ℕ}
    {condition bound : Option ℕ} (hselect : "SELECT ".toList <+: capitals (trimmed text))
    (hsource : findKeyword "FROM".toList (capitals (trimmed text)) = some source)
    (hcondition : (findKeyword "WHERE".toList (capitals (trimmed text))).filter
      (source < ·) = condition)
    (hbound : (findKeyword "LIMIT".toList (capitals (trimmed text))).filter (source < ·) = bound)
    (hselection : cut 7 source (trimmed text) = .ok selection)
    (hregion : cut (source + 6) (max ((condition <|> bound).getD (trimmed text).length)
      (source + 6)) (trimmed text) = .ok region)
    (htable : Text.stripChars region = table) (hne : table ≠ [])
    (hblank : ∀ c ∈ table, Text.isBlank c = false) :
    parse text = (do
      let predicates ← clausePredicates condition (bound.getD (trimmed text).length) (trimmed text)
      let limit ← clauseLimit bound (trimmed text)
      .ok ⟨parseColumns selection, String.ofList table, predicates, limit⟩) := by
  have hnamed : (table.isEmpty || table.any Text.isBlank) = false := by
    simpa [hne] using hblank
  rw [← List.isPrefixOf_iff_prefix] at hselect
  have hlength : "SELECT ".toList.length = 7 := rfl
  unfold parse
  generalize trimmed text = cs at *
  simp only [hselect, hsource, hlength, hselection, hcondition, hbound, hregion, htable, hnamed,
    Bool.not_true, Bool.false_eq_true, if_false, Outcome.ok_bind]
  cases condition <;> cases bound <;>
    simp only [clausePredicates, clauseLimit, Outcome.ok_bind, bind_assoc]

/-- The part of a text between two others. -/
lemma cut_eq {mid : List Char} (pre post : List Char) {start stop : ℕ}
    (hcs : cs = pre ++ (mid ++ post)) (hstart : pre.length = start)
    (hstop : start + mid.length = stop) :
    cut start stop cs = .ok mid := by
  subst hcs hstart hstop
  rw [cut, if_pos (Nat.le_add_right _ _), List.drop_left, Nat.add_sub_cancel_left, List.take_left]

/-! ### Words -/

/-- The place of a clause, if it has words. -/
def clausePlace (clause : List (List Char)) (place : ℕ) : Option ℕ :=
  match clause with
  | [] => none
  | _ :: _ => some place

/-- A clause is found after words that do not spell its keyword. -/
lemma findKeyword_clause {front clause later : List (List Char)} (hword : ' ' ∉ word)
    (hfirst : ' ' ∉ first) (hfront : ∀ w ∈ front, ' ' ∉ w ∧ capitals w ≠ word)
    (hclause : clause = [] ∨ ∃ key next back, clause = key :: next :: back ∧ capitals key = word)
    (hlater : clause = [] → ∀ w ∈ later, ' ' ∉ w ∧ capitals w ≠ word) :
    findKeyword word (capitals (first ++ spaced (front ++ clause ++ later))) =
      clausePlace clause (first ++ spaced front).length := by
  rcases hclause with rfl | ⟨key, next, back, rfl, hkey⟩
  · rw [List.append_nil]
    exact findKeyword_capitals_eq_none hword hfirst
      (List.forall_mem_append.mpr ⟨hfront, hlater rfl⟩)
  · rw [List.append_assoc]
    exact findKeyword_capitals hword hfirst hfront hkey

/-- The text of a clause without its keyword, between what stands around it. -/
lemma cut_clause {pre post key next : List Char} {back : List (List Char)} {stop : ℕ}
    (hkey : key.length = 5) (hcs : cs = pre ++ (spaced (key :: next :: back) ++ post))
    (hstop : pre.length + (spaced (key :: next :: back)).length = stop) :
    cut (pre.length + 7) (max stop (pre.length + 7)) cs = .ok (next ++ spaced back) := by
  refine cut_eq (pre ++ ' ' :: key ++ [' ']) post (by simp [hcs]) ?_ ?_
  · simp only [List.length_append, List.length_cons, List.length_nil, hkey]
  · subst hstop
    simp only [spaced_cons, List.length_append, List.length_cons, hkey]
    omega

/-- Places of clauses behind another place stay. -/
lemma filter_clausePlace {source place : ℕ} (h : source < place) (clause : List (List Char)) :
    (clausePlace clause place).filter (source < ·) = clausePlace clause place := by
  cases clause with
  | nil => rfl
  | cons w clause => exact Option.filter_some_pos (by simpa using h)

/-- The table ends where the first clause starts. -/
lemma place_getD {filter limit : List (List Char)} {place : ℕ} :
    (clausePlace filter place <|> clausePlace limit (place + (spaced filter).length)).getD
      (place + (spaced filter).length + (spaced limit).length) = place := by
  cases filter <;> cases limit <;> simp [clausePlace]

/-- The clause of the predicates ends where the clause of the limit starts. -/
lemma place_limit_getD {limit : List (List Char)} {place : ℕ} :
    (clausePlace limit place).getD (place + (spaced limit).length) = place := by
  cases limit <;> simp [clausePlace]

/-- **The query of a text that is laid out in words**: its columns, its table and what its clauses
say. -/
theorem parse_eq_of_words {text : String} {select column source table front : List Char}
    {columns filter limit : List (List Char)}
    (hfront : select ++ spaced (column :: columns ++ [source, table]) = front)
    (htext : trimmed text = front ++ (spaced filter ++ spaced limit))
    (hselect : capitals select = "SELECT".toList) (hsource : source.length = 4)
    (htable : Solid table)
    (hfrom : findKeyword "FROM".toList (capitals (trimmed text)) =
      some (select ++ spaced (column :: columns)).length)
    (hwhere : findKeyword "WHERE".toList (capitals (trimmed text)) =
      clausePlace filter front.length)
    (hlimit : findKeyword "LIMIT".toList (capitals (trimmed text)) =
      clausePlace limit (front.length + (spaced filter).length)) :
    parse text = (do
      let predicates ← clausePredicates (clausePlace filter front.length)
        (front.length + (spaced filter).length) (trimmed text)
      let limit ← clauseLimit (clausePlace limit (front.length + (spaced filter).length))
        (trimmed text)
      .ok ⟨parseColumns (column ++ spaced columns), String.ofList table, predicates, limit⟩) := by
  have hsix : select.length = 6 := by
    rw [← length_capitals, hselect]
    rfl
  have hstands : "SELECT ".toList <+: capitals (trimmed text) := by
    rw [htext, ← hfront, capitals_append, capitals_append, hselect]
    exact ⟨capitals (column ++ spaced (columns ++ [source, table])) ++
      capitals (spaced filter ++ spaced limit), by simp⟩
  have hend : (trimmed text).length =
      front.length + (spaced filter).length + (spaced limit).length := by
    rw [htext, List.length_append, List.length_append, Nat.add_assoc]
  have hselection : cut 7 (select ++ spaced (column :: columns)).length (trimmed text) =
      .ok (column ++ spaced columns) := by
    refine cut_eq (select ++ [' ']) (spaced [source, table] ++ (spaced filter ++ spaced limit)) ?_
      ?_ ?_
    · simp [htext, ← hfront]
    · simp [hsix]
    · simp only [spaced_cons, List.length_append, List.length_cons, hsix]
      omega
  have hlater : (select ++ spaced (column :: columns)).length + 6 + table.length =
      front.length := by
    simp only [← hfront, spaced_append, spaced_cons, spaced_nil, List.length_append,
      List.length_cons, List.length_nil, hsource]
    omega
  have hregion : cut ((select ++ spaced (column :: columns)).length + 6)
      (max front.length ((select ++ spaced (column :: columns)).length + 6)) (trimmed text) =
        .ok table := by
    refine cut_eq (select ++ spaced (column :: columns) ++ ' ' :: source ++ [' '])
      (spaced filter ++ spaced limit) ?_ ?_ (by omega)
    · simp [htext, ← hfront]
    · simp only [List.length_append, List.length_cons, List.length_nil, hsource]
  rw [parse_eq_clauses hstands hfrom (by rw [hwhere, filter_clausePlace (by omega)])
    (by rw [hlimit, filter_clausePlace (by omega)]) hselection
    (by rw [hend, place_getD]; exact hregion) (trim_of_forall htable.blank).stripChars_eq
    htable.nonempty htable.blank, hend, place_limit_getD]

end Lineage.Query
