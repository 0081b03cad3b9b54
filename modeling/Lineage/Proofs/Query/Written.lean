import Lineage.Proofs.Query.Words

set_option autoImplicit false

/-!
# Written queries

A query is written as words with one blank between each two of them: the keywords in any letter
case, the columns with commas after all but the last, comparisons by one of their signs. Its names
and literals are plain words: without marks, and no keywords.

## Main definitions

* `Lineage.Query.Plain`: queries whose names and literals can be written as they are.
* `Lineage.Query.Written`: words write a query.

## Main results

* `Lineage.Query.solid_selectionWords`, `Lineage.Query.WrittenFilter.solid`,
  `Lineage.Query.WrittenLimit.solid`: the words of each part, and which keywords they spell.
* `Lineage.Query.written_renderWords`, `Lineage.Query.intercalate_renderWords`: a printed query is
  written.
-/

namespace Lineage

/-- The signs that write a comparison. -/
def Comparison.signs : Comparison → List String
  | .eq => ["=", "=="]
  | .ne => ["!=", "<>"]
  | .le => ["<="]
  | .ge => [">="]
  | .lt => ["<"]
  | .gt => [">"]

namespace Query

/-! ### Words of queries -/

/-- The words that stand between the names and literals of queries. -/
def keywords : List String := ["SELECT", "FROM", "WHERE", "AND", "LIMIT"]

/-- The characters that separate and compare names and literals, or end a query. -/
def marks : List Char := [',', ';', '\'', '=', '!', '<', '>']

/-- A word that can stand for a name or a literal in a query: it has no blanks and no marks, and is
no keyword in any letter case. -/
structure PlainWord (w : String) : Prop where
  /-- There is a character. -/
  nonempty : w ≠ ""
  /-- There are no blanks. -/
  blank : ∀ c ∈ w.toList, Text.isBlank c = false
  /-- There are no marks. -/
  mark : ∀ c ∈ w.toList, c ∉ marks
  /-- The word is no keyword. -/
  keyword : Text.upperAscii w ∉ keywords

/-- The characters of a plain word, one after another. -/
lemma plainWord_iff {w : String} : PlainWord w ↔
    (w != "" && w.toList.all fun c => !Text.isBlank c && !marks.contains c) = true ∧
      Text.upperAscii w ∉ keywords := by
  simp only [Bool.and_eq_true, Bool.not_eq_true', bne_iff_ne, List.all_eq_true,
    List.contains_eq_mem, decide_eq_false_iff_not]
  constructor
  · exact fun h => ⟨⟨h.nonempty, fun c hc => ⟨h.blank c hc, h.mark c hc⟩⟩, h.keyword⟩
  · exact fun h => ⟨h.1.1, fun c hc => (h.1.2 c hc).1, fun c hc => (h.1.2 c hc).2, h.2⟩

instance (w : String) : Decidable (PlainWord w) := decidable_of_iff _ plainWord_iff.symm

/-- The names and literals of a query can be written as they are. -/
structure Plain (q : Query) : Prop where
  /-- There are columns, which are not the star that stands for all of them. -/
  columns : ∀ names, q.columns = some names → names ≠ [] ∧ names ≠ ["*"] ∧
    ∀ name ∈ names, PlainWord name
  /-- The table has a plain name. -/
  table : PlainWord q.table
  /-- Predicates compare columns with plain names and plain literals. -/
  predicates : ∀ p ∈ q.predicates, PlainWord p.column ∧ PlainWord p.literal
  /-- The limit is a number of 64 bits. -/
  limit : ∀ n, q.limit = some n → n < Number.word64

/-- A word spells a keyword in some letter case. -/
def Spells (keyword word : String) : Prop := Text.upperAscii word = keyword
  deriving Decidable

/-- The words for columns, all but the last with a comma. -/
def columnWords : List String → List String
  | [] => []
  | [name] => [name]
  | name :: names => (name ++ ",") :: columnWords names

/-- The words for the selected columns. -/
def selectionWords : Option (List String) → List String
  | none => ["*"]
  | some names => columnWords names

/-- Words write predicates with a keyword between each two of them. -/
inductive WrittenConditions : List Predicate → List String → Prop
  /-- One predicate. -/
  | one {p : Predicate} {sign : String} (hsign : sign ∈ p.comparison.signs) :
      WrittenConditions [p] [p.column, sign, p.literal]
  /-- A predicate in front of others. -/
  | and {p : Predicate} {ps : List Predicate} {sign word : String} {words : List String}
      (hsign : sign ∈ p.comparison.signs) (hword : Spells "AND" word)
      (rest : WrittenConditions ps words) :
      WrittenConditions (p :: ps) (p.column :: sign :: p.literal :: word :: words)

/-- Words write the clause of the predicates; there is none without predicates. -/
inductive WrittenFilter : List Predicate → List String → Prop
  /-- Every row is kept. -/
  | all : WrittenFilter [] []
  /-- Rows have to satisfy predicates. -/
  | satisfying {ps : List Predicate} {word : String} {words : List String}
      (hword : Spells "WHERE" word)
      (conditions : WrittenConditions ps words) : WrittenFilter ps (word :: words)

/-- Words write the clause of the limit. -/
inductive WrittenLimit : Option ℕ → List String → Prop
  /-- There is no limit. -/
  | unlimited : WrittenLimit none []
  /-- The limit in decimal digits. -/
  | limited {n : ℕ} {word : String} (hword : Spells "LIMIT" word) :
      WrittenLimit (some n) [word, toString n]

/-- Words write a query. -/
inductive Written : Query → List String → Prop
  /-- The clauses, one after the other. -/
  | intro {q : Query} {select source : String} {filter limit : List String}
      (hselect : Spells "SELECT" select) (hsource : Spells "FROM" source)
      (hfilter : WrittenFilter q.predicates filter) (hlimit : WrittenLimit q.limit limit) :
      Written q (select :: (selectionWords q.columns ++ [source, q.table] ++ filter ++ limit))

variable {first : List Char}

/-! ### Keywords and other words -/

/-- A plain word is a word. -/
lemma PlainWord.solid {w : String} (h : PlainWord w) : Solid w.toList where
  nonempty := fun hw => h.nonempty (String.toList_eq_nil_iff.mp hw)
  blank := h.blank
  semicolon := fun hmem => h.mark ';' hmem (by decide)

/-- A word that spells a keyword consists of its letters. -/
lemma Spells.capitals_eq {keyword word : String} (h : Spells keyword word) :
    capitals word.toList = keyword.toList := by
  rw [← h, Text.upperAscii, String.toList_ofList]
  rfl

/-- A keyword has as many letters as a word that spells it. -/
lemma Spells.length_eq {keyword word : String} (h : Spells keyword word) :
    word.toList.length = keyword.toList.length := by
  rw [← length_capitals, h.capitals_eq]

/-- A word that spells a keyword spells no other one. -/
lemma Spells.capitals_ne {keyword other word : String} (h : Spells keyword word)
    (hne : keyword ≠ other) : capitals word.toList ≠ other.toList := fun heq =>
  hne (String.toList_injective (h.capitals_eq.symm.trans heq))

/-- A word that is no keyword spells none. -/
lemma capitals_ne {word key : String} (hkey : key ∈ keywords)
    (hword : Text.upperAscii word ∉ keywords) : capitals word.toList ≠ key.toList := by
  intro h
  have hspelled : Text.upperAscii word = key := by
    rw [Text.upperAscii, ← String.ofList_toList (s := key), ← h]
    rfl
  exact hword (hspelled ▸ hkey)

/-- A word that spells a keyword is a word. -/
lemma Spells.solid {keyword word : String} (hkeyword : keyword ∈ keywords)
    (h : Spells keyword word) : Solid word.toList := by
  refine .of_capitals (h.capitals_eq ▸ ?_)
  have hall : ∀ k ∈ keywords, Solid k.toList := by decide
  exact hall keyword hkeyword

/-- Signs are words that are no keywords. -/
lemma solid_sign {comparison : Comparison} {sign : String} (h : sign ∈ comparison.signs) :
    Solid sign.toList ∧ Text.upperAscii sign ∉ keywords := by
  have hall : ∀ s ∈ comparison.signs, Solid s.toList ∧ Text.upperAscii s ∉ keywords := by
    cases comparison <;> decide
  exact hall sign h

/-- The digits of a number. -/
lemma toList_toString (n : ℕ) : (toString n).toList = Nat.toDigits 10 n := by
  rw [Nat.toString_eq_repr, Nat.repr_eq_ofList_toDigits, String.toList_ofList]

/-- The digits of a number are a word that is no keyword. -/
lemma solid_toString (n : ℕ) :
    Solid (toString n).toList ∧ Text.upperAscii (toString n) ∉ keywords := by
  have hdigit : ∀ c ∈ (toString n).toList, c.isDigit = true := fun c hc =>
    Nat.isDigit_of_mem_toDigits (by omega) (by omega) (toList_toString n ▸ hc)
  have hne : (toString n).toList ≠ [] := fun h =>
    absurd (toList_toString n ▸ h) Nat.toDigits_ne_nil
  refine ⟨⟨hne, fun c hc => (isAlpha_of_isDigit (hdigit c hc)).2,
    fun hmem => absurd (hdigit _ hmem) (by decide)⟩, fun hmem => ?_⟩
  -- A digit stays when letters are made capital, but keywords are letters only.
  obtain ⟨c, hc⟩ := List.exists_mem_of_ne_nil _ hne
  have hletters : ∀ keyword ∈ keywords, keyword.toList.all Char.isAlpha = true := by decide
  have hnone := (isAlpha_of_isDigit (hdigit c hc)).1
  have hcapital : c ∈ (Text.upperAscii (toString n)).toList := by
    rw [Text.upperAscii, String.toList_ofList]
    exact (mem_capitals hnone).mpr hc
  rw [List.all_eq_true.mp (hletters _ hmem) c hcapital] at hnone
  cases hnone

/-! ### Words of clauses -/

/-- The words for the selected columns. -/
lemma solid_selectionWords {columns : Option (List String)}
    (hcolumns : ∀ names, columns = some names → ∀ name ∈ names, PlainWord name) {w : String}
    (hw : w ∈ selectionWords columns) : Solid w.toList ∧ Text.upperAscii w ∉ keywords := by
  have hcomma : ∀ {name : String}, PlainWord name →
      Solid (name ++ ",").toList ∧ Text.upperAscii (name ++ ",") ∉ keywords := by
    intro name hname
    refine ⟨⟨by simp, fun c hc => ?_, ?_⟩, fun hmem => ?_⟩
    · rw [String.toList_append, List.mem_append] at hc
      rcases hc with hc | hc
      · exact hname.blank c hc
      · rw [List.mem_singleton.mp hc]
        rfl
    · rw [String.toList_append, List.mem_append, not_or]
      exact ⟨hname.solid.semicolon, by decide⟩
    · have hnone : ∀ keyword ∈ keywords, ',' ∉ keyword.toList := by decide
      refine hnone _ hmem ?_
      rw [Text.upperAscii, String.toList_ofList, String.toList_append]
      exact (mem_capitals rfl).mpr (List.mem_append_right _ List.mem_cons_self)
  cases columns with
  | none =>
    rw [selectionWords, List.mem_singleton] at hw
    subst hw
    exact ⟨by decide, by decide⟩
  | some names =>
    have hnames := hcolumns names rfl
    clear hcolumns
    simp only [selectionWords] at hw
    fun_induction columnWords names with
    | case1 => cases hw
    | case2 name =>
      have hname := hnames name List.mem_cons_self
      rw [List.mem_singleton.mp hw]
      exact ⟨hname.solid, hname.keyword⟩
    | case3 name names _ ih =>
      obtain ⟨hname, hrest⟩ := List.forall_mem_cons.mp hnames
      rcases List.mem_cons.mp hw with rfl | hw
      · exact hcomma hname
      · exact ih hw hrest

/-- There is a word for the selected columns. -/
lemma selectionWords_ne_nil {columns : Option (List String)}
    (hcolumns : ∀ names, columns = some names → names ≠ []) : selectionWords columns ≠ [] := by
  cases columns with
  | none => exact List.cons_ne_nil _ _
  | some names =>
    match names, hcolumns names rfl with
    | [name], _ => exact List.cons_ne_nil _ _
    | name :: next :: names, _ => exact List.cons_ne_nil _ _

/-- The words of conditions. -/
lemma WrittenConditions.solid {ps : List Predicate} {words : List String}
    (h : WrittenConditions ps words)
    (hps : ∀ p ∈ ps, PlainWord p.column ∧ PlainWord p.literal) {w : String} (hw : w ∈ words) :
    Solid w.toList ∧ (Spells "AND" w ∨ Text.upperAscii w ∉ keywords) := by
  induction h with
  | @one p sign hsign =>
    obtain ⟨hcolumn, hliteral⟩ := hps p List.mem_cons_self
    simp only [List.mem_cons, List.not_mem_nil, or_false] at hw
    rcases hw with rfl | rfl | rfl
    · exact ⟨hcolumn.solid, .inr hcolumn.keyword⟩
    · exact ⟨(solid_sign hsign).1, .inr (solid_sign hsign).2⟩
    · exact ⟨hliteral.solid, .inr hliteral.keyword⟩
  | @and p ps sign word words hsign hword _ ih =>
    obtain ⟨⟨hcolumn, hliteral⟩, hps'⟩ := List.forall_mem_cons.mp hps
    simp only [List.mem_cons] at hw
    rcases hw with rfl | rfl | rfl | rfl | hw
    · exact ⟨hcolumn.solid, .inr hcolumn.keyword⟩
    · exact ⟨(solid_sign hsign).1, .inr (solid_sign hsign).2⟩
    · exact ⟨hliteral.solid, .inr hliteral.keyword⟩
    · exact ⟨hword.solid (by decide), .inl hword⟩
    · exact ih hps' hw

/-- The words of the clause of the predicates. -/
lemma WrittenFilter.solid {ps : List Predicate} {filter : List String}
    (h : WrittenFilter ps filter) (hps : ∀ p ∈ ps, PlainWord p.column ∧ PlainWord p.literal)
    {w : String} (hw : w ∈ filter) : Solid w.toList ∧
      (Spells "WHERE" w ∨ Spells "AND" w ∨ Text.upperAscii w ∉ keywords) := by
  cases h with
  | all => cases hw
  | @satisfying _ key words hword conditions =>
    rcases List.mem_cons.mp hw with rfl | hw
    · exact ⟨hword.solid (by decide), .inl hword⟩
    · obtain ⟨hsolid, hkind⟩ := conditions.solid hps hw
      exact ⟨hsolid, .inr hkind⟩

/-- The clause of the predicates is empty or starts with its keyword. -/
lemma WrittenFilter.shape {ps : List Predicate} {filter : List String}
    (h : WrittenFilter ps filter) : filter.map String.toList = [] ∨ ∃ key next back,
      filter.map String.toList = key :: next :: back ∧ capitals key = "WHERE".toList := by
  cases h with
  | all => exact .inl rfl
  | satisfying hword conditions =>
    cases conditions <;> exact .inr ⟨_, _, _, rfl, hword.capitals_eq⟩

/-- The words of the clause of the limit. -/
lemma WrittenLimit.solid {limit : Option ℕ} {words : List String} (h : WrittenLimit limit words)
    {w : String} (hw : w ∈ words) : Solid w.toList ∧
      (Spells "LIMIT" w ∨ Text.upperAscii w ∉ keywords) := by
  cases h with
  | unlimited => cases hw
  | @limited n key hword =>
    simp only [List.mem_cons, List.not_mem_nil, or_false] at hw
    rcases hw with rfl | rfl
    · exact ⟨hword.solid (by decide), .inl hword⟩
    · exact ⟨(solid_toString n).1, .inr (solid_toString n).2⟩

/-- The clause of the limit is empty or starts with its keyword. -/
lemma WrittenLimit.shape {limit : Option ℕ} {words : List String}
    (h : WrittenLimit limit words) : words.map String.toList = [] ∨ ∃ key next back,
      words.map String.toList = key :: next :: back ∧ capitals key = "LIMIT".toList := by
  cases h with
  | unlimited => exact .inl rfl
  | limited hword => exact .inr ⟨_, _, _, rfl, hword.capitals_eq⟩

/-- Words with blanks between them. -/
lemma toList_intercalate (w : String) (words : List String) :
    (String.intercalate " " (w :: words)).toList =
      w.toList ++ spaced (words.map String.toList) := by
  rw [String.toList_intercalate]
  induction words generalizing w with
  | nil => simp
  | cons w' words ih =>
    rw [List.map_cons, List.map_cons, List.intercalate_cons_cons, ← List.map_cons, ih]
    simp

/-! ### Printed queries -/

/-- Columns as they are printed. -/
lemma toList_intercalate_columns {names : List String} (hne : names ≠ []) :
    ' ' :: (String.intercalate ", " names).toList =
      spaced ((columnWords names).map String.toList) := by
  rw [String.toList_intercalate]
  fun_induction columnWords names with
  | case1 => exact absurd rfl hne
  | case2 name => simp
  | case3 name names hrest ih =>
    obtain ⟨next, names, rfl⟩ := List.exists_cons_of_ne_nil hrest
    have hbelow := ih hrest
    rw [List.map_cons] at hbelow
    simp [List.intercalate_cons_cons, ← hbelow]

/-- The words of predicates as they are printed. -/
def conditionWords : List Predicate → List String
  | [] => []
  | [p] => [p.column, p.comparison.render, p.literal]
  | p :: ps => p.column :: p.comparison.render :: p.literal :: "AND" :: conditionWords ps

/-- Comparisons are printed with one of their signs. -/
lemma render_mem_signs (comparison : Comparison) : comparison.render ∈ comparison.signs := by
  cases comparison <;> decide

/-- Predicates are written by their printed words. -/
lemma writtenConditions_conditionWords {ps : List Predicate} (hne : ps ≠ []) :
    WrittenConditions ps (conditionWords ps) := by
  fun_induction conditionWords ps with
  | case1 => exact absurd rfl hne
  | case2 p => exact .one (render_mem_signs p.comparison)
  | case3 p ps hrest ih => exact .and (render_mem_signs p.comparison) rfl (ih hrest)

/-- Predicates as they are printed. -/
lemma toList_intercalate_conditions {ps : List Predicate} (hne : ps ≠ []) :
    ' ' :: (String.intercalate " AND " (ps.map renderPredicate)).toList =
      spaced ((conditionWords ps).map String.toList) := by
  rw [String.toList_intercalate]
  fun_induction conditionWords ps with
  | case1 => exact absurd rfl hne
  | case2 p => simp [renderPredicate]
  | case3 p ps hrest ih =>
    obtain ⟨next, ps, rfl⟩ := List.exists_cons_of_ne_nil hrest
    have hbelow := ih hrest
    rw [List.map_cons, List.map_cons] at hbelow
    simp [List.intercalate_cons_cons, renderPredicate, ← hbelow]

/-- The words of the clause of the predicates as it is printed. -/
def filterWords (ps : List Predicate) : List String :=
  if ps.isEmpty then [] else "WHERE" :: conditionWords ps

/-- The words of the clause of the limit as it is printed. -/
def limitWords : Option ℕ → List String
  | none => []
  | some n => ["LIMIT", toString n]

/-- The words of a query as it is printed. -/
def renderWords (q : Query) : List String :=
  "SELECT" :: (selectionWords q.columns ++ ["FROM", q.table] ++ filterWords q.predicates ++
    limitWords q.limit)

/-- A query is written by its printed words. -/
lemma written_renderWords (q : Query) : Written q (renderWords q) := by
  have hfilter : WrittenFilter q.predicates (filterWords q.predicates) := by
    cases hps : q.predicates with
    | nil => exact .all
    | cons p ps => exact .satisfying rfl (writtenConditions_conditionWords (List.cons_ne_nil p ps))
  have hlimit : WrittenLimit q.limit (limitWords q.limit) := by
    cases q.limit with
    | none => exact .unlimited
    | some n => exact .limited rfl
  exact .intro rfl rfl hfilter hlimit

/-- **A query is printed** as its words with a blank between each two of them. -/
theorem intercalate_renderWords {q : Query}
    (hcolumns : ∀ names, q.columns = some names → names ≠ []) :
    String.intercalate " " (renderWords q) = q.render := by
  obtain ⟨columns, table, predicates, limit⟩ := q
  have hselection : spaced ((selectionWords columns).map String.toList) = ' ' ::
      (match columns with
        | none => "*"
        | some columns => String.intercalate ", " columns).toList := by
    cases columns with
    | none => rfl
    | some names => exact (toList_intercalate_columns (hcolumns names rfl)).symm
  clear hcolumns
  have hfilter : spaced ((filterWords predicates).map String.toList) =
      (if predicates.isEmpty then ""
        else " WHERE " ++ String.intercalate " AND " (predicates.map renderPredicate)).toList := by
    cases predicates with
    | nil => rfl
    | cons p ps =>
      have hconditions := toList_intercalate_conditions (List.cons_ne_nil p ps)
      simp only [filterWords, List.isEmpty_cons, Bool.false_eq_true, if_false, List.map_cons,
        spaced_cons, String.toList_append] at hconditions ⊢
      rw [← hconditions]
      rfl
  have hlimit : spaced ((limitWords limit).map String.toList) =
      (match limit with
        | none => ""
        | some n => " LIMIT " ++ toString n).toList := by
    cases limit with
    | none => rfl
    | some n => simp [limitWords]
  refine String.toList_injective ?_
  rw [renderWords, toList_intercalate]
  simp only [List.map_append, List.map_cons, spaced_append, spaced_cons, hselection, hfilter,
    hlimit, render, String.toList_append, List.append_assoc, List.cons_append, List.nil_append]
  rfl

end Query

end Lineage
