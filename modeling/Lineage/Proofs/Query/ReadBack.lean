import Lineage.Proofs.Query.Clauses
import Lineage.Proofs.Query.Predicates

set_option autoImplicit false

/-!
# Reading written queries

Reading gives back the query that a text writes, if its names and literals are plain words.

## Main results

* `Lineage.Query.parseColumns_selectionWords`, `Lineage.Query.WrittenFilter.clausePredicates_eq`,
  `Lineage.Query.WrittenLimit.clauseLimit_eq`: the parts are read back.
* `Lineage.Query.parse_of_written`: a written query is read back.
-/

namespace Lineage.Query

open Text (trim_of_forall)

variable {cs first : List Char}

/-! ### Columns -/

/-- A blank in front of pieces does not matter once they are stripped. -/
lemma map_stripChars_splitChars_cons (cs : List Char) :
    (Text.splitChars ',' (' ' :: cs)).map Text.stripChars =
      (Text.splitChars ',' cs).map Text.stripChars := by
  obtain ⟨piece, pieces, hpieces⟩ := List.exists_cons_of_ne_nil (Text.splitChars_ne_nil ',' cs)
  rw [Text.splitChars, if_neg (by decide), hpieces]
  dsimp only
  rw [List.map_cons, List.map_cons, Text.stripChars_cons]

/-- The words for columns are cut at their commas. -/
lemma splitChars_columnWords {names : List String} (hne : names ≠ [])
    (hnames : ∀ name ∈ names, PlainWord name) :
    Text.splitChars ',' (spaced ((columnWords names).map String.toList)) =
      names.map fun name => ' ' :: name.toList := by
  have hcomma : ∀ name ∈ names, ',' ∉ ' ' :: name.toList := by
    intro name hname hmem
    rcases List.mem_cons.mp hmem with heq | hmem
    · exact absurd heq (by decide)
    · exact (hnames name hname).mark _ hmem (by decide)
  fun_induction columnWords names with
  | case1 => exact absurd rfl hne
  | case2 name =>
    have hsingle := Text.splitChars_of_not_mem (hcomma name List.mem_cons_self)
    simpa using hsingle
  | case3 name names hrest ih =>
    obtain ⟨hname, hcomma'⟩ := List.forall_mem_cons.mp hcomma
    have htext : spaced (((name ++ ",") :: columnWords names).map String.toList) =
        (' ' :: name.toList) ++ ',' :: spaced ((columnWords names).map String.toList) := by
      simp
    rw [htext, Text.splitChars_append_cons hname, ih hrest
      (fun n hn => hnames n (List.mem_cons_of_mem _ hn)) hcomma', List.map_cons]

/-- **The selected columns are read back.**

**Proof sketch.** The words are cut at their commas again, each with a blank in front that is
dropped. -/
lemma parseColumns_selectionWords {columns : Option (List String)}
    (hcolumns : ∀ names, columns = some names → names ≠ [] ∧ names ≠ ["*"] ∧
      ∀ name ∈ names, PlainWord name) {rest : List (List Char)}
    (hwords : (selectionWords columns).map String.toList = first :: rest) :
    parseColumns (first ++ spaced rest) = columns := by
  cases columns with
  | none =>
    obtain ⟨rfl, rfl⟩ := List.cons.inj hwords
    rfl
  | some names =>
    obtain ⟨hne, hstar, hnames⟩ := hcolumns names rfl
    have hsolid : ∀ w ∈ first :: rest, Solid w := by
      rw [← hwords, List.forall_mem_map]
      exact fun w hw => (solid_selectionWords (fun names hn => (hcolumns names hn).2.2) hw).1
    obtain ⟨hfirst, hrest⟩ := List.forall_mem_cons.mp hsolid
    have hpieces : (Text.splitChars ',' (first ++ spaced rest)).map
        (fun piece => String.ofList (Text.stripChars piece)) = names := by
      have hsplit := splitChars_columnWords hne hnames
      rw [show (columnWords names).map String.toList = first :: rest from hwords,
        spaced_cons] at hsplit
      have hstripped := map_stripChars_splitChars_cons (first ++ spaced rest)
      rw [hsplit, List.map_map] at hstripped
      calc (Text.splitChars ',' (first ++ spaced rest)).map
            (fun piece => String.ofList (Text.stripChars piece))
          = ((Text.splitChars ',' (first ++ spaced rest)).map Text.stripChars).map
              String.ofList := by rw [List.map_map]; rfl
        _ = names.map fun name => String.ofList (Text.stripChars (' ' :: name.toList)) := by
            rw [← hstripped, List.map_map]; rfl
        _ = names := by
            refine (List.map_congr_left fun name hname => ?_).trans (List.map_id names)
            rw [(trim_of_forall (hnames name hname).blank).stripChars_cons, String.ofList_toList,
              id_eq]
    have hmany : first ++ spaced rest ≠ ['*'] := by
      intro h
      rw [h] at hpieces
      exact hstar hpieces.symm
    rw [parseColumns, (trim_spaced hfirst hrest).stripChars_eq, if_neg hmany, hpieces]

/-! ### Conditions and limits -/

/-- **The clause of the predicates is read back.**

**Proof sketch.** The clause is what stands between the two places, and is cut into its
conditions again. -/
lemma WrittenFilter.clausePredicates_eq {ps : List Predicate} {filter : List String}
    (h : WrittenFilter ps filter) (hps : ∀ p ∈ ps, PlainWord p.column ∧ PlainWord p.literal)
    {pre post : List Char} (hcs : cs = pre ++ (spaced (filter.map String.toList) ++ post)) :
    clausePredicates (clausePlace (filter.map String.toList) pre.length)
      (pre.length + (spaced (filter.map String.toList)).length) cs = .ok ps := by
  cases h with
  | all => rfl
  | @satisfying _ key words hword conditions =>
    obtain ⟨next, back, hnext⟩ : ∃ next back, words.map String.toList = next :: back := by
      cases conditions <;> exact ⟨_, _, rfl⟩
    have hfuel : back.length ≤ (next ++ spaced back).length := by
      have := length_le_length_spaced back
      simp only [List.length_append]
      omega
    rw [List.map_cons, hnext] at hcs ⊢
    simp only [clausePlace, clausePredicates]
    rw [cut_clause hword.length_eq hcs rfl, Outcome.ok_bind]
    exact conditions.mapM_splitAnd hps hnext hfuel

/-- Digits only make a number greater. -/
lemma le_ofDigitChars (n : ℕ) (cs : List Char) : n ≤ Nat.ofDigitChars 10 cs n := by
  rw [Nat.ofDigitChars_eq_ofDigitChars_zero]
  exact Nat.le_add_right_of_le (Nat.le_mul_of_pos_left n (Nat.pow_pos (by omega)))

/-- Digits are read as the number that they write. -/
lemma readLimit_eq {n : ℕ} (hdigits : ∀ c ∈ cs, c.isDigit = true)
    (hbound : Nat.ofDigitChars 10 cs n < Number.word64) :
    readLimit n cs = .ok (Nat.ofDigitChars 10 cs n) := by
  induction cs generalizing n with
  | nil => rfl
  | cons c cs ih =>
    obtain ⟨hc, hcs⟩ := List.forall_mem_cons.mp hdigits
    have hdigit : Number.isDigit c = true := by
      simpa [Number.isDigit, Char.isDigit, Char.le_def] using hc
    rw [Nat.ofDigitChars_cons] at hbound ⊢
    have hnext : 10 * n + Number.digitValue c < Number.word64 :=
      Nat.lt_of_le_of_lt (le_ofDigitChars _ cs) hbound
    rw [readLimit, hdigit]
    simp only [Bool.not_true, Bool.false_eq_true, if_false, if_pos hnext]
    exact ih hcs hbound

/-- **A limit is read back.** -/
lemma parseLimit_toString {n : ℕ} (hn : n < Number.word64) :
    parseLimit (toString n).toList = .ok n := by
  have hdigits : ∀ c ∈ Nat.toDigits 10 n, c.isDigit = true := fun c =>
    Nat.isDigit_of_mem_toDigits (by omega) (by omega)
  have hread := readLimit_eq (n := 0) hdigits
  rw [Nat.ofDigitChars_ten_toDigits] at hread
  obtain ⟨c, ds, hds⟩ := List.exists_cons_of_ne_nil (Nat.toDigits_ne_nil (n := n) (b := 10))
  have hplus : c ≠ '+' := by
    rintro rfl
    exact absurd (hdigits '+' (hds ▸ List.mem_cons_self)) (by decide)
  rw [toList_toString, hds]
  rw [hds] at hread
  simp [parseLimit, hplus, hread hn]

/-- **The clause of the limit is read back.** -/
lemma WrittenLimit.clauseLimit_eq {limit : Option ℕ} {words : List String}
    (h : WrittenLimit limit words) (hlimit : ∀ n, limit = some n → n < Number.word64)
    {pre : List Char} {place : ℕ} (hcs : cs = pre ++ spaced (words.map String.toList))
    (hplace : pre.length = place) :
    clauseLimit (clausePlace (words.map String.toList) place) cs = .ok limit := by
  subst hplace
  cases h with
  | unlimited => rfl
  | @limited n key hword =>
    have htext : cs = pre ++ (spaced [key.toList, (toString n).toList] ++ []) := by simp [hcs]
    have hcut := cut_clause hword.length_eq htext rfl
    have hlength : cs.length =
        pre.length + (spaced [key.toList, (toString n).toList]).length := by
      rw [hcs, List.length_append]
      rfl
    rw [← hlength, spaced_nil, List.append_nil] at hcut
    simp only [List.map_cons, List.map_nil, clausePlace, clauseLimit]
    rw [hcut, Outcome.ok_bind, (trim_of_forall (solid_toString n).1.blank).stripChars_eq,
      parseLimit_toString (hlimit n rfl)]
    rfl

/-! ### Keywords -/

/-- The words up to the table, after the first one. -/
def frontWords (q : Query) (source : String) : List String :=
  selectionWords q.columns ++ [source, q.table]

section Clauses

variable {q : Query} {select source : String} {filter limit : List String}

/-- The words up to the table. -/
lemma solid_frontWords (hq : q.Plain) (hsource : Spells "FROM" source) {w : String}
    (hw : w ∈ frontWords q source) :
    Solid w.toList ∧ (Spells "FROM" w ∨ Text.upperAscii w ∉ keywords) := by
  rw [frontWords, List.mem_append, List.mem_cons, List.mem_singleton] at hw
  rcases hw with hw | rfl | rfl
  · obtain ⟨hsolid, hkeyword⟩ := solid_selectionWords (fun names hn => (hq.columns names hn).2.2) hw
    exact ⟨hsolid, .inr hkeyword⟩
  · exact ⟨hsource.solid (by decide), .inl hsource⟩
  · exact ⟨hq.table.solid, .inr hq.table.keyword⟩

/-- Words with blanks between them have the table in front of the clauses. -/
lemma spaced_clauses (front filter limit : List String) :
    spaced ((front ++ filter ++ limit).map String.toList) =
      spaced (front.map String.toList) ++
        (spaced (filter.map String.toList) ++ spaced (limit.map String.toList)) := by
  simp [List.append_assoc]

/-- The clause of the predicates is found, if there is one. -/
lemma findKeyword_where (hq : q.Plain) (hsource : Spells "FROM" source)
    (hfilter : WrittenFilter q.predicates filter) (hlimit : WrittenLimit q.limit limit)
    (hfirst : Solid first) :
    findKeyword "WHERE".toList (capitals (first ++
      spaced ((frontWords q source ++ filter ++ limit).map String.toList))) =
        clausePlace (filter.map String.toList)
          (first ++ spaced ((frontWords q source).map String.toList)).length := by
  rw [List.map_append, List.map_append]
  refine findKeyword_clause (by decide) hfirst.not_mem ?_ ?_ fun _ => ?_
  · rw [List.forall_mem_map]
    intro w hw
    obtain ⟨hsolid, hkind⟩ := solid_frontWords hq hsource hw
    exact ⟨hsolid.not_mem, hkind.elim (fun h => h.capitals_ne (by decide))
      (capitals_ne (by decide))⟩
  · exact hfilter.shape
  · rw [List.forall_mem_map]
    intro w hw
    obtain ⟨hsolid, hkind⟩ := hlimit.solid hw
    exact ⟨hsolid.not_mem, hkind.elim (fun h => h.capitals_ne (by decide))
      (capitals_ne (by decide))⟩

/-- The clause of the limit is found, if there is one. -/
lemma findKeyword_limit (hq : q.Plain) (hsource : Spells "FROM" source)
    (hfilter : WrittenFilter q.predicates filter) (hlimit : WrittenLimit q.limit limit)
    (hfirst : Solid first) :
    findKeyword "LIMIT".toList (capitals (first ++
      spaced ((frontWords q source ++ filter ++ limit).map String.toList))) =
        clausePlace (limit.map String.toList)
          ((first ++ spaced ((frontWords q source).map String.toList)).length +
            (spaced (filter.map String.toList)).length) := by
  have hplace : (first ++ spaced ((frontWords q source).map String.toList)).length +
      (spaced (filter.map String.toList)).length =
        (first ++ spaced ((frontWords q source ++ filter).map String.toList)).length := by
    rw [List.map_append, spaced_append, ← List.append_assoc, ← List.length_append]
  rw [hplace, List.map_append, ← List.append_nil (limit.map String.toList), ← List.append_assoc]
  refine (findKeyword_clause (by decide) hfirst.not_mem ?_ ?_ fun _ w hw => by cases hw).trans
    (by rw [List.append_nil])
  · rw [List.forall_mem_map]
    intro w hw
    rcases List.mem_append.mp hw with hw | hw
    · obtain ⟨hsolid, hkind⟩ := solid_frontWords hq hsource hw
      exact ⟨hsolid.not_mem, hkind.elim (fun h => h.capitals_ne (by decide))
        (capitals_ne (by decide))⟩
    · obtain ⟨hsolid, hkind⟩ := hfilter.solid hq.predicates hw
      exact ⟨hsolid.not_mem, hkind.elim (fun h => h.capitals_ne (by decide)) fun hkind =>
        hkind.elim (fun h => h.capitals_ne (by decide)) (capitals_ne (by decide))⟩
  · exact hlimit.shape

/-- The table is found. -/
lemma findKeyword_from (hq : q.Plain) (hsource : Spells "FROM" source) (hfirst : Solid first)
    (later : List String) :
    findKeyword "FROM".toList (capitals (first ++
      spaced ((frontWords q source ++ later).map String.toList))) =
        some (first ++ spaced ((selectionWords q.columns).map String.toList)).length := by
  have hwords : (frontWords q source ++ later).map String.toList =
      (selectionWords q.columns).map String.toList ++
        source.toList :: q.table.toList :: later.map String.toList := by
    simp [frontWords]
  rw [hwords]
  refine findKeyword_capitals (by decide) hfirst.not_mem ?_ hsource.capitals_eq
  rw [List.forall_mem_map]
  intro w hw
  obtain ⟨hsolid, hkeyword⟩ := solid_selectionWords (fun names hn => (hq.columns names hn).2.2) hw
  exact ⟨hsolid.not_mem, capitals_ne (by decide) hkeyword⟩

end Clauses

/-! ### Queries -/

/-- **A written query is read back**, also with a semicolon at the end.

**Proof sketch.** The text consists of solid words with single blanks between them. No word in
front of a keyword is that keyword, so each keyword is found at its own place
(`findKeyword_from`, `findKeyword_where`, `findKeyword_limit`); and what is cut out between
these places are the columns, the predicates and the limit, which are read back one by one. -/
theorem parse_of_written {q : Query} (hq : q.Plain) {words : List String} (h : Written q words)
    {ending : String} (hending : ending = "" ∨ ending = ";") :
    parse (String.intercalate " " words ++ ending) = .ok q := by
  obtain @⟨select, source, filter, limit, hselect, hsource, hfilter, hlimit⟩ := h
  have hfirst : Solid select.toList := hselect.solid (by decide)
  have hsolid : ∀ w ∈ (frontWords q source ++ filter ++ limit).map String.toList, Solid w := by
    simp only [List.forall_mem_map, List.mem_append]
    rintro w ((hw | hw) | hw)
    · exact (solid_frontWords hq hsource hw).1
    · exact (hfilter.solid hq.predicates hw).1
    · exact (hlimit.solid hw).1
  have htext : trimmed (String.intercalate " " (select ::
      (frontWords q source ++ filter ++ limit)) ++ ending) = select.toList ++
        spaced ((frontWords q source ++ filter ++ limit).map String.toList) :=
    trimmed_spaced hfirst hsolid hending (by rw [String.toList_append, toList_intercalate])
  have hfrom := findKeyword_from hq hsource hfirst (filter ++ limit)
  have hwhere := findKeyword_where hq hsource hfilter hlimit hfirst
  have hbound := findKeyword_limit hq hsource hfilter hlimit hfirst
  rw [← List.append_assoc] at hfrom
  rw [← htext] at hfrom hwhere hbound
  obtain ⟨column, columns, hcolumns⟩ : ∃ column columns,
      (selectionWords q.columns).map String.toList = column :: columns :=
    List.exists_cons_of_ne_nil fun hnil =>
      selectionWords_ne_nil (fun names hn => (hq.columns names hn).1) (List.map_eq_nil_iff.mp hnil)
  have hfront : (frontWords q source).map String.toList =
      column :: columns ++ [source.toList, q.table.toList] := by
    rw [frontWords, List.map_append, hcolumns]
    rfl
  rw [hcolumns] at hfrom
  rw [hfront] at hwhere hbound
  rw [spaced_clauses, hfront, ← List.append_assoc] at htext
  have hread := parse_eq_of_words rfl htext hselect.capitals_eq hsource.length_eq hq.table.solid
    hfrom hwhere hbound
  rw [hfilter.clausePredicates_eq hq.predicates htext, Outcome.ok_bind,
    hlimit.clauseLimit_eq hq.limit (by rw [htext, ← List.append_assoc]) List.length_append,
    Outcome.ok_bind, parseColumns_selectionWords hq.columns hcolumns, String.ofList_toList] at hread
  exact hread

/-- A query with two columns, two predicates and a limit, whose keywords are written in several
letter cases. -/
theorem parse_of_written_people :
    parse "select name, age From people WHERE age >= 18 and city <> Paris limit 10;" =
      .ok ⟨some ["name", "age"], "people", [⟨"age", .ge, "18"⟩, ⟨"city", .ne, "Paris"⟩],
        some 10⟩ := by
  have hplain : ∀ w ∈ ["name", "age", "people", "18", "city", "Paris"], PlainWord w := by decide
  have hq : Plain ⟨some ["name", "age"], "people", [⟨"age", .ge, "18"⟩, ⟨"city", .ne, "Paris"⟩],
      some 10⟩ := by
    refine ⟨?_, hplain _ (by decide), ?_, ?_⟩
    · rintro names ⟨⟩
      exact ⟨by decide, by decide, fun name hname => hplain name (by revert name; decide)⟩
    · simp only [List.forall_mem_cons]
      exact ⟨⟨hplain _ (by decide), hplain _ (by decide)⟩,
        ⟨hplain _ (by decide), hplain _ (by decide)⟩, fun p hp => by cases hp⟩
    · rintro n ⟨⟩
      decide
  have hwritten : Written ⟨some ["name", "age"], "people", [⟨"age", .ge, "18"⟩,
      ⟨"city", .ne, "Paris"⟩], some 10⟩ ("select" :: (["name,", "age"] ++ ["From", "people"] ++
        ["WHERE", "age", ">=", "18", "and", "city", "<>", "Paris"] ++ ["limit", "10"])) :=
    .intro (by decide) (by decide)
      (.satisfying (by decide) (.and (by decide) (by decide) (.one (by decide))))
      (.limited (by decide))
  have htext : String.intercalate " " ("select" :: (["name,", "age"] ++ ["From", "people"] ++
      ["WHERE", "age", ">=", "18", "and", "city", "<>", "Paris"] ++ ["limit", "10"])) ++ ";" =
        "select name, age From people WHERE age >= 18 and city <> Paris limit 10;" := by decide
  rw [← htext]
  exact parse_of_written hq hwritten (.inr rfl)

end Lineage.Query
