import Lineage.Proofs.Query.Clauses
import Lineage.Proofs.Query.Predicates

set_option autoImplicit false

/-!
# Conditions on texts

The query for the rows that have a text in a column, with the text between quotes. The searches for
keywords and signs do not stop at quotes: what they find in the query is what they find in the text,
and where they find nothing the text is what stands between the quotes.

## Main definitions

* `Lineage.Query.equalsText`: the query for the rows that have a text in a column.
* `Lineage.Query.conditionText`: its condition.

## Main results

* `Lineage.Query.parse_equalsText`: the query up to its condition is always read in the same way.
* `Lineage.Query.parsePredicate_of_longSign`, `Lineage.Query.parsePredicate_of_no_longSign`: how a
  condition is read, by whether a sign of two characters stands after its quote.
-/

namespace Lineage.Query

open Text (trim_of_forall)

variable {name value : String} {cs word first rest : List Char} {c : Char}

/-- The text of the query for the rows that have a text in a column. -/
def equalsText (name value : String) : String :=
  "SELECT * FROM self WHERE " ++ name ++ " = '" ++ value ++ "'"

/-- A word that can stand for a column in front of a sign: it has no blanks and no characters of
signs. -/
structure ColumnWord (w : String) : Prop where
  /-- There is a character. -/
  nonempty : w ≠ ""
  /-- There are no blanks. -/
  blank : ∀ c ∈ w.toList, Text.isBlank c = false
  /-- There are no characters of signs. -/
  sign : ∀ c ∈ w.toList, c ∉ ['=', '!', '<', '>']

/-- The signs of two characters, which are looked for first. -/
def longSigns : List (List Char) :=
  [['=', '='], ['!', '='], ['<', '>'], ['<', '='], ['>', '=']]

/-- The condition of the query. -/
def conditionText (name value : String) : List Char :=
  name.toList ++ (" = '".toList ++ (value.toList ++ ['\'']))

/-! ### Keywords -/

/-- Between quotes after a sign, a keyword is found only in the text. -/
lemma findKeyword_quoted (hword : ∃ w ws, word = w :: ws ∧ w ≠ '=' ∧ w ≠ '\'')
    (hquote : '\'' ∉ word) (cs : List Char) :
    findKeyword word (" = '".toList ++ (cs ++ ['\''])) = (findKeyword word cs).map (· + 4) := by
  obtain ⟨w, ws, rfl, hsign, hstart⟩ := hword
  have hfirst : ¬ ' ' :: (w :: ws) ++ [' '] <+: ' ' :: '=' :: ' ' :: '\'' :: (cs ++ ['\'']) := by
    simp [List.cons_prefix_cons, hsign]
  have hsecond : ¬ ' ' :: (w :: ws) ++ [' '] <+: '=' :: ' ' :: '\'' :: (cs ++ ['\'']) := by
    simp [List.cons_prefix_cons]
  have hthird : ¬ ' ' :: (w :: ws) ++ [' '] <+: ' ' :: '\'' :: (cs ++ ['\'']) := by
    simp [List.cons_prefix_cons, hstart]
  have hfourth : ¬ ' ' :: (w :: ws) ++ [' '] <+: '\'' :: (cs ++ ['\'']) := by
    simp [List.cons_prefix_cons]
  have hapart : ∀ c ∈ ' ' :: (w :: ws) ++ [' '], c ∉ ['\''] := by
    intro c hc hmem
    obtain rfl := List.mem_singleton.mp hmem
    simp only [List.mem_append, List.mem_cons, List.not_mem_nil, or_false] at hc hquote
    rcases hc with (hc | hc) | hc
    · exact absurd hc (by decide)
    · exact hquote hc
    · exact absurd hc (by decide)
  have htext : " = '".toList ++ (cs ++ ['\'']) = ' ' :: '=' :: ' ' :: '\'' :: (cs ++ ['\'']) := rfl
  rw [htext, findKeyword, findText_cons_of_not_starts hfirst, findText_cons_of_not_starts hsecond,
    findText_cons_of_not_starts hthird, findText_cons_of_not_starts hfourth,
    findText_append_right (by simp) hapart]
  simp only [Option.map_map]
  rfl

/-- The condition in capital letters. -/
lemma capitals_conditionText (name value : String) : capitals (conditionText name value) =
    capitals name.toList ++ (" = '".toList ++ (capitals value.toList ++ ['\''])) := by
  rw [conditionText, capitals_append, capitals_append, capitals_append]
  rfl

/-- A keyword is found in the condition where it is found in the text. -/
lemma findKeyword_conditionText (hname : ColumnWord name)
    (hword : ∃ w ws, word = w :: ws ∧ w ≠ '=' ∧ w ≠ '\'') (hquote : '\'' ∉ word) :
    findKeyword word (capitals (conditionText name value)) =
      (findKeyword word (capitals value.toList)).map
        (· + (name.toList ++ " = '".toList).length) := by
  have hblank : ' ' ∉ capitals name.toList := fun hmem =>
    absurd (hname.blank ' ' ((mem_capitals rfl).mp hmem)) (by decide)
  have hpassed : findKeyword word (capitals name.toList ++
      (" = '".toList ++ (capitals value.toList ++ ['\'']))) =
        (findKeyword word (" = '".toList ++ (capitals value.toList ++ ['\'']))).map
          (· + (capitals name.toList).length) :=
    findText_append_of_not_mem hblank
  rw [capitals_conditionText, hpassed, findKeyword_quoted hword hquote, Option.map_map]
  congr 1
  funext n
  have hfour : " = '".toList.length = 4 := rfl
  simp only [Function.comp_apply, length_capitals, List.length_append, hfour]
  omega

/-- A keyword is found after a blank and the condition if it is the column or in the text. -/
lemma findKeyword_cons_conditionText_eq_none_iff (hname : ColumnWord name)
    (hword : ∃ w ws, word = w :: ws ∧ w ≠ '=' ∧ w ≠ '\'') (hquote : '\'' ∉ word)
    (hblank : ' ' ∉ word) :
    findKeyword word (' ' :: capitals (conditionText name value)) = none ↔
      capitals name.toList ≠ word ∧ ¬(' ' :: word ++ [' ']) <:+: capitals value.toList := by
  have hname' : ' ' ∉ capitals name.toList := fun hmem =>
    absurd (hname.blank ' ' ((mem_capitals rfl).mp hmem)) (by decide)
  by_cases hcolumn : capitals name.toList = word
  · have hfound : findKeyword word (' ' :: capitals (conditionText name value)) = some 0 := by
      refine findText_of_starts ⟨'=' :: ' ' :: '\'' :: (capitals value.toList ++ ['\'']), ?_⟩
      rw [capitals_conditionText, hcolumn]
      simp
    simp [hfound, hcolumn]
  · have hhead : ∀ x ∈ (" = '".toList ++ (capitals value.toList ++ ['\''])).head?, x = ' ' :=
      fun x hx => (Option.mem_some_iff.mp hx).symm
    rw [capitals_conditionText, findKeyword_cons_of_ne hblank hname' (Ne.symm hcolumn) hhead,
      findKeyword_quoted hword hquote, Option.map_eq_none_iff, Option.map_eq_none_iff, findKeyword,
      findText_eq_none_iff]
    exact (and_iff_right hcolumn).symm

/-! ### Clauses -/

/-- The query up to its condition. -/
def selectionText : List Char :=
  "SELECT".toList ++ spaced ["*".toList, "FROM".toList, "self".toList, "WHERE".toList]

/-- The text in front of the condition. -/
lemma toList_selection : "SELECT * FROM self WHERE ".toList = selectionText ++ [' '] := by decide

/-- The query ends with its condition. -/
lemma toList_equalsText (name value : String) :
    (equalsText name value).toList = selectionText ++ ' ' :: conditionText name value := by
  have hquote : "'".toList = ['\''] := rfl
  unfold equalsText conditionText
  rw [String.toList_append, String.toList_append, String.toList_append, String.toList_append,
    toList_selection, hquote, List.append_assoc, List.append_assoc, List.append_assoc,
    List.append_assoc, List.singleton_append]

/-- The condition ends with a quote. -/
lemma conditionText_eq_concat (name value : String) : conditionText name value =
    (name.toList ++ (" = '".toList ++ value.toList)) ++ ['\''] := by
  rw [conditionText, List.append_assoc, List.append_assoc]

/-- Nothing is cut off the query. -/
lemma trimmed_equalsText (name value : String) :
    trimmed (equalsText name value) = selectionText ++ ' ' :: conditionText name value := by
  have hlast : ∀ x ∈ (selectionText ++ ' ' :: conditionText name value).getLast?, x = '\'' := by
    intro x hx
    rw [conditionText_eq_concat, ← List.cons_append, ← List.append_assoc,
      List.getLast?_concat] at hx
    exact (Option.mem_some_iff.mp hx).symm
  have htrim : Text.Trim (selectionText ++ ' ' :: conditionText name value) := by
    refine ⟨fun x hx => ?_, fun x hx => ?_⟩
    · obtain rfl := Option.mem_some_iff.mp hx
      rfl
    · obtain rfl := hlast x hx
      rfl
  have hdropped : dropSemicolons (selectionText ++ ' ' :: conditionText name value) =
      selectionText ++ ' ' :: conditionText name value := by
    have hkept : ∀ x ∈ (selectionText ++ ' ' :: conditionText name value).getLast?,
        (x == ';') = false := fun x hx => by
      rw [hlast x hx]
      rfl
    have hdrop := Text.rdropWhile_append_of_getLast? (List.forall_mem_nil _) hkept
    rwa [List.append_nil] at hdrop
  rw [trimmed, toList_equalsText, htrim.stripChars_eq, hdropped, htrim.stripChars_eq]

/-- A keyword in front of the condition is found behind the words in front of it. -/
lemma findKeyword_selection {word key next : List Char} (front : List (List Char))
    {back : List (List Char)}
    (hwords : ["*".toList, "FROM".toList, "self".toList, "WHERE".toList, conditionText name value] =
      front ++ key :: next :: back)
    (hfront : ∀ w ∈ front, ' ' ∉ w ∧ capitals w ≠ word) (hword : ' ' ∉ word)
    (hkey : capitals key = word) :
    findKeyword word (capitals (trimmed (equalsText name value))) =
      some ("SELECT".toList ++ spaced front).length := by
  have htext : selectionText ++ ' ' :: conditionText name value =
      "SELECT".toList ++ spaced (front ++ key :: next :: back) := by
    rw [← hwords]
    simp [selectionText]
  rw [trimmed_equalsText, htext]
  exact findKeyword_capitals hword (by decide) hfront hkey

/-- The keyword of limits is looked for behind the words in front of the condition. -/
lemma findKeyword_limit_equalsText (name value : String) :
    findKeyword "LIMIT".toList (capitals (trimmed (equalsText name value))) =
      (findKeyword "LIMIT".toList (' ' :: capitals (conditionText name value))).map (· + 24) := by
  rw [trimmed_equalsText, capitals_append, selectionText,
    findKeyword_capitals_append (by decide) (by decide) (by decide)
      fun x hx => (Option.mem_some_iff.mp hx).symm]
  rfl

/-- **The query of the text** has all columns and the table; its other clauses depend on the place
where the keyword of limits is found. -/
lemma parse_equalsText (bound : Option ℕ)
    (hbound : (findKeyword "LIMIT".toList (' ' :: capitals (conditionText name value))).map
      (· + 24) = bound) :
    parse (equalsText name value) = (do
      let predicates ← clausePredicates (some 18)
        (bound.getD (selectionText ++ ' ' :: conditionText name value).length)
        (selectionText ++ ' ' :: conditionText name value)
      let limit ← clauseLimit bound (selectionText ++ ' ' :: conditionText name value)
      .ok ⟨none, "self", predicates, limit⟩) := by
  have hselect : "SELECT ".toList <+: capitals (trimmed (equalsText name value)) := by
    rw [trimmed_equalsText, capitals_append]
    exact List.prefix_append_of_prefix (by decide)
  have hfrom : findKeyword "FROM".toList (capitals (trimmed (equalsText name value))) = some 8 :=
    findKeyword_selection ["*".toList] rfl (by decide) (by decide) (by decide)
  have hwhere : findKeyword "WHERE".toList (capitals (trimmed (equalsText name value))) =
      some 18 :=
    findKeyword_selection ["*".toList, "FROM".toList, "self".toList] rfl (by decide)
      (by decide) (by decide)
  have hlimit : findKeyword "LIMIT".toList (capitals (trimmed (equalsText name value))) =
      bound := (findKeyword_limit_equalsText name value).trans hbound
  have hlater : bound.filter (8 < ·) = bound := by
    rw [← hbound]
    cases findKeyword "LIMIT".toList (' ' :: capitals (conditionText name value)) with
    | none => rfl
    | some place => exact Option.filter_some_pos (by simp)
  have hselection : cut 7 8 (trimmed (equalsText name value)) = .ok ['*'] := by
    rw [trimmed_equalsText]
    exact cut_eq "SELECT ".toList (" FROM self WHERE ".toList ++ conditionText name value) rfl rfl
      rfl
  have hregion : cut (8 + 6) (max (((some 18 : Option ℕ) <|> bound).getD
      (trimmed (equalsText name value)).length) (8 + 6)) (trimmed (equalsText name value)) =
        .ok "self".toList := by
    rw [trimmed_equalsText]
    exact cut_eq "SELECT * FROM ".toList (" WHERE ".toList ++ conditionText name value) rfl rfl rfl
  have hself : Solid "self".toList := by decide
  rw [parse_eq_clauses hselect hfrom (by rw [hwhere]; rfl) (by rw [hlimit, hlater]) hselection
    hregion rfl hself.nonempty hself.blank, trimmed_equalsText]
  rfl

/-! ### Predicates -/

/-- A sign of two characters is found in a condition where it is found after the quote. -/
lemma findText_longSign (hname : ColumnWord name) {sign : List Char} (hsign : sign ∈ longSigns)
    (rest : List Char) : findText sign (name.toList ++ (" = '".toList ++ rest)) =
      (findText sign rest).map (· + (name.toList ++ " = '".toList).length) := by
  obtain ⟨a, b, rfl, ha, hb⟩ : ∃ a b, sign = [a, b] ∧ a ∈ ['=', '!', '<', '>'] ∧ b ≠ ' ' := by
    simp only [longSigns, List.mem_cons, List.not_mem_nil, or_false] at hsign
    rcases hsign with rfl | rfl | rfl | rfl | rfl <;> exact ⟨_, _, rfl, by decide, by decide⟩
  have hcolumn : a ∉ name.toList := fun hmem => hname.sign a hmem ha
  have hblank : a ≠ ' ' := fun h => absurd (h ▸ ha) (by decide)
  have hquote : a ≠ '\'' := fun h => absurd (h ▸ ha) (by decide)
  have hfirst : ¬[a, b] <+: ' ' :: '=' :: ' ' :: '\'' :: rest := by
    simp [List.cons_prefix_cons, hblank]
  have hsecond : ¬[a, b] <+: '=' :: ' ' :: '\'' :: rest := by
    simp [List.cons_prefix_cons, hb]
  have hthird : ¬[a, b] <+: ' ' :: '\'' :: rest := by
    simp [List.cons_prefix_cons, hblank]
  have hfourth : ¬[a, b] <+: '\'' :: rest := by
    simp [List.cons_prefix_cons, hquote]
  have htext : " = '".toList ++ rest = ' ' :: '=' :: ' ' :: '\'' :: rest := rfl
  have hfour : " = '".toList.length = 4 := rfl
  rw [findText_append_of_not_mem hcolumn, htext, findText_cons_of_not_starts hfirst,
    findText_cons_of_not_starts hsecond, findText_cons_of_not_starts hthird,
    findText_cons_of_not_starts hfourth, List.length_append, hfour]
  simp only [Option.map_map]
  congr 1
  funext n
  simp only [Function.comp_apply]
  omega

/-- The signs of two characters with what they stand for. -/
lemma map_fst_take_spellings : (Comparison.spellings.take 5).map Prod.fst = longSigns := rfl

/-- **A sign of two characters in a text** between quotes is taken for the sign of the condition:
the column is cut too late. -/
lemma parsePredicate_of_longSign (hname : ColumnWord name) {sign : List Char}
    (hsign : sign ∈ longSigns) (hinside : sign <:+: rest) :
    ∃ p, parsePredicate (name.toList ++ (" = '".toList ++ rest)) = .ok p ∧
      '=' ∈ p.column.toList := by
  have hlong : ∀ entry ∈ Comparison.spellings.take 5, entry.1 ∈ longSigns := by
    rw [← map_fst_take_spellings]
    exact fun entry hentry => List.mem_map_of_mem hentry
  obtain ⟨part, hpart⟩ : ∃ part, splitComparison (name.toList ++ (" = '".toList ++ rest))
      (Comparison.spellings.take 5) = some part := by
    refine Option.ne_none_iff_exists'.mp fun hnone => ?_
    obtain ⟨entry, hentry, rfl⟩ := List.mem_map.mp (map_fst_take_spellings ▸ hsign)
    refine splitComparison_eq_none_iff.mp hnone entry hentry ?_
    exact hinside.trans ((List.suffix_append _ rest).trans (List.suffix_append _ _)).isInfix
  obtain ⟨entry, hentry, i, hfound, hcolumn⟩ := exists_of_splitComparison hpart
  rw [findText_longSign hname (hlong entry hentry)] at hfound
  obtain ⟨j, -, rfl⟩ := Option.map_eq_some_iff.mp hfound
  have hsplit : splitComparison (name.toList ++ (" = '".toList ++ rest)) Comparison.spellings =
      some part := by
    rw [← List.take_append_drop 5 Comparison.spellings, splitComparison_append, hpart]
    rfl
  obtain ⟨column, comparison, literal⟩ := part
  refine ⟨_, by rw [parsePredicate, hsplit], ?_⟩
  dsimp only at hcolumn ⊢
  rw [String.toList_ofList, hcolumn, ← List.append_assoc, Nat.add_comm, List.take_length_add_append]
  exact Text.mem_stripChars rfl (List.mem_append_left _ (List.mem_append_right _ (by decide)))

/-- **A condition without further signs** compares the column with what stands after the sign. -/
lemma parsePredicate_of_no_longSign (hname : ColumnWord name)
    (hsign : ∀ sign ∈ longSigns, ¬sign <:+: rest) :
    parsePredicate (name.toList ++ (" = '".toList ++ rest)) =
      .ok ⟨name, .eq, String.ofList (unquote (Text.stripChars ('\'' :: rest)))⟩ := by
  have hnone : splitComparison (name.toList ++ (" = '".toList ++ rest))
      (Comparison.spellings.take 5) = none := by
    refine splitComparison_eq_none_iff.mpr fun entry hentry => ?_
    have hlong : entry.1 ∈ longSigns :=
      map_fst_take_spellings ▸ List.mem_map_of_mem hentry
    rw [← findText_eq_none_iff, findText_longSign hname hlong, Option.map_eq_none_iff,
      findText_eq_none_iff]
    exact hsign _ hlong
  have hcolumn : '=' ∉ name.toList ++ [' '] := by
    rw [List.mem_append, not_or]
    exact ⟨fun hmem => hname.sign _ hmem (by decide), by decide⟩
  have htext : name.toList ++ (" = '".toList ++ rest) =
      (name.toList ++ [' ']) ++ '=' :: ' ' :: '\'' :: rest := by
    rw [List.append_assoc]
    rfl
  have hfound : findText ['='] (name.toList ++ (" = '".toList ++ rest)) =
      some (name.toList ++ [' ']).length := by
    have hhere : findText ['='] ('=' :: ' ' :: '\'' :: rest) = some 0 :=
      findText_of_starts ⟨' ' :: '\'' :: rest, rfl⟩
    rw [htext, findText_append_of_not_mem hcolumn, hhere, Option.map_some, Nat.zero_add]
  have hsplit : splitComparison (name.toList ++ (" = '".toList ++ rest)) Comparison.spellings =
      some (name.toList ++ [' '], .eq, ' ' :: '\'' :: rest) := by
    have hdrop : Comparison.spellings.drop 5 =
        [(['='], .eq), (['<'], .lt), (['>'], .gt)] := rfl
    rw [← List.take_append_drop 5 Comparison.spellings, splitComparison_append, hnone,
      Option.none_or, hdrop, splitComparison, hfound]
    dsimp only
    rw [htext, List.take_left, List.drop_length_add_append]
    rfl
  rw [parsePredicate, hsplit]
  dsimp only
  rw [(trim_of_forall hname.blank).stripChars_concat, String.ofList_toList, Text.stripChars_cons]

/-- A sign of two characters does not reach into the quote at the end. -/
lemma longSign_infix_concat {sign : List Char} (hsign : sign ∈ longSigns) :
    sign <:+: cs ++ ['\''] ↔ sign <:+: cs := by
  have hall : ∀ sign ∈ longSigns, sign ≠ [] ∧ '\'' ∉ sign := by decide
  obtain ⟨hne, hquote⟩ := hall sign hsign
  have hapart : ∀ c ∈ sign, c ∉ ['\''] := fun c hc hmem =>
    hquote (List.mem_singleton.mp hmem ▸ hc)
  rw [← not_iff_not, ← findText_eq_none_iff, ← findText_eq_none_iff,
    findText_append_right hne hapart]

/-- Quotes around a text are dropped. -/
lemma unquote_quoted (cs : List Char) :
    unquote (Text.stripChars ('\'' :: (cs ++ ['\'']))) = cs := by
  have htrim : Text.Trim ('\'' :: (cs ++ ['\''])) := by
    refine ⟨fun x hx => ?_, fun x hx => ?_⟩
    · obtain rfl := Option.mem_some_iff.mp hx
      rfl
    · rw [← List.cons_append, List.getLast?_concat] at hx
      obtain rfl := Option.mem_some_iff.mp hx
      rfl
  rw [htrim.stripChars_eq, unquote, List.getLast?_concat, if_pos rfl, List.dropLast_concat]

/-- A quote that is not closed is kept. -/
lemma quote_mem_unquote (h : '\'' ∉ rest) : '\'' ∈ unquote (Text.stripChars ('\'' :: rest)) := by
  have hstart : '\'' ∈ Text.stripChars ('\'' :: rest) := Text.mem_stripChars rfl List.mem_cons_self
  have hstands : Text.stripChars ('\'' :: rest) <+: '\'' :: rest :=
    List.rdropWhile_prefix Text.isBlank ('\'' :: rest)
  generalize Text.stripChars ('\'' :: rest) = stripped at hstart hstands
  cases stripped with
  | nil => cases hstart
  | cons c stripped =>
    obtain ⟨rfl, hbelow⟩ := List.cons_prefix_cons.mp hstands
    have hopen : stripped.getLast? ≠ some '\'' := fun hlast =>
      h (hbelow.subset (List.mem_of_getLast? hlast))
    rw [unquote, if_neg hopen]
    exact List.mem_cons_self

/-- The clause of the predicates, up to the end. -/
lemma clausePredicates_conditionText (name value : String) :
    clausePredicates (some 18) (selectionText ++ ' ' :: conditionText name value).length
      (selectionText ++ ' ' :: conditionText name value) =
        (splitAnd (conditionText name value).length (conditionText name value)).mapM
          parsePredicate := by
  have hlength : (selectionText ++ [' ']).length = 25 := rfl
  have hcut : cut (18 + 7) (max (selectionText ++ ' ' :: conditionText name value).length (18 + 7))
      (selectionText ++ ' ' :: conditionText name value) = .ok (conditionText name value) := by
    refine cut_eq (selectionText ++ [' ']) [] (by simp) hlength ?_
    rw [List.append_cons, List.length_append, hlength]
    omega
  rw [clausePredicates, hcut, Outcome.ok_bind]

end Lineage.Query
