import Lineage.Proofs.Outcome
import Lineage.Proofs.Query.Written

set_option autoImplicit false

/-!
# Reading predicates

A predicate is cut at the first sign of the list of signs that it contains. Where names and literals
have no characters of signs, that is the sign between them, and conditions are cut at the keyword
between predicates.

## Main results

* `Lineage.Query.splitComparison_between`: a predicate is cut at its sign.
* `Lineage.Query.WrittenConditions.mapM_splitAnd`: written conditions are read back.
-/

namespace Lineage.Query

open Text (trim_of_forall)

variable {pattern cs before after first : List Char}

/-! ### One predicate -/

/-- A pattern whose characters do not occur in what follows a text stands in front of both only if
it stands in front of the text. -/
lemma prefix_of_prefix_append (hafter : ∀ c ∈ pattern, c ∉ after) (h : pattern <+: cs ++ after) :
    pattern <+: cs := by
  induction pattern generalizing cs with
  | nil => exact List.nil_prefix
  | cons c pattern ih =>
    obtain ⟨hc, hpattern⟩ := List.forall_mem_cons.mp hafter
    cases cs with
    | nil => exact absurd (h.subset List.mem_cons_self) hc
    | cons d cs =>
      obtain ⟨rfl, hbelow⟩ := List.cons_prefix_cons.mp h
      exact List.cons_prefix_cons.mpr ⟨rfl, ih hpattern hbelow⟩

/-- What follows a text does not matter for the search of a pattern that has none of its
characters. -/
lemma findText_append_right (hpattern : pattern ≠ []) (hafter : ∀ c ∈ pattern, c ∉ after) :
    findText pattern (cs ++ after) = findText pattern cs := by
  induction cs with
  | nil =>
    obtain ⟨c, hc⟩ := List.exists_mem_of_ne_nil pattern hpattern
    have hnone : findText pattern after = none :=
      findText_eq_none_iff.mpr fun h => hafter c hc (h.subset hc)
    have hempty : findText pattern [] = none :=
      findText_eq_none_iff.mpr fun h => hpattern (List.infix_nil.mp h)
    rw [List.nil_append, hnone, hempty]
  | cons d cs ih =>
    by_cases hstands : pattern <+: d :: cs
    · have hstands' : pattern <+: d :: (cs ++ after) := hstands.trans (List.prefix_append _ after)
      rw [List.cons_append, findText_of_starts hstands, findText_of_starts hstands']
    · have hstands' : ¬pattern <+: d :: (cs ++ after) := fun h =>
        have hwhole : pattern <+: d :: cs ++ after := h
        hstands (prefix_of_prefix_append hafter hwhole)
      rw [List.cons_append, findText_cons_of_not_starts hstands,
        findText_cons_of_not_starts hstands', ih]

/-- **A predicate is cut at its sign** if what stands around the sign has no character of any
sign. -/
theorem splitComparison_between (sign : List Char) {table : List (List Char × Comparison)}
    (htable : ∀ entry ∈ table, entry.1 ≠ [] ∧ ∀ c ∈ entry.1, c ∉ before ∧ c ∉ after) :
    splitComparison (before ++ (sign ++ after)) table =
      (splitComparison sign table).map fun part =>
        (before ++ part.1, part.2.1, part.2.2 ++ after) := by
  induction table with
  | nil => rfl
  | cons entry table ih =>
    obtain ⟨spelling, comparison⟩ := entry
    obtain ⟨⟨hne, hapart⟩, hrest⟩ := List.forall_mem_cons.mp htable
    obtain ⟨c, tail, rfl⟩ := List.exists_cons_of_ne_nil hne
    have hplace : findText (c :: tail) (before ++ (sign ++ after)) =
        (findText (c :: tail) sign).map (· + before.length) := by
      rw [findText_append_of_not_mem (hapart c List.mem_cons_self).1,
        findText_append_right hne fun d hd => (hapart d hd).2]
    rw [splitComparison, splitComparison, hplace]
    cases hfound : findText (c :: tail) sign with
    | none => exact ih hrest
    | some i =>
      obtain ⟨front, back, rfl, rfl⟩ := exists_of_findText hfound
      have htake : (before ++ (front ++ (c :: tail ++ back) ++ after)).take
          (front.length + before.length) = before ++ front := by
        rw [List.append_assoc front, ← List.append_assoc before]
        exact List.take_left' (by rw [List.length_append, Nat.add_comm])
      have hdrop : (before ++ (front ++ (c :: tail ++ back) ++ after)).drop
          (front.length + before.length + (c :: tail).length) = back ++ after := by
        rw [List.append_assoc front, List.append_assoc (c :: tail), ← List.append_assoc before,
          ← List.append_assoc (before ++ front)]
        exact List.drop_left' (by simp only [List.length_append]; omega)
      have hback : (front ++ (c :: tail ++ back)).drop (front.length + (c :: tail).length) =
          back := by
        rw [← List.append_assoc]
        exact List.drop_left' List.length_append
      simp only [Option.map_some, htake, hdrop, hback, List.take_left]

/-- Signs are looked for in one list and then in another. -/
lemma splitComparison_append (cs : List Char) (table₁ table₂ : List (List Char × Comparison)) :
    splitComparison cs (table₁ ++ table₂) =
      (splitComparison cs table₁).or (splitComparison cs table₂) := by
  induction table₁ with
  | nil => rfl
  | cons entry table₁ ih =>
    rw [List.cons_append, splitComparison, splitComparison, ih]
    cases findText entry.1 cs <;> rfl

/-- No sign is found exactly if none occurs. -/
lemma splitComparison_eq_none_iff {table : List (List Char × Comparison)} :
    splitComparison cs table = none ↔ ∀ entry ∈ table, ¬entry.1 <:+: cs := by
  induction table with
  | nil => simp [splitComparison]
  | cons entry table ih =>
    rw [splitComparison, List.forall_mem_cons, ← ih, ← findText_eq_none_iff]
    cases findText entry.1 cs <;> simp

/-- A text is cut where a sign is found. -/
lemma exists_of_splitComparison {table : List (List Char × Comparison)}
    {part : List Char × Comparison × List Char} (h : splitComparison cs table = some part) :
    ∃ entry ∈ table, ∃ i, findText entry.1 cs = some i ∧ part.1 = cs.take i := by
  induction table with
  | nil => cases h
  | cons entry table ih =>
    rw [splitComparison] at h
    cases hfound : findText entry.1 cs with
    | some i =>
      rw [hfound] at h
      cases h
      exact ⟨entry, List.mem_cons_self, i, hfound, rfl⟩
    | none =>
      rw [hfound] at h
      obtain ⟨entry', hentry, hrest⟩ := ih h
      exact ⟨entry', List.mem_cons_of_mem _ hentry, hrest⟩

/-- A sign of a comparison is read as the comparison. -/
lemma splitComparison_sign {comparison : Comparison} {sign : String}
    (h : sign ∈ comparison.signs) :
    splitComparison sign.toList Comparison.spellings = some ([], comparison, []) := by
  cases comparison <;> simp only [Comparison.signs, List.mem_cons, List.not_mem_nil, or_false] at h
  all_goals rcases h with rfl | rfl
  all_goals rfl

/-- The characters of signs are marks. -/
lemma mem_marks_of_mem_spellings :
    ∀ entry ∈ Comparison.spellings, entry.1 ≠ [] ∧ ∀ c ∈ entry.1, c ∈ marks := by
  have hall : ∀ entry ∈ Comparison.spellings, entry.1 ≠ [] ∧ entry.1.all marks.contains = true := by
    decide
  exact fun entry hentry => ⟨(hall entry hentry).1, fun c hc =>
    List.contains_iff_mem.mp (List.all_eq_true.mp (hall entry hentry).2 c hc)⟩

/-- A text without quote in front stays as it is. -/
lemma unquote_of_not_mem (h : '\'' ∉ cs) : unquote cs = cs := by
  unfold unquote
  split
  · exact absurd List.mem_cons_self h
  · rfl

/-- A predicate of plain words is read back. -/
lemma parsePredicate_of_sign {p : Predicate} {sign : String} (hcolumn : PlainWord p.column)
    (hliteral : PlainWord p.literal) (hsign : sign ∈ p.comparison.signs) :
    parsePredicate (p.column.toList ++ spaced [sign.toList, p.literal.toList]) = .ok p := by
  have hapart : ∀ entry ∈ Comparison.spellings, entry.1 ≠ [] ∧
      ∀ c ∈ entry.1, c ∉ p.column.toList ++ [' '] ∧ c ∉ ' ' :: p.literal.toList := by
    intro entry hentry
    obtain ⟨hne, hmarks⟩ := mem_marks_of_mem_spellings entry hentry
    refine ⟨hne, fun c hc => ?_⟩
    have hblank : c ≠ ' ' := fun h => absurd (h ▸ hmarks c hc) (by decide)
    have hoff : ∀ {w : String}, PlainWord w → c ∉ w.toList := fun hw hmem =>
      hw.mark c hmem (hmarks c hc)
    simp [hblank, hoff hcolumn, hoff hliteral]
  have hsplit := splitComparison_between sign.toList hapart
  have htext : p.column.toList ++ spaced [sign.toList, p.literal.toList] =
      p.column.toList ++ [' '] ++ (sign.toList ++ ' ' :: p.literal.toList) := by simp
  have hquote : '\'' ∉ p.literal.toList := fun hmem => hliteral.mark _ hmem (by decide)
  rw [parsePredicate, htext, hsplit, splitComparison_sign hsign]
  simp only [Option.map_some, List.append_nil, List.nil_append,
    (trim_of_forall hcolumn.blank).stripChars_concat,
    (trim_of_forall hliteral.blank).stripChars_cons, unquote_of_not_mem hquote,
    String.ofList_toList]

/-! ### Conditions -/

/-- No word of a predicate is the keyword between predicates. -/
lemma ne_and_of_predicate {p : Predicate} {sign : String} (hliteral : PlainWord p.literal)
    (hsign : sign ∈ p.comparison.signs) :
    ∀ w ∈ [sign.toList, p.literal.toList], ' ' ∉ w ∧ capitals w ≠ ['A', 'N', 'D'] := by
  simp only [List.forall_mem_cons]
  have hand : ∀ {word : String}, Text.upperAscii word ∉ keywords →
      capitals word.toList ≠ "AND".toList := capitals_ne (by decide)
  exact ⟨⟨(solid_sign hsign).1.not_mem, hand (solid_sign hsign).2⟩,
    ⟨hliteral.solid.not_mem, hand hliteral.keyword⟩, fun w hw => by cases hw⟩

/-- A text is cut at the first keyword between predicates, which has a blank on each side. -/
lemma splitAnd_of_findKeyword {word rest : List Char} (hword : capitals word = ['A', 'N', 'D'])
    (hfirst : findKeyword ['A', 'N', 'D']
      (capitals (before ++ ((' ' :: word ++ [' ']) ++ rest))) = some before.length) (fuel : ℕ) :
    splitAnd (fuel + 1) (before ++ ((' ' :: word ++ [' ']) ++ rest)) =
      before :: splitAnd fuel rest := by
  have hfive : (' ' :: word ++ [' ']).length = 5 := by
    rw [List.length_append, List.length_cons, ← length_capitals, hword]
    rfl
  rw [splitAnd, hfirst]
  dsimp only
  rw [List.take_left, List.drop_length_add_append, List.drop_left' hfive]

/-- **Conditions are cut at the words between them**, and each is read back. -/
theorem WrittenConditions.mapM_splitAnd {ps : List Predicate} {words : List String}
    (h : WrittenConditions ps words) (hps : ∀ p ∈ ps, PlainWord p.column ∧ PlainWord p.literal)
    {rest : List (List Char)} (hwords : words.map String.toList = first :: rest) {fuel : ℕ}
    (hfuel : rest.length ≤ fuel) :
    (splitAnd fuel (first ++ spaced rest)).mapM parsePredicate = .ok ps := by
  induction h generalizing first rest fuel with
  | @one p sign hsign =>
    obtain ⟨hcolumn, hliteral⟩ := hps p List.mem_cons_self
    obtain ⟨rfl, rfl⟩ := List.cons.inj hwords
    obtain ⟨fuel, rfl⟩ : ∃ n, fuel = n + 1 := Nat.exists_eq_add_of_le' (Nat.le_of_succ_le hfuel)
    have hnone : findKeyword ['A', 'N', 'D'] (capitals (p.column.toList ++
        spaced [sign.toList, p.literal.toList])) = none :=
      findKeyword_capitals_eq_none (by decide) hcolumn.solid.not_mem
        (ne_and_of_predicate hliteral hsign)
    simp only [List.map_cons, List.map_nil]
    rw [splitAnd, hnone]
    exact Outcome.mapM_cons_eq_ok.mpr
      ⟨p, [], parsePredicate_of_sign hcolumn hliteral hsign, rfl, rfl⟩
  | @and p ps sign word words hsign hword below ih =>
    obtain ⟨⟨hcolumn, hliteral⟩, hps'⟩ := List.forall_mem_cons.mp hps
    obtain ⟨rfl, rfl⟩ := List.cons.inj hwords
    obtain ⟨next, back, hnext⟩ : ∃ next back, words.map String.toList = next :: back := by
      cases below <;> exact ⟨_, _, rfl⟩
    have hlength : (words.map String.toList).length + 3 ≤ fuel := hfuel
    obtain ⟨fuel, rfl⟩ : ∃ n, fuel = n + 1 := Nat.exists_eq_add_of_le' (by omega)
    have htext : p.column.toList ++
        spaced ([sign.toList, p.literal.toList] ++ word.toList :: next :: back) =
        p.column.toList ++ spaced [sign.toList, p.literal.toList] ++
          ((' ' :: word.toList ++ [' ']) ++ (next ++ spaced back)) := by
      simp
    -- No word of the first predicate is the keyword, so the first keyword is the one behind it.
    have hfirst : findKeyword ['A', 'N', 'D'] (capitals (p.column.toList ++
        spaced ([sign.toList, p.literal.toList] ++ word.toList :: next :: back))) =
          some (p.column.toList ++ spaced [sign.toList, p.literal.toList]).length :=
      findKeyword_capitals (by decide) hcolumn.solid.not_mem (ne_and_of_predicate hliteral hsign)
        hword.capitals_eq
    rw [htext] at hfirst
    have hcut := splitAnd_of_findKeyword hword.capitals_eq hfirst fuel
    rw [← htext] at hcut
    simp only [List.map_cons, hnext]
    rw [hnext, List.length_cons] at hlength
    exact hcut ▸ Outcome.mapM_cons_eq_ok.mpr ⟨p, ps,
      parsePredicate_of_sign hcolumn hliteral hsign, ih hps' hnext (by omega), rfl⟩

end Lineage.Query
