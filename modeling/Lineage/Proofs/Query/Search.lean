import Mathlib.Data.List.Infix
import Lineage.Query.Syntax

set_option autoImplicit false

/-!
# Searching the text of a query

The clauses of a query are found by searching its text for keywords between blanks, and predicates
are cut at the first occurrence of a sign. Where a text is made of words that follow a blank each, a
keyword is found at the first word that spells it.

## Main definitions

* `Lineage.Query.spaced`: words, each after a blank.

## Main results

* `Lineage.Query.findText_eq_none_iff`: nothing is found exactly if the pattern does not occur.
* `Lineage.Query.findKeyword_capitals`: a keyword is found at the first word that spells it.
* `Lineage.Query.findKeyword_capitals_eq_none`: it is not found where no word spells it.
-/

namespace Lineage.Query

variable {pattern cs rest word w : List Char} {c x : Char} {words : List (List Char)} {i : ℕ}

/-! ### Capitals -/

/-- A character is no letter if its number is not that of a capital or small letter. -/
lemma isAlpha_eq_false_iff : x.isAlpha = false ↔
    ¬(65 ≤ x.val.toNat ∧ x.val.toNat ≤ 90) ∧ ¬(97 ≤ x.val.toNat ∧ x.val.toNat ≤ 122) := by
  have hletter : x.isAlpha = (decide ('A'.val ≤ x.val ∧ x.val ≤ 'Z'.val) ||
      (decide ('a'.val ≤ x.val) && decide (x.val ≤ 'z'.val))) := rfl
  have hbounds : 'A'.val.toNat = 65 ∧ 'Z'.val.toNat = 90 ∧ 'a'.val.toNat = 97 ∧
      'z'.val.toNat = 122 := ⟨rfl, rfl, rfl, rfl⟩
  rw [hletter]
  simp only [Bool.or_eq_false_iff, Bool.and_eq_false_iff, decide_eq_false_iff_not,
    UInt32.le_iff_toNat_le, hbounds]
  omega

/-- A character that is no letter is the capital of itself alone. -/
lemma toUpper_eq_iff (hx : x.isAlpha = false) : c.toUpper = x ↔ c = x := by
  have hbounds : 'a'.val.toNat = 97 ∧ 'z'.val.toNat = 122 ∧
      ('A'.val - 'a'.val).toNat = 4294967264 := ⟨rfl, rfl, rfl⟩
  obtain ⟨hlarge, hsmall⟩ := isAlpha_eq_false_iff.mp hx
  unfold Char.toUpper
  split
  · rename_i hletter
    have hcapital : (c.val + ('A'.val - 'a'.val)).toNat + 32 = c.val.toNat := by
      rw [UInt32.le_iff_toNat_le, UInt32.le_iff_toNat_le] at hletter
      rw [UInt32.toNat_add]
      omega
    rw [UInt32.le_iff_toNat_le, UInt32.le_iff_toNat_le] at hletter
    constructor
    · rintro rfl
      dsimp only at hlarge
      omega
    · rintro rfl
      omega
  · rfl

/-- Capitals have the same characters that are no letters. -/
lemma mem_capitals (hx : x.isAlpha = false) : x ∈ capitals cs ↔ x ∈ cs := by
  simp [capitals, toUpper_eq_iff hx]

@[simp]
lemma capitals_nil : capitals [] = [] := rfl

@[simp]
lemma capitals_cons (c : Char) (cs : List Char) : capitals (c :: cs) = c.toUpper :: capitals cs :=
  rfl

@[simp]
lemma capitals_append (cs rest : List Char) :
    capitals (cs ++ rest) = capitals cs ++ capitals rest := List.map_append

@[simp]
lemma length_capitals (cs : List Char) : (capitals cs).length = cs.length := List.length_map _

/-! ### Occurrences -/

/-- A pattern in front is found there. -/
lemma findText_of_starts (h : pattern <+: cs) : findText pattern cs = some 0 := by
  cases cs with
  | nil => rw [List.prefix_nil.mp h, findText, List.isEmpty_nil, if_pos rfl]
  | cons c cs => rw [findText, if_pos (List.isPrefixOf_iff_prefix.mpr h)]

/-- A pattern that is not in front is found further on. -/
lemma findText_cons_of_not_starts (h : ¬pattern <+: c :: cs) :
    findText pattern (c :: cs) = (findText pattern cs).map (· + 1) := by
  rw [findText, if_neg (by rwa [List.isPrefixOf_iff_prefix])]

/-- **Nothing is found** exactly if the pattern does not occur. -/
theorem findText_eq_none_iff : findText pattern cs = none ↔ ¬pattern <:+: cs := by
  induction cs with
  | nil =>
    rw [findText, List.infix_nil]
    cases pattern <;> simp
  | cons c cs ih =>
    rw [List.infix_cons_iff, not_or]
    by_cases hstands : pattern <+: c :: cs
    · simp [findText_of_starts hstands, hstands]
    · rw [findText_cons_of_not_starts hstands, Option.map_eq_none_iff, ih]
      exact (and_iff_right hstands).symm

/-- What is found occurs where it is found. -/
lemma exists_of_findText (h : findText pattern cs = some i) :
    ∃ before after, cs = before ++ (pattern ++ after) ∧ before.length = i := by
  induction cs generalizing i with
  | nil =>
    rw [findText] at h
    cases pattern with
    | nil => cases h; exact ⟨[], [], rfl, rfl⟩
    | cons p pattern => cases h
  | cons c cs ih =>
    by_cases hstands : pattern <+: c :: cs
    · rw [findText_of_starts hstands] at h
      cases h
      obtain ⟨after, hafter⟩ := hstands
      exact ⟨[], after, hafter.symm, rfl⟩
    · rw [findText_cons_of_not_starts hstands] at h
      obtain ⟨j, hj, rfl⟩ := Option.map_eq_some_iff.mp h
      obtain ⟨before, after, rfl, rfl⟩ := ih hj
      exact ⟨c :: before, after, rfl, rfl⟩

/-- A pattern is not found in a text without its first character, but perhaps after it. -/
lemma findText_append_of_not_mem (hc : c ∉ cs) : findText (c :: pattern) (cs ++ rest) =
    (findText (c :: pattern) rest).map (· + cs.length) := by
  induction cs with
  | nil => simp
  | cons d cs ih =>
    obtain ⟨hne, hcs⟩ := not_or.mp (List.mem_cons.not.mp hc)
    have hstands : ¬c :: pattern <+: d :: (cs ++ rest) :=
      fun h => hne (List.cons_prefix_cons.mp h).1
    rw [List.cons_append, findText_cons_of_not_starts hstands, ih hcs, Option.map_map]
    rfl

/-! ### Words -/

/-- Words, each after a blank. -/
def spaced (words : List (List Char)) : List Char := words.flatMap (' ' :: ·)

@[simp]
lemma spaced_nil : spaced [] = [] := rfl

@[simp]
lemma spaced_cons (w : List Char) (words : List (List Char)) :
    spaced (w :: words) = ' ' :: (w ++ spaced words) := by
  rw [spaced, List.flatMap_cons, List.cons_append]
  rfl

@[simp]
lemma spaced_append (words words' : List (List Char)) :
    spaced (words ++ words') = spaced words ++ spaced words' := List.flatMap_append

/-- Capitals of words. -/
lemma capitals_spaced (words : List (List Char)) :
    capitals (spaced words) = spaced (words.map capitals) := by
  induction words with
  | nil => rfl
  | cons w words ih =>
    rw [spaced_cons, capitals_cons, capitals_append, ih, List.map_cons, spaced_cons]
    rfl

/-- What follows a word is a blank. -/
lemma head?_spaced_append (words : List (List Char)) (hrest : ∀ x ∈ rest.head?, x = ' ') :
    ∀ x ∈ (spaced words ++ rest).head?, x = ' ' := by
  cases words with
  | nil => exact hrest
  | cons w words =>
    rw [spaced_cons]
    exact fun x hx => (Option.mem_some_iff.mp hx).symm

/-- A word and the blank after it stand only in front of words that start with it. -/
lemma eq_of_starts_append (hword : c ∉ word) (hw : c ∉ w) (hrest : ∀ x ∈ rest.head?, x = c)
    (h : word ++ [c] <+: w ++ rest) : word = w := by
  induction word generalizing w with
  | nil =>
    cases w with
    | nil => rfl
    | cons d w => exact absurd ((List.cons_prefix_cons.mp h).1 ▸ List.mem_cons_self) hw
  | cons d word ih =>
    obtain ⟨hd, hword⟩ := not_or.mp (List.mem_cons.not.mp hword)
    cases w with
    | nil =>
      cases rest with
      | nil => cases List.prefix_nil.mp h
      | cons x rest =>
        exact absurd ((List.cons_prefix_cons.mp h).1.trans (hrest x rfl)) (Ne.symm hd)
    | cons e w =>
      obtain ⟨rfl, hbelow⟩ := List.cons_prefix_cons.mp h
      rw [ih hword (not_or.mp (List.mem_cons.not.mp hw)).2 hbelow]

/-- A keyword is not found at another word, but perhaps after it. -/
lemma findKeyword_cons_of_ne (hword : ' ' ∉ word) (hw : ' ' ∉ w) (hne : word ≠ w)
    (hrest : ∀ x ∈ rest.head?, x = ' ') : findKeyword word (' ' :: (w ++ rest)) =
      (findKeyword word rest).map (· + (w.length + 1)) := by
  have hstands : ¬ ' ' :: word ++ [' '] <+: ' ' :: (w ++ rest) := fun h =>
    hne (eq_of_starts_append hword hw hrest (List.cons_prefix_cons.mp h).2)
  rw [findKeyword, findText_cons_of_not_starts hstands, List.cons_append,
    findText_append_of_not_mem hw, Option.map_map]
  rfl

/-- Words that do not spell a keyword are passed over in the search for it. -/
lemma findKeyword_spaced_append (hword : ' ' ∉ word) (hwords : ∀ w ∈ words, ' ' ∉ w)
    (hne : word ∉ words) (hrest : ∀ x ∈ rest.head?, x = ' ') :
    findKeyword word (spaced words ++ rest) =
      (findKeyword word rest).map (· + (spaced words).length) := by
  induction words with
  | nil => simp
  | cons w words ih =>
    obtain ⟨hw, hwords⟩ := List.forall_mem_cons.mp hwords
    obtain ⟨hfirst, hne⟩ := not_or.mp (List.mem_cons.not.mp hne)
    rw [spaced_cons, List.cons_append, List.append_assoc,
      findKeyword_cons_of_ne hword hw hfirst (head?_spaced_append words hrest), ih hwords hne,
      Option.map_map]
    congr 1
    funext n
    simp only [Function.comp_apply, List.length_cons, List.length_append]
    omega

/-- The search for a keyword passes over a first word and over words that do not spell it. -/
lemma findKeyword_capitals_append {first : List Char} (hword : ' ' ∉ word) (hfirst : ' ' ∉ first)
    (hwords : ∀ w ∈ words, ' ' ∉ w ∧ capitals w ≠ word) (hrest : ∀ x ∈ rest.head?, x = ' ') :
    findKeyword word (capitals (first ++ spaced words) ++ rest) =
      (findKeyword word rest).map (· + (first ++ spaced words).length) := by
  have hfirst' : ' ' ∉ capitals first := (mem_capitals rfl).not.mpr hfirst
  have hblank : ∀ w ∈ words.map capitals, ' ' ∉ w := by
    rw [List.forall_mem_map]
    exact fun w hw => (mem_capitals rfl).not.mpr (hwords w hw).1
  have hne : word ∉ words.map capitals := fun h =>
    let ⟨w, hw, hspelled⟩ := List.mem_map.mp h
    (hwords w hw).2 hspelled
  have hpassed : findKeyword word (capitals first ++ (spaced (words.map capitals) ++ rest)) =
      (findKeyword word (spaced (words.map capitals) ++ rest)).map
        (· + (capitals first).length) := findText_append_of_not_mem hfirst'
  rw [capitals_append, List.append_assoc, capitals_spaced, hpassed,
    findKeyword_spaced_append hword hblank hne hrest, Option.map_map, ← capitals_spaced]
  congr 1
  funext n
  simp only [Function.comp_apply, List.length_append, length_capitals]
  omega

/-- **A keyword is found** after the words in front of the first one that spells it, if another
word follows. -/
theorem findKeyword_capitals {first key next : List Char} {front back : List (List Char)}
    (hword : ' ' ∉ word) (hfirst : ' ' ∉ first) (hfront : ∀ w ∈ front, ' ' ∉ w ∧ capitals w ≠ word)
    (hkey : capitals key = word) :
    findKeyword word (capitals (first ++ spaced (front ++ key :: next :: back))) =
      some (first ++ spaced front).length := by
  have hhere : findKeyword word (capitals (spaced (key :: next :: back))) = some 0 := by
    refine findText_of_starts ⟨capitals (next ++ spaced back), ?_⟩
    simp [hkey]
  rw [spaced_append, ← List.append_assoc, capitals_append,
    findKeyword_capitals_append hword hfirst hfront, hhere, Option.map_some, Nat.zero_add]
  rw [spaced_cons]
  exact fun x hx => (Option.mem_some_iff.mp hx).symm

/-- **A keyword is not found** among words that do not spell it. -/
theorem findKeyword_capitals_eq_none {first : List Char} (hword : ' ' ∉ word) (hfirst : ' ' ∉ first)
    (hwords : ∀ w ∈ words, ' ' ∉ w ∧ capitals w ≠ word) :
    findKeyword word (capitals (first ++ spaced words)) = none := by
  have hpassed : findKeyword word (capitals (first ++ spaced words) ++ []) = none :=
    findKeyword_capitals_append hword hfirst hwords fun x hx => by cases hx
  rwa [List.append_nil] at hpassed

end Lineage.Query
