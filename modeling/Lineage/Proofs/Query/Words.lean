import Lineage.Proofs.Query.Search
import Lineage.Proofs.Text.Blank

set_option autoImplicit false

/-!
# Words in the text of a query

A text whose words have one blank between each two of them has no blank ends, and a semicolon at its
end is not part of the query.

## Main definitions

* `Lineage.Query.Solid`: words.

## Main results

* `Lineage.Query.trim_spaced`: words with blanks between them have no blank ends.
* `Lineage.Query.trimmed_spaced`: a semicolon at the end is not part of the query.
-/

namespace Lineage.Query

open Text (Trim)

variable {first word : List Char} {c : Char} {words : List (List Char)}

/-- A word has a character, but neither blanks nor semicolons. -/
structure Solid (w : List Char) : Prop where
  /-- There is a character. -/
  nonempty : w ≠ []
  /-- There are no blanks. -/
  blank : ∀ c ∈ w, Text.isBlank c = false
  /-- There are no semicolons. -/
  semicolon : ';' ∉ w

/-- The characters of a word, one after another. -/
lemma solid_iff : Solid word ↔
    (!word.isEmpty && word.all fun c => !Text.isBlank c && c != ';') = true := by
  simp only [Bool.and_eq_true, Bool.not_eq_true', List.isEmpty_eq_false_iff, List.all_eq_true,
    bne_iff_ne]
  constructor
  · exact fun h => ⟨h.nonempty, fun c hc => ⟨h.blank c hc, fun heq => h.semicolon (heq ▸ hc)⟩⟩
  · exact fun h => ⟨h.1, fun c hc => (h.2 c hc).1, fun hmem => (h.2 ';' hmem).2 rfl⟩

instance : Decidable (Solid word) := decidable_of_iff _ solid_iff.symm

/-- The blank between words is not in a word. -/
lemma Solid.not_mem (h : Solid word) : ' ' ∉ word := fun hmem =>
  absurd (h.blank ' ' hmem) (by decide)

/-- Blanks are no letters. -/
lemma isAlpha_of_isBlank (h : Text.isBlank c = true) : c.isAlpha = false := by
  simp only [Text.isBlank, Bool.or_eq_true, Bool.and_eq_true, decide_eq_true_eq, beq_iff_eq] at h
  have hval : c.val.toNat = c.toNat := rfl
  rw [isAlpha_eq_false_iff]
  omega

/-- A digit is neither a letter nor a blank. -/
lemma isAlpha_of_isDigit (h : c.isDigit = true) : c.isAlpha = false ∧ Text.isBlank c = false := by
  have hdigit : c.isDigit = (decide ('0'.val ≤ c.val) && decide (c.val ≤ '9'.val)) := rfl
  have hbounds : '0'.val.toNat = 48 ∧ '9'.val.toNat = 57 := ⟨rfl, rfl⟩
  have hval : c.val.toNat = c.toNat := rfl
  rw [hdigit, Bool.and_eq_true, decide_eq_true_eq, decide_eq_true_eq, UInt32.le_iff_toNat_le,
    UInt32.le_iff_toNat_le] at h
  rw [isAlpha_eq_false_iff]
  simp only [Text.isBlank, Bool.or_eq_false_iff, Bool.and_eq_false_iff, decide_eq_false_iff_not,
    beq_eq_false_iff_ne]
  omega

/-- A word is without blanks if its capitals are. -/
lemma Solid.of_capitals (h : Solid (capitals word)) : Solid word where
  nonempty := fun hword => h.nonempty (by rw [hword, capitals_nil])
  blank := fun c hc => by
    by_contra hblank
    rw [Bool.not_eq_false] at hblank
    have hcapital : c ∈ capitals word := (mem_capitals (isAlpha_of_isBlank hblank)).mpr hc
    rw [h.blank c hcapital] at hblank
    cases hblank
  semicolon := fun hmem => h.semicolon ((mem_capitals rfl).mpr hmem)

/-- There are at least as many characters as words. -/
lemma length_le_length_spaced (words : List (List Char)) :
    words.length ≤ (spaced words).length := by
  induction words with
  | nil => exact Nat.le_refl 0
  | cons w words ih =>
    simp only [spaced_cons, List.length_cons, List.length_append]
    omega

/-- Words with blanks between them have no blank ends. -/
lemma trim_spaced (hfirst : Solid first) (hwords : ∀ w ∈ words, Solid w) :
    Trim (first ++ spaced words) where
  head := by
    obtain ⟨c, cs, rfl⟩ := List.exists_cons_of_ne_nil hfirst.nonempty
    exact fun x hx => hfirst.blank x (Option.mem_some_iff.mp hx ▸ List.mem_cons_self)
  last := by
    induction words generalizing first with
    | nil =>
      rw [spaced_nil, List.append_nil]
      exact fun x hx => hfirst.blank x (List.mem_of_mem_getLast? hx)
    | cons w words ih =>
      obtain ⟨hw, hwords⟩ := List.forall_mem_cons.mp hwords
      have hne : w ++ spaced words ≠ [] := fun h => hw.nonempty (List.append_eq_nil_iff.mp h).1
      rw [spaced_cons, List.getLast?_append_of_ne_nil _ (List.cons_ne_nil _ _),
        List.getLast?_cons_of_ne_nil hne]
      exact ih hw hwords

/-- There is no semicolon in words without semicolons. -/
lemma semicolon_not_mem_spaced (hfirst : Solid first) (hwords : ∀ w ∈ words, Solid w) :
    ';' ∉ first ++ spaced words := by
  simp only [List.mem_append, spaced, List.mem_flatMap, List.mem_cons, not_or, not_exists, not_and]
  exact ⟨hfirst.semicolon, fun w hw => ⟨by decide, (hwords w hw).semicolon⟩⟩

/-- A semicolon at the end is not part of the query. -/
lemma trimmed_spaced {text ending : String} (hfirst : Solid first) (hwords : ∀ w ∈ words, Solid w)
    (hending : ending = "" ∨ ending = ";")
    (htext : text.toList = first ++ spaced words ++ ending.toList) :
    trimmed text = first ++ spaced words := by
  have htrim := trim_spaced hfirst hwords
  have hne : first ++ spaced words ≠ [] := fun h =>
    hfirst.nonempty (List.append_eq_nil_iff.mp h).1
  have hstripped : Trim (first ++ spaced words ++ ending.toList) := by
    rcases hending with rfl | rfl
    · simpa using htrim
    · refine ⟨?_, fun x hx => ?_⟩
      · rw [List.head?_append_of_ne_nil _ hne]
        exact htrim.head
      · rw [show (";" : String).toList = [';'] from rfl, List.getLast?_concat] at hx
        cases hx
        rfl
  have hdropped : dropSemicolons (first ++ spaced words ++ ending.toList) =
      first ++ spaced words := by
    refine Text.rdropWhile_append_of_getLast? (p := (· == ';')) ?_ ?_
    · rcases hending with rfl | rfl
      · exact fun c hc => by cases hc
      · exact List.forall_mem_singleton.mpr rfl
    · intro x hx
      simp only [beq_eq_false_iff_ne]
      rintro rfl
      exact semicolon_not_mem_spaced hfirst hwords (List.mem_of_mem_getLast? hx)
  rw [trimmed, htext, hstripped.stripChars_eq, hdropped, htrim.stripChars_eq]

end Lineage.Query
