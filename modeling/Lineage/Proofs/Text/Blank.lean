import Mathlib.Data.List.DropRight
import Lineage.Text.Blank

set_option autoImplicit false

/-!
# Texts without blank ends

What cutting off blank ends and cutting at separators leave of a text that is put together from
pieces.

## Main definitions

* `Lineage.Text.Trim`: texts without blank ends.

## Main results

* `Lineage.Text.stripChars_append_append`: between blanks, a text without blank ends is left.
* `Lineage.Text.trim_stripChars`: no blank ends are left.
* `Lineage.Text.splitChars_append_cons`: a text is cut at its first separator.
* `Lineage.Text.splitChars_intercalate`: pieces are found again between their separators.
-/

namespace Lineage.Text

variable {α : Type} {p : α → Bool} {as bs : List α} {cs piece rest : List Char}
  {pieces : List (List Char)} {sep c : Char}

/-! ### Ends -/

/-- Items in front that are dropped, up to the first that is not. -/
lemma dropWhile_append_of_head? (hbs : ∀ a ∈ bs, p a = true) (has : ∀ a ∈ as.head?, p a = false) :
    (bs ++ as).dropWhile p = as := by
  rw [List.dropWhile_append_of_pos hbs]
  cases as with
  | nil => rfl
  | cons a as => exact List.dropWhile_cons_of_neg (by simp [has a rfl])

/-- Items at the back that are dropped, up to the last that is not. -/
lemma rdropWhile_append_of_getLast? (hbs : ∀ a ∈ bs, p a = true)
    (has : ∀ a ∈ as.getLast?, p a = false) : (as ++ bs).rdropWhile p = as := by
  have hreverse : (bs.reverse ++ as.reverse).dropWhile p = as.reverse :=
    dropWhile_append_of_head? (fun a ha => hbs a (List.mem_reverse.mp ha))
      (by rwa [List.head?_reverse])
  rw [List.rdropWhile, List.reverse_append, hreverse, List.reverse_reverse]

/-- A text neither starts nor ends with a blank. -/
structure Trim (cs : List Char) : Prop where
  /-- The first character is no blank. -/
  head : ∀ c ∈ cs.head?, isBlank c = false
  /-- The last character is no blank. -/
  last : ∀ c ∈ cs.getLast?, isBlank c = false

/-- A text without blank ends by its first and its last character, if it has any. -/
lemma trim_iff : Trim cs ↔ cs.head?.any isBlank = false ∧ cs.getLast?.any isBlank = false := by
  rw [Option.any_eq_false, Option.any_eq_false]
  exact ⟨fun h => ⟨h.head, h.last⟩, fun h => ⟨h.1, h.2⟩⟩

instance (cs : List Char) : Decidable (Trim cs) := decidable_of_iff' _ trim_iff

/-- A text without blanks has no blank ends. -/
lemma trim_of_forall (h : ∀ c ∈ cs, isBlank c = false) : Trim cs :=
  ⟨fun c hc => h c (List.mem_of_mem_head? hc), fun c hc => h c (List.mem_of_mem_getLast? hc)⟩

/-- **Between blanks** a text without blank ends is left. -/
theorem stripChars_append_append (pre post : List Char) (hpre : ∀ c ∈ pre, isBlank c = true)
    (hpost : ∀ c ∈ post, isBlank c = true) (hcs : Trim cs) :
    stripChars (pre ++ cs ++ post) = cs := by
  cases cs with
  | nil =>
    -- Blanks are all dropped from the front.
    have hall : ∀ c ∈ pre ++ [] ++ post, isBlank c = true := by
      simpa [or_imp, forall_and] using ⟨hpre, hpost⟩
    rw [stripChars, stripLeft, List.dropWhile_eq_nil_iff.mpr hall]
    rfl
  | cons c cs =>
    have hhead : ∀ x ∈ (c :: cs ++ post).head?, isBlank x = false := hcs.head
    rw [stripChars, List.append_assoc, stripLeft, dropWhile_append_of_head? hpre hhead]
    exact rdropWhile_append_of_getLast? hpost hcs.last

/-- A text without blank ends stays as it is. -/
lemma Trim.stripChars_eq (h : Trim cs) : stripChars cs = cs := by
  simpa using stripChars_append_append [] [] (by simp) (by simp) h

/-- A blank in front of a text without blank ends is dropped. -/
lemma Trim.stripChars_cons (h : Trim cs) : stripChars (' ' :: cs) = cs := by
  simpa using stripChars_append_append [' '] []
    (List.forall_mem_singleton.mpr rfl) (by simp) h

/-- A blank after a text without blank ends is dropped. -/
lemma Trim.stripChars_concat (h : Trim cs) : stripChars (cs ++ [' ']) = cs := by
  simpa using stripChars_append_append [] [' '] (by simp)
    (List.forall_mem_singleton.mpr rfl) h

/-- A blank in front does not matter. -/
lemma stripChars_cons (cs : List Char) : stripChars (' ' :: cs) = stripChars cs := rfl

/-- A character that is no blank is not cut off. -/
lemma mem_stripChars (hc : isBlank c = false) (h : c ∈ cs) : c ∈ stripChars cs := by
  have hkept : ∀ {ds : List Char}, c ∈ ds → c ∈ ds.dropWhile isBlank := by
    intro ds hmem
    rw [← List.takeWhile_append_dropWhile (p := isBlank) (l := ds), List.mem_append] at hmem
    refine hmem.resolve_left fun htake => ?_
    rw [List.mem_takeWhile_imp htake] at hc
    cases hc
  exact List.mem_reverse.mpr (hkept (List.mem_reverse.mpr (hkept h)))

/-- What is left after items have been dropped from the front does not begin with such an item. -/
lemma of_mem_head?_dropWhile {a : α} (h : a ∈ (as.dropWhile p).head?) :
    p a = false := by
  have hnot := List.head?_dropWhile_not p as
  rw [Option.mem_def.mp h] at hnot
  simpa using hnot

/-- **No blank ends are left** after they have been dropped. -/
theorem trim_stripChars (cs : List Char) : Trim (stripChars cs) := by
  constructor
  · -- What is dropped from the back leaves the first character as it is, if it leaves any.
    intro c hc
    obtain ⟨dropped, hdropped⟩ := List.rdropWhile_prefix isBlank (l := stripLeft cs)
    have hkept : (stripChars cs ++ dropped).head? = (stripLeft cs).head? :=
      congrArg List.head? hdropped
    rw [List.head?_append, Option.mem_def.mp hc, Option.some_or] at hkept
    exact of_mem_head?_dropWhile (p := isBlank) hkept.symm
  · intro c hc
    rw [stripChars, stripRight, List.getLast?_reverse] at hc
    exact of_mem_head?_dropWhile hc

/-- Dropping blank ends adds no characters. -/
lemma stripChars_subset (cs : List Char) : stripChars cs ⊆ cs :=
  List.Subset.trans (List.rdropWhile_prefix isBlank (l := stripLeft cs)).subset
    (List.dropWhile_suffix isBlank).subset

/-! ### Separators -/

/-- A text without separator is one piece. -/
lemma splitChars_of_not_mem (h : sep ∉ piece) : splitChars sep piece = [piece] := by
  induction piece with
  | nil => rfl
  | cons c piece ih =>
    obtain ⟨hc, hpiece⟩ := not_or.mp (List.mem_cons.not.mp h)
    rw [splitChars, if_neg (Ne.symm hc), ih hpiece]

/-- There is at least one piece. -/
lemma splitChars_ne_nil (sep : Char) (cs : List Char) : splitChars sep cs ≠ [] := by
  cases cs with
  | nil => exact List.cons_ne_nil _ _
  | cons c cs =>
    unfold splitChars
    split_ifs
    · exact List.cons_ne_nil _ _
    · split <;> exact List.cons_ne_nil _ _

/-- **A text is cut at its first separator.** -/
theorem splitChars_append_cons (h : sep ∉ piece) :
    splitChars sep (piece ++ sep :: rest) = piece :: splitChars sep rest := by
  induction piece with
  | nil => rw [List.nil_append, splitChars, if_pos rfl]
  | cons c piece ih =>
    obtain ⟨hc, hpiece⟩ := not_or.mp (List.mem_cons.not.mp h)
    rw [List.cons_append, splitChars, if_neg (Ne.symm hc), ih hpiece]

/-- **Pieces are found again between their separators**, unless there are none. -/
theorem splitChars_intercalate (hne : pieces ≠ []) (h : ∀ piece ∈ pieces, sep ∉ piece) :
    splitChars sep ([sep].intercalate pieces) = pieces := by
  induction pieces with
  | nil => exact absurd rfl hne
  | cons piece pieces ih =>
    obtain ⟨hpiece, hpieces⟩ := List.forall_mem_cons.mp h
    cases pieces with
    | nil => simpa [List.intercalate] using splitChars_of_not_mem hpiece
    | cons next pieces =>
      rw [List.intercalate_cons_cons, List.append_assoc, List.singleton_append,
        splitChars_append_cons hpiece, ih (List.cons_ne_nil _ _) hpieces]

/-- No piece of a text holds the separator. -/
lemma not_mem_of_mem_splitChars (h : piece ∈ splitChars sep cs) : sep ∉ piece := by
  induction cs generalizing piece with
  | nil =>
    rw [splitChars, List.mem_singleton] at h
    exact h ▸ List.not_mem_nil
  | cons c cs ih =>
    unfold splitChars at h
    split_ifs at h with hc
    · rcases List.mem_cons.mp h with rfl | h
      · exact List.not_mem_nil
      · exact ih h
    · -- A character that is no separator is put in front of the first piece.
      obtain ⟨first, others, hsplit⟩ := List.exists_cons_of_ne_nil (splitChars_ne_nil sep cs)
      rw [hsplit] at h ih
      rcases List.mem_cons.mp h with rfl | h
      · exact List.not_mem_cons_of_ne_of_not_mem (Ne.symm hc) (ih List.mem_cons_self)
      · exact ih (List.mem_cons_of_mem _ h)

/-- Pieces without blank ends that are joined have no blank ends either, unless one is empty. -/
lemma trim_intercalate (h : ∀ piece ∈ pieces, piece ≠ [] ∧ Trim piece) :
    Trim ([sep].intercalate pieces) := by
  induction pieces with
  | nil => exact trim_of_forall nofun
  | cons piece pieces ih =>
    obtain ⟨⟨hne, hpiece⟩, hpieces⟩ := List.forall_mem_cons.mp h
    cases pieces with
    | nil => simpa [List.intercalate] using hpiece
    | cons next pieces =>
      have hrest := ih hpieces
      have hrestNe : [sep].intercalate (next :: pieces) ≠ [] := by
        obtain ⟨hnext, -⟩ := (List.forall_mem_cons.mp hpieces).1
        cases pieces with
        | nil => simpa [List.intercalate] using hnext
        | cons _ _ => simp [List.intercalate_cons_cons]
      rw [List.intercalate_cons_cons]
      refine ⟨fun c hc => hpiece.head c ?_, fun c hc => hrest.last c ?_⟩
      · rwa [List.append_assoc, List.head?_append_of_ne_nil _ hne] at hc
      · rwa [List.getLast?_append_of_ne_nil _ hrestNe] at hc

end Lineage.Text
