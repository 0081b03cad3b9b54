import Lineage.Path.Dotted
import Lineage.Proofs.Outcome
import Lineage.Proofs.Text.Blank
import Lineage.Proofs.Ty.Address

set_option autoImplicit false

/-!
# Dotted paths are read back

A path that does not branch is written as its labels with dots between them, and a text is cut at
its dots. Since blank ends are dropped and empty pieces are refused, the labels that survive a
reading are those between which the dots can be found again: they are not empty, hold no dot and
have no blank ends. The root has no labels and is written as a lone dot.

## Main definitions

* `Lineage.Path.IsSegment`: labels that can stand between dots.

## Main results

* `Lineage.Path.toList_render`: the text of a path that does not branch.
* `Lineage.Path.parse_render`: dotted paths are read back, and only segments are read.
-/

namespace Lineage.Path

variable {label : String} {labels : List String} {text : String} {p : Path}

/-! ### Labels between dots -/

/-- A label can stand between dots: it is not empty, holds no dot and has no blank ends. -/
structure IsSegment (label : String) : Prop where
  /-- There is something to be read. -/
  ne_empty : label ≠ ""
  /-- No dot divides the label. -/
  no_dot : '.' ∉ label.toList
  /-- No blank ends are dropped. -/
  trim : Text.Trim label.toList

/-- The text of a chain of nodes: its labels with dots between them. -/
lemma toList_renderNode (label : String) (labels : List String) :
    (renderNode (.node label (chain labels))).toList =
      ['.'].intercalate ((label :: labels).map String.toList) := by
  induction labels generalizing label with
  | nil => simp [chain, renderNode, List.intercalate]
  | cons next labels ih =>
    rw [chain, renderNode, String.toList_append, String.toList_append, ih next]
    simp only [List.map_cons, List.intercalate_cons_cons]
    rfl

/-- **The text of a path that does not branch.** -/
theorem toList_render (hne : labels ≠ []) :
    (ofLabels labels).render.toList = ['.'].intercalate (labels.map String.toList) := by
  obtain ⟨label, labels, rfl⟩ := List.exists_cons_of_ne_nil hne
  exact toList_renderNode label labels

/-- A text without blank ends is left as it is. -/
lemma strip_of_trim (h : Text.Trim text.toList) : Text.strip text = text := by
  rw [Text.strip, h.stripChars_eq, String.ofList_toList]

/-- The pieces of the text of a path that does not branch are its labels. -/
lemma splitAt_render (hne : labels ≠ []) (h : ∀ label ∈ labels, IsSegment label) :
    Text.splitAt '.' (ofLabels labels).render = labels := by
  have hdots : ∀ piece ∈ labels.map String.toList, '.' ∉ piece :=
    List.forall_mem_map.mpr fun label hlabel => (h label hlabel).no_dot
  rw [Text.splitAt, toList_render hne,
    Text.splitChars_intercalate (mt List.map_eq_nil_iff.mp hne) hdots, List.map_map]
  simp [Function.comp_def]

/-- The text of a path that does not branch has no blank ends. -/
lemma trim_render (hne : labels ≠ []) (h : ∀ label ∈ labels, IsSegment label) :
    Text.Trim (ofLabels labels).render.toList := by
  rw [toList_render hne]
  refine Text.trim_intercalate (List.forall_mem_map.mpr fun label hlabel => ?_)
  have hsegment := h label hlabel
  exact ⟨fun hnil => hsegment.ne_empty (String.toList_eq_nil_iff.mp hnil), hsegment.trim⟩

/-- **A dotted path is read back** from its text.

**Proof sketch.** The text is cut at its dots, which are those between the labels since
segments have none, and no label has blank ends to be dropped. The root alone has a text of
its own. -/
theorem parse_render_ofLabels (h : ∀ label ∈ labels, IsSegment label) :
    parse (ofLabels labels).render = .ok (ofLabels labels) := by
  by_cases hne : labels = []
  · subst hne
    rfl
  · have hsplit := splitAt_render hne h
    have hempty : "" ∉ labels := fun hmem => (h _ hmem).ne_empty rfl
    -- Nothing and a lone dot are cut into empty pieces, which are no segments.
    have hroot : ¬ ((ofLabels labels).render = "" ∨ (ofLabels labels).render = ".") := by
      rintro (htext | htext)
      · rw [htext] at hsplit
        exact hempty (hsplit ▸ List.mem_singleton_self _)
      · rw [htext] at hsplit
        exact hempty (hsplit ▸ List.mem_cons_self)
    have hstrip : labels.map Text.strip = labels :=
      (List.map_congr_left fun label hlabel => strip_of_trim (h label hlabel).trim).trans
        (List.map_id labels)
    have hany : ¬ labels.any (· = "") = true := by simpa using hempty
    rw [parse, strip_of_trim (trim_render hne h)]
    simp only [if_neg hroot, hsplit, hstrip, if_neg hany]

/-- **Only segments are read** from a text.

**Proof sketch.** The pieces of a text hold no dots, blank ends are dropped, and a text with
an empty piece is not read. -/
theorem exists_labels_of_parse (h : parse text = .ok p) :
    ∃ labels, p = ofLabels labels ∧ ∀ label ∈ labels, IsSegment label := by
  rw [parse] at h
  dsimp only at h
  split_ifs at h with hroot hany
  · cases h
    exact ⟨[], rfl, nofun⟩
  · cases h
    refine ⟨_, rfl, fun label hlabel => ?_⟩
    obtain ⟨piece, hpiece, rfl⟩ := List.mem_map.mp hlabel
    obtain ⟨cs, hcs, rfl⟩ := List.mem_map.mp hpiece
    refine ⟨fun hempty => hany (List.any_eq_true.mpr ⟨_, hlabel, by simpa using hempty⟩), ?_, ?_⟩
    · rw [Text.strip, String.toList_ofList, String.toList_ofList]
      exact fun hdot => Text.not_mem_of_mem_splitChars hcs (Text.stripChars_subset cs hdot)
    · rw [Text.strip, String.toList_ofList, String.toList_ofList]
      exact Text.trim_stripChars cs

/-- **Dotted paths are read back.** A path of segments is read back from its text. And whatever text
is read as a path, that path is read back from its own text, and its labels are segments.

**Proof sketch.** Whatever is read has segments as its labels (`exists_labels_of_parse`), and
a path of segments is read back (`parse_render_ofLabels`). -/
theorem parse_render :
    (∀ labels : List String, (∀ label ∈ labels, IsSegment label) →
      parse (ofLabels labels).render = .ok (ofLabels labels)) ∧
    ∀ (text : String) (p : Path), parse text = .ok p →
      parse p.render = .ok p ∧
        ∃ labels, p.labels = .ok labels ∧ ∀ label ∈ labels, IsSegment label := by
  refine ⟨fun labels h => parse_render_ofLabels h, fun text p hparse => ?_⟩
  obtain ⟨labels, rfl, hlabels⟩ := exists_labels_of_parse hparse
  refine ⟨parse_render_ofLabels hlabels, labels, ?_, hlabels⟩
  exact Outcome.ofOption_eq_ok.mpr (steps?_ofLabels labels)

/-- The city of an address, with blanks inside its label and around it in the text, and a label of
which a line separator would be dropped at the ends. -/
theorem parse_render_cities :
    (∀ label ∈ ["straße 1", "a\u2028b"], IsSegment label) ∧
    parse (ofLabels ["straße 1", "a\u2028b"]).render = .ok (ofLabels ["straße 1", "a\u2028b"]) ∧
    parse "\u2003straße 1 .\u00a0a\u2028b\n" = .ok (ofLabels ["straße 1", "a\u2028b"]) ∧
    ∃ labels, (ofLabels ["straße 1", "a\u2028b"]).labels = .ok labels ∧
      ∀ label ∈ labels, IsSegment label := by
  have hsegments : ∀ label ∈ ["straße 1", "a\u2028b"], IsSegment label := by
    simp only [List.forall_mem_cons]
    exact ⟨⟨by decide, by decide, by decide⟩, ⟨by decide, by decide, by decide⟩, nofun⟩
  have hparse : parse "\u2003straße 1 .\u00a0a\u2028b\n" =
      .ok (ofLabels ["straße 1", "a\u2028b"]) := by cbv
  exact ⟨hsegments, parse_render.1 _ hsegments, hparse, (parse_render.2 _ _ hparse).2⟩

end Lineage.Path
