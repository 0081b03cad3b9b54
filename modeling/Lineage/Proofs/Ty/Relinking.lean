import Lineage.Proofs.Ty.Cut
import Lineage.Proofs.Ty.References

set_option autoImplicit false

/-!
# What becomes of the references of a type

A candidate is relinked if it stays as it is, down to every name, bound and score, but for its keys:
a key that refers to a path keeps its reference if the path resolves, and is a plain key if not.
Updating the references of a candidate relinks it, and the paths that resolve in it stay the same.

## Main definitions

* `Lineage.Ty.Each`: members under the same names, each in a given relation to what it was.
* `Lineage.Ty.Relinked`: a type with the references that resolve.

## Main results

* `Lineage.Ty.relinked_iff`: dropping references relinks a type, and nothing else does.
* `Lineage.Ty.retainReferences_congr`, `Lineage.Ty.retainReferences_eq_self_iff`: which tests drop
  the same references, and which drop none.
* `Lineage.Ty.updateReferences_relinks`: updating references.
-/

namespace Lineage.Ty

/-- Members in their order under the same names, each related to what it was. -/
inductive Each (R : Ty → Ty → Prop) : List (String × Ty) → List (String × Ty) → Prop
  /-- There are no members. -/
  | nil : Each R [] []
  /-- A member in front of others. -/
  | cons {name : String} {part whole : Ty} {left fields : List (String × Ty)}
      (first : R part whole) (rest : Each R left fields) :
      Each R ((name, part) :: left) ((name, whole) :: fields)

/-- A type is another one with those of its references that resolve. -/
inductive Relinked (resolves : Path → Prop) : Ty → Ty → Prop
  /-- A leaf that refers to nothing. -/
  | leaf {info : Info} {content : Leaf} (h : leafReferences content = []) :
      Relinked resolves (.leaf info content) (.leaf info content)
  /-- A key whose reference resolves. -/
  | kept {info : Info} {unique : Bool} {base : IdBase} {reference : Path}
      (h : resolves reference) : Relinked resolves (.leaf info (.id unique base (some reference)))
        (.leaf info (.id unique base (some reference)))
  /-- A key whose reference does not resolve. -/
  | dropped {info : Info} {unique : Bool} {base : IdBase} {reference : Path}
      (h : ¬resolves reference) : Relinked resolves (.leaf info (.id unique base none))
        (.leaf info (.id unique base (some reference)))
  /-- All members. -/
  | members {info : Info} {form : Form} {left fields : List (String × Ty)}
      (h : Each (Relinked resolves) left fields) :
      Relinked resolves (.members info form left) (.members info form fields)
  /-- The type inside a wrapper. -/
  | wrapped {info : Info} {wrapper : Wrapper} {part whole : Ty} (h : Relinked resolves part whole) :
      Relinked resolves (.wrapped info wrapper part) (.wrapped info wrapper whole)
  /-- All candidates. -/
  | hypothesis {info : Info} {left types : List (Ty × Float)}
      (h : Scored (Relinked resolves) left types) :
      Relinked resolves (.hypothesis info left) (.hypothesis info types)

variable {resolves : Path → Prop} {keep keep' : Path → Bool}

/-! ### Dropping references relinks -/

/-- The key of a leaf is relinked by a test. -/
lemma relinked_leaf_iff (hkeep : ∀ r, resolves r ↔ keep r = true) {info : Info} {content : Leaf}
    {t : Ty} : Relinked resolves t (.leaf info content) ↔
      t = .leaf info (retainLeafReference keep content) := by
  have hother : leafReferences content = [] → retainLeafReference keep content = content := by
    intro hnone
    unfold retainLeafReference
    split
    · cases hnone
    · rfl
  constructor
  · intro h
    cases h with
    | leaf hnone => rw [hother hnone]
    | kept h => rw [retainLeafReference, if_pos ((hkeep _).mp h)]
    | dropped h => rw [retainLeafReference, if_neg (mt (hkeep _).mpr h)]
  · rintro rfl
    by_cases hnone : leafReferences content = []
    · rw [hother hnone]
      exact .leaf hnone
    · unfold retainLeafReference
      split
      · split
        · rename_i h
          exact .kept ((hkeep _).mpr h)
        · rename_i h
          exact .dropped (mt (hkeep _).mp h)
      · rename_i hplain
        refine absurd ?_ hnone
        unfold leafReferences
        split
        · exact absurd rfl (hplain _ _ _)
        · rfl

mutual

/-- **Dropping the references that a test refuses** relinks a type, and nothing else does.

**Proof sketch.** By induction on the type that is relinked, together with its members and
candidates: the result is determined, since a reference either resolves or does not. -/
theorem relinked_iff (hkeep : ∀ r, resolves r ↔ keep r = true) : ∀ {t : Ty} (whole : Ty),
    Relinked resolves t whole ↔ t = whole.retainReferences keep
  | _, .leaf info content => by
    rw [retainReferences]
    exact relinked_leaf_iff hkeep
  | t, .members info form fields => by
    rw [retainReferences]
    constructor
    · intro h
      cases h with
      | members h => rw [(each_iff hkeep fields).mp h]
    · rintro rfl
      exact .members ((each_iff hkeep fields).mpr rfl)
  | t, .wrapped info wrapper inner => by
    rw [retainReferences]
    constructor
    · intro h
      cases h with
      | wrapped h => rw [(relinked_iff hkeep inner).mp h]
    · rintro rfl
      exact .wrapped ((relinked_iff hkeep inner).mpr rfl)
  | t, .hypothesis info types => by
    rw [retainReferences]
    constructor
    · intro h
      cases h with
      | hypothesis h => rw [(scored_iff hkeep types).mp h]
    · rintro rfl
      exact .hypothesis ((scored_iff hkeep types).mpr rfl)

/-- Members are relinked one by one. -/
theorem each_iff (hkeep : ∀ r, resolves r ↔ keep r = true) :
    ∀ {left : List (String × Ty)} (fields : List (String × Ty)),
      Each (Relinked resolves) left fields ↔ left = retainInMembers keep fields
  | left, [] => by
    rw [retainInMembers]
    constructor
    · intro h
      cases h
      rfl
    · rintro rfl
      exact .nil
  | left, (name, whole) :: fields => by
    rw [retainInMembers]
    constructor
    · intro h
      cases h with
      | cons first rest => rw [(relinked_iff hkeep whole).mp first, (each_iff hkeep fields).mp rest]
    · rintro rfl
      exact .cons ((relinked_iff hkeep whole).mpr rfl) ((each_iff hkeep fields).mpr rfl)

/-- Candidates are relinked one by one. -/
theorem scored_iff (hkeep : ∀ r, resolves r ↔ keep r = true) :
    ∀ {left : List (Ty × Float)} (types : List (Ty × Float)),
      Scored (Relinked resolves) left types ↔ left = retainInScored keep types
  | left, [] => by
    rw [retainInScored]
    constructor
    · intro h
      cases h
      rfl
    · rintro rfl
      exact .nil
  | left, (whole, score) :: types => by
    rw [retainInScored]
    constructor
    · intro h
      cases h with
      | cons first rest =>
        rw [(relinked_iff hkeep whole).mp first, (scored_iff hkeep types).mp rest]
    · rintro rfl
      exact .cons ((relinked_iff hkeep whole).mpr rfl) ((scored_iff hkeep types).mpr rfl)

end

/-! ### Tests that drop the same references -/

/-- Tests that agree on the reference of a leaf. -/
lemma retainLeafReference_congr {content : Leaf}
    (h : ∀ r ∈ leafReferences content, keep r = keep' r) :
    retainLeafReference keep content = retainLeafReference keep' content := by
  unfold retainLeafReference
  split
  · rename_i reference
    rw [h reference List.mem_cons_self]
  · rfl

mutual

/-- **Tests that agree on the references of a type** drop the same of them. -/
theorem retainReferences_congr : ∀ t : Ty, (∀ r ∈ t.references, keep r = keep' r) →
    t.retainReferences keep = t.retainReferences keep'
  | .leaf _ _, h => by
    rw [retainReferences, retainReferences, retainLeafReference_congr h]
  | .members _ _ fields, h => by
    rw [retainReferences, retainReferences, retainInMembers_congr fields h]
  | .wrapped _ _ inner, h => by
    rw [retainReferences, retainReferences, retainReferences_congr inner h]
  | .hypothesis _ types, h => by
    rw [retainReferences, retainReferences, retainInScored_congr types h]

/-- Tests that agree on the references of members. -/
theorem retainInMembers_congr : ∀ fields : List (String × Ty),
    (∀ r ∈ referencesInMembers fields, keep r = keep' r) →
      retainInMembers keep fields = retainInMembers keep' fields
  | [], _ => rfl
  | (_, t) :: rest, h => by
    obtain ⟨hfirst, hrest⟩ := List.forall_mem_append.mp h
    rw [retainInMembers, retainInMembers, retainReferences_congr t hfirst,
      retainInMembers_congr rest hrest]

/-- Tests that agree on the references of candidates. -/
theorem retainInScored_congr : ∀ types : List (Ty × Float),
    (∀ r ∈ referencesInScored types, keep r = keep' r) →
      retainInScored keep types = retainInScored keep' types
  | [], _ => rfl
  | (t, _) :: rest, h => by
    obtain ⟨hfirst, hrest⟩ := List.forall_mem_append.mp h
    rw [retainInScored, retainInScored, retainReferences_congr t hfirst,
      retainInScored_congr rest hrest]

end

/-- **A test drops nothing** exactly if it admits all references. -/
theorem retainReferences_eq_self_iff {t : Ty} :
    t.retainReferences keep = t ↔ ∀ r ∈ t.references, keep r = true := by
  constructor
  · intro h r hr
    rw [← h, references_retainReferences] at hr
    exact (List.mem_filter.mp hr).2
  · intro h
    rw [retainReferences_congr t h, retainReferences_true]

/-! ### Updating references -/

/-- A path leads somewhere if there is a part under it. -/
lemma hasPath_eq_true_iff {t : Ty} {path : Path} :
    t.hasPath path = true ↔ ∃ part, t.get path = .ok part := by
  rw [hasPath]
  cases t.get path <;> simp

/-- **Updating the references of a candidate** relinks it by what resolves both in the original and
in the candidate, and nothing but the result is so relinked. The same paths resolve in the result,
so that updating it again changes nothing; and a type stays as it is against itself exactly if all
of its references resolve in it.

**Proof sketch.** What is left of the references is what both types resolve (`relinked_iff`).
Dropping references takes no part away, so the same paths resolve in the result, and what is
left passes the same test again (`retainReferences_eq_self_iff`). -/
theorem updateReferences_relinks (candidate original : Ty) :
    (∀ t, Relinked (fun r => (∃ part, original.get r = .ok part) ∧
        ∃ part, candidate.get r = .ok part) t candidate ↔
          t = candidate.updateReferences original) ∧
    (∀ path, (∃ part, (candidate.updateReferences original).get path = .ok part) ↔
      ∃ part, candidate.get path = .ok part) ∧
    (candidate.updateReferences original).updateReferences original =
      candidate.updateReferences original ∧
    (candidate.updateReferences candidate = candidate ↔
      ∀ r ∈ candidate.references, ∃ part, candidate.get r = .ok part) := by
  refine ⟨fun t => relinked_iff (fun r => ?_) candidate, fun path => ?_, ?_, ?_⟩
  · rw [Bool.and_eq_true, hasPath_eq_true_iff, hasPath_eq_true_iff]
  · rw [← hasPath_eq_true_iff, ← hasPath_eq_true_iff, updateReferences, hasPath_retainReferences]
  · refine retainReferences_eq_self_iff.mpr fun r hr => ?_
    rw [updateReferences, hasPath_retainReferences]
    rw [updateReferences, references_retainReferences] at hr
    exact (List.mem_filter.mp hr).2
  · simp only [updateReferences, retainReferences_eq_self_iff, Bool.and_self, hasPath_eq_true_iff]

end Lineage.Ty
