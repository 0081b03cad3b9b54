import Mathlib.Data.List.Basic
import Lineage.Ty.References

set_option autoImplicit false

/-!
# Dropping references

A type without some of its references has the same parts under the same paths, so whether a path
leads somewhere does not depend on the references.

## Main definitions

* `Lineage.Ty.references`: all references of a type, those of candidates included.

## Main results

* `Lineage.Ty.get_retainReferences`: the part under a path of a type without some of its references.
* `Lineage.Ty.references_retainReferences`: exactly the references that a test admits are kept.
* `Lineage.Ty.hasPath_of_mem_updateReferences`: the references that are left lead somewhere.
-/

namespace Lineage.Ty

/-- The reference of a key. -/
def leafReferences : Leaf → List Path
  | .id _ _ (some reference) => [reference]
  | _ => []

mutual

/-- All references of a type, those of the candidates of a hypothesis included. -/
def references : Ty → List Path
  | .leaf _ content => leafReferences content
  | .members _ _ fields => referencesInMembers fields
  | .wrapped _ _ inner => references inner
  | .hypothesis _ types => referencesInScored types

/-- All references of members. -/
def referencesInMembers : List (String × Ty) → List Path
  | [] => []
  | (_, t) :: rest => references t ++ referencesInMembers rest

/-- All references of candidates. -/
def referencesInScored : List (Ty × Float) → List Path
  | [] => []
  | (t, _) :: rest => references t ++ referencesInScored rest

end

variable (keep : Path → Bool)

/-! ### What is kept -/

/-- Exactly a reference that a test admits is kept. -/
lemma leafReferences_retainLeafReference (content : Leaf) :
    leafReferences (retainLeafReference keep content) = (leafReferences content).filter keep := by
  unfold retainLeafReference
  split
  · rename_i reference
    split
    · rename_i hkeep
      simp [leafReferences, hkeep]
    · rename_i hkeep
      simp [leafReferences, hkeep]
  · rename_i hnone
    cases content with
    | id unique base reference =>
      cases reference with
      | none => rfl
      | some reference => exact absurd rfl (hnone unique base reference)
    | _ => rfl

mutual

/-- **Exactly the references that a test admits are kept.** -/
theorem references_retainReferences : ∀ t : Ty,
    (t.retainReferences keep).references = t.references.filter keep
  | .leaf _ content => by
    rw [retainReferences, references, references, leafReferences_retainLeafReference]
  | .members _ _ fields => by
    rw [retainReferences, references, references, references_retainInMembers fields]
  | .wrapped _ _ inner => by
    rw [retainReferences, references, references, references_retainReferences inner]
  | .hypothesis _ types => by
    rw [retainReferences, references, references, references_retainInScored types]

/-- Exactly the references of members that a test admits are kept. -/
theorem references_retainInMembers : ∀ fields : List (String × Ty),
    referencesInMembers (retainInMembers keep fields) = (referencesInMembers fields).filter keep
  | [] => rfl
  | (_, t) :: rest => by
    rw [retainInMembers, referencesInMembers, referencesInMembers, List.filter_append,
      references_retainReferences t, references_retainInMembers rest]

/-- Exactly the references of candidates that a test admits are kept. -/
theorem references_retainInScored : ∀ types : List (Ty × Float),
    referencesInScored (retainInScored keep types) = (referencesInScored types).filter keep
  | [] => rfl
  | (t, _) :: rest => by
    rw [retainInScored, referencesInScored, referencesInScored, List.filter_append,
      references_retainReferences t, references_retainInScored rest]

end

/-- All references of a leaf are kept. -/
lemma retainLeafReference_true (content : Leaf) :
    retainLeafReference (fun _ => true) content = content := by
  unfold retainLeafReference
  split <;> rfl

mutual

/-- All references are kept. -/
theorem retainReferences_true : ∀ t : Ty, t.retainReferences (fun _ => true) = t
  | .leaf _ content => by rw [retainReferences, retainLeafReference_true]
  | .members _ _ fields => by rw [retainReferences, retainInMembers_true fields]
  | .wrapped _ _ inner => by rw [retainReferences, retainReferences_true inner]
  | .hypothesis _ types => by rw [retainReferences, retainInScored_true types]

/-- All references of members are kept. -/
theorem retainInMembers_true : ∀ fields : List (String × Ty),
    retainInMembers (fun _ => true) fields = fields
  | [] => rfl
  | (_, t) :: rest => by
    rw [retainInMembers, retainReferences_true t, retainInMembers_true rest]

/-- All references of candidates are kept. -/
theorem retainInScored_true : ∀ types : List (Ty × Float),
    retainInScored (fun _ => true) types = types
  | [] => rfl
  | (t, _) :: rest => by
    rw [retainInScored, retainReferences_true t, retainInScored_true rest]

end

/-! ### Parts -/

/-- The members without some of their references, one by one. -/
lemma retainInMembers_eq_map (fields : List (String × Ty)) :
    retainInMembers keep fields =
      fields.map fun field => (field.1, field.2.retainReferences keep) := by
  induction fields with
  | nil => rfl
  | cons field fields ih => rw [retainInMembers, ih, List.map_cons]

/-- The member under a label without some of its references. -/
lemma lookup?_retainInMembers (label : String) (fields : List (String × Ty)) :
    lookup? label (retainInMembers keep fields) =
      (lookup? label fields).map (retainReferences keep) := by
  rw [retainInMembers_eq_map, lookup?, lookup?, List.find?_map, Option.map_map, Option.map_map]
  rfl

/-- The members of a type without some of its references. -/
lemma children_retainReferences (t : Ty) :
    (t.retainReferences keep).children = retainInMembers keep t.children := by
  cases t <;> rfl

/-- The member of a type without some of its references. -/
lemma child?_retainReferences (label : String) (t : Ty) :
    (t.retainReferences keep).child? label = (t.child? label).map (retainReferences keep) := by
  rw [child?, children_retainReferences, lookup?_retainInMembers, child?]

/-- Structs without some of their references are structs. -/
@[simp]
lemma isStruct_retainReferences (t : Ty) : (t.retainReferences keep).isStruct = t.isStruct := by
  cases t with
  | members info form fields => cases form <;> rfl
  | leaf info content | wrapped info wrapper inner | hypothesis info types => rfl

/-- One step into a type without some of its references. -/
lemma step?_retainReferences (label : String) (t : Ty) :
    (t.retainReferences keep).step? label = (t.step? label).map (retainReferences keep) := by
  cases t with
  | members info form fields => exact lookup?_retainInMembers keep label fields
  | leaf info content | wrapped info wrapper inner | hypothesis info types => rfl

/-- The part under some nodes of a type without some of its references. -/
lemma getBelow_retainReferences (full : Path) : ∀ (nodes : List Path) (t : Ty),
    getBelow full nodes (t.retainReferences keep) =
      (getBelow full nodes t).map (retainReferences keep)
  | [], t => by
    rw [getBelow, getBelow]
    rfl
  | [.node label subs], t => by
    rw [getBelow, getBelow, step?_retainReferences]
    cases t.step? label with
    | none => rfl
    | some part => exact getBelow_retainReferences full subs part
  | _ :: _ :: _, t => by
    rw [getBelow, getBelow]
    rfl

/-- **The part under a path** of a type without some of its references. -/
theorem get_retainReferences (t : Ty) (path : Path) :
    (t.retainReferences keep).get path = (t.get path).map (retainReferences keep) :=
  getBelow_retainReferences keep path path.subPaths t

/-- Whether a path leads somewhere does not depend on the references. -/
@[simp]
lemma hasPath_retainReferences (t : Ty) (path : Path) :
    (t.retainReferences keep).hasPath path = t.hasPath path := by
  rw [hasPath, get_retainReferences, hasPath]
  cases t.get path <;> rfl

/-- **The references that are left lead somewhere.** -/
theorem hasPath_of_mem_updateReferences {candidate parent : Ty} {r : Path}
    (h : r ∈ (candidate.updateReferences parent).references) :
    (candidate.updateReferences parent).hasPath r = true := by
  rw [updateReferences, references_retainReferences] at h
  rw [updateReferences, hasPath_retainReferences]
  exact (Bool.and_eq_true_iff.mp (List.mem_filter.mp h).2).2

end Lineage.Ty
