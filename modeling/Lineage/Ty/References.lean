import Lineage.Ty.Address

set_option autoImplicit false

/-!
# References between keys

A key of a type may refer to another key by path. When a type is cut out of another one, references
that no longer lead anywhere are dropped.

## Main definitions

* `Lineage.Ty.retainReferences`: drop the references that a test refuses.
* `Lineage.Ty.updateReferences`: keep the references that resolve both before and after.
* `Lineage.Ty.foreignKeys`: every reference with the place of its key.
-/

namespace Lineage.Ty

/-- Drop the reference of a key if the test refuses it. -/
def retainLeafReference (keep : Path → Bool) : Leaf → Leaf
  | .id unique base (some reference) =>
    if keep reference then .id unique base (some reference) else .id unique base none
  | content => content

mutual

/-- Drop the references that a test refuses, everywhere in a type. -/
def retainReferences (keep : Path → Bool) : Ty → Ty
  | .leaf info content => .leaf info (retainLeafReference keep content)
  | .members info form fields => .members info form (retainInMembers keep fields)
  | .wrapped info wrapper inner => .wrapped info wrapper (retainReferences keep inner)
  | .hypothesis info types => .hypothesis info (retainInScored keep types)

/-- Drop the references that a test refuses in every member. -/
def retainInMembers (keep : Path → Bool) : List (String × Ty) → List (String × Ty)
  | [] => []
  | (name, t) :: rest => (name, retainReferences keep t) :: retainInMembers keep rest

/-- Drop the references that a test refuses in every candidate. -/
def retainInScored (keep : Path → Bool) : List (Ty × Float) → List (Ty × Float)
  | [] => []
  | (t, score) :: rest => (retainReferences keep t, score) :: retainInScored keep rest

end

/-- The candidate without the references that do not resolve both in it and in the parent. -/
def updateReferences (candidate parent : Ty) : Ty :=
  candidate.retainReferences fun r => parent.hasPath r && candidate.hasPath r

mutual

/-- The references of a type that lies at the given steps, each with its place. A constraint is no
step; candidates of a hypothesis have no place. -/
def referencesAt (place : List String) : Ty → List (Path × Path)
  | .leaf _ (.id _ _ (some reference)) => [(Path.ofLabels place, reference)]
  | .leaf _ _ => []
  | .members _ _ fields => referencesOfMembers place fields
  | .wrapped _ wrapper inner =>
    match wrapperLabel? wrapper with
    | some label => referencesAt (place ++ [label]) inner
    | none => referencesAt place inner
  | .hypothesis _ _ => []

/-- The references of every member. -/
def referencesOfMembers (place : List String) : List (String × Ty) → List (Path × Path)
  | [] => []
  | (name, t) :: rest => referencesAt (place ++ [name]) t ++ referencesOfMembers place rest

end

/-- Every reference of a type with the place of its key, depth first. -/
def foreignKeys (t : Ty) : List (Path × Path) := referencesAt [] t

end Lineage.Ty
