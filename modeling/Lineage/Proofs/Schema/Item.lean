import Lineage.Proofs.Schema.ItemKeys
import Lineage.Proofs.Schema.Wrapper
import Lineage.Proofs.Ty.Branches

set_option autoImplicit false

/-!
# Schemas of items

The item of a schema is looked for with the search that follows a path to the ends of all of its
branches, and must be the only one found. As every branch has an end, a path that branches never has
one item, wherever it branches. A path that does not branch has the part under it, which takes the
place of the payload.

## Main results

* `Lineage.Path.isBranching_eq_false_iff`: paths that do not branch have steps.
* `Lineage.Schema.item_eq_ok_iff`: the item of a schema is the part under a path.
* `Lineage.Schema.propagate_getItem_ready_iff`: when an item has a schema, and its type.
-/

namespace Lineage

/-- **A path that does not branch** takes one step after the other. -/
theorem Path.isBranching_eq_false_iff : ∀ {p : Path},
    p.isBranching = false ↔ ∃ labels, p.steps? = some labels
  | .node _ [] => by simp [isBranching, anyBranching, steps?, stepsBelow?]
  | .node _ [.node next below] => by
    have ih := isBranching_eq_false_iff (p := .node next below)
    rw [steps?] at ih
    rw [isBranching, anyBranching, anyBranching, steps?, stepsBelow?]
    simp [ih]
  | .node _ (_ :: _ :: _) => by simp [isBranching, steps?, stepsBelow?]

namespace Schema

variable {s s' : Schema} {name : String} {p : Path} {part : Ty}

/-- **The item of a schema** is the part of the payload under a path. A path that branches has
none.

**Proof sketch.** The search finds one part for every branch, so that an item that is alone is
at the end of the only branch. Along it the search and the path lead to the same part. -/
theorem item_eq_ok_iff :
    s.item p = .ok part ↔ p.isBranching = false ∧ s.payload.get p = .ok part := by
  constructor
  · intro h
    obtain ⟨parts, hparts, hitem⟩ := Outcome.bind_eq_ok.mp h
    split at hitem
    · -- There is one part for every branch, so there is one branch.
      have hlength := congrArg List.length (Ty.map_along?_of_subTypesBelow p s.payload hparts)
      rw [List.length_map, List.length_map] at hlength
      obtain ⟨labels, hlabels⟩ := Path.exists_chain_of_length_branches p hlength
      have hsteps := Path.steps?_eq_some.mpr hlabels
      exact ⟨Path.isBranching_eq_false_iff.mpr ⟨labels, hsteps⟩,
        Ty.get_eq_ok.mpr ⟨labels, hsteps, (item_eq_ok hsteps).mp h⟩⟩
    · cases hitem
  · rintro ⟨-, hget⟩
    obtain ⟨labels, hsteps, halong⟩ := Ty.get_eq_ok.mp hget
    exact (item_eq_ok hsteps).mpr halong

/-- **The schema of an item** of a schema whose primary keys can be read: there is one exactly if
the path does not branch and leads to a part of the payload. Its type is this part, if the payload
is not wrapped, and else the whole type with this part under `data` and the other members as they
were.

**Proof sketch.** The schema of an item is derived for the whole type with the item in the
place of the payload (`propagate_getItem_iff_derive`). Deriving does not fail where the keys
can be read (`exists_derive`), so there is a schema exactly if there is an item. -/
theorem propagate_getItem_ready_iff (hkeys : ∃ keys, s.primaryKeys = .ok keys) (name : String)
    (heading : Heading) (p : Path) :
    ((∃ s', s.propagate name (.step heading (.getItem p)) = .ok (.ready s')) ↔
      p.isBranching = false ∧ ∃ t, s.payload.get p = .ok t) ∧
    ∀ s', s.propagate name (.step heading (.getItem p)) = .ok (.ready s') →
      ∃ t, s.payload.get p = .ok t ∧ (s.hasWrapper = false → s'.ty = t) ∧
        (s.hasWrapper = true → ∃ info fields, s.ty = .members info .struct fields ∧
          s'.ty = .members info .struct
            (fields.map fun field => if field.1 = dataLabel then (field.1, t) else field)) := by
  simp only [propagate_getItem_iff_derive, item_eq_ok_iff]
  refine ⟨⟨?_, ?_⟩, ?_⟩
  · rintro ⟨s', t, ⟨hbranch, hget⟩, -⟩
    exact ⟨hbranch, t, hget⟩
  · rintro ⟨hbranch, t, hget⟩
    obtain ⟨keys, hkeys⟩ := hkeys
    obtain ⟨s', hs', -⟩ := exists_derive hkeys name (s.rewrap t)
    exact ⟨s', t, ⟨hbranch, hget⟩, hs'⟩
  · rintro s' ⟨t, ⟨-, hget⟩, hderive⟩
    obtain ⟨hty, -⟩ := of_derive hderive
    refine ⟨t, hget, fun hwrapper => ?_, fun hwrapper => ?_⟩
    · rw [hty, rewrap, if_neg (Bool.eq_false_iff.mp hwrapper)]
    · obtain ⟨info, fields, hmembers, hrewrap⟩ := exists_members_of_hasWrapper hwrapper
      exact ⟨info, fields, hmembers, hty.trans (hrewrap t)⟩

/-- Of the weighted persons, the ages have a schema next to the weights. Ages together with numbers
have none. -/
theorem propagate_getItem_ready_iff_ages :
    (∃ keys, weightedPersons.primaryKeys = .ok keys) ∧
    (∃ s', weightedPersons.propagate "ages" (.ofStep (.getItem (.ofLabels ["age"]))) =
        .ok (.ready s') ∧
      s'.ty = .struct [(dataLabel, .integer 0 9), ("weight", .integer 0 1)]) ∧
    ¬∃ s', weightedPersons.propagate "both"
      (.ofStep (.getItem (.node "" [.node "ssn" [], .node "age" []]))) = .ok (.ready s') := by
  have hkeys : ∃ keys, weightedPersons.primaryKeys = .ok keys := ⟨[], rfl⟩
  have hget : weightedPersons.payload.get (.ofLabels ["age"]) = .ok (.integer 0 9) := by
    rw [payload, if_pos hasWrapper_weightedPersons]
    exact Ty.get_ofLabels_eq_ok.mpr rfl
  obtain ⟨hiff, htype⟩ := propagate_getItem_ready_iff hkeys "ages" (Transform.named "get_item")
    (.ofLabels ["age"])
  obtain ⟨s', hs'⟩ := hiff.mpr
    ⟨Path.isBranching_eq_false_iff.mpr ⟨_, Path.steps?_ofLabels _⟩, _, hget⟩
  obtain ⟨t, ht, -, hwrapped⟩ := htype s' hs'
  obtain ⟨info, fields, hty, hty'⟩ := hwrapped hasWrapper_weightedPersons
  refine ⟨hkeys, ⟨s', hs', ?_⟩, fun hboth => ?_⟩
  · cases hget.symm.trans ht
    cases hty
    rw [hty']
    rfl
  · have hbranch := ((propagate_getItem_ready_iff hkeys "both" (Transform.named "get_item")
      (.node "" [.node "ssn" [], .node "age" []])).1.mp hboth).1
    simp [Path.isBranching] at hbranch

end Schema

end Lineage
