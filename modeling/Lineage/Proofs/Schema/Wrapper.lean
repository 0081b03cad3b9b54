import Lineage.Proofs.Schema.Propagation
import Lineage.Proofs.Ty.Address
import Lineage.Proofs.Ty.References

set_option autoImplicit false

/-!
# Wrapped payloads along steps

A schema with protected parts keeps its payload under the member `data`. A step that cuts down the
payload leaves the other members where they are, but of the protected parts only those that still
lead somewhere. If none is left, the payload of the result is no longer told apart from the other
members, although it lies where it did.

## Main definitions

* `Lineage.Schema.CutsTo`: what a step makes of the payload.

## Main results

* `Lineage.Schema.hasWrapper_iff`: when the payload lies under `data`.
* `Lineage.Schema.hasWrapper_propagate`: when it still does after a step.
* `Lineage.Schema.hasWrapper_lost`: it need not.
-/

namespace Lineage

namespace Ty

/-- The member under a label, after all members under it have become another type. -/
lemma lookup?_replace (label : String) (part : Ty) (fields : List (String × Ty)) :
    lookup? label (fields.map fun field => if field.1 = label then (field.1, part) else field) =
      (lookup? label fields).map fun _ => part := by
  unfold lookup?
  induction fields with
  | nil => rfl
  | cons field fields ih =>
    rw [List.map_cons, List.find?_cons, List.find?_cons]
    by_cases h : field.1 = label
    · simp [h]
    · simp only [if_neg h, beq_eq_false_iff_ne.mpr h]
      exact ih

/-- Replacing members keeps their names. -/
lemma map_fst_replace (label : String) (part : Ty) (fields : List (String × Ty)) :
    (fields.map fun field => if field.1 = label then (field.1, part) else field).map Prod.fst =
      fields.map Prod.fst := by
  rw [List.map_map]
  refine List.map_congr_left fun field _ => ?_
  rw [Function.comp_apply]
  split <;> rfl

end Ty

namespace Step

/-- A step cuts down the payload. -/
def cuts : Step → Bool
  | .filter _ | .project _ | .getItem _ => true
  | _ => false

end Step

namespace Schema

/-! ### Payloads -/

/-- When the payload lies under `data`. -/
lemma hasWrapper_iff {s : Schema} : s.hasWrapper = true ↔
    s.protectedPaths ≠ [] ∧ s.ty.isStruct = true ∧ (s.ty.child? dataLabel).isSome = true := by
  unfold hasWrapper
  rw [Bool.and_eq_true, Bool.and_eq_true, and_assoc, Bool.not_eq_true', List.isEmpty_eq_false_iff]

/-- The payload of a wrapped schema is the member `data`. -/
lemma payload_of_hasWrapper {s : Schema} (h : s.hasWrapper = true) :
    s.ty.child? dataLabel = some s.payload := by
  obtain ⟨part, hpart⟩ := Option.isSome_iff_exists.mp (hasWrapper_iff.mp h).2.2
  rw [payload, if_pos h, hpart]
  rfl

/-- A wrapped schema has a struct, in which the members `data` become another type. -/
lemma exists_members_of_hasWrapper {s : Schema} (h : s.hasWrapper = true) :
    ∃ info fields, s.ty = .members info .struct fields ∧
      ∀ part, s.rewrap part = .members info .struct
        (fields.map fun field => if field.1 = dataLabel then (field.1, part) else field) := by
  obtain ⟨-, hstruct, -⟩ := hasWrapper_iff.mp h
  have hrewrap : ∀ part, s.rewrap part = .members s.ty.info .struct (s.ty.children.map fun field =>
      if field.1 = dataLabel then (field.1, part) else field) := fun part => if_pos h
  cases hty : s.ty with
  | members info form fields =>
    rw [hty] at hrewrap hstruct
    cases form with
    | struct => exact ⟨info, fields, rfl, hrewrap⟩
    | union => cases hstruct
  | leaf info content | wrapped info wrapper inner | hypothesis info types =>
    rw [hty] at hstruct
    cases hstruct

/-- A wrapped schema has a struct after its payload has become another type. -/
lemma isStruct_rewrap {s : Schema} (h : s.hasWrapper = true) (part : Ty) :
    (s.rewrap part).isStruct = true := by
  rw [rewrap, if_pos h]
  rfl

/-- The member `data` after the payload has become another type. -/
lemma child?_rewrap {s : Schema} (h : s.hasWrapper = true) (part : Ty) :
    (s.rewrap part).child? dataLabel = some part := by
  rw [rewrap, if_pos h]
  refine (Ty.lookup?_replace dataLabel part s.ty.children).trans ?_
  obtain ⟨payload, hpayload⟩ := Option.isSome_iff_exists.mp (hasWrapper_iff.mp h).2.2
  rw [Ty.child?] at hpayload
  rw [hpayload, Option.map_some]

/-- The members keep their names when the payload becomes another type. -/
lemma map_fst_children_rewrap {s : Schema} (h : s.hasWrapper = true) (part : Ty) :
    (s.rewrap part).children.map Prod.fst = s.ty.children.map Prod.fst := by
  rw [rewrap, if_pos h]
  exact Ty.map_fst_replace dataLabel part s.ty.children

/-! ### Steps -/

/-- What a step makes of the payload of a schema, up to references. -/
inductive CutsTo (s : Schema) : Step → Ty → Prop where
  /-- A filter makes the target. -/
  | filter (target : Ty) : CutsTo s (.filter target) target
  /-- A projection makes the target. -/
  | project (target : Ty) : CutsTo s (.project target) target
  /-- A step into the payload makes the part under the path. -/
  | getItem {path : Path} {part : Ty} (h : s.item path = .ok part) : CutsTo s (.getItem path) part

/-- The schema after a step that cuts down the payload. -/
lemma of_propagate_cutsTo {s s' : Schema} {name : String} {heading : Heading} {content : Step}
    {part : Ty} (hcut : s.CutsTo content part)
    (h : s.propagate name (.step heading content) = .ok (.ready s')) :
    ∃ keep : Path → Bool, s'.ty = (s.rewrap part).retainReferences keep ∧
      s'.protectedPaths = s.protectedPaths.filter (s.rewrap part).hasPath := by
  have hnarrowed : (s.narrowed name part).map Propagation.ready = .ok (.ready s') →
      ∃ keep : Path → Bool, s'.ty = (s.rewrap part).retainReferences keep ∧
        s'.protectedPaths = s.protectedPaths.filter (s.rewrap part).hasPath := by
    intro h
    obtain ⟨derived, hderived, heq⟩ := Outcome.map_eq_ok.mp h
    cases heq
    obtain ⟨hty, hpaths⟩ := of_derive hderived
    refine ⟨_, hty, hpaths.trans (List.filter_congr fun path _ => ?_)⟩
    exact Ty.hasPath_retainReferences _ _ path
  cases hcut with
  | filter target | project target => exact hnarrowed h
  | getItem hpart =>
    obtain ⟨part', hpart', h⟩ := Outcome.bind_eq_ok.mp h
    cases hpart.symm.trans hpart'
    obtain ⟨derived, hderived, heq⟩ := Outcome.bind_eq_ok.mp h
    cases heq
    obtain ⟨hty, hpaths⟩ := of_derive hderived
    exact ⟨fun _ => true, by rw [hty, Ty.retainReferences_true], hpaths⟩

/-- What a step that has a schema cuts the payload down to. -/
lemma exists_cutsTo {s s' : Schema} {name : String} {heading : Heading} {content : Step}
    (hcontent : content.cuts = true)
    (h : s.propagate name (.step heading content) = .ok (.ready s')) :
    ∃ part, s.CutsTo content part := by
  cases content with
  | filter target => exact ⟨target, .filter target⟩
  | project target => exact ⟨target, .project target⟩
  | getItem path =>
    obtain ⟨part, hpart, -⟩ := Outcome.bind_eq_ok.mp h
    exact ⟨part, .getItem hpart⟩
  | sample size | slice start stop | extract size seed | selectSql query | shuffle
  | differentiatedSample size | external call => cases hcontent

/-- **When a payload is still told apart after a step.** The step leaves the names of all members
and their order as they are, and the payload in its place becomes what the step makes of it, up to
references. It is the payload of the result exactly if a protected part still leads somewhere.

**Proof sketch.** A step that has a schema has put something in the place of the payload and
has dropped references (`of_propagate_cutsTo`), neither of which touches the names of members.
So of the three conditions for a wrapped payload (`hasWrapper_iff`) only the first may fail,
that a protected part is left. -/
theorem hasWrapper_propagate {s s' : Schema} {name : String} {heading : Heading} {content : Step}
    (hwrapper : s.hasWrapper = true) (hcontent : content.cuts = true)
    (h : s.propagate name (.step heading content) = .ok (.ready s')) :
    ∃ part, s.CutsTo content part ∧
      s'.ty.children.map Prod.fst = s.ty.children.map Prod.fst ∧
      (∃ keep : Path → Bool, s'.ty.child? dataLabel = some (part.retainReferences keep) ∧
        (s'.hasWrapper = true → s'.payload = part.retainReferences keep)) ∧
      (s'.hasWrapper = true ↔ ∃ path ∈ s.protectedPaths, (s.rewrap part).hasPath path = true) := by
  obtain ⟨part, hcut⟩ := exists_cutsTo hcontent h
  obtain ⟨keep, hty, hpaths⟩ := of_propagate_cutsTo hcut h
  have hchild : s'.ty.child? dataLabel = some (part.retainReferences keep) := by
    rw [hty, Ty.child?_retainReferences, child?_rewrap hwrapper, Option.map_some]
  refine ⟨part, hcut, ?_, ⟨keep, hchild, fun hs' => ?_⟩, ?_⟩
  · rw [hty, Ty.children_retainReferences, Ty.retainInMembers_eq_map, List.map_map,
      ← map_fst_children_rewrap hwrapper part]
    rfl
  · exact Option.some.inj ((payload_of_hasWrapper hs').symm.trans hchild)
  · rw [hasWrapper_iff, hchild, hty, Ty.isStruct_retainReferences, isStruct_rewrap hwrapper, hpaths]
    simp [List.filter_eq_nil_iff]

/-! ### A payload that is lost -/

/-- Persons with a protected number, and the weights of their rows. -/
def weightedPersons : Schema :=
  ⟨"people", .struct [(dataLabel, .struct [("ssn", .text), ("age", .integer 0 9)]),
    ("weight", .integer 0 1)], [Path.ofLabels [dataLabel, "ssn"]], []⟩

/-- The payload of the persons is wrapped. -/
lemma hasWrapper_weightedPersons : weightedPersons.hasWrapper = true := by decide

/-- The protected number alone: the payload stays wrapped. -/
theorem hasWrapper_propagate_weightedPersons : ∃ s',
    weightedPersons.propagate "numbers" (.ofStep (.project (.struct [("ssn", .text)]))) =
      .ok (.ready s') ∧ s'.hasWrapper = true := by
  obtain ⟨s', hs'⟩ : ∃ s', weightedPersons.propagate "numbers"
      (.step (Transform.named "project") (.project (.struct [("ssn", .text)]))) = .ok (.ready s') :=
    ⟨_, rfl⟩
  obtain ⟨part, hcut, -, -, hiff⟩ := hasWrapper_propagate hasWrapper_weightedPersons rfl hs'
  refine ⟨s', hs', ?_⟩
  cases hcut
  refine hiff.mpr ⟨_, List.mem_singleton_self _, ?_⟩
  rw [rewrap, if_pos hasWrapper_weightedPersons, Ty.hasPath_ofLabels]
  rfl

/-- The ages alone: the payload is wrapped as before and is not told apart any more. -/
theorem hasWrapper_lost : ∃ s',
    weightedPersons.hasWrapper = true ∧
    weightedPersons.propagate "ages" (.ofStep (.project (.struct [("age", .integer 0 9)]))) =
      .ok (.ready s') ∧ s'.hasWrapper = false ∧
    s'.ty.child? dataLabel = some (.struct [("age", .integer 0 9)]) ∧ s'.payload = s'.ty := by
  have hnone : (weightedPersons.rewrap (.struct [("age", .integer 0 9)])).hasPath
      (Path.ofLabels [dataLabel, "ssn"]) = false := by
    rw [rewrap, if_pos hasWrapper_weightedPersons, Ty.hasPath_ofLabels]
    rfl
  refine ⟨_, hasWrapper_weightedPersons, rfl, ?_⟩
  have hpaths : [Path.ofLabels [dataLabel, "ssn"]].filter
      ((weightedPersons.rewrap (.struct [("age", .integer 0 9)])).updateReferences
        weightedPersons.ty).hasPath = [] := by
    rw [List.filter_cons_of_neg, List.filter_nil]
    rw [Ty.updateReferences, Ty.hasPath_retainReferences, hnone]
    exact Bool.false_ne_true
  exact ⟨hasWrapper_of_unprotected hpaths, rfl, payload_of_unprotected hpaths⟩

end Schema

end Lineage
