import Lineage.Proofs.Schema.ItemKeys
import Lineage.Proofs.Schema.Wrapper
import Lineage.Proofs.Ty.Relinking
import Lineage.Proofs.Ty.Selected

set_option autoImplicit false

/-!
# Schemas that are cut down twice

Cutting the payload of a schema down drops the references, the primary keys and the protected parts
that lead nowhere any more. What leads somewhere in the rest leads somewhere in the whole type, so a
second time the same target drops nothing: neither in the payload, where the references are those of
the target again, nor beside it, where they are those that the first time has left. The payload must
be found where it was. In a schema that has been made by wrapping a payload it is, since the member
`data` itself is the protected part.

## Main definitions

* `Lineage.Schema.Made`: a schema of a type or of a wrapped payload, with any properties.

## Main results

* `Lineage.Ty.Pruned.hasPath`: paths that lead somewhere in a pruned type.
* `Lineage.Schema.narrowed_of_narrowed`: a schema is cut down once and for all.
* `Lineage.Schema.propagate_project_twice`: projecting twice is projecting once.
-/

namespace Lineage

namespace Ty

variable {t left candidate parent part : Ty} {keep : Path → Bool} {fields : List (String × Ty)}

/-- **Paths that lead somewhere in a pruned type** lead somewhere in the whole type. -/
theorem Pruned.hasPath (h : Pruned left t) (hnames : t.DistinctNames) {path : Path}
    (hpath : left.hasPath path = true) : t.hasPath path = true := by
  obtain ⟨labels, hlabels, hsome⟩ := hasPath_iff.mp hpath
  obtain ⟨part, hpart⟩ := Option.isSome_iff_exists.mp hsome
  obtain ⟨whole, hwhole, -⟩ := h.along? hnames hpart
  exact hasPath_iff.mpr ⟨labels, hlabels, Option.isSome_iff_exists.mpr ⟨whole, hwhole⟩⟩

/-- A pruned type keeps the references that lead somewhere in it. -/
lemma Pruned.updateReferences (h : Pruned candidate parent) (hnames : parent.DistinctNames) :
    candidate.updateReferences parent = candidate.retainReferences candidate.hasPath := by
  refine congrArg (candidate.retainReferences ·) (funext fun path => ?_)
  cases hpath : candidate.hasPath path with
  | false => exact Bool.and_false _
  | true => rw [h.hasPath hnames hpath, Bool.and_true]

/-- References are dropped once and for all. -/
lemma retainReferences_retainReferences (t : Ty) :
    (t.retainReferences keep).retainReferences keep = t.retainReferences keep := by
  refine retainReferences_eq_self_iff.mpr fun r hr => ?_
  rw [references_retainReferences] at hr
  exact (List.mem_filter.mp hr).2

/-- Members of which those under one label are pruned. -/
lemma Kept.replace {label : String}
    (h : ∀ field ∈ fields, field.1 = label → Pruned part field.2) :
    Kept Pruned (fields.map fun field => if field.1 = label then (field.1, part) else field)
      fields := by
  induction fields with
  | nil => exact .nil
  | cons field fields ih =>
    obtain ⟨hfirst, hrest⟩ := List.forall_mem_cons.mp h
    rw [List.map_cons]
    split
    · rename_i hlabel
      exact .keep (hfirst hlabel) (ih hrest)
    · exact .keep .whole (ih hrest)

/-- References of members are dropped once and for all, also if those under one label come back. -/
lemma retainInMembers_replace {label : String} :
    retainInMembers keep ((retainInMembers keep (fields.map fun field =>
        if field.1 = label then (field.1, part) else field)).map fun field =>
          if field.1 = label then (field.1, part) else field) =
      retainInMembers keep (fields.map fun field =>
        if field.1 = label then (field.1, part) else field) := by
  simp only [retainInMembers_eq_map, List.map_map]
  refine List.map_congr_left fun field _ => ?_
  by_cases hlabel : field.1 = label
  · simp [hlabel]
  · simp [hlabel, retainReferences_retainReferences]

end Ty

namespace Schema

variable {s s' : Schema} {name name' : String} {ty target : Ty} {keep : Path → Bool}

/-! ### Derived data -/

/-- Data is derived for a type once and for all. -/
lemma derive_of_derive (h : s.derive name ty = .ok s') :
    s'.derive name' ty = .ok ⟨name', ty, s'.protectedPaths, s'.properties⟩ := by
  obtain ⟨keys, hkeys, rfl⟩ := derive_eq_ok.mp h
  obtain ⟨derived, hderived, -, hkept⟩ := exists_derive hkeys name ty
  cases hderived.symm.trans h
  refine derive_eq_ok.mpr ⟨_, hkept, ?_⟩
  simp only [List.filter_filter, Bool.and_self]
  cases hcontains : s.properties.contains primaryKeysProperty with
  | false => simp [hcontains]
  | true =>
    have hagain : (s.properties.insert primaryKeysProperty
        (keysText (keys.filter ty.hasPath))).contains primaryKeysProperty = true := by
      rw [Dict.contains_eq_isSome_find?, Dict.find?_insert_self, Option.isSome_some]
    simp [hagain, Dict.insert_insert]

/-! ### Payloads -/

/-- A type whose payload is pruned is pruned. -/
lemma pruned_rewrap (hnames : s.ty.DistinctNames) (h : Ty.Pruned target s.payload) :
    Ty.Pruned (s.rewrap target) s.ty := by
  cases hwrapper : s.hasWrapper with
  | false => rwa [rewrap, hwrapper, if_neg Bool.false_ne_true, ← payload_of_not_hasWrapper hwrapper]
  | true =>
    have hchild := payload_of_hasWrapper hwrapper
    obtain ⟨info, fields, hty, hrewrap⟩ := exists_members_of_hasWrapper hwrapper
    rw [hty] at hchild hnames
    rw [hty, hrewrap]
    refine .members (Ty.Kept.replace fun field hfield hlabel => ?_)
    -- The names differ, so that there is one member `data`, which is the payload.
    have hdata : (dataLabel, field.2) ∈ fields := hlabel ▸ hfield
    have hsame : s.payload = field.2 := Option.some.inj
      (hchild.symm.trans (Ty.lookup?_of_mem hnames.of_members.1 hdata))
    exact hsame ▸ h

/-- A target that takes the place of the payload again has the references that it had there. -/
lemma retainReferences_rewrap (hwrapper : s'.hasWrapper = s.hasWrapper)
    (hty : s'.ty = (s.rewrap target).retainReferences keep) :
    (s'.rewrap target).retainReferences keep = s'.ty := by
  cases hs : s.hasWrapper with
  | false => rw [hty, rewrap, hwrapper, rewrap, hs]; rfl
  | true =>
    have hrewrap : s.rewrap target = .members s.ty.info .struct (s.ty.children.map fun field =>
        if field.1 = dataLabel then (field.1, target) else field) := if_pos hs
    rw [hrewrap, Ty.retainReferences] at hty
    rw [rewrap, if_pos (hwrapper.trans hs), hty, Ty.retainReferences]
    exact congrArg (Ty.members _ _) Ty.retainInMembers_replace

/-- **A schema is cut down once and for all** to a target that prunes its payload, as long as the
payload of the result is where it was.

**Proof sketch.** What is left prunes the whole type, so that the references that are kept are
those that lead somewhere in it (`Ty.Pruned.updateReferences`). With the target in the place
of the payload again the same paths lead somewhere, and the second time nothing is dropped
(`retainReferences_rewrap`, `derive_of_derive`). -/
theorem narrowed_of_narrowed (hnames : s.ty.DistinctNames) (htarget : Ty.Pruned target s.payload)
    (hwrapper : s'.hasWrapper = s.hasWrapper) (h : s.narrowed name target = .ok s') :
    s'.narrowed name' target = .ok ⟨name', s'.ty, s'.protectedPaths, s'.properties⟩ := by
  have hty : s'.ty = (s.rewrap target).retainReferences (s.rewrap target).hasPath :=
    (of_derive h).1.trans ((pruned_rewrap hnames htarget).updateReferences hnames)
  have hagain := retainReferences_rewrap hwrapper hty
  -- The same paths lead somewhere with the target in place, before and after.
  have hbefore : s'.ty.hasPath = (s.rewrap target).hasPath := by
    rw [hty]
    exact funext fun path => Ty.hasPath_retainReferences _ _ path
  have hafter : (s'.rewrap target).hasPath = (s.rewrap target).hasPath := by
    rw [← hbefore, ← hagain]
    exact funext fun path => (Ty.hasPath_retainReferences _ _ path).symm
  have hsame : (s'.rewrap target).updateReferences s'.ty = s'.ty := by
    rw [Ty.updateReferences, hbefore, hafter]
    simpa only [Bool.and_self] using hagain
  rw [narrowed, (of_derive h).1.symm] at h
  rw [narrowed, hsame]
  exact derive_of_derive h

/-! ### Schemas that are made -/

/-- A schema has been made of a type, or of a payload that is wrapped next to siblings. Properties
have been set, the primary keys among them. -/
inductive Made : Schema → Prop where
  /-- The schema of a type. -/
  | plain (name : String) (ty : Ty) : Made (ofTy name ty)
  /-- The schema of a wrapped payload. -/
  | wrapped (name : String) (payload : Ty) (siblings : List (String × Ty)) :
      Made (wrapping name payload siblings)
  /-- One property is set. -/
  | property (key value : String) {s : Schema} (made : Made s) : Made (s.withProperty key value)

/-- In a schema that has been made nothing is protected or the whole payload is. -/
lemma Made.protectedPaths (h : s.Made) : s.protectedPaths = [] ∨
    s.hasWrapper = true ∧ s.protectedPaths = [Path.ofLabels [dataLabel]] := by
  induction h with
  | plain name ty => exact Or.inl rfl
  | wrapped name payload siblings =>
    have hdata : (wrapping name payload siblings).ty.child? dataLabel = some payload := by
      simp [wrapping, Ty.struct, Ty.child?, Ty.children, Ty.lookup?]
    exact Or.inr ⟨hasWrapper_iff.mpr ⟨List.cons_ne_nil _ _, rfl, by rw [hdata]; rfl⟩, rfl⟩
  | property key value made ih => exact ih

/-- The step to the payload of a wrapped schema leads somewhere after the payload has become another
type. -/
lemma hasPath_rewrap (hwrapper : s.hasWrapper = true) (part : Ty) :
    (s.rewrap part).hasPath (Path.ofLabels [dataLabel]) = true := by
  have hstep : (s.rewrap part).step? dataLabel = (s.rewrap part).child? dataLabel := by
    rw [rewrap, if_pos hwrapper]
    rfl
  rw [Ty.hasPath_ofLabels, Ty.along?, hstep, child?_rewrap hwrapper]
  rfl

/-- The payload of a schema that has been made stays where it is. -/
lemma Made.hasWrapper_of_narrowed (h : s.Made) (hnarrowed : s.narrowed name target = .ok s') :
    s'.hasWrapper = s.hasWrapper := by
  obtain ⟨hty, hpaths⟩ := of_derive hnarrowed
  rcases h.protectedPaths with hnone | ⟨hwrapper, hdata⟩
  · rw [hnone] at hpaths
    rw [hasWrapper_of_unprotected hpaths, hasWrapper_of_unprotected hnone]
  · rw [Ty.updateReferences] at hty
    rw [hwrapper]
    refine hasWrapper_iff.mpr ⟨?_, ?_, ?_⟩
    · have hpath := hasPath_rewrap hwrapper target
      simp [hpaths, hdata, Ty.updateReferences, hpath]
    · rw [hty, Ty.isStruct_retainReferences, isStruct_rewrap hwrapper]
    · rw [hty, Ty.child?_retainReferences, child?_rewrap hwrapper]
      rfl

/-- A projection has the schema that is cut down to its target. -/
lemma propagate_project_iff_narrowed {heading : Heading} :
    s.propagate name (.step heading (.project target)) = .ok (.ready s') ↔
      s.narrowed name target = .ok s' := by
  rw [propagate, Outcome.map_eq_ok]
  simp

/-- **Projecting a schema twice is projecting it once.** The target is the payload cut down to a
path. The first projection has a schema exactly if the primary keys can be read, and the second one
then has the same: type, primary keys, protected parts and properties.

**Proof sketch.** A projection cuts the schema down to its target
(`propagate_project_iff_narrowed`), which is done once and for all (`narrowed_of_narrowed`).
The payload stays where it is, since a schema that has been made protects nothing or all of
its payload (`Made.hasWrapper_of_narrowed`). -/
theorem propagate_project_twice (hmade : s.Made) (hnames : s.ty.DistinctNames) {p : Path}
    (htarget : s.payload.select p = .ok target) (name name' : String) (heading heading' : Heading) :
    ((∃ once, s.propagate name (.step heading (.project target)) = .ok (.ready once)) ↔
      ∃ keys, s.primaryKeys = .ok keys) ∧
    ∀ once, s.propagate name (.step heading (.project target)) = .ok (.ready once) →
      ∃ twice, once.propagate name' (.step heading' (.project target)) = .ok (.ready twice) ∧
        twice.ty = once.ty ∧ twice.primaryKeys = once.primaryKeys ∧
        twice.protectedPaths = once.protectedPaths ∧ twice.properties = once.properties := by
  refine ⟨⟨?_, ?_⟩, fun once honce => ?_⟩
  · rintro ⟨once, honce⟩
    exact exists_primaryKeys_of_derive (propagate_project_iff_narrowed.mp honce)
  · rintro ⟨keys, hkeys⟩
    obtain ⟨once, honce, -⟩ := exists_derive hkeys name ((s.rewrap target).updateReferences s.ty)
    exact ⟨once, propagate_project_iff_narrowed.mpr honce⟩
  · have hnarrowed := propagate_project_iff_narrowed.mp honce
    have hagain : once.narrowed name' target =
        .ok ⟨name', once.ty, once.protectedPaths, once.properties⟩ :=
      narrowed_of_narrowed hnames (Ty.pruned_of_selectBelow p s.payload htarget)
        (hmade.hasWrapper_of_narrowed hnarrowed) hnarrowed
    exact ⟨_, propagate_project_iff_narrowed.mpr hagain, rfl, rfl, rfl, rfl⟩

/-- A key that refers to a column of the payload. -/
def keyTo (column : String) : Ty :=
  .ofLeaf (.id false .int64 (some (Path.ofLabels [dataLabel, column])))

/-- Numbered cards with names. A card refers to the number of its sender, and in the payload to the
name of the card it replaces. -/
def cards : Schema :=
  (wrapping "cards" (.struct [("id", .ofLeaf (.id true .int64 none)), ("name", .text),
    ("replaces", keyTo "name")]) [("sender", keyTo "id")]).withPrimaryKeys
      [Path.ofLabels [dataLabel, "id"], Path.ofLabels [dataLabel, "name"]]

/-- The names of the parts of cards differ. -/
lemma distinctNames_cards : cards.ty.DistinctNames := by
  refine .members (by decide) (List.forall_mem_cons.mpr ⟨.members (by decide) ?_,
    List.forall_mem_singleton.mpr .leaf⟩)
  simp only [List.forall_mem_cons]
  exact ⟨.leaf, .leaf, .leaf, fun _ h => nomatch h⟩

/-- Cards are cut down to their names and to what they replace. The numbers that senders refer to
are gone, and the second time all stays. -/
theorem propagate_project_twice_cards :
    cards.Made ∧ cards.ty.DistinctNames ∧
    cards.payload.select (.node "" [.node "replaces" [], .node "name" []]) =
      .ok (.struct [("name", .text), ("replaces", keyTo "name")]) ∧
    ∃ once twice, cards.propagate "names" (.ofStep (.project
        (.struct [("name", .text), ("replaces", keyTo "name")]))) = .ok (.ready once) ∧
      once.propagate "names" (.ofStep (.project
        (.struct [("name", .text), ("replaces", keyTo "name")]))) = .ok (.ready twice) ∧
      twice.ty = once.ty ∧ twice.primaryKeys = once.primaryKeys ∧
      twice.protectedPaths = once.protectedPaths ∧ twice.properties = once.properties := by
  have hmade : cards.Made := .property _ _ (.wrapped _ _ _)
  have hselect : cards.payload.select (.node "" [.node "replaces" [], .node "name" []]) =
      .ok (.struct [("name", .text), ("replaces", keyTo "name")]) := rfl
  have hkeys : cards.primaryKeys = .ok [Path.ofLabels [dataLabel, "id"],
      Path.ofLabels [dataLabel, "name"]] := primaryKeys_withPrimaryKeys _ (by decide)
  obtain ⟨hiff, htwice⟩ := propagate_project_twice hmade distinctNames_cards hselect "names" "names"
    (Transform.named "project") (Transform.named "project")
  obtain ⟨once, honce⟩ := hiff.mpr ⟨_, hkeys⟩
  obtain ⟨twice, htwice, hsame⟩ := htwice once honce
  exact ⟨hmade, distinctNames_cards, hselect, once, twice, honce, htwice, hsame⟩

end Schema

end Lineage
