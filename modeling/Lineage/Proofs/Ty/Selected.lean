import Lineage.Proofs.Ty.Projected

set_option autoImplicit false

/-!
# Types cut down to a path

A path cuts a type down to what its branches lead to. Nothing is added: what is left are members of
the type, in their order and as they were, in the same structs, unions and wrappers. Cutting the
type down once more changes nothing.

## Main results

* `Lineage.Ty.Pruned.along?`: labels that lead somewhere in what is left do in the whole type.
* `Lineage.Ty.selectBelow_of_selectBelow`: a type is cut down once and for all.
* `Lineage.Ty.select_keeps`: what is left of a type that is cut down to a path.
-/

namespace Lineage.Ty

variable {t left part : Ty} {p : Path} {label : String} {labels : List String} {full : Path}
  {nodes : List Path} {fields remaining : List (String × Ty)}

/-! ### Pruned types -/

/-- All members are left. -/
lemma Kept.whole (fields : List (String × Ty)) : Kept Pruned fields fields := by
  induction fields with
  | nil => exact .nil
  | cons field fields ih => exact .keep .whole ih

/-- A member of what is left is found in the whole, where it may be more. -/
lemma Kept.lookup? {info : Info} {form : Form} (kept : Kept Pruned remaining fields)
    (hnames : DistinctNames (.members info form fields))
    (found : lookup? label remaining = some part) :
    ∃ whole, Ty.lookup? label fields = some whole ∧ whole.DistinctNames ∧ Pruned part whole := by
  obtain ⟨hnodup, hbelow⟩ := hnames.of_members
  obtain ⟨whole, hmem, hpruned⟩ := kept.exists_of_lookup? found
  exact ⟨whole, lookup?_of_mem hnodup hmem, hbelow _ hmem, hpruned⟩

/-- **A step that a pruned type has** the whole type has too, and it leads to a part that is
pruned. -/
theorem Pruned.step? (h : Pruned left t) (hnames : t.DistinctNames)
    (hstep : left.step? label = some part) :
    ∃ whole, t.step? label = some whole ∧ whole.DistinctNames ∧ Pruned part whole := by
  cases h with
  | members kept => exact kept.lookup? hnames hstep
  | wrapped inside =>
    cases hstep
    exact ⟨_, rfl, hnames.of_wrapped, inside⟩
  | whole =>
    cases t with
    | members info form fields => exact (Kept.whole fields).lookup? hnames hstep
    | wrapped info wrapper inner =>
      cases hstep
      exact ⟨_, rfl, hnames.of_wrapped, .whole⟩
    | leaf info content | hypothesis info types => cases hstep

/-- **Labels that lead somewhere in a pruned type** lead somewhere in the whole type, to a part that
is pruned. -/
theorem Pruned.along? (h : Pruned left t) (hnames : t.DistinctNames)
    (halong : along? labels left = some part) :
    ∃ whole, along? labels t = some whole ∧ Pruned part whole := by
  induction labels generalizing left t with
  | nil =>
    cases halong
    exact ⟨t, rfl, h⟩
  | cons label labels ih =>
    obtain ⟨next, hstep, hrest⟩ := Option.bind_eq_some_iff.mp halong
    obtain ⟨whole, hwhole, hbelow, hpruned⟩ := h.step? hnames hstep
    obtain ⟨found, hfound, hpart⟩ := ih hpruned hbelow hrest
    exact ⟨found, Option.bind_eq_some_iff.mpr ⟨whole, hwhole, hfound⟩, hpart⟩

/-! ### Cutting down to a path -/

/-- The first node with the label of a node. -/
lemma exists_nodeAt? {node : Path} (hnode : node ∈ nodes) :
    ∃ first, nodeAt? node.label nodes = some first :=
  Option.isSome_iff_exists.mp (List.find?_isSome.mpr ⟨node, hnode, beq_self_eq_true _⟩)

/-- Members are cut down once and for all if each of them is. -/
lemma selectMembers_of_selectMembers
    (ih : ∀ member ∈ fields, ∀ {nodes : List Path} {left : Ty},
      selectBelow full member.2 nodes = .ok left → selectBelow full left nodes = .ok left)
    (h : selectMembers full nodes fields = .ok remaining) :
    selectMembers full nodes remaining = .ok remaining := by
  induction fields generalizing remaining with
  | nil =>
    rw [selectMembers] at h
    cases h
    rw [selectMembers]
  | cons field fields ihfields =>
    obtain ⟨name, whole⟩ := field
    obtain ⟨hwhole, hrest⟩ := List.forall_mem_cons.mp ih
    rcases selectMembers_cons_eq_ok.mp h with
      ⟨-, hothers⟩ | ⟨next, part, others, hnext, hpart, hothers, rfl⟩
    · exact ihfields hrest hothers
    · exact selectMembers_cons_eq_ok.mpr (Or.inr
        ⟨next, part, others, hnext, hwhole hpart, ihfields hrest hothers, rfl⟩)

/-- **A type is cut down once and for all**: by the same nodes nothing more goes.

**Proof sketch.** By induction on the type. The members that are left of a struct or union are
those that nodes name, so each node finds its member among them, and what is left of a member is
cut down once and for all (`selectMembers_of_selectMembers`). -/
theorem selectBelow_of_selectBelow (full : Path) (t : Ty) : ∀ {nodes : List Path} {left : Ty},
    selectBelow full t nodes = .ok left → selectBelow full left nodes = .ok left := by
  have hend : ∀ t : Ty, selectBelow full t [] = .ok t := fun t => by rw [selectBelow]
  induction t using Ty.induction with
  | leaf info content | hypothesis info types =>
    intro nodes left h
    cases nodes with
    | nil => exact hend left
    | cons node nodes => cases h
  | members info form fields ih =>
    intro nodes left h
    cases nodes with
    | nil => exact hend left
    | cons node nodes =>
      obtain ⟨hknown, remaining, hmembers, rfl⟩ := selectBelow_members_eq_ok.mp h
      refine selectBelow_members_eq_ok.mpr ⟨fun other hother => ?_, remaining, ?_, rfl⟩
      · -- the member of a node is left, since the first node of its label names it
        obtain ⟨first, hfirst⟩ := exists_nodeAt? hother
        obtain ⟨whole, hwhole⟩ := hknown other hother
        obtain ⟨part, hpart, -⟩ := lookup?_of_selectMembers hmembers hfirst hwhole
        exact ⟨part, hpart⟩
      · exact selectMembers_of_selectMembers ih hmembers
  | wrapped info wrapper inner ih =>
    intro nodes left h
    cases nodes with
    | nil => exact hend left
    | cons node nodes =>
      cases nodes with
      | nil =>
        rw [selectBelow] at h
        obtain ⟨part, hpart, rfl⟩ := Outcome.map_eq_ok.mp h
        rw [selectBelow, ih hpart]
        rfl
      | cons second rest => cases h

/-! ### What is left -/

/-- Labels along which everything is kept lead to the same part. -/
lemma KeptAlong.along?_eq (h : KeptAlong labels t left) :
    ∃ part, along? labels t = some part ∧ along? labels left = some part := by
  induction h with
  | @here t => exact ⟨t, rfl, rfl⟩
  | member found kept below ih =>
    obtain ⟨part, hpart, hleft⟩ := ih
    exact ⟨part, Option.bind_eq_some_iff.mpr ⟨_, found, hpart⟩,
      Option.bind_eq_some_iff.mpr ⟨_, kept, hleft⟩⟩
  | wrapped inside ih => exact ih

/-- **What is left of a type that is cut down to a path.** Every branch of the path leads to what it
led to before. What labels lead to in the rest they lead to in the whole type, only that it may be
pruned; members that are left stand in their order, under their names and with their properties.
Cutting the rest down once more leaves all of it.

**Proof sketch.** Along a branch of the path everything is kept, so that it leads to the same
part (`keptAlong_of_select`). What is left is pruned, and of a pruned type every way is one of
the whole type (`Pruned.along?`). -/
theorem select_keeps (hnames : t.DistinctNames) (hlabels : p.DistinctLabels)
    (h : t.select p = .ok left) :
    (∀ labels ∈ p.branches, ∃ part,
      t.get (.ofLabels labels) = .ok part ∧ left.get (.ofLabels labels) = .ok part) ∧
    (∀ labels part, left.get (.ofLabels labels) = .ok part →
      ∃ whole, t.get (.ofLabels labels) = .ok whole ∧ Pruned part whole) ∧
    Pruned left t ∧ left.select p = .ok left := by
  have hpruned : Pruned left t := pruned_of_selectBelow p t h
  refine ⟨fun labels hbranch => ?_, fun labels part hpart => ?_, hpruned,
    selectBelow_of_selectBelow p t h⟩
  · obtain ⟨part, hpart, hleft⟩ := (keptAlong_of_select hlabels h hbranch).along?_eq
    exact ⟨part, get_ofLabels_eq_ok.mpr hpart, get_ofLabels_eq_ok.mpr hleft⟩
  · obtain ⟨whole, hwhole, hpart⟩ := hpruned.along? hnames (get_ofLabels_eq_ok.mp hpart)
    exact ⟨whole, get_ofLabels_eq_ok.mpr hwhole, hpart⟩

/-- Visits: the guest, if known, the nights and a note. -/
def visit : Ty := .struct
  [("guest", .optional (.struct [("name", .text), ("phone", .text)])),
    ("nights", .integer 1 30), ("note", .text)]

/-- The nights of a visit, and the name of the guest. -/
def nightsAndName : Path :=
  .node "" [.node "nights" [], .node "guest" [.node optionalValue [.node "name" []]]]

/-- Visits of which the name of the guest and the nights are left. -/
def briefVisit : Ty := .struct
  [("guest", .optional (.struct [("name", .text)])), ("nights", .integer 1 30)]

/-- The parts of a visit have different names. -/
lemma distinctNames_visit : visit.DistinctNames := by
  have htext : text.DistinctNames := .leaf
  have hguest : (struct [("name", text), ("phone", text)]).DistinctNames :=
    .members (by decide) (List.forall_mem_cons.mpr ⟨htext, List.forall_mem_singleton.mpr htext⟩)
  exact .members (by decide) (List.forall_mem_cons.mpr
    ⟨.wrapped hguest, List.forall_mem_cons.mpr ⟨.leaf, List.forall_mem_singleton.mpr htext⟩⟩)

/-- The nights and the name of the guest stand under different labels. -/
lemma distinctLabels_nightsAndName : nightsAndName.DistinctLabels :=
  .node (by decide) (List.forall_mem_cons.mpr
    ⟨Path.distinctLabels_chain "nights" [],
      List.forall_mem_singleton.mpr (Path.distinctLabels_chain "guest" [optionalValue, "name"])⟩)

/-- The guest stands before the nights, as in the whole visit, and what is left stays. -/
theorem select_keeps_nightsAndName :
    visit.DistinctNames ∧ nightsAndName.DistinctLabels ∧
      visit.select nightsAndName = .ok briefVisit ∧ Pruned briefVisit visit ∧
      (∀ labels ∈ nightsAndName.branches, ∃ part, visit.get (.ofLabels labels) = .ok part ∧
        briefVisit.get (.ofLabels labels) = .ok part) ∧
      briefVisit.select nightsAndName = .ok briefVisit := by
  have hselect : visit.select nightsAndName = .ok briefVisit := rfl
  obtain ⟨hbranches, -, hpruned, hagain⟩ :=
    select_keeps distinctNames_visit distinctLabels_nightsAndName hselect
  exact ⟨distinctNames_visit, distinctLabels_nightsAndName, hselect, hpruned, hbranches, hagain⟩

end Lineage.Ty
