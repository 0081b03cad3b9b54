import Lineage.Proofs.Ty.Descend
import Lineage.Proofs.Ty.Membership

set_option autoImplicit false

/-!
# Branches of a path and what they lead to

A type that is cut down to a path keeps, along every branch of the path, what the branch leads to,
and keeps it whole. So labels of a branch lead to the same in the type and in what is left of it,
whatever the column is that they are followed in.

## Main definitions

* `Lineage.Path.DistinctLabels`: nodes side by side have different labels.
* `Lineage.Ty.KeptAlong`: what labels lead to in a type is kept in another one.

## Main results

* `Lineage.Ty.keptAlong_of_select`: along the branches of a path everything is kept.
* `Lineage.Ty.KeptAlong.descend_eq`: labels lead to the same in both types.
-/

namespace Lineage

/-! ### Branches -/

namespace Path

/-- Nodes side by side have different labels. -/
inductive DistinctLabels : Path → Prop
  /-- The nodes below have different labels, and so have those below them. -/
  | node {label : String} {nodes : List Path} (nodup : (nodes.map Path.label).Nodup)
      (below : ∀ node ∈ nodes, DistinctLabels node) : DistinctLabels (.node label nodes)

/-- Nodes that follow one another are not side by side. -/
lemma distinctLabels_chain (label : String) (labels : List String) :
    (node label (chain labels)).DistinctLabels := by
  induction labels generalizing label with
  | nil => exact .node List.nodup_nil (by simp [chain])
  | cons next labels ih =>
    exact .node (List.nodup_singleton next) (List.forall_mem_singleton.mpr (ih next))

/-- A path that does not branch has no nodes side by side. -/
lemma distinctLabels_ofLabels (labels : List String) : (ofLabels labels).DistinctLabels :=
  distinctLabels_chain "" labels

/-- The branches through some nodes start with their labels. -/
lemma mem_branchesOf {nodes : List Path} {labels : List String} : labels ∈ branchesOf nodes ↔
    ∃ node ∈ nodes, ∃ rest ∈ node.branches, labels = node.label :: rest := by
  induction nodes with
  | nil => simp [branchesOf]
  | cons node nodes ih =>
    obtain ⟨label, below⟩ := node
    rw [branchesOf, List.mem_append, ih, List.mem_map, List.exists_mem_cons_iff]
    exact or_congr_left (exists_congr fun rest => and_congr_right fun _ => eq_comm)

end Path

namespace Ty

variable {label : String} {labels rest : List String} {t part : Ty}

/-! ### What is kept -/

/-- What labels lead to in a type is kept in another one, with the way that leads to it. -/
inductive KeptAlong : List String → Ty → Ty → Prop
  /-- Where no labels are left the type is whole. -/
  | here {t : Ty} : KeptAlong [] t t
  /-- A member is kept. -/
  | member {label : String} {rest : List String} {info : Info} {form : Form}
      {fields left : List (String × Ty)} {t part : Ty} (found : lookup? label fields = some t)
      (kept : lookup? label left = some part) (below : KeptAlong rest t part) :
      KeptAlong (label :: rest) (.members info form fields) (.members info form left)
  /-- A wrapper is kept. -/
  | wrapped {label : String} {rest : List String} {info : Info} {wrapper : Wrapper}
      {inner part : Ty} (inside : KeptAlong rest inner part) :
      KeptAlong (label :: rest) (.wrapped info wrapper inner) (.wrapped info wrapper part)

/-- The first node with a label is the only one. -/
lemma nodeAt?_of_mem {nodes : List Path} (hnodup : (nodes.map Path.label).Nodup) {node : Path}
    (hnode : node ∈ nodes) : nodeAt? node.label nodes = some node := by
  induction nodes with
  | nil => cases hnode
  | cons first nodes ih =>
    obtain ⟨hfirst, hnodup⟩ := List.nodup_cons.mp hnodup
    rcases List.mem_cons.mp hnode with rfl | hnode
    · simp [nodeAt?]
    · have hne : first.label ≠ node.label :=
        fun heq => hfirst (heq ▸ List.mem_map_of_mem hnode)
      rw [nodeAt?, List.find?_cons_of_neg (by simpa using hne)]
      exact ih hnodup hnode

/-- A member that a node names is left, cut down to what is below the node. -/
lemma lookup?_of_selectMembers {full : Path} {nodes : List Path} {fields left : List (String × Ty)}
    (h : selectMembers full nodes fields = .ok left) {node : Path}
    (hnode : nodeAt? label nodes = some node) (found : lookup? label fields = some t) :
    ∃ part, lookup? label left = some part ∧ selectBelow full t node.subPaths = .ok part := by
  induction fields generalizing left with
  | nil => cases found
  | cons field fields ih =>
    obtain ⟨name, whole⟩ := field
    by_cases hname : name = label
    · subst hname
      cases (lookup?_cons_self name whole fields).symm.trans found
      rcases selectMembers_cons_eq_ok.mp h with
        ⟨hnone, -⟩ | ⟨other, part, others, hother, hpart, -, rfl⟩
      · cases hnone.symm.trans hnode
      · cases hother.symm.trans hnode
        exact ⟨part, lookup?_cons_self name part others, hpart⟩
    · rw [lookup?_cons_of_ne hname] at found
      rcases selectMembers_cons_eq_ok.mp h with
        ⟨-, hothers⟩ | ⟨other, part, others, -, -, hothers, rfl⟩
      · exact ih hothers found
      · rw [lookup?_cons_of_ne hname]
        exact ih hothers found

/-- **Along every branch below a node everything is kept.** -/
theorem keptAlong_of_selectBelow (full : Path) (t : Ty) : ∀ {node : Path} {left : Ty},
    node.DistinctLabels → selectBelow full t node.subPaths = .ok left →
    ∀ {labels : List String}, labels ∈ node.branches → KeptAlong labels t left := by
  -- Where no node follows, the type stays whole.
  have hleaf : ∀ {t left : Ty} {label : String} {labels : List String},
      selectBelow full t [] = .ok left → labels ∈ (Path.node label []).branches →
      KeptAlong labels t left := by
    intro t left label labels h hlabels
    obtain rfl : labels = [] := by simpa [Path.branches] using hlabels
    rw [selectBelow] at h
    cases h
    exact .here
  induction t using Ty.induction with
  | leaf info content | hypothesis info types =>
    rintro ⟨label, nodes⟩ left _ h labels hlabels
    cases nodes with
    | nil => exact hleaf h hlabels
    | cons node nodes => cases h
  | members info form fields ih =>
    rintro ⟨label, nodes⟩ left hdistinct h labels hlabels
    cases nodes with
    | nil => exact hleaf h hlabels
    | cons first nodes =>
      obtain ⟨hnodup, hbelow⟩ := hdistinct
      rw [Path.branches] at hlabels
      obtain ⟨node, hnode, rest, hrest, rfl⟩ := Path.mem_branchesOf.mp hlabels
      obtain ⟨hknown, members, hmembers, rfl⟩ := selectBelow_members_eq_ok.mp h
      obtain ⟨t, found⟩ := hknown node hnode
      obtain ⟨part, kept, hpart⟩ := lookup?_of_selectMembers hmembers
        (nodeAt?_of_mem hnodup hnode) found
      exact .member found kept (ih _ (mem_of_lookup? found) (hbelow node hnode) hpart hrest)
  | wrapped info wrapper inner ih =>
    rintro ⟨label, nodes⟩ left hdistinct h labels hlabels
    cases nodes with
    | nil => exact hleaf h hlabels
    | cons first nodes =>
      obtain ⟨hnodup, hbelow⟩ := hdistinct
      rw [Path.branches] at hlabels
      obtain ⟨node, hnode, rest, hrest, rfl⟩ := Path.mem_branchesOf.mp hlabels
      dsimp only [Path.subPaths] at h
      cases nodes with
      | nil =>
        obtain rfl := List.mem_singleton.mp hnode
        rw [selectBelow] at h
        obtain ⟨part, hpart, rfl⟩ := Outcome.map_eq_ok.mp h
        exact .wrapped (ih (hbelow node hnode) hpart hrest)
      | cons second nodes => cases h

/-- **Along every branch of a path everything is kept** in the type that is cut down to it. -/
theorem keptAlong_of_select {p : Path} {left : Ty} (hdistinct : p.DistinctLabels)
    (h : t.select p = .ok left) (hlabels : labels ∈ p.branches) : KeptAlong labels t left :=
  keptAlong_of_selectBelow p t hdistinct h hlabels

/-- **Labels lead to the same in a type and in what is kept of it along them.** -/
theorem KeptAlong.descend_eq {left : Ty} (h : KeptAlong labels t left) (c : Column) :
    descend c labels left = descend c labels t := by
  induction h generalizing c with
  | here => rfl
  | member found kept below ih =>
    rw [descend, descend, descendMember_of_lookup? found, descendMember_of_lookup? kept]
    simp only [ih]
  | @wrapped label rest info wrapper inner part inside ih =>
    cases wrapper with
    | optional | constrained constraint =>
      rw [descend, descend]
      exact ih c
    | list maxSize | array shape =>
      rw [descend, descend]
      all_goals simp

end Ty

end Lineage
