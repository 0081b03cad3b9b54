import Lineage.Proofs.Ty.Select

set_option autoImplicit false

/-!
# Paths that branch

A path that branches is followed to the end of every branch. What is found there are the parts that
the branches lead to on their own, one by one and in their order. There is one place where a path
must not branch: inside a wrapper, where a type has but one part.

## Main definitions

* `Lineage.Ty.BranchesInside`: a path branches inside a wrapper.
* `Lineage.Ty.FoundOrAmbiguous`: there are parts at the ends of a path, unless it is ambiguous.

## Main results

* `Lineage.Ty.map_along?_of_subTypesBelow`: the parts that are found.
* `Lineage.Ty.subTypesBelow_of_resolved`: what happens where all branches lead somewhere.
* `Lineage.Ty.exists_subTypesBelow_iff`: when there are parts at the ends of a path.
* `Lineage.Ty.subTypes_branches`: the parts at the ends of a path, by those under its branches.
-/

namespace Lineage

/-! ### Branches -/

namespace Path

/-- The branches through nodes are those through each of them. -/
lemma branchesOf_eq_flatMap (nodes : List Path) :
    branchesOf nodes = nodes.flatMap fun node => node.branches.map (node.label :: ·) := by
  induction nodes with
  | nil => rfl
  | cons node nodes ih =>
    obtain ⟨label, below⟩ := node
    rw [branchesOf, ih, List.flatMap_cons]
    rfl

/-- A path has a branch. -/
lemma branches_ne_nil : ∀ p : Path, p.branches ≠ []
  | .node _ [] => by
    rw [branches]
    exact List.cons_ne_nil _ _
  | .node _ (.node label below :: nodes) => by
    have ih := branches_ne_nil (.node label below)
    rw [branches, branchesOf]
    exact List.append_ne_nil_of_left_ne_nil (mt List.map_eq_nil_iff.mp ih) _

/-- Some nodes have at least as many branches as there are nodes. -/
lemma length_le_length_branchesOf (nodes : List Path) :
    nodes.length ≤ (branchesOf nodes).length := by
  induction nodes with
  | nil => exact Nat.le_refl 0
  | cons node nodes ih =>
    obtain ⟨label, below⟩ := node
    have hpos := List.length_pos_of_ne_nil (branches_ne_nil (.node label below))
    rw [branchesOf, List.length_append, List.length_map, List.length_cons]
    omega

/-- **A path with one branch** is a chain of nodes. -/
theorem exists_chain_of_length_branches : ∀ p : Path, p.branches.length = 1 →
    ∃ labels, p.subPaths = chain labels
  | .node _ [], _ => ⟨[], rfl⟩
  | .node _ [.node label below], h => by
    rw [branches, branchesOf, branchesOf, List.append_nil, List.length_map] at h
    obtain ⟨labels, hlabels⟩ := exists_chain_of_length_branches (.node label below) h
    exact ⟨label :: labels, congrArg (fun below => [node label below]) hlabels⟩
  | .node _ (first :: second :: rest), h => by
    have hle := length_le_length_branchesOf (first :: second :: rest)
    rw [branches] at h
    rw [h, List.length_cons, List.length_cons] at hle
    omega

end Path

/-! ### Parts at the ends of a path -/

namespace Ty

variable {t part : Ty} {p : Path} {labels : List String} {parts : List Ty}

/-- Where no node follows, there is one branch without labels. -/
lemma map_along?_branches_nil {full : Path} {label : String}
    (h : subTypesBelow full [] t = .ok parts) :
    ((Path.node label []).branches.map fun labels => along? labels t) = parts.map some := by
  rw [subTypesBelow] at h
  cases h
  rw [Path.branches]
  rfl

/-- The branches through nodes that select members lead to the parts in the members. -/
lemma map_along?_branchesOf_members {full : Path} {info : Info} {form : Form}
    {fields : List (String × Ty)} {nodes : List Path}
    (ih : ∀ member ∈ fields, ∀ {p : Path} {parts : List Ty},
      subTypesBelow full p.subPaths member.2 = .ok parts →
        (p.branches.map fun labels => along? labels member.2) = parts.map some)
    {found : List (List Ty)} (h : nodes.mapM (subTypesOfMember full fields) = .ok found) :
    ((Path.branchesOf nodes).map fun labels => along? labels (.members info form fields)) =
      found.flatten.map some := by
  have hnode : ∀ (node : Path) (parts : List Ty),
      subTypesOfMember full fields node = .ok parts →
      ((node.branches.map (node.label :: ·)).map fun labels =>
        along? labels (.members info form fields)) = parts.map some := by
    intro node parts hparts
    obtain ⟨part, hpart, hbelow⟩ := subTypesOfMember_eq_ok.mp hparts
    rw [← ih _ (mem_of_lookup? hpart) hbelow, List.map_map]
    refine List.map_congr_left fun labels _ => ?_
    rw [Function.comp_apply, along?, step?, hpart, Option.bind_some]
  rw [Path.branchesOf_eq_flatMap, List.map_flatMap, List.flatMap_def, List.map_flatten]
  refine congrArg List.flatten ?_
  rw [← List.forall₂_eq_eq_eq, List.forall₂_map_left_iff, List.forall₂_map_right_iff]
  exact (Outcome.mapM_eq_ok.mp h).imp hnode

/-- **The parts at the ends of a path** are those that its branches lead to.

**Proof sketch.** Induction on the type, for all paths. A node selects one part of the type, and the
branches through it begin with its label, so that they lead on from this part. -/
theorem map_along?_of_subTypesBelow (full : Path) (t : Ty) : ∀ {p : Path} {parts : List Ty},
    subTypesBelow full p.subPaths t = .ok parts →
      (p.branches.map fun labels => along? labels t) = parts.map some := by
  induction t using Ty.induction with
  | leaf info content | hypothesis info types =>
    rintro ⟨label, nodes⟩ parts h
    cases nodes with
    | nil => exact map_along?_branches_nil h
    | cons node nodes =>
      obtain ⟨next, below⟩ := node
      rw [Path.subPaths, subTypesBelow] at h
      · cases h
      all_goals simp
  | members info form fields ih =>
    rintro ⟨label, nodes⟩ parts h
    cases nodes with
    | nil => exact map_along?_branches_nil h
    | cons node nodes =>
      rw [Path.subPaths, subTypesBelow_members] at h
      obtain ⟨found, hfound, rfl⟩ := Outcome.map_eq_ok.mp h
      rw [Path.branches]
      exact map_along?_branchesOf_members ih hfound
  | wrapped info wrapper inner ih =>
    rintro ⟨label, nodes⟩ parts h
    cases nodes with
    | nil => exact map_along?_branches_nil h
    | cons node nodes =>
      cases nodes with
      | nil =>
        rw [Path.subPaths, subTypesBelow_wrapped] at h
        rw [← ih h, Path.branches, Path.branchesOf_eq_flatMap, List.flatMap_singleton, List.map_map]
        rfl
      | cons second rest =>
        obtain ⟨next, below⟩ := node
        rw [Path.subPaths, subTypesBelow] at h
        cases h

/-! ### Where a path must not branch -/

/-- A path branches inside a wrapper: several nodes stand side by side where there is only the part
that is wrapped. -/
inductive BranchesInside : Ty → Path → Prop
  /-- Below this node. -/
  | here {info : Info} {wrapper : Wrapper} {inner : Ty} {label : String} {first second : Path}
      {rest : List Path} :
      BranchesInside (.wrapped info wrapper inner) (.node label (first :: second :: rest))
  /-- Further down. -/
  | further {t part : Ty} {p node : Path} (hnode : node ∈ p.subPaths)
      (hstep : t.step? node.label = some part) (inside : BranchesInside part node) :
      BranchesInside t p

/-- A path without steps does not branch. -/
lemma not_branchesInside_nil {label : String} : ¬BranchesInside t (.node label []) := by
  intro h
  cases h with
  | further hnode _ _ => cases hnode

/-- A path that starts with one step into a wrapper branches further down. -/
lemma branchesInside_wrapped_iff {info : Info} {wrapper : Wrapper} {inner : Ty} {label : String}
    {node : Path} : BranchesInside (.wrapped info wrapper inner) (.node label [node]) ↔
      BranchesInside inner node := by
  constructor
  · intro h
    cases h with
    | further hnode hstep inside =>
      obtain rfl := List.mem_singleton.mp hnode
      cases hstep
      exact inside
  · exact .further List.mem_cons_self rfl

/-- A path into a struct or union branches further down. -/
lemma branchesInside_members_iff {info : Info} {form : Form} {fields : List (String × Ty)} :
    BranchesInside (.members info form fields) p ↔ ∃ node ∈ p.subPaths, ∃ part,
      lookup? node.label fields = some part ∧ BranchesInside part node := by
  constructor
  · intro h
    cases h with
    | further hnode hstep inside => exact ⟨_, hnode, _, hstep, inside⟩
  · rintro ⟨node, hnode, part, hpart, inside⟩
    exact .further hnode hpart inside

/-! ### Paths all of whose branches lead somewhere -/

/-- Where every branch of a path leads somewhere, the first step of each of its nodes does, and so
do the branches behind it. -/
lemma exists_step_of_resolved {label : String} {nodes : List Path}
    (h : ∀ labels ∈ (Path.node label nodes).branches, (along? labels t).isSome = true)
    {node : Path} (hnode : node ∈ nodes) : ∃ part, t.step? node.label = some part ∧
      ∀ labels ∈ node.branches, (along? labels part).isSome = true := by
  have hbranches : (Path.node label nodes).branches = Path.branchesOf nodes := by
    cases nodes with
    | nil => cases hnode
    | cons first rest => rw [Path.branches]
  have hthrough : ∀ labels ∈ node.branches,
      ((t.step? node.label).bind (along? labels)).isSome = true := by
    intro labels hlabels
    refine h (node.label :: labels) ?_
    rw [hbranches]
    exact Path.mem_branchesOf.mpr ⟨node, hnode, labels, hlabels, rfl⟩
  obtain ⟨labels, hlabels⟩ := List.exists_mem_of_ne_nil _ (Path.branches_ne_nil node)
  cases hstep : t.step? node.label with
  | none =>
    have hnone := hthrough labels hlabels
    rw [hstep] at hnone
    cases hnone
  | some part =>
    refine ⟨part, rfl, fun labels hlabels => ?_⟩
    have hsome := hthrough labels hlabels
    rwa [hstep] at hsome

/-- There are parts at the ends of a path, or it branches inside a wrapper and is ambiguous. -/
def FoundOrAmbiguous (full : Path) (t : Ty) (p : Path) : Prop :=
  (¬BranchesInside t p ∧ ∃ parts, subTypesBelow full p.subPaths t = .ok parts) ∨
    (BranchesInside t p ∧ subTypesBelow full p.subPaths t = .error (.ambiguousPath full))

/-- A path without steps has a part at its end. -/
lemma foundOrAmbiguous_nil (full : Path) (t : Ty) (label : String) :
    FoundOrAmbiguous full t (.node label []) :=
  Or.inl ⟨not_branchesInside_nil, [t], by rw [Path.subPaths, subTypesBelow]⟩

/-- There are parts at the ends of a path through members if there are parts in all of them. It is
ambiguous if the way on is in one of them. -/
lemma foundOrAmbiguous_members {full : Path} {info : Info} {form : Form}
    {fields : List (String × Ty)} {label : String} {first : Path} {rest : List Path}
    (h : ∀ node ∈ first :: rest, ∃ part, lookup? node.label fields = some part ∧
      FoundOrAmbiguous full part node) :
    FoundOrAmbiguous full (.members info form fields) (.node label (first :: rest)) := by
  have hmember : ∀ {node part}, lookup? node.label fields = some part →
      subTypesOfMember full fields node = subTypesBelow full node.subPaths part := by
    intro node part hpart
    rw [subTypesOfMember, hpart, Outcome.ofOption, Outcome.ok_bind]
  have hmap : (∃ found, (first :: rest).mapM (subTypesOfMember full fields) = .ok found) ∨
      (first :: rest).mapM (subTypesOfMember full fields) = .error (.ambiguousPath full) ∧
        ∃ node ∈ first :: rest,
          subTypesOfMember full fields node = .error (.ambiguousPath full) := by
    refine Outcome.mapM_eq_ok_or_eq_error fun node hmem => ?_
    obtain ⟨part, hpart, ⟨-, hok⟩ | ⟨-, herror⟩⟩ := h node hmem
    · exact Or.inl (hmember hpart ▸ hok)
    · exact Or.inr (hmember hpart ▸ herror)
  rw [FoundOrAmbiguous, Path.subPaths, subTypesBelow_members, branchesInside_members_iff]
  rcases hmap with ⟨found, hfound⟩ | ⟨hfault, node, hmem, herror⟩
  · -- All members give parts, so in none of them the path branches inside a wrapper.
    refine Or.inl ⟨?_, found.flatten, by rw [hfound]; rfl⟩
    rintro ⟨node, hmem, part, hpart, hinside⟩
    obtain ⟨part', hpart', ⟨hnot, -⟩ | ⟨-, herror⟩⟩ := h node hmem
    · cases hpart.symm.trans hpart'
      exact hnot hinside
    · obtain ⟨parts, hparts⟩ := Outcome.exists_of_mapM_eq_ok hfound hmem
      rw [hmember hpart', herror] at hparts
      cases hparts
  · refine Or.inr ⟨?_, by rw [hfault]; rfl⟩
    obtain ⟨part, hpart, ⟨-, parts, hparts⟩ | ⟨hinside, -⟩⟩ := h node hmem
    · rw [hmember hpart, hparts] at herror
      cases herror
    · exact ⟨node, hmem, part, hpart, hinside⟩

/-- **Where every branch of a path leads somewhere**, there are parts at its ends, unless it
branches inside a wrapper; then it is ambiguous.

**Proof sketch.** Induction on the type, for all paths. Where every branch leads somewhere, so does
the first step of every node, and every branch behind it (`exists_step_of_resolved`): a leaf has no
such node, members are followed each on their own, and a wrapper has one way on or several. -/
theorem subTypesBelow_of_resolved (full : Path) (t : Ty) : ∀ {p : Path},
    (∀ labels ∈ p.branches, (along? labels t).isSome = true) → FoundOrAmbiguous full t p := by
  induction t using Ty.induction with
  | leaf info content | hypothesis info types =>
    rintro ⟨label, nodes⟩ h
    cases nodes with
    | nil => exact foundOrAmbiguous_nil full _ label
    | cons node nodes =>
      obtain ⟨part, hstep, -⟩ := exists_step_of_resolved h List.mem_cons_self
      cases hstep
  | members info form fields ih =>
    rintro ⟨label, nodes⟩ h
    cases nodes with
    | nil => exact foundOrAmbiguous_nil full _ label
    | cons first rest =>
      refine foundOrAmbiguous_members fun node hnode => ?_
      obtain ⟨part, hpart, hbelow⟩ := exists_step_of_resolved h hnode
      exact ⟨part, hpart, ih _ (mem_of_lookup? hpart) hbelow⟩
  | wrapped info wrapper inner ih =>
    rintro ⟨label, nodes⟩ h
    cases nodes with
    | nil => exact foundOrAmbiguous_nil full _ label
    | cons first rest =>
      cases rest with
      | nil =>
        obtain ⟨part, hstep, hbelow⟩ := exists_step_of_resolved h List.mem_cons_self
        cases hstep
        rw [FoundOrAmbiguous, Path.subPaths, subTypesBelow_wrapped, branchesInside_wrapped_iff]
        exact ih hbelow
      | cons second rest =>
        obtain ⟨next, below⟩ := first
        refine Or.inr ⟨.here, ?_⟩
        rw [Path.subPaths, subTypesBelow]

/-- **When there are parts at the ends of a path**: every branch leads somewhere, and the path does
not branch inside a wrapper. -/
theorem exists_subTypesBelow_iff (full : Path) :
    (∃ parts, subTypesBelow full p.subPaths t = .ok parts) ↔
      (∀ labels ∈ p.branches, (along? labels t).isSome = true) ∧ ¬BranchesInside t p := by
  constructor
  · rintro ⟨parts, h⟩
    have hresolved : ∀ labels ∈ p.branches, (along? labels t).isSome = true := by
      intro labels hlabels
      have hmem : along? labels t ∈ parts.map some :=
        map_along?_of_subTypesBelow full t h ▸ List.mem_map_of_mem hlabels
      obtain ⟨part, -, hpart⟩ := List.mem_map.mp hmem
      rw [← hpart, Option.isSome_some]
    rcases subTypesBelow_of_resolved full t hresolved with ⟨hnot, -⟩ | ⟨-, herror⟩
    · exact ⟨hresolved, hnot⟩
    · cases h.symm.trans herror
  · rintro ⟨hresolved, hnot⟩
    rcases subTypesBelow_of_resolved full t hresolved with ⟨-, hok⟩ | ⟨hinside, -⟩
    · exact hok
    · exact absurd hinside hnot

/-- **The parts at the ends of a path** are the parts under its branches, in their order. A path
with one branch has the part under it at its end, or fails with the same fault. Where all branches
lead somewhere, the path has parts at its ends or is ambiguous, which it is exactly if it branches
inside an optional type, a list, an array or a constrained type.

**Proof sketch.** All three follow from what is known of the search below a node: what it
finds stands under the branches (`map_along?_of_subTypesBelow`), along a chain there is one
way only (`subTypesBelow_chain`), and where all branches lead somewhere it either succeeds or
branches inside a wrapper (`subTypesBelow_of_resolved`). -/
theorem subTypes_branches (t : Ty) (p : Path) :
    (∀ parts, t.subTypes p = .ok parts →
      (p.branches.map fun labels => t.get (.ofLabels labels)) = parts.map .ok) ∧
    (p.branches.length = 1 → t.subTypes p = (t.get p).map fun part => [part]) ∧
    ((∀ labels ∈ p.branches, ∃ part, t.get (.ofLabels labels) = .ok part) →
      ((∃ parts, t.subTypes p = .ok parts) ∨ t.subTypes p = .error (.ambiguousPath p)) ∧
      (t.subTypes p = .error (.ambiguousPath p) ↔ t.BranchesInside p)) := by
  refine ⟨fun parts h => ?_, fun h => ?_, fun h => ?_⟩
  · have halong := map_along?_of_subTypesBelow p t h
    rw [← List.forall₂_eq_eq_eq, List.forall₂_map_left_iff, List.forall₂_map_right_iff] at halong ⊢
    exact halong.imp fun labels part hpart => get_ofLabels_eq_ok.mpr hpart
  · obtain ⟨labels, hlabels⟩ := Path.exists_chain_of_length_branches p h
    rw [subTypes, get, hlabels]
    exact subTypesBelow_chain p labels t
  · have hresolved : ∀ labels ∈ p.branches, (along? labels t).isSome = true := by
      intro labels hlabels
      obtain ⟨part, hpart⟩ := h labels hlabels
      rw [get_ofLabels_eq_ok.mp hpart, Option.isSome_some]
    rcases subTypesBelow_of_resolved p t hresolved with ⟨hnot, parts, hparts⟩ | ⟨hinside, herror⟩
    · refine ⟨Or.inl ⟨parts, hparts⟩, iff_of_false (fun herror => ?_) hnot⟩
      cases hparts.symm.trans herror
    · exact ⟨Or.inr herror, iff_of_true herror hinside⟩

/-- Orders: who gives them, and up to ten lines of items with their counts. -/
def order : Ty :=
  .struct [("customer", .text),
    ("lines", .list (.struct [("item", .text), ("count", .integer 1 9)]) 10)]

/-- The items and the counts of an order, each by a step of its own into the lines. -/
def itemsAndCounts : Path :=
  .node "" [.node "lines" [.node "first" [.node "item" []], .node "second" [.node "count" []]]]

/-- Both steps into the lines of an order lead somewhere, but there is only one way inside. -/
theorem subTypes_branches_itemsAndCounts :
    (∀ labels ∈ itemsAndCounts.branches, ∃ part, order.get (.ofLabels labels) = .ok part) ∧
      order.subTypes itemsAndCounts = .error (.ambiguousPath itemsAndCounts) := by
  have hbranches : itemsAndCounts.branches =
      [["lines", "first", "item"], ["lines", "second", "count"]] := by rfl
  have hresolved : ∀ labels ∈ itemsAndCounts.branches,
      ∃ part, order.get (.ofLabels labels) = .ok part := by
    rw [hbranches]
    exact List.forall_mem_cons.mpr ⟨⟨.text, get_ofLabels_eq_ok.mpr rfl⟩,
      List.forall_mem_singleton.mpr ⟨.integer 1 9, get_ofLabels_eq_ok.mpr rfl⟩⟩
  have hinside : order.BranchesInside itemsAndCounts :=
    .further List.mem_cons_self (by rfl) .here
  exact ⟨hresolved, ((subTypes_branches order itemsAndCounts).2.2 hresolved).2.mpr hinside⟩

end Ty

end Lineage
