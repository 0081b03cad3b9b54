import Mathlib.Data.List.Induction
import Lineage.Document.Graph
import Lineage.Proofs.Ty.Address
import Lineage.Proofs.Ty.Item
import Lineage.Proofs.Ty.Pruning

set_option autoImplicit false

/-!
# What a projection keeps of the columns it names

A step of a document names the columns that it projects to. The names are merged into one path that
branches, and the type of the rows is cut down to this path. A node of the path at which one name
ends and another one goes on is a node with nodes below it, as if only the other one were there: so
a column that is named is cut down to what the names lead to that go on below it.

## Main definitions

* `Lineage.Document.merged`: the nodes that share what they can of some ways.
* `Lineage.Document.beyond`: what goes on of some ways after labels.
* `Lineage.Ty.Covered`: ways that end at once or lead through every member.

## Main results

* `Lineage.Document.nodesAlong_merged`: below labels are the merged nodes of what goes on there.
* `Lineage.Ty.exists_along_of_selectBelow`: what labels lead to is cut down to the nodes below them.
* `Lineage.Document.Operation.get_project`: the columns of a projection.
-/

namespace Lineage

/-! ### Merged ways -/

namespace Document

variable {label : String} {labels way : List String} {ways : List (List String)}

/-- The nodes that share what they can of some ways. -/
def merged (ways : List (List String)) : List Path :=
  ways.foldl (fun nodes way => addBranch way nodes) []

/-- What is left of the ways that start with a label. -/
def beyondLabel (label : String) (ways : List (List String)) : List (List String) :=
  ways.filterMap fun
    | [] => none
    | first :: rest => if first = label then some rest else none

/-- What goes on of some ways after labels. -/
def beyond : List String → List (List String) → List (List String)
  | [], ways => ways
  | label :: labels, ways => beyond labels (beyondLabel label ways)

/-- What is left of a way was behind its label. -/
lemma mem_beyondLabel : way ∈ beyondLabel label ways ↔ label :: way ∈ ways := by
  rw [beyondLabel, List.mem_filterMap]
  constructor
  · rintro ⟨_ | ⟨first, rest⟩, hmem, hrest⟩
    · cases hrest
    · obtain ⟨rfl, rfl⟩ : first = label ∧ rest = way := by simpa using hrest
      exact hmem
  · intro hmem
    exact ⟨_, hmem, if_pos rfl⟩

/-- What goes on of a way was behind the labels. -/
lemma mem_beyond : way ∈ beyond labels ways ↔ labels ++ way ∈ ways := by
  induction labels generalizing ways with
  | nil => rfl
  | cons label labels ih => rw [beyond, ih, mem_beyondLabel, List.cons_append]

/-- One more way goes on behind its first label. -/
lemma beyondLabel_concat (label : String) (ways : List (List String)) (first : String)
    (rest : List String) : beyondLabel label (ways ++ [first :: rest]) =
      beyondLabel label ways ++ if first = label then [rest] else [] := by
  rw [beyondLabel, List.filterMap_append]
  split
  · rename_i h
    simp [beyondLabel, h]
  · rename_i h
    simp [beyondLabel, h]

/-- The first node may be the one with the label. -/
lemma nodeAt?_cons (here : String) (subs nodes : List Path) :
    Ty.nodeAt? label (.node here subs :: nodes) =
      if here = label then some (.node here subs) else Ty.nodeAt? label nodes := by
  by_cases h : here = label
  · rw [if_pos h, Ty.nodeAt?, List.find?_cons_of_pos (by simpa [Path.label] using h)]
  · rw [if_neg h, Ty.nodeAt?, List.find?_cons_of_neg (by simpa [Path.label] using h)]
    rfl

/-- The nodes below the first node with a label; none if there is no such node. -/
def nodesBelow (label : String) (nodes : List Path) : List Path :=
  ((Ty.nodeAt? label nodes).map Path.subPaths).getD []

/-- Changing the nodes below a label changes no other node. -/
lemma nodeAt?_updateBranch (first : String) (f : List Path → List Path) (nodes : List Path) :
    Ty.nodeAt? label (updateBranch first f nodes) =
      if first = label then some (.node first (f (nodesBelow first nodes)))
      else Ty.nodeAt? label nodes := by
  induction nodes with
  | nil => exact nodeAt?_cons first (f []) []
  | cons node nodes ih =>
    obtain ⟨here, subs⟩ := node
    rw [updateBranch, nodesBelow, nodeAt?_cons]
    by_cases hhere : here = first
    · subst hhere
      rw [if_pos rfl, if_pos rfl, nodeAt?_cons, nodeAt?_cons]
      by_cases h : here = label
      · rw [if_pos h, if_pos h]
        rfl
      · rw [if_neg h, if_neg h, if_neg h]
    · rw [if_neg hhere, if_neg hhere, nodeAt?_cons, nodeAt?_cons, ih]
      by_cases h : here = label
      · rw [if_pos h, if_pos h, if_neg fun hfirst => hhere (h.trans hfirst.symm)]
      · rw [if_neg h, if_neg h]
        rfl

/-- One more way is merged last. -/
lemma merged_concat (ways : List (List String)) (way : List String) :
    merged (ways ++ [way]) = addBranch way (merged ways) := by
  rw [merged, List.foldl_append]
  rfl

/-- **Below a label are the merged nodes of what is left of the ways that start with it**, and there
is a node with the label if there is such a way.

**Proof sketch.** By induction on the ways from the last one, since ways are merged from the
first on: one more way that ends at once changes nothing, and one that goes on changes the
nodes below its first label only (`nodeAt?_updateBranch`), where it is merged last again. -/
lemma nodeAt?_merged (label : String) (ways : List (List String)) :
    Ty.nodeAt? label (merged ways) =
      if beyondLabel label ways = [] then none
      else some (.node label (merged (beyondLabel label ways))) := by
  induction ways using List.reverseRecOn with
  | nil => rfl
  | append_singleton ways way ih =>
    rw [merged_concat]
    cases way with
    | nil =>
      have hbeyond : beyondLabel label (ways ++ [[]]) = beyondLabel label ways := by
        simp [beyondLabel]
      rw [addBranch, hbeyond, ih]
    | cons first rest =>
      rw [addBranch, nodeAt?_updateBranch, beyondLabel_concat]
      by_cases h : first = label
      · subst h
        have hbelow : nodesBelow first (merged ways) = merged (beyondLabel first ways) := by
          rw [nodesBelow, ih]
          split
          · rename_i hnone
            rw [hnone]
            rfl
          · rfl
        rw [if_pos rfl, if_pos rfl, hbelow, ← merged_concat, if_neg (by simp)]
      · rw [if_neg h, if_neg h, List.append_nil, ih]

/-- A label has a node if some way begins with it; below are the merged nodes of what goes on
there. -/
lemma nodeAt?_merged_eq_some {node : Path} : Ty.nodeAt? label (merged ways) = some node ↔
    beyondLabel label ways ≠ [] ∧ node = .node label (merged (beyondLabel label ways)) := by
  rw [nodeAt?_merged]
  split
  · rename_i hnone
    simp [hnone]
  · rename_i hsome
    simp [hsome, eq_comm]

/-- Nothing is merged of ways that end at once. -/
lemma merged_eq_nil : merged ways = [] ↔ ∀ way ∈ ways, way = [] := by
  constructor
  · rintro h (_ | ⟨label, rest⟩) hmem
    · rfl
    · have hbeyond := List.ne_nil_of_mem (mem_beyondLabel.mpr hmem)
      have hnode := nodeAt?_merged_eq_some.mpr ⟨hbeyond, rfl⟩
      rw [h] at hnode
      cases hnode
  · -- The way that is merged last ends at once, so that it adds no node.
    induction ways using List.reverseRecOn with
    | nil => exact fun _ => rfl
    | append_singleton ways way ih =>
      intro h
      rw [merged_concat, h way (by simp)]
      exact ih fun way hmem => h way (List.mem_append_left _ hmem)

end Document

/-! ### Parts of a type that is cut down -/

namespace Ty

open Document (beyondLabel beyond merged)

variable {label : String} {labels : List String} {ways : List (List String)}
  {nodes below : List Path} {full : Path} {t left : Ty} {fields : List (String × Ty)}

/-- The nodes below the nodes with the given labels, one after the other. -/
def nodesAlong? : List String → List Path → Option (List Path)
  | [], nodes => some nodes
  | label :: rest, nodes => (nodeAt? label nodes).bind fun node => nodesAlong? rest node.subPaths

/-- Below labels that start some way are the merged nodes of what goes on there. -/
lemma nodesAlong?_merged (h : beyond labels ways ≠ []) :
    nodesAlong? labels (merged ways) = some (merged (beyond labels ways)) := by
  induction labels generalizing ways with
  | nil => rfl
  | cons label labels ih =>
    rw [beyond] at h ⊢
    have hlabel : beyondLabel label ways ≠ [] := by
      obtain ⟨way, hway⟩ := List.exists_mem_of_ne_nil _ h
      exact List.ne_nil_of_mem (Document.mem_beyond.mp hway)
    rw [nodesAlong?, Document.nodeAt?_merged_eq_some.mpr ⟨hlabel, rfl⟩]
    exact ih h

/-- What a node leads to is cut down to the nodes below it. -/
lemma exists_step_of_selectBelow {node : Path} (h : selectBelow full t nodes = .ok left)
    (hnode : nodeAt? label nodes = some node) :
    ∃ whole part, t.step? label = some whole ∧ left.step? label = some part ∧
      selectBelow full whole node.subPaths = .ok part := by
  obtain ⟨first, nodes, rfl⟩ : ∃ first rest, nodes = first :: rest := by
    cases nodes with
    | nil => cases hnode
    | cons first rest => exact ⟨first, rest, rfl⟩
  cases t with
  | leaf info content | hypothesis info types => cases h
  | members info form fields =>
    obtain ⟨hknown, members, hmembers, rfl⟩ := selectBelow_members_eq_ok.mp h
    obtain ⟨hmem, rfl⟩ := mem_and_label_of_nodeAt? hnode
    obtain ⟨whole, found⟩ := hknown node hmem
    obtain ⟨part, kept, hpart⟩ := lookup?_of_selectMembers hmembers hnode found
    exact ⟨whole, part, found, kept, hpart⟩
  | wrapped info wrapper inner =>
    cases nodes with
    | nil =>
      rw [selectBelow] at h
      obtain ⟨part, hpart, rfl⟩ := Outcome.map_eq_ok.mp h
      obtain rfl : node = first := by simpa using List.mem_of_find?_eq_some hnode
      exact ⟨inner, part, rfl, rfl, hpart⟩
    | cons second nodes => cases h

/-- **What labels lead to is cut down to the nodes below them.**

**Proof sketch.** By induction on the labels. The node with the next label cuts down the
member, or the wrapped type, that the label leads to (`exists_step_of_selectBelow`). -/
theorem exists_along_of_selectBelow (h : selectBelow full t nodes = .ok left)
    (hbelow : nodesAlong? labels nodes = some below) :
    ∃ whole part, along? labels t = some whole ∧ along? labels left = some part ∧
      selectBelow full whole below = .ok part := by
  induction labels generalizing t left nodes with
  | nil =>
    cases hbelow
    exact ⟨t, left, rfl, rfl, h⟩
  | cons label labels ih =>
    obtain ⟨node, hnode, hrest⟩ := Option.bind_eq_some_iff.mp hbelow
    obtain ⟨next, next', hstep, hstep', hnext⟩ := exists_step_of_selectBelow h hnode
    obtain ⟨whole, part, halong, halong', hpart⟩ := ih hnext hrest
    refine ⟨whole, part, ?_, ?_, hpart⟩
    · rw [along?, hstep]
      exact halong
    · rw [along?, hstep']
      exact halong'

/-! ### Parts that stay whole -/

/-- Ways that all end at once, or that lead through every member, and on from there in the same
manner. -/
inductive Covered : List (List String) → Ty → Prop
  /-- No way goes on. -/
  | here {ways : List (List String)} {t : Ty} (ends : ∀ way ∈ ways, way = []) : Covered ways t
  /-- Through every member leads a way. -/
  | members {ways : List (List String)} {info : Info} {form : Form} {fields : List (String × Ty)}
      (through : ∀ member ∈ fields, beyondLabel member.1 ways ≠ [])
      (below : ∀ member ∈ fields, Covered (beyondLabel member.1 ways) member.2) :
      Covered ways (.members info form fields)
  /-- The ways lead into a wrapped type. -/
  | wrapped {ways : List (List String)} {info : Info} {wrapper : Wrapper} {inner : Ty}
      {label : String} (through : beyondLabel label ways ≠ [])
      (inside : Covered (beyondLabel label ways) inner) :
      Covered ways (.wrapped info wrapper inner)

/-- No more members are kept than there are. -/
lemma length_selectMembers {left : List (String × Ty)}
    (h : selectMembers full nodes fields = .ok left) : left.length ≤ fields.length := by
  induction fields generalizing left with
  | nil =>
    cases h
    exact Nat.le_refl _
  | cons field fields ih =>
    obtain ⟨name, t⟩ := field
    rcases selectMembers_cons_eq_ok.mp h with ⟨-, hothers⟩ | ⟨-, -, others, -, -, hothers, rfl⟩
    · exact Nat.le_succ_of_le (ih hothers)
    · exact Nat.succ_le_succ (ih hothers)

/-- All members are kept whole exactly if each is named by a node and stays whole below it. -/
lemma selectMembers_eq_self : selectMembers full nodes fields = .ok fields ↔
    ∀ member ∈ fields, ∃ node, nodeAt? member.1 nodes = some node ∧
      selectBelow full member.2 node.subPaths = .ok member.2 := by
  induction fields with
  | nil => simp [selectMembers]
  | cons field fields ih =>
    obtain ⟨name, t⟩ := field
    rw [List.forall_mem_cons, ← ih]
    constructor
    · intro h
      rcases selectMembers_cons_eq_ok.mp h with
        ⟨-, hothers⟩ | ⟨node, part, others, hnode, hpart, hothers, heq⟩
      · exact absurd (length_selectMembers hothers) (by simp)
      · cases heq
        exact ⟨⟨node, hnode, hpart⟩, hothers⟩
    · rintro ⟨⟨node, hnode, hpart⟩, hothers⟩
      exact selectMembers_cons_eq_ok.mpr (Or.inr ⟨node, t, fields, hnode, hpart, hothers, rfl⟩)

/-- Ways that leave nothing out cover the type. -/
lemma covered_of_selectBelow (h : selectBelow full t (merged ways) = .ok t) : Covered ways t := by
  induction t using Ty.induction generalizing ways with
  | leaf info content | hypothesis info types =>
    cases hnodes : merged ways with
    | nil => exact .here (Document.merged_eq_nil.mp hnodes)
    | cons node nodes =>
      rw [hnodes] at h
      cases h
  | members info form fields ih =>
    cases hnodes : merged ways with
    | nil => exact .here (Document.merged_eq_nil.mp hnodes)
    | cons node nodes =>
      rw [hnodes] at h
      obtain ⟨-, members, hmembers, hleft⟩ := selectBelow_members_eq_ok.mp h
      cases hleft
      -- Nothing is left out of the members: each is named by a node, and cut down to itself.
      have hbelow : ∀ member ∈ fields, beyondLabel member.1 ways ≠ [] ∧
          selectBelow full member.2 (merged (beyondLabel member.1 ways)) = .ok member.2 := by
        intro member hmember
        obtain ⟨next, hnext, hpart⟩ := selectMembers_eq_self.mp hmembers member hmember
        rw [← hnodes] at hnext
        obtain ⟨hne, rfl⟩ := Document.nodeAt?_merged_eq_some.mp hnext
        exact ⟨hne, hpart⟩
      exact .members (fun member hmember => (hbelow member hmember).1)
        fun member hmember => ih member hmember (hbelow member hmember).2
  | wrapped info wrapper inner ih =>
    cases hnodes : merged ways with
    | nil => exact .here (Document.merged_eq_nil.mp hnodes)
    | cons node nodes =>
      rw [hnodes] at h
      cases nodes with
      | cons second nodes => cases h
      | nil =>
        rw [selectBelow] at h
        obtain ⟨part, hpart, hleft⟩ := Outcome.map_eq_ok.mp h
        cases hleft
        have hnode : nodeAt? node.label (merged ways) = some node := by
          rw [hnodes]
          simp [nodeAt?]
        obtain ⟨hne, hbelow⟩ := Document.nodeAt?_merged_eq_some.mp hnode
        rw [hbelow] at hpart
        exact .wrapped hne (ih hpart)

/-- Ways that cover a type leave nothing out. -/
lemma Covered.eq_of_selectBelow (hcovered : Covered ways t)
    (h : selectBelow full t (merged ways) = .ok left) : left = t := by
  induction hcovered generalizing left with
  | here ends =>
    rw [Document.merged_eq_nil.mpr ends, selectBelow] at h
    exact (Except.ok.inj h).symm
  | @members ways info form fields through below ih =>
    cases hnodes : merged ways with
    | nil =>
      rw [hnodes, selectBelow] at h
      exact (Except.ok.inj h).symm
    | cons node nodes =>
      rw [hnodes] at h
      obtain ⟨-, members, hmembers, rfl⟩ := selectBelow_members_eq_ok.mp h
      rw [← hnodes] at hmembers
      have hself : selectMembers full (merged ways) fields = .ok fields := by
        refine selectMembers_eq_self.mpr fun member hmember => ?_
        have hnode := Document.nodeAt?_merged_eq_some.mpr ⟨through member hmember, rfl⟩
        obtain ⟨part, hpart⟩ := exists_selectMembers_iff.mp ⟨_, hmembers⟩ member hmember _ hnode
        exact ⟨_, hnode, ih member hmember hpart ▸ hpart⟩
      cases hmembers.symm.trans hself
      rfl
  | @wrapped ways info wrapper inner label through inside ih =>
    have hnode := Document.nodeAt?_merged_eq_some.mpr ⟨through, rfl⟩
    cases hnodes : merged ways with
    | nil =>
      rw [hnodes] at hnode
      cases hnode
    | cons node nodes =>
      rw [hnodes] at h hnode
      cases nodes with
      | cons second nodes => cases h
      | nil =>
        rw [selectBelow] at h
        obtain ⟨part, hpart, rfl⟩ := Outcome.map_eq_ok.mp h
        obtain rfl := List.mem_singleton.mp (List.mem_of_find?_eq_some hnode)
        rw [ih hpart]

/-- **A type stays whole exactly if the ways that it is cut down to cover it.**

**Proof sketch.** One direction is an induction on the type, the other one on why the ways
cover it. At a struct or a union either no way goes on, or all members are kept whole: each
has a node, and stays whole below it (`selectMembers_eq_self`). -/
theorem eq_self_iff_covered (h : selectBelow full t (merged ways) = .ok left) :
    left = t ↔ Covered ways t :=
  ⟨fun heq => covered_of_selectBelow (heq ▸ h), fun hcovered => hcovered.eq_of_selectBelow h⟩

/-- Members that are cut down in the same way for two paths. -/
lemma selectMembers_congr {full' : Path} {left : List (String × Ty)}
    (hsame : ∀ member ∈ fields, ∀ {nodes part}, selectBelow full member.2 nodes = .ok part →
      selectBelow full' member.2 nodes = .ok part)
    (h : selectMembers full nodes fields = .ok left) :
    selectMembers full' nodes fields = .ok left := by
  induction fields generalizing left with
  | nil => exact h
  | cons field fields ih =>
    obtain ⟨name, t⟩ := field
    obtain ⟨hfirst, hrest⟩ := List.forall_mem_cons.mp hsame
    rcases selectMembers_cons_eq_ok.mp h with
      ⟨hnone, hothers⟩ | ⟨node, part, others, hnode, hpart, hothers, rfl⟩
    · exact selectMembers_cons_eq_ok.mpr (Or.inl ⟨hnone, ih hrest hothers⟩)
    · exact selectMembers_cons_eq_ok.mpr
        (Or.inr ⟨node, part, others, hnode, hfirst hpart, ih hrest hothers, rfl⟩)

/-- What is left of a type does not depend on the path that faults name. -/
lemma selectBelow_eq_ok_of_path {full' : Path} (h : selectBelow full t nodes = .ok left) :
    selectBelow full' t nodes = .ok left := by
  induction t using Ty.induction generalizing nodes left with
  | leaf info content | hypothesis info types =>
    cases nodes with
    | nil => exact h
    | cons node nodes => cases h
  | members info form fields ih =>
    cases nodes with
    | nil => exact h
    | cons node nodes =>
      obtain ⟨hknown, members, hmembers, rfl⟩ := selectBelow_members_eq_ok.mp h
      exact selectBelow_members_eq_ok.mpr ⟨hknown, members,
        selectMembers_congr (fun member hmember => ih member hmember) hmembers, rfl⟩
  | wrapped info wrapper inner ih =>
    cases nodes with
    | nil => exact h
    | cons node nodes =>
      cases nodes with
      | cons second nodes => cases h
      | nil =>
        rw [selectBelow] at h ⊢
        obtain ⟨part, hpart, rfl⟩ := Outcome.map_eq_ok.mp h
        exact Outcome.map_eq_ok.mpr ⟨part, ih hpart, rfl⟩

end Ty

/-! ### Projections of a document -/

namespace Document

variable {columns : List String} {ways : List (List String)} {path : Path}

/-- A dotted text is read as a path that does not branch. -/
lemma exists_ofLabels_of_parse {dotted : String} (h : Path.parse dotted = .ok path) :
    ∃ labels, path = Path.ofLabels labels := by
  unfold Path.parse at h
  dsimp only at h
  split at h
  · cases h
    exact ⟨[], rfl⟩
  · split at h
    · cases h
    · cases h
      exact ⟨_, rfl⟩

/-- The labels of a dotted name are those of the path it is read as. -/
lemma labelsOf_eq_ok {dotted : String} {labels : List String} :
    labelsOf dotted = .ok labels ↔ Path.parse dotted = .ok (Path.ofLabels labels) := by
  constructor
  · intro h
    obtain ⟨path, hparse, hlabels⟩ := Outcome.bind_eq_ok.mp h
    obtain ⟨labels', rfl⟩ := exists_ofLabels_of_parse hparse
    cases (Path.labels_ofLabels labels').symm.trans hlabels
    exact hparse
  · intro h
    exact Outcome.bind_eq_ok.mpr ⟨_, h, Path.labels_ofLabels labels⟩

/-- The path of a projection branches as the merged ways of its columns do. -/
lemma exists_ways_of_projectionPath (h : projectionPath columns = .ok path) :
    ∃ ways,
      List.Forall₂ (fun column way => Path.parse column = .ok (Path.ofLabels way)) columns ways ∧
      path = .node "" (merged ways) := by
  obtain ⟨ways, hways, hpath⟩ := Outcome.bind_eq_ok.mp h
  refine ⟨ways, ?_, (Except.ok.inj hpath).symm⟩
  exact (Outcome.mapM_eq_ok.mp hways).imp fun _ _ => labelsOf_eq_ok.mp

/-- **The columns of a projection**: every column that is named is there in the type that a step
projects to. It is what the rows have there, cut down to what the names lead to that go on below it;
so it is whole exactly if these leave out no part of it, and in particular if no name goes on.

**Proof sketch.** The type that the step projects to is the payload cut down to the merged
ways of its columns. Since a way that is named ends at its own labels, something goes on
there, and `nodesAlong?_merged` gives the nodes below these labels: what the labels lead to is
cut down to them (`exists_along_of_selectBelow`), which leaves it whole exactly if they cover
it (`eq_self_iff_covered`). -/
theorem Operation.get_project {name : String} {schema : Unit → Outcome Schema} {parent : Schema}
    {t : Transform} (hparent : schema () = .ok parent)
    (h : (Operation.project columns).toTransform name schema = .ok t) :
    ∃ target ways, t = .ofStep (.project target) ∧
      List.Forall₂ (fun column way => Path.parse column = .ok (Path.ofLabels way)) columns ways ∧
      ∀ way ∈ ways, ∃ whole part, parent.payload.get (Path.ofLabels way) = .ok whole ∧
        target.get (Path.ofLabels way) = .ok part ∧
        whole.select (.node "" (merged (beyond way ways))) = .ok part ∧
        (part = whole ↔ Ty.Covered (beyond way ways) whole) := by
  rw [Operation.toTransform] at h
  split at h
  · cases h
  · obtain ⟨parent', hparent', h⟩ := Outcome.bind_eq_ok.mp h
    cases hparent.symm.trans hparent'
    obtain ⟨path, hpath, h⟩ := Outcome.bind_eq_ok.mp h
    obtain ⟨target, htarget, rfl⟩ := Outcome.map_eq_ok.mp h
    obtain ⟨ways, hways, rfl⟩ := exists_ways_of_projectionPath hpath
    refine ⟨target, ways, rfl, hways, fun way hway => ?_⟩
    have hends : [] ∈ beyond way ways := mem_beyond.mpr ((List.append_nil way).symm ▸ hway)
    have hbeyond : beyond way ways ≠ [] := List.ne_nil_of_mem hends
    obtain ⟨whole, part, hwhole, hpart, hselect⟩ :=
      Ty.exists_along_of_selectBelow htarget (Ty.nodesAlong?_merged hbeyond)
    exact ⟨whole, part, Ty.get_ofLabels_eq_ok.mpr hwhole, Ty.get_ofLabels_eq_ok.mpr hpart,
      Ty.selectBelow_eq_ok_of_path hselect, Ty.eq_self_iff_covered hselect⟩

section AddressedPeople

/-- Rows of people with an address of two parts. -/
def addressedPeople : Schema :=
  Schema.ofTy "people" (.struct [("name", .text), ("address", .struct [("city", .text),
    ("zip", .text)])])

/-- The names of people and the cities of their addresses. -/
def namedCities : Ty := .struct [("name", .text), ("address", .struct [("city", .text)])]

/-- The members of addressed people have different names. -/
lemma distinctNames_addressedPeople : addressedPeople.payload.DistinctNames :=
  .members (by decide) (by
    rintro member (_ | ⟨_, _ | ⟨_, ⟨⟩⟩⟩)
    · exact .leaf
    · exact .members (by decide) (by rintro member (_ | ⟨_, _ | ⟨_, ⟨⟩⟩⟩) <;> exact .leaf))

/-- A projection to the address and to its city keeps of the address no more than the city. -/
lemma toTransform_addressAndCity :
    (Operation.project ["address", "name", "address.city"]).toTransform "labels"
      (fun _ => .ok addressedPeople) = .ok (.ofStep (.project namedCities)) := by
  have hpath : projectionPath ["address", "name", "address.city"] =
      .ok (.node "" [.node "address" [.node "city" []], .node "name" []]) := by cbv
  rw [Operation.toTransform, if_neg (by decide), Outcome.ok_bind, hpath]
  rfl

/-- What is left of the three columns of addressed people. -/
theorem Operation.get_project_addressAndCity :
    (Operation.project ["address", "name", "address.city"]).toTransform "labels"
        (fun _ => .ok addressedPeople) = .ok (.ofStep (.project namedCities)) ∧
      ∃ target ways, Transform.ofStep (.project namedCities) = .ofStep (.project target) ∧
        List.Forall₂ (fun column way => Path.parse column = .ok (Path.ofLabels way))
          ["address", "name", "address.city"] ways ∧
        ∀ way ∈ ways, ∃ whole part, addressedPeople.payload.get (Path.ofLabels way) = .ok whole ∧
          target.get (Path.ofLabels way) = .ok part ∧
          whole.select (.node "" (merged (beyond way ways))) = .ok part ∧
          (part = whole ↔ Ty.Covered (beyond way ways) whole) :=
  ⟨toTransform_addressAndCity, Operation.get_project rfl toTransform_addressAndCity⟩

/-- **A column that is named need not stay whole**: of an address whose city is named, too, the city
is left. -/
theorem not_whole_address : ¬ ∀ (name : String) (columns : List String)
    (schema : Unit → Outcome Schema) (parent : Schema) (target : Ty), schema () = .ok parent →
    parent.payload.DistinctNames → (Operation.project columns).toTransform name schema =
      .ok (.ofStep (.project target)) → ∀ column ∈ columns, ∀ path, Path.parse column = .ok path →
        target.get path = parent.payload.get path := by
  intro h
  have hget := h "labels" _ _ _ _ rfl distinctNames_addressedPeople toTransform_addressAndCity
    "address" (by decide) (Path.ofLabels ["address"]) (by decide +kernel)
  have hleft : namedCities.get (Path.ofLabels ["address"]) = .ok (.struct [("city", .text)]) :=
    Ty.get_ofLabels_eq_ok.mpr rfl
  have hwhole := Ty.get_ofLabels_eq_ok.mp (hget.symm.trans hleft)
  cases hwhole

end AddressedPeople

end Document

end Lineage
