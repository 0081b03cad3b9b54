import Lineage.Proofs.Graph.Reachable

set_option autoImplicit false

/-!
# The order of the nodes in a graph

In every graph that calls build, no identifier stands twice and every node stands after those it is
made from. Whatever passes from the nodes that a node is made from to this node therefore holds of
all nodes.

## Main definitions

* `Lineage.Graph.Ordered`: no identifier stands twice, and parents come first.

## Main results

* `Lineage.Graph.ordered_after`: the graph after any calls is ordered.
* `Lineage.Graph.Ordered.induction`: induction from parents to nodes.
-/

namespace Lineage

namespace Graph

/-- Entries, of which the newest come first, have each identifier once, and the nodes that a node
is made from stand after it in the list. -/
def Ordered : List (NodeId × Node) → Prop
  | [] => True
  | (id, node) :: older => contains ⟨older⟩ id = false ∧
    (∀ parent ∈ node.parents, contains ⟨older⟩ parent = true) ∧ Ordered older

/-- The node under an identifier, by the newest entry. -/
lemma find?_cons (key : NodeId) (node : Node) (older : List (NodeId × Node)) (id : NodeId) :
    find? ⟨(key, node) :: older⟩ id = if key = id then some node else find? ⟨older⟩ id := by
  unfold find?
  by_cases h : key = id
  · simp [h]
  · rw [List.find?_cons_of_neg (by simpa using h), if_neg h]

/-- What is among older entries is not under a new identifier. -/
lemma ne_of_contains {older : List (NodeId × Node)} {key id : NodeId}
    (hkey : contains ⟨older⟩ key = false) (hid : contains ⟨older⟩ id = true) : key ≠ id := by
  rintro rfl
  rw [hkey] at hid
  cases hid

/-- What is there, by the newest entry. -/
lemma contains_cons_of_contains {key id : NodeId} {node : Node} {older : List (NodeId × Node)}
    (h : contains ⟨older⟩ id = true) : contains ⟨(key, node) :: older⟩ id = true := by
  unfold contains at *
  rw [find?_cons]
  split
  · rfl
  · exact h

/-- Adding a node keeps entries ordered. -/
lemma preserves_ordered (idOf : Node → NodeId) (node : Node) :
    Preserves (fun g => Ordered g.entries) (insert idOf node) := by
  intro g hg
  rw [run_insert]
  split
  · exact hg
  · rename_i hnone
    show Ordered (g.add (idOf node) node).entries
    unfold add
    split
    · exact hg
    · rename_i hnew
      refine ⟨by simpa using hnew, fun parent hparent => ?_, hg⟩
      simpa using List.find?_eq_none.mp hnone parent hparent

/-- Everything holds of the free-form values of a call that nothing is asked of. -/
lemma Call.holds_true (call : Call) : call.Holds fun _ => True := by
  cases call with
  | insert node => exact Node.agree_refl (fun _ => trivial) (fun _ => trivial) node
  | source name uri schema => trivial
  | scalar name value => trivial
  | transformed t _ | transformedAs _ t _ _ | apply t _ _ =>
    exact Transform.Agree.combine (R := Eq) (S := Eq) (fun _ _ _ _ => trivial)
      (fun _ _ _ _ => trivial) (Transform.agree_eq_iff.mpr rfl) (Transform.agree_eq_iff.mpr rfl)

/-- **The graph after any calls is ordered.** -/
theorem ordered_after (idOf : Node → NodeId) (calls : List Call) :
    Ordered (after idOf calls).entries :=
  after_induction (P := fun g => Ordered g.entries) trivial
    (fun node _ => preserves_ordered idOf node) fun call _ => call.holds_true

/-- The nodes that a node of ordered entries is made from are among them. -/
lemma Ordered.contains_of_parent {entries : List (NodeId × Node)} (h : Ordered entries)
    {id parent : NodeId} {node : Node} (hnode : find? ⟨entries⟩ id = some node)
    (hparent : parent ∈ node.parents) : contains ⟨entries⟩ parent = true := by
  induction entries with
  | nil => cases hnode
  | cons entry older ih =>
    obtain ⟨key, first⟩ := entry
    obtain ⟨-, hparents, holder⟩ := h
    rw [find?_cons] at hnode
    split at hnode
    · cases hnode
      exact contains_cons_of_contains (hparents parent hparent)
    · exact contains_cons_of_contains (ih holder hnode)

/-- The node under an identifier of an older entry is that of the older entries. -/
lemma Ordered.find?_older {key : NodeId} {node : Node} {older : List (NodeId × Node)}
    (h : Ordered ((key, node) :: older)) {id : NodeId} (hid : contains ⟨older⟩ id = true) :
    find? ⟨(key, node) :: older⟩ id = find? ⟨older⟩ id := by
  rw [find?_cons, if_neg (ne_of_contains h.1 hid)]

/-- **Induction from parents to nodes.** What holds of a node if it holds of the nodes that it is
made from holds of all nodes of ordered entries. -/
theorem Ordered.induction {P : NodeId → Prop} {entries : List (NodeId × Node)}
    (h : Ordered entries)
    (hstep : ∀ id node, find? ⟨entries⟩ id = some node →
      (∀ parent ∈ node.parents, P parent) → P id) :
    ∀ id, contains ⟨entries⟩ id = true → P id := by
  induction entries with
  | nil =>
    intro id hid
    cases hid
  | cons entry older ih =>
    obtain ⟨key, node⟩ := entry
    have holder : ∀ id, contains ⟨older⟩ id = true → P id := by
      refine ih h.2.2 fun id node hnode hparents => hstep id node ?_ hparents
      rw [h.find?_older (Option.isSome_of_eq_some hnode), hnode]
    intro id hid
    by_cases hkey : key = id
    · subst hkey
      refine hstep key node ?_ fun parent hparent => holder parent (h.2.1 parent hparent)
      rw [find?_cons, if_pos rfl]
    · refine holder id ?_
      unfold contains at hid ⊢
      rwa [find?_cons, if_neg hkey] at hid

end Graph

end Lineage
