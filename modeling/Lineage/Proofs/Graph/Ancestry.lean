import Mathlib.Logic.Relation
import Mathlib.Order.WellFounded
import Lineage.Proofs.Graph.Growth

set_option autoImplicit false

/-!
# Ancestors of nodes

The nodes that a node is made from stand before it in the list of identifiers, so going back from
node to node comes to an end. Further calls only add nodes at the end of the list.

## Main definitions

* `Lineage.Graph.ParentOf`, `Lineage.Graph.AncestorOf`: a node is made from another one, in one step
  or in several.

## Main results

* `Lineage.Graph.Ordered.mem_front_of_parent`: parents stand before their children.
* `Lineage.Graph.Ordered.wellFounded_parentOf`: there is no endless way back, hence no cycle.
* `Lineage.Graph.suffix_after_append`: further calls keep the nodes in their places.
* `Lineage.Graph.grown_after`: nodes stand under the identifiers of their contents.
-/

namespace Lineage

namespace Graph

variable {idOf : Node → NodeId}

/-! ### Parents and ancestors -/

/-- A node is one of those that another one is made from. -/
def ParentOf (g : Graph) (parent id : NodeId) : Prop :=
  ∃ node, g.find? id = some node ∧ parent ∈ node.parents

/-- A node is another one, or one of those that its parents go back to. -/
def AncestorOf (g : Graph) : NodeId → NodeId → Prop := Relation.ReflTransGen g.ParentOf

/-- The parents of a node that is there. -/
lemma parentOf_iff {g : Graph} {id parent : NodeId} {node : Node} (h : g.find? id = some node) :
    g.ParentOf parent id ↔ parent ∈ node.parents := by
  refine ⟨fun ⟨found, hfound, hparent⟩ => ?_, fun hparent => ⟨node, h, hparent⟩⟩
  obtain rfl : found = node := Option.some.inj (hfound.symm.trans h)
  exact hparent

/-- **There is no endless way back from node to node.** -/
theorem Ordered.wellFounded_parentOf {g : Graph} (h : Ordered g.entries) :
    WellFounded g.ParentOf := by
  refine ⟨fun id => ?_⟩
  cases hid : g.find? id with
  | none =>
    refine ⟨id, fun parent hparent => ?_⟩
    obtain ⟨node, hnode, -⟩ := hparent
    rw [hid] at hnode
    cases hnode
  | some node =>
    refine h.induction (P := Acc g.ParentOf) (fun id node hnode hparents => ⟨id, ?_⟩) id
      (Option.isSome_of_eq_some hid)
    exact fun parent hparent => hparents parent ((parentOf_iff hnode).mp hparent)

/-- No node goes back to itself. -/
lemma Ordered.acyclic {g : Graph} (h : Ordered g.entries) (id : NodeId) :
    ¬ Relation.TransGen g.ParentOf id id :=
  fun hcycle => h.wellFounded_parentOf.transGen.irrefl.irrefl id hcycle

/-- The ancestors of a node that is there are there. -/
lemma Ordered.contains_of_ancestorOf {g : Graph} (h : Ordered g.entries) {id start : NodeId}
    (hid : g.AncestorOf id start) (hstart : g.contains start = true) : g.contains id = true := by
  induction hid with
  | refl => exact hstart
  | tail _ hparent ih =>
    obtain ⟨node, hnode, hmem⟩ := hparent
    exact ih (h.contains_of_parent hnode hmem)

/-! ### Places in the list of identifiers -/

/-- The identifiers, the newest at the end. -/
lemma ids_cons (key : NodeId) (node : Node) (older : List (NodeId × Node)) :
    ids ⟨(key, node) :: older⟩ = ids ⟨older⟩ ++ [key] := by
  simp [ids]

/-- The identifiers are those under which there are nodes. -/
lemma mem_ids_iff {g : Graph} {id : NodeId} : id ∈ g.ids ↔ g.contains id = true := by
  obtain ⟨entries⟩ := g
  induction entries with
  | nil => simp [ids, contains, find?]
  | cons entry older ih =>
    obtain ⟨key, node⟩ := entry
    rw [ids_cons, List.mem_append, ih, List.mem_singleton]
    unfold contains
    rw [find?_cons]
    by_cases hkey : key = id
    · simp [hkey]
    · simp [hkey, Ne.symm hkey]

/-- No identifier is listed twice. -/
lemma Ordered.nodup_ids {g : Graph} (h : Ordered g.entries) : g.ids.Nodup := by
  obtain ⟨entries⟩ := g
  induction entries with
  | nil => exact List.nodup_nil
  | cons entry older ih =>
    obtain ⟨key, node⟩ := entry
    rw [ids_cons, List.nodup_append]
    refine ⟨ih h.2.2, List.nodup_singleton key, fun id hid id' hid' => ?_⟩
    rw [List.mem_singleton.mp hid']
    exact (ne_of_contains h.1 (mem_ids_iff.mp hid)).symm

/-- **Parents stand before their children** in the list of identifiers. -/
theorem Ordered.mem_front_of_parent {g : Graph} (h : Ordered g.entries) {front back : List NodeId}
    {id parent : NodeId} {node : Node} (hids : g.ids = front ++ id :: back)
    (hnode : g.find? id = some node) (hparent : parent ∈ node.parents) : parent ∈ front := by
  obtain ⟨entries⟩ := g
  induction entries generalizing back with
  | nil => cases hnode
  | cons entry older ih =>
    obtain ⟨key, first⟩ := entry
    rw [ids_cons] at hids
    rcases List.eq_nil_or_concat back with rfl | ⟨before, last, rfl⟩
    · -- The node is the newest one.
      obtain ⟨hfront, hkey⟩ := List.append_inj' hids rfl
      obtain rfl : key = id := List.singleton_inj.mp hkey
      rw [find?_cons, if_pos rfl] at hnode
      cases hnode
      exact hfront ▸ mem_ids_iff.mpr (h.2.1 parent hparent)
    · rw [List.concat_eq_append, ← List.cons_append, ← List.append_assoc] at hids
      obtain ⟨hids, -⟩ := List.append_inj' hids rfl
      have hid : contains ⟨older⟩ id = true := mem_ids_iff.mp (by simp [hids])
      rw [Ordered.find?_older h hid] at hnode
      exact ih h.2.2 hids hnode

/-! ### Further calls -/

/-- The older of ordered entries are ordered. -/
lemma Ordered.of_suffix {entries older : List (NodeId × Node)} (h : Ordered entries)
    (hsuffix : older <:+ entries) : Ordered older := by
  induction entries with
  | nil => rwa [List.suffix_nil.mp hsuffix]
  | cons entry rest ih =>
    rcases List.suffix_cons_iff.mp hsuffix with rfl | hrest
    · exact h
    · exact ih h.2.2 hrest

/-- The node under an identifier of some of the older entries is theirs. -/
lemma Ordered.find?_of_suffix {entries older : List (NodeId × Node)} (h : Ordered entries)
    (hsuffix : older <:+ entries) {id : NodeId} (hid : contains ⟨older⟩ id = true) :
    find? ⟨entries⟩ id = find? ⟨older⟩ id := by
  induction entries with
  | nil => rw [List.suffix_nil.mp hsuffix]
  | cons entry rest ih =>
    obtain ⟨key, node⟩ := entry
    rcases List.suffix_cons_iff.mp hsuffix with rfl | hrest
    · rfl
    · have hfound := ih h.2.2 hrest
      have hrest : contains ⟨rest⟩ id = true := by
        unfold contains
        rw [hfound]
        exact hid
      rw [Ordered.find?_older h hrest, hfound]

/-- Adding a node keeps the others in their places. -/
lemma preserves_suffix (older : List (NodeId × Node)) (node : Node) :
    Preserves (fun g => older <:+ g.entries) (insert idOf node) := by
  intro g hg
  rw [run_insert]
  split
  · exact hg
  · show older <:+ (g.add (idOf node) node).entries
    unfold add
    split
    · exact hg
    · exact hg.trans (List.suffix_cons _ _)

/-- **Further calls keep the nodes in their places.** -/
theorem suffix_after_append (calls more : List Call) :
    (after idOf calls).entries <:+ (after idOf (calls ++ more)).entries := by
  induction more using List.reverseRecOn with
  | nil => rw [List.append_nil]
  | append_singleton more call ih =>
    rw [← List.append_assoc, after_concat]
    exact Call.preserves (Q := fun _ => True) (fun node _ => preserves_suffix _ node)
      call.holds_true _ ih

/-- **Nodes stand under the identifiers of their contents**, whatever these are. -/
theorem grown_after (idOf : Node → NodeId) (calls : List Call) :
    Grown idOf empty (after idOf calls) :=
  after_induction (Grown.refl empty) (fun node _ => preserves_grown empty node)
    fun call _ => call.holds_true

/-- The content of a node has the identifier under which it stands. -/
lemma idOf_of_find?_after {calls : List Call} {id : NodeId} {node : Node}
    (h : (after idOf calls).find? id = some node) : idOf node = id :=
  ((grown_after idOf calls).keyed id node h).resolve_left nofun

end Graph

end Lineage
