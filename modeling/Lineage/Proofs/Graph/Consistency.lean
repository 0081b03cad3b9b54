import Lineage.Proofs.Graph.Walk
import Lineage.Proofs.Schema.Static

set_option autoImplicit false

/-!
# Graphs are consistent

After any calls, successful or not, a graph lists each node once and after the nodes that it is made
from. So whoever goes back from node to node, looking each of them up, is done after a number of
steps. This does not depend on how identifiers are made from contents: nodes of different contents
may share one, in which case the first of them stays.

## Main definitions

* `Lineage.Graph.Consistent`: what holds of a graph after any calls.
* `Lineage.Graph.KeptIn`: a graph has grown without changing or moving a node.

## Main results

* `Lineage.Graph.consistent_after`: a graph after any calls is consistent, and further calls keep
  its nodes.
-/

namespace Lineage

namespace Graph

/-- What holds of a graph whose nodes stand after those they are made from. -/
structure Consistent (idOf : Node → NodeId) (g : Graph) : Prop where
  /-- No identifier is listed twice. -/
  nodup_ids : g.ids.Nodup
  /-- The identifiers listed are those under which there are nodes. -/
  mem_ids : ∀ id, id ∈ g.ids ↔ g.contains id = true
  /-- Nodes stand under the identifiers of their contents. -/
  keyed : ∀ id node, g.find? id = some node → idOf node = id
  /-- The nodes that a node is made from stand before it. -/
  parents_before : ∀ front id back node, g.ids = front ++ id :: back → g.find? id = some node →
    ∀ parent ∈ node.parents, parent ∈ front
  /-- No node goes back to itself. -/
  acyclic : ∀ id, ¬ Relation.TransGen g.ParentOf id id
  /-- Going back once for every node is enough to find a schema. -/
  schema_found : ∀ id, g.schemaWithin (g.size + 1) id = some (g.staticSchema id)
  /-- Following every edge once is enough to find the sources. -/
  sources_found : ∀ id,
    (g.walk (g.edgeCount + 2) (.start id)).map (Except.map (List.mergeSort · NodeId.le)) =
      some (g.sources id)

/-- A graph is kept in another one: its nodes are the first ones there, under their identifiers. -/
structure KeptIn (g g' : Graph) : Prop where
  /-- The identifiers keep their places. -/
  ids : g.ids <+: g'.ids
  /-- The nodes keep their places. -/
  nodes : g.nodes <+: g'.nodes
  /-- The nodes stay under their identifiers. -/
  within : Within g g'

/-- Nodes that are the oldest of a graph are kept in it. -/
lemma keptIn_of_suffix {g g' : Graph} (h : Ordered g'.entries)
    (hsuffix : g.entries <:+ g'.entries) :
    KeptIn g g' where
  ids := List.reverse_prefix.mpr (hsuffix.map Prod.fst)
  nodes := List.reverse_prefix.mpr (hsuffix.map Prod.snd)
  within id node hnode := by
    have hfound : g'.find? id = g.find? id :=
      h.find?_of_suffix hsuffix (Option.isSome_of_eq_some hnode)
    rw [hfound, hnode]

/-- **Graphs are consistent after any calls**, successful or not, whatever the identifiers of
contents are, and further calls keep all nodes in their places.

**Proof sketch.** After any calls the nodes are ordered, each with a new identifier and after
those it is made from (`ordered_after`), and further calls only put others behind. All the
rest follows from the order. -/
theorem consistent_after (idOf : Node → NodeId) (calls more : List Call) :
    Consistent idOf (after idOf calls) ∧
      KeptIn (after idOf calls) (after idOf (calls ++ more)) := by
  have hordered := ordered_after idOf calls
  refine ⟨⟨hordered.nodup_ids, fun id => mem_ids_iff, fun id node => idOf_of_find?_after,
    fun front id back node hids hnode parent => hordered.mem_front_of_parent hids hnode,
    hordered.acyclic, schemaWithin_eq hordered, walk_eq_sources hordered⟩, ?_⟩
  exact keptIn_of_suffix (ordered_after idOf (calls ++ more)) (suffix_after_append calls more)

end Graph

end Lineage
