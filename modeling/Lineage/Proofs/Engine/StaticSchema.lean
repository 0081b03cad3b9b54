import Lineage.Proofs.Engine.BatchSize
import Lineage.Proofs.Graph.Construction
import Lineage.Proofs.Schema.Static

set_option autoImplicit false

/-!
# Schemas with and without an engine

The engine and the graph find schemas in two ways, and check the parents of nodes in different
ways. Where nothing has to be looked at, and the graph has made its nodes itself, both find the same
schema or report the same fault.

## Main definitions

* `Lineage.Transform.needsRows`: the schema after a transform has to be read off its result.

## Main results

* `Lineage.Engine.answer_schema_eq`: one step back, for the engine and for the graph.
* `Lineage.Engine.schema_eq_staticSchema`: the engine and the graph find the same schemas.
-/

namespace Lineage

/-- The schema after a transform has to be read off its result: a query or an external operation. -/
def Transform.needsRows : Transform → Bool
  | .step _ (.selectSql _) | .step _ (.external _) => true
  | _ => false

/-- An external operation is looked at. -/
lemma Transform.needsRows_of_isExternal {t : Transform} (h : t.isExternal = true) :
    t.needsRows = true := by
  unfold isExternal at h
  split at h
  · rfl
  · cases h

/-- What follows for the schema after any other transform is all there is to know. -/
lemma Schema.ready_of_propagate {s : Schema} {name : String} {t : Transform}
    {result : Propagation} (ht : t.needsRows = false) (h : s.propagate name t = .ok result) :
    ∃ s', result = .ready s' := by
  cases t with
  | step heading content =>
    cases content with
    | filter target | project target =>
      obtain ⟨s', -, rfl⟩ := Outcome.map_eq_ok.mp h
      exact ⟨s', rfl⟩
    | getItem path =>
      obtain ⟨part, -, h⟩ := Outcome.bind_eq_ok.mp h
      obtain ⟨s', -, h⟩ := Outcome.bind_eq_ok.mp h
      cases h
      exact ⟨s', rfl⟩
    | selectSql query | external call => cases ht
    | sample size | slice start stop | extract size seed | shuffle | differentiatedSample size =>
      cases h
      exact ⟨_, rfl⟩
  | «variable» heading position => cases h
  | composed heading head arguments named => cases h

namespace Engine

open Evaluation (answer_bind answer_cached answer_ofOutcome_bind transparent_bind
  transparent_ofOutcome transparent_pure transparent_throw)

variable {e : Engine}

/-- The one dataset that a node is made from is found. -/
lemma datasetParent_of_find? {node found : Node} {parent : NodeId}
    (hfound : e.graph.find? parent = some found) (hdataset : found.isDataset = true) :
    datasetParent e.access node [parent] [] = .ok (parent, found) := by
  have hnode : e.access.node parent = .ok found := by
    rw [Access.node, access_node?, hfound]
    rfl
  simp only [datasetParent, hnode, Outcome.ok_bind, hdataset, if_true]

/-- The schema after a transform that needs no rows, from the schema of the one dataset that the
node is made from. -/
lemma answer_derivedSchema (h : Graph.Ordered e.graph.entries) {node found : Node}
    {t : Transform} {parent : NodeId} (ht : t.needsRows = false)
    (hfound : e.graph.find? parent = some found) (hdataset : found.isDataset = true) :
    (derivedSchema e e.access node t [parent] []).answer =
      (e.schema parent).answer >>= node.schemaAfter t := by
  have hV := coherent_nil e
  have hparent := e.transparentAt h parent
  rw [derivedSchema, answer_ofOutcome_bind, datasetParent_of_find? hfound hdataset, Outcome.ok_bind]
  dsimp only
  rw [answer_bind hV hparent.schema]
  · refine bind_congr fun schema => ?_
    rw [answer_ofOutcome_bind]
    unfold Node.schemaAfter
    cases hresult : schema.propagate node.name t with
    | error fault => rfl
    | ok result =>
      obtain ⟨s', rfl⟩ := Schema.ready_of_propagate ht hresult
      rfl
  · intro schema
    refine transparent_bind hV (transparent_ofOutcome _) fun propagation => ?_
    split
    · exact transparent_pure _
    · exact transparent_querySchema hV node found _ hparent
    · exact transparent_throw _

/-- **One step back, for the engine and for the graph**: if a node is made from what it asks for
and needs no rows, and both find the same schemas of the nodes it is made from, both find the same
schema of the node.

**Proof sketch.** By what the node is made from. A source and a value have their own schemas;
a node that was made by a step asks for the schema of its one dataset, from which both derive
the same (`answer_derivedSchema`). -/
theorem answer_schema_eq (h : Graph.Ordered e.graph.entries) {id : NodeId} {node : Node}
    (hnode : e.graph.find? id = some node) (hbuilt : node.BuiltIn e.graph)
    (hrows : ∀ t, node.transform? = some t → t.needsRows = false)
    (hparents : ∀ parent ∈ node.parents, (e.schema parent).answer = e.graph.staticSchema parent) :
    (e.schema id).answer = e.graph.staticSchema id := by
  have hstatic := Graph.staticSchema_eq h hnode
  rw [schema_eq h hnode, answer_cached]
  cases horigin : node.origin with
  | source uri schema =>
    simp only [Node.schemaFrom, horigin, Option.some.injEq] at hstatic
    rw [hstatic, schemaOf, horigin]
    rfl
  | value content =>
    simp only [Node.schemaFrom, horigin, Option.some.injEq] at hstatic
    rw [hstatic, schemaOf, horigin]
    rfl
  | transformed t arguments named =>
    have ht : t.needsRows = false := hrows t (by simp [Node.transform?, horigin])
    simp only [Node.BuiltIn, horigin] at hbuilt
    rcases hbuilt with hexternal |
      ⟨heading, content, parent, found, rfl, rfl, rfl, hfound, hdataset⟩
    · rw [Transform.needsRows_of_isExternal hexternal] at ht
      cases ht
    · simp only [Node.schemaFrom, horigin, Option.map_some, Option.some.injEq] at hstatic
      rw [hstatic, ← hparents parent (by simp [Node.parents, horigin]),
        ← answer_derivedSchema h ht hfound hdataset, schemaOf, horigin]
      cases content <;> first | rfl | cases ht

/-- **The engine and the graph find the same schemas.** Let a graph come from calls that have it
make its nodes, and let neither a node nor one of its ancestors be the result of a query or of an
external operation. Whatever was asked before, the engine finds the schema of the node that follows
from the declared ones, or reports the same fault.

**Proof sketch.** By induction on the graph, with one step back at each node
(`answer_schema_eq`). -/
theorem schema_eq_staticSchema {idOf : Node → NodeId} {calls : List Graph.Call}
    (hbuilds : ∀ call ∈ calls, call.Builds) (hgraph : e.graph = Graph.after idOf calls)
    {id : NodeId} (hid : e.graph.contains id = true)
    (hrows : ∀ ancestor node t, e.graph.AncestorOf ancestor id →
      e.graph.find? ancestor = some node → node.transform? = some t → t.needsRows = false)
    (earlier : List Question) :
    ((e.schema id).run (e.rememberedAfter earlier)).1 = e.graph.staticSchema id := by
  have hordered : Graph.Ordered e.graph.entries := hgraph ▸ Graph.ordered_after idOf calls
  have hbuilt : ∀ id node, e.graph.find? id = some node → node.BuiltIn e.graph :=
    hgraph ▸ Graph.builtIn_after hbuilds
  rw [run_schema hordered]
  -- The ancestors of a parent are ancestors of the node, so the condition is handed down.
  refine hordered.induction (P := fun id => (∀ ancestor node t, e.graph.AncestorOf ancestor id →
    e.graph.find? ancestor = some node → node.transform? = some t → t.needsRows = false) →
    (e.schema id).answer = e.graph.staticSchema id) (fun id node hnode ih hrows => ?_) id hid hrows
  refine answer_schema_eq hordered hnode (hbuilt id node hnode)
    (fun t => hrows id node t .refl hnode) fun parent hparent => ih parent hparent ?_
  exact fun ancestor found t hanc => hrows ancestor found t (hanc.tail ⟨node, hnode, hparent⟩)

/-- The numbers above one have the schema that follows from that of all numbers, also after they
have been looked at. -/
theorem schema_eq_staticSchema_numbersAboveOne :
    ((numbersAboveOne.schema ⟨[1]⟩).run
        (numbersAboveOne.rememberedAfter [.stream ⟨[1]⟩ 2])).1 =
      numbersAboveOne.graph.staticSchema ⟨[1]⟩ ∧
    ∃ schema, numbersAboveOne.graph.staticSchema ⟨[1]⟩ = .ok schema ∧
      schema.ty = numbersBetween 2 3 := by
  refine ⟨schema_eq_staticSchema (e := numbersAboveOne) (fun call hcall => ?_) rfl rfl
    (fun ancestor node t _ hnode ht => ?_) [.stream ⟨[1]⟩ 2], _, rfl, rfl⟩
  · simp only [List.mem_cons, List.not_mem_nil, or_false] at hcall
    rcases hcall with rfl | rfl <;> trivial
  · have hmem := Graph.mem_entries_of_find? hnode
    change (ancestor, node) ∈ [(⟨[1]⟩, _), (⟨[0]⟩, _)] at hmem
    simp only [List.mem_cons, List.not_mem_nil, or_false, Prod.mk.injEq] at hmem
    rcases hmem with ⟨-, rfl⟩ | ⟨-, rfl⟩
    · cases ht
      rfl
    · cases ht

end Engine

end Lineage
