import Lineage.Document.Graph
import Lineage.Proofs.Schema.Propagation
import Lineage.Proofs.Ty.Cut

set_option autoImplicit false

/-!
# The graphs of documents

In the graph of a document every filter and every projection is told by a type that is cut out of
that of the rows it works on. Nothing is protected.

## Main definitions

* `Lineage.Node.PlannedIn`: a node fits the schemas of a graph.
* `Lineage.Graph.Planned`: an ordered graph whose nodes do.

## Main results

* `Lineage.Document.cut_of_toTransform`: the type of a step is cut out of that of its parent.
* `Lineage.Document.planned_plan`: the graph of a document is planned.
-/

namespace Lineage

/-- What a node says fits the schemas of a graph: a source protects nothing, and a step cuts rows
down to a type that is cut out of theirs. -/
def Node.PlannedIn (g : Graph) (node : Node) : Prop :=
  match node.origin with
  | .source _ schema => schema.protectedPaths = []
  | .transformed (.step _ content) [parent] _ => ∀ target, content.target? = some target →
    ∃ schema, g.staticSchema parent = .ok schema ∧ Ty.Cut target schema.payload
  | _ => True

namespace Graph

/-- An ordered graph whose nodes fit its schemas. -/
structure Planned (g : Graph) : Prop where
  /-- Nodes stand after those they are made from. -/
  ordered : Ordered g.entries
  /-- Nodes fit the schemas. -/
  nodes : ∀ id node, g.find? id = some node → node.PlannedIn g

/-- **The type of a step is cut out of the type of the rows** that it works on, if nothing is
protected. -/
theorem Planned.cut_target {g : Graph} (h : g.Planned) {id parent : NodeId} {node : Node}
    {heading : Heading} {content : Step} {s : Schema} {target : Ty}
    (hnode : g.find? id = some node)
    (horigin : node.origin = .transformed (.step heading content) [parent] [])
    (hs : g.staticSchema parent = .ok s) (hnone : s.protectedPaths = [])
    (htarget : content.target? = some target) : Ty.Cut target s.ty := by
  have hplanned : node.PlannedIn g := h.nodes id node hnode
  simp only [Node.PlannedIn, horigin] at hplanned
  obtain ⟨schema, hschema, hcut⟩ := hplanned target htarget
  obtain rfl : schema = s := Except.ok.inj (hschema.symm.trans hs)
  rwa [Schema.payload_of_unprotected hnone] at hcut

/-- A node still fits the schemas when another one is added. -/
lemma plannedIn_add {g : Graph} {key : NodeId} {added node : Node} (hkey : g.contains key = false)
    (hparents : ∀ parent ∈ node.parents, g.contains parent = true) (h : node.PlannedIn g) :
    node.PlannedIn (g.add key added) := by
  unfold Node.PlannedIn at h ⊢
  split
  · rename_i horigin
    simpa only [horigin] using h
  · rename_i parent _ horigin
    have hparent : g.contains parent = true := hparents parent (by simp [Node.parents, horigin])
    simp only [horigin] at h
    rwa [staticSchema_add hkey hparent]
  · trivial

/-- **Adding a node that fits keeps a graph planned.** -/
theorem Planned.insert {g : Graph} (h : g.Planned) (idOf : Node → NodeId) {node : Node}
    (hnode : node.PlannedIn g) : ((Graph.insert idOf node).run g).2.Planned := by
  have hordered := preserves_ordered idOf node g h.ordered
  rw [run_insert] at hordered ⊢
  split at hordered
  · exact h
  · rename_i hnone
    have hparents : ∀ parent ∈ node.parents, g.contains parent = true := fun parent hparent => by
      simpa using List.find?_eq_none.mp hnone parent hparent
    refine ⟨hordered, fun id found hfound => ?_⟩
    cases hnew : g.contains (idOf node) with
    | true =>
      have hsame : g.add (idOf node) node = g := by rw [add, if_pos hnew]
      dsimp only at hfound ⊢
      rw [hsame] at hfound ⊢
      exact h.nodes id found hfound
    | false =>
      have hadd : g.add (idOf node) node = ⟨(idOf node, node) :: g.entries⟩ := by
        rw [add, if_neg (by simp [hnew])]
      dsimp only at hfound
      rw [hadd, find?_cons] at hfound
      split at hfound
      · cases hfound
        exact plannedIn_add hnew hparents hnode
      · exact plannedIn_add hnew (fun parent hparent => h.ordered.contains_of_parent hfound hparent)
          (h.nodes id found hfound)

end Graph

namespace Document

open Lineage.Graph (Planned)

variable {idOf : Node → NodeId} {infer : TypeSource}

/-- **The type of a step is cut out of that of its parent.** -/
theorem cut_of_toTransform {operation : Operation} {name : String} {schema : Unit → Outcome Schema}
    {t : Transform} (h : operation.toTransform name schema = .ok t) :
    ∃ content, t = .ofStep content ∧ ∀ target, content.target? = some target →
      ∃ parent, schema () = .ok parent ∧ Ty.Cut target parent.payload := by
  cases operation with
  | filter bounds =>
    obtain ⟨parent, hparent, h⟩ := Outcome.bind_eq_ok.mp h
    obtain ⟨target, htarget, rfl⟩ := Outcome.map_eq_ok.mp h
    refine ⟨_, rfl, fun target' heq => ?_⟩
    cases heq
    exact ⟨parent, hparent, Ty.cut_narrowAll htarget⟩
  | project columns =>
    simp only [Operation.toTransform] at h
    split at h
    · cases h
    · obtain ⟨parent, hparent, h⟩ := Outcome.bind_eq_ok.mp h
      obtain ⟨path, -, h⟩ := Outcome.bind_eq_ok.mp h
      obtain ⟨target, htarget, rfl⟩ := Outcome.map_eq_ok.mp h
      refine ⟨_, rfl, fun target' heq => ?_⟩
      cases heq
      exact ⟨parent, hparent, Ty.cut_select htarget⟩
  | getItem dotted =>
    obtain ⟨path, -, rfl⟩ := Outcome.map_eq_ok.mp h
    exact ⟨_, rfl, fun target heq => by cases heq⟩
  | sample size fraction =>
    rcases size with _ | size <;> rcases fraction with _ | fraction <;> cases h
    · exact ⟨_, rfl, fun target heq => by cases heq⟩
    · exact ⟨_, rfl, fun target heq => by cases heq⟩
  | slice start stop | extract size seed | shuffle | selectSql query =>
    cases h
    exact ⟨_, rfl, fun target heq => by cases heq⟩

/-- The schema of a source protects nothing. -/
lemma unprotected_sourceSchema {d : Dataset} {type : Ty} {schema : Schema}
    (h : sourceSchema d type = .ok schema) : schema.protectedPaths = [] := by
  unfold sourceSchema at h
  split at h
  · cases h
    rfl
  · obtain ⟨keys, -, h⟩ := Outcome.bind_eq_ok.mp h
    split at h
    · cases h
    · cases h
      rfl

/-- Adding a source keeps a graph planned. -/
lemma planned_addSource {d : Dataset} {uri : String} {g : Graph} {result : NodeId × Graph}
    (hg : g.Planned) (h : addSource idOf infer d uri g = .ok result) : result.2.Planned := by
  have hsource : ∀ {type : Ty} {schema : Schema} {id : NodeId}, sourceSchema d type = .ok schema →
      (id, ((Graph.source idOf d.name uri schema).run g).2) = result → result.2.Planned := by
    rintro type schema id hschema rfl
    have hnode : (Node.ofOrigin d.name .dataset (.source uri schema)).PlannedIn g :=
      unprotected_sourceSchema hschema
    exact hg.insert idOf hnode
  simp only [addSource] at h
  split at h <;>
  · obtain ⟨type, -, h⟩ := Outcome.bind_eq_ok.mp h
    obtain ⟨schema, hschema, h⟩ := Outcome.bind_eq_ok.mp h
    obtain ⟨id, -, heq⟩ := Outcome.map_eq_ok.mp h
    exact hsource hschema heq

/-- Adding the result of a step keeps a graph planned. -/
lemma planned_addStep {d : Dataset} {origin : String} {operation : Operation} {p : Plan}
    {result : NodeId × Graph} (hp : p.graph.Planned)
    (h : addStep idOf d origin operation p = .ok result) : result.2.Planned := by
  obtain ⟨parent, -, h⟩ := Outcome.bind_eq_ok.mp h
  obtain ⟨t, ht, h⟩ := Outcome.bind_eq_ok.mp h
  obtain ⟨id, -, rfl⟩ := Outcome.map_eq_ok.mp h
  obtain ⟨content, rfl, hcut⟩ := cut_of_toTransform ht
  dsimp only
  show ((Graph.place idOf d.name _ content [parent] []).run p.graph).2.Planned
  rw [Graph.run_place]
  split
  · exact hp
  · exact hp.insert idOf hcut

/-- Adding a dataset keeps the graph planned. -/
lemma planned_addDataset {p p' : Plan} {d : Dataset} (hp : p.graph.Planned)
    (h : addDataset idOf infer p d = .ok p') : p'.graph.Planned := by
  simp only [addDataset] at h
  split at h
  · cases h
  · split at h
    · obtain ⟨result, hadded, h⟩ := Outcome.bind_eq_ok.mp h
      cases h
      exact planned_addSource hp hadded
    · obtain ⟨result, hadded, h⟩ := Outcome.bind_eq_ok.mp h
      cases h
      exact planned_addStep hp hadded
    · cases h

/-- **The graph of a document is planned.** -/
theorem planned_plan {doc : Document} {p : Plan} (h : plan idOf infer doc = .ok p) :
    p.graph.Planned := by
  have hempty : Graph.empty.Planned := ⟨trivial, fun id node hnode => by cases hnode⟩
  exact Outcome.foldlM_induction (P := fun p : Plan => p.graph.Planned)
    (fun p d p' hp hadded => planned_addDataset hp hadded) hempty h

end Document

end Lineage
