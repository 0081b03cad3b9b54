import Lineage.Proofs.Dict
import Lineage.Proofs.Graph.Order
import Lineage.Proofs.Outcome
import Lineage.Schema.Propagation

set_option autoImplicit false

/-!
# Schemas along steps

A step that keeps rows, or some of them, leaves the type of the rows as it is or cuts it down to a
given one. In an ordered graph the schema of a node follows from that of the node it is made from.

## Main definitions

* `Lineage.Step.target?`: the type that a step cuts rows down to.
* `Lineage.Step.pipes`: a step keeps rows or some of them, whole or cut down.

## Main results

* `Lineage.Schema.derive_eq_ok`: derived data, and when there is any.
* `Lineage.Schema.propagate_pipes`: the type after such a step.
* `Lineage.Graph.staticSchema_source`, `Lineage.Graph.staticSchema_step`: the schemas of nodes of an
  ordered graph.
* `Lineage.Graph.staticSchema_add`: a new node leaves the schemas of the others as they are.
-/

namespace Lineage

namespace Step

/-- The type that a step cuts rows down to. -/
def target? : Step → Option Ty
  | .filter target | .project target => some target
  | _ => none

/-- A step keeps the rows of a dataset or some of them, in any order, whole or cut down. -/
def pipes : Step → Bool
  | .filter _ | .project _ | .sample _ | .slice .. | .extract .. | .shuffle => true
  | _ => false

end Step

namespace Schema

/-- **Derived data** can be had if the primary keys can be read. It has the protected parts that
lead somewhere in its type, and if there are primary keys, those that do. -/
theorem derive_eq_ok {s s' : Schema} {name : String} {ty : Ty} :
    s.derive name ty = .ok s' ↔ ∃ keys, s.primaryKeys = .ok keys ∧
      s' = ⟨name, ty, s.protectedPaths.filter ty.hasPath,
        if s.properties.contains primaryKeysProperty then
          s.properties.insert primaryKeysProperty (keysText (keys.filter ty.hasPath))
        else s.properties⟩ := by
  have hread : (⟨name, ty, s.protectedPaths, s.properties⟩ : Schema).primaryKeys =
    s.primaryKeys := rfl
  unfold derive retainPrimaryKeys
  rw [hread]
  cases hkeys : s.properties.contains primaryKeysProperty with
  | true =>
    cases s.primaryKeys with
    | error fault => simp
    | ok keys => simp [withPrimaryKeys, withProperty, eq_comm]
  | false =>
    have hnone : s.primaryKeys = .ok [] := by
      rw [Dict.contains_eq_isSome_find?, Option.isSome_eq_false_iff, Option.isNone_iff_eq_none]
        at hkeys
      rw [primaryKeys, hkeys]
    simp [hnone, eq_comm]

/-- Derived data has the given type, and the protected parts that lead somewhere in it. -/
lemma of_derive {s s' : Schema} {name : String} {ty : Ty} (h : s.derive name ty = .ok s') :
    s'.ty = ty ∧ s'.protectedPaths = s.protectedPaths.filter ty.hasPath := by
  obtain ⟨keys, -, rfl⟩ := derive_eq_ok.mp h
  exact ⟨rfl, rfl⟩

/-- Without protected parts all of the rows are payload. -/
lemma hasWrapper_of_unprotected {s : Schema} (h : s.protectedPaths = []) :
    s.hasWrapper = false := by
  simp [hasWrapper, h]

/-- Without protected parts the payload is the whole type. -/
lemma payload_of_unprotected {s : Schema} (h : s.protectedPaths = []) : s.payload = s.ty := by
  simp [payload, hasWrapper_of_unprotected h]

/-- **The type after a step that keeps rows.** -/
theorem propagate_pipes {s : Schema} {name : String} {heading : Heading} {content : Step}
    {result : Propagation} (hpipes : content.pipes = true) (hnone : s.protectedPaths = [])
    (h : s.propagate name (.step heading content) = .ok result) :
    ∃ s', result = .ready s' ∧ s'.protectedPaths = [] ∧
      s'.ty = match content.target? with
        | some target => target.updateReferences s.ty
        | none => s.ty := by
  have hcut : ∀ {target}, (s.narrowed name target).map .ready = .ok result → ∃ s',
      result = .ready s' ∧ s'.protectedPaths = [] ∧ s'.ty = target.updateReferences s.ty := by
    intro target h
    obtain ⟨s', hs', rfl⟩ := Outcome.map_eq_ok.mp h
    obtain ⟨hty, hpaths⟩ := of_derive hs'
    refine ⟨s', rfl, by rw [hpaths, hnone, List.filter_nil], ?_⟩
    rw [hty, rewrap, hasWrapper_of_unprotected hnone]
    rfl
  cases content with
  | filter target | project target => exact hcut h
  | sample size | slice start stop | extract size seed | shuffle =>
    cases h
    exact ⟨_, rfl, hnone, rfl⟩
  | getItem path | selectSql query | differentiatedSample size | external call => cases hpipes

end Schema

namespace Graph

/-- The schema of an older node is found among the older ones. -/
lemma staticSchemaIn_older {key : NodeId} {node : Node} {older : List (NodeId × Node)}
    (hkey : contains ⟨older⟩ key = false) {id : NodeId} (hid : contains ⟨older⟩ id = true) :
    staticSchemaIn ((key, node) :: older) id = staticSchemaIn older id := by
  rw [staticSchemaIn, if_neg (ne_of_contains hkey hid)]

/-- **A new node leaves the schemas of the others as they are.** -/
theorem staticSchema_add {g : Graph} {key id : NodeId} {node : Node}
    (hkey : g.contains key = false) (hid : g.contains id = true) :
    (g.add key node).staticSchema id = g.staticSchema id := by
  rw [add, if_neg (by simp [hkey])]
  exact staticSchemaIn_older hkey hid

/-- The schema of a source is the declared one. -/
theorem staticSchema_source {g : Graph} (h : Ordered g.entries) {id : NodeId} {node : Node}
    {uri : String} {schema : Schema} (hnode : g.find? id = some node)
    (horigin : node.origin = .source uri schema) : g.staticSchema id = .ok schema := by
  obtain ⟨entries⟩ := g
  unfold staticSchema
  induction entries with
  | nil => cases hnode
  | cons entry older ih =>
    obtain ⟨key, first⟩ := entry
    rw [find?_cons] at hnode
    split at hnode
    · rename_i hkey
      cases hnode
      rw [staticSchemaIn, if_pos hkey, horigin]
    · rename_i hkey
      rw [staticSchemaIn, if_neg hkey]
      exact ih h.2.2 hnode

/-- **The schema after a step** follows from that of the node it is made from. -/
theorem staticSchema_step {g : Graph} (h : Ordered g.entries) {id parent : NodeId} {node : Node}
    {t : Transform} {named : Dict NodeId} {s s' : Schema} (hnode : g.find? id = some node)
    (horigin : node.origin = .transformed t [parent] named)
    (hparent : g.staticSchema parent = .ok s) (hs' : s.propagate node.name t = .ok (.ready s')) :
    g.staticSchema id = .ok s' := by
  obtain ⟨entries⟩ := g
  have hmem : parent ∈ node.parents := by simp [Node.parents, horigin]
  unfold staticSchema at hparent ⊢
  induction entries with
  | nil => cases hnode
  | cons entry older ih =>
    obtain ⟨key, first⟩ := entry
    rw [find?_cons] at hnode
    split at hnode
    · rename_i hkey
      cases hnode
      rw [staticSchemaIn_older h.1 (h.2.1 parent hmem)] at hparent
      simp only [staticSchemaIn, if_pos hkey, horigin, hparent, Outcome.ok_bind, hs']
    · rename_i hkey
      rw [staticSchemaIn_older h.1 (h.2.2.contains_of_parent hnode hmem)] at hparent
      rw [staticSchemaIn, if_neg hkey]
      exact ih h.2.2 hnode hparent

end Graph

end Lineage
