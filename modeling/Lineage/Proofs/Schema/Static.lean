import Lineage.Proofs.Graph.Ancestry
import Lineage.Proofs.Schema.Propagation

set_option autoImplicit false

/-!
# Schemas from the declared ones

The schema of a node follows from the schema of the one node that it is made from. Looked up in the
whole graph, node after node, this comes to an end, as a node never goes back to itself.

## Main definitions

* `Lineage.Node.schemaFrom`: the schema of a node from those of the nodes it is made from.
* `Lineage.Graph.schemaWithin`: the schema of a node, by going back in the whole graph a bounded
  number of times.

## Main results

* `Lineage.Graph.staticSchema_eq`: the equation of the schemas of an ordered graph.
* `Lineage.Graph.schemaWithin_eq`: going back as often as there are nodes is enough.
-/

namespace Lineage

namespace Node

/-- The schema of a node that a transform makes, from the schema of the node it is made from. -/
def schemaAfter (node : Node) (t : Transform) (schema : Schema) : Outcome Schema := do
  match ← schema.propagate node.name t with
  | .ready result => .ok result
  | _ => .error (.unsupported ("static schema of " ++ t.kindName ++ " '" ++ node.name ++ "'"))

/-- The schema of a node from the schemas of the nodes it is made from, if these are known. -/
def schemaFrom (node : Node) (known : NodeId → Option (Outcome Schema)) :
    Option (Outcome Schema) :=
  match node.origin with
  | .source _ schema => some (.ok schema)
  | .value _ => some (.error (Graph.scalarSchema node))
  | .transformed t [parent] _ => (known parent).map fun found => found >>= node.schemaAfter t
  | .transformed t arguments _ =>
    if t.isExternal then
      some (.error (.unsupported ("static schema of external op '" ++ t.name ++ "'")))
    else
      some (.error (.invariant ("'" ++ node.name ++ "' has " ++ toString arguments.length
        ++ " parents, expected one")))

/-- The schema of a node depends on those of the nodes it is made from. -/
lemma schemaFrom_congr {node : Node} {known known' : NodeId → Option (Outcome Schema)}
    (h : ∀ parent ∈ node.parents, known parent = known' parent) :
    node.schemaFrom known = node.schemaFrom known' := by
  unfold schemaFrom
  split
  · rfl
  · rfl
  · rename_i parent _ horigin
    rw [h parent (by simp [parents, horigin])]
  · rfl

end Node

namespace Graph

/-- The schema of the newest node follows from those of the older ones. -/
lemma staticSchemaIn_newest (key : NodeId) (node : Node) (older : List (NodeId × Node)) :
    some (staticSchemaIn ((key, node) :: older) key) =
      node.schemaFrom fun parent => some (staticSchemaIn older parent) := by
  unfold Node.schemaFrom
  rw [staticSchemaIn, if_pos rfl]
  cases node.origin with
  | source uri schema => rfl
  | value content => rfl
  | transformed t arguments named =>
    rcases arguments with _ | ⟨parent, _ | ⟨second, rest⟩⟩
    · exact apply_ite some _ _ _
    · rfl
    · exact apply_ite some _ _ _

variable {g : Graph}

/-- **The schema of a node** of an ordered graph follows from those of the nodes it is made from. -/
theorem staticSchema_eq (h : Ordered g.entries) {id : NodeId} {node : Node}
    (hnode : g.find? id = some node) :
    some (g.staticSchema id) = node.schemaFrom fun parent => some (g.staticSchema parent) := by
  obtain ⟨entries⟩ := g
  unfold staticSchema
  induction entries with
  | nil => cases hnode
  | cons entry older ih =>
    obtain ⟨key, first⟩ := entry
    have hparents : ∀ parent, contains ⟨older⟩ parent = true →
        some (staticSchemaIn older parent) = some (staticSchemaIn ((key, first) :: older) parent) :=
      fun parent hparent => by rw [staticSchemaIn_older h.1 hparent]
    rw [find?_cons] at hnode
    split at hnode
    · rename_i hkey
      subst hkey
      cases hnode
      rw [staticSchemaIn_newest]
      exact Node.schemaFrom_congr fun parent hparent => hparents parent (h.2.1 parent hparent)
    · rw [staticSchemaIn_older h.1 (Option.isSome_of_eq_some hnode), ih h.2.2 hnode]
      exact Node.schemaFrom_congr fun parent hparent =>
        hparents parent (h.2.2.contains_of_parent hnode hparent)

/-- Without node there is no schema. -/
lemma staticSchema_of_absent {id : NodeId} (h : g.find? id = none) :
    g.staticSchema id = .error (unknown id) := by
  obtain ⟨entries⟩ := g
  unfold staticSchema
  induction entries with
  | nil => rfl
  | cons entry older ih =>
    obtain ⟨key, node⟩ := entry
    rw [find?_cons] at h
    split at h
    · cases h
    · rename_i hkey
      rw [staticSchemaIn, if_neg hkey]
      exact ih h

/-- The schema of a node, found by looking up one node after the other in the whole graph, at most
`depth` of them. -/
def schemaWithin (g : Graph) : (depth : ℕ) → NodeId → Option (Outcome Schema)
  | 0, _ => none
  | depth + 1, id =>
    match g.find? id with
    | none => some (.error (unknown id))
    | some node => node.schemaFrom (schemaWithin g depth)

/-- Among the oldest nodes, going back as often as there are some is enough. -/
lemma schemaWithin_of_suffix (h : Ordered g.entries) {older : List (NodeId × Node)}
    (hsuffix : older <:+ g.entries) {depth : ℕ} (hdepth : older.length ≤ depth) {id : NodeId}
    (hid : contains ⟨older⟩ id = true) : g.schemaWithin depth id = some (g.staticSchema id) := by
  induction older generalizing depth id with
  | nil => cases hid
  | cons entry older ih =>
    obtain ⟨key, node⟩ := entry
    have holder : older <:+ g.entries := (List.suffix_cons _ _).trans hsuffix
    obtain ⟨-, hparents, -⟩ := h.of_suffix hsuffix
    cases depth with
    | zero => simp at hdepth
    | succ depth =>
      have hdepth : older.length ≤ depth := Nat.le_of_succ_le_succ hdepth
      have hfound := h.find?_of_suffix hsuffix hid
      rw [find?_cons] at hfound
      split at hfound
      · rw [schemaWithin, show g.find? id = some node from hfound, staticSchema_eq h hfound]
        exact Node.schemaFrom_congr fun parent hparent =>
          ih holder hdepth (hparents parent hparent)
      · rename_i hkey
        refine ih holder (Nat.le_succ_of_le hdepth) ?_
        unfold contains at hid ⊢
        rwa [find?_cons, if_neg hkey] at hid

/-- **Going back as often as there are nodes is enough** to find the schema of a node. -/
theorem schemaWithin_eq (h : Ordered g.entries) (id : NodeId) :
    g.schemaWithin (g.size + 1) id = some (g.staticSchema id) := by
  cases hid : g.find? id with
  | none => rw [schemaWithin, hid, staticSchema_of_absent hid]
  | some node =>
    exact schemaWithin_of_suffix h (List.suffix_refl _) (Nat.le_succ _)
      (Option.isSome_of_eq_some hid)

end Graph

end Lineage
