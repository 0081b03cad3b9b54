import Lineage.Proofs.Graph.Growth
import Lineage.Proofs.Outcome

set_option autoImplicit false

/-!
# Graphs whose nodes are made by the graph

A call that does not give a node as it is has the graph make it, and the graph checks what the node
is made from. So in a graph after such calls the transform of every node is a single step, and
unless this is an external operation, the node is made from one dataset.

## Main definitions

* `Lineage.Graph.Call.Builds`: a call that has the graph make its nodes.
* `Lineage.Node.BuiltIn`: a node is made from what its transform asks for.

## Main results

* `Lineage.Graph.Call.preserves_of_builds`: such a call keeps what adding sources, values and steps
  keeps.
* `Lineage.Graph.builtIn_after`: the nodes after such calls are made from what they ask for.
-/

namespace Lineage

/-- A node is made from what its transform asks for: an external operation says itself what it
takes, and any other transform is a step that takes one dataset. -/
def Node.BuiltIn (g : Graph) (node : Node) : Prop :=
  match node.origin with
  | .transformed t arguments named => t.isExternal = true ∨
    ∃ heading content parent found, t = .step heading content ∧ arguments = [parent] ∧ named = [] ∧
      g.find? parent = some found ∧ found.isDataset = true
  | _ => True

namespace Graph

variable {P : Graph → Prop} {idOf : Node → NodeId}

/-- A call that has the graph make its nodes, and does not give one as it is. -/
def Call.Builds : Call → Prop
  | .insert _ => False
  | _ => True

/-- **A call that has the graph make its nodes** keeps what adding sources, values and the nodes of
steps keeps. -/
theorem Call.preserves_of_builds
    (hsource : ∀ name uri schema, Preserves P (Graph.source idOf name uri schema))
    (hscalar : ∀ name value, Preserves P (Graph.scalar idOf name value))
    (hplace : ∀ content name heading arguments named,
      Preserves P (place idOf name heading content arguments named)) :
    ∀ {call : Call}, call.Builds → Preserves P (call.build idOf) := by
  have happly : ∀ t arguments named, Preserves P (Graph.apply idOf arguments named t) :=
    fun t => preserves_apply (Q := fun _ => True) (fun content _ => hplace content)
      (Transform.agree_true t)
  have hnamed : ∀ name t arguments named,
      Preserves P (Graph.transformedAs idOf name t arguments named) := by
    intro name t arguments named
    cases t with
    | step heading content => exact hplace content _ _ _ _
    | «variable» heading position => exact preserves_throw _
    | composed heading head inner innerNamed => exact happly _ _ _
  intro call hcall
  cases call with
  | insert node => cases hcall
  | source name uri schema => exact hsource name uri schema
  | scalar name value => exact hscalar name value
  | transformed t arguments => exact hnamed _ t arguments []
  | transformedAs name t arguments named => exact hnamed name t arguments named
  | apply t arguments named => exact happly t arguments named

/-- A node keeps what it is made from in a graph that has grown. -/
lemma BuiltIn.mono {g g' : Graph} {node : Node} (h : Within g g') (hnode : node.BuiltIn g) :
    node.BuiltIn g' := by
  unfold Node.BuiltIn at *
  split
  · rename_i horigin
    simp only [horigin] at hnode
    refine hnode.imp_right ?_
    rintro ⟨heading, content, parent, found, ht, harguments, hnamed, hfound, hdataset⟩
    exact ⟨heading, content, parent, found, ht, harguments, hnamed, h parent found hfound, hdataset⟩
  · trivial

/-- Adding a node that is made from what it asks for keeps the nodes of a graph so. -/
lemma builtIn_insert {g : Graph} (hg : ∀ id node, g.find? id = some node → node.BuiltIn g)
    {node : Node} (hnode : node.BuiltIn g) : ∀ id found,
      ((insert idOf node).run g).2.find? id = some found →
        found.BuiltIn ((insert idOf node).run g).2 := by
  rw [run_insert]
  split
  · exact hg
  · intro id found hfound
    dsimp only at hfound ⊢
    refine BuiltIn.mono (@grown_add idOf g node).within ?_
    by_cases hid : idOf node = id
    · subst hid
      rw [find?_add_self] at hfound
      cases hold : g.find? (idOf node) with
      | none =>
        rw [hold] at hfound
        cases hfound
        exact hnode
      | some old =>
        rw [hold] at hfound
        cases hfound
        exact hg _ _ hold
    · rw [find?_add_of_ne hid] at hfound
      exact hg _ _ hfound

/-- What a step of a kind is made from: an external operation says itself what it takes, and any
other step takes one dataset. -/
lemma of_kindOf {g : Graph} {content : Step} {arguments : List NodeId} {named : Dict NodeId}
    {kind : NodeKind} (h : kindOf g content arguments named = .ok kind) :
    (∃ call, content = .external call) ∨ ∃ parent found, arguments = [parent] ∧ named = [] ∧
      g.find? parent = some found ∧ found.isDataset = true := by
  unfold kindOf at h
  split at h
  · exact Or.inl ⟨_, rfl⟩
  · split at h
    · rename_i parent
      obtain ⟨found, hfound, h⟩ := Outcome.bind_eq_ok.mp h
      split at h
      · rename_i hdataset
        exact Or.inr ⟨parent, found, rfl, rfl, Outcome.ofOption_eq_ok.mp hfound, hdataset⟩
      · cases h
    · cases h

/-- Adding the node of a step keeps nodes made from what they ask for. -/
lemma preserves_builtIn_place (name : String) (heading : Heading) (content : Step)
    (arguments : List NodeId) (named : Dict NodeId) :
    Preserves (fun g => ∀ id node, g.find? id = some node → node.BuiltIn g)
      (place idOf name heading content arguments named) := by
  intro g hg
  rw [run_place]
  cases hkind : kindOf g content arguments named with
  | error fault => exact hg
  | ok kind =>
    refine builtIn_insert hg ?_
    rcases of_kindOf hkind with ⟨call, rfl⟩ | ⟨parent, found, hone, hnone, hfound, hdataset⟩
    · exact Or.inl rfl
    · exact Or.inr ⟨heading, content, parent, found, rfl, hone, hnone, hfound, hdataset⟩

/-- **After calls that have the graph make its nodes**, every node is made from what its transform
asks for. -/
theorem builtIn_after {calls : List Call} (h : ∀ call ∈ calls, call.Builds) :
    ∀ id node, (after idOf calls).find? id = some node → node.BuiltIn (after idOf calls) := by
  induction calls using List.reverseRecOn with
  | nil => exact fun id node hnode => by cases hnode
  | append_singleton calls call ih =>
    rw [after_concat]
    refine Call.preserves_of_builds (P := fun g => ∀ id node, g.find? id = some node →
      node.BuiltIn g) (fun name uri schema g hg => ?_) (fun name value g hg => ?_)
      (fun content name heading => preserves_builtIn_place name heading content)
      (h call (by simp)) _ (ih fun c hc => h c (List.mem_append_left _ hc))
    · exact builtIn_insert hg trivial
    · exact builtIn_insert hg trivial

end Graph

end Lineage
