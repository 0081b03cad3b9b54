import Lineage.Proofs.Graph.Order

set_option autoImplicit false

/-!
# Graphs that grow

A computation on a graph keeps all its nodes, and what it adds stands under its identifier, whether
it succeeds or fails.

## Main definitions

* `Lineage.Graph.Within`, `Lineage.Graph.Grown`: a graph is part of another one, and this one has
  its further nodes under their identifiers.
* `Lineage.Graph.Growing`: a computation keeps all nodes.

## Main results

* `Lineage.Graph.grown_apply`: adding the nodes of a transform keeps all nodes.
* `Lineage.Graph.run_bind_eq_ok`: a computation after another one succeeds if both do.
-/

namespace Lineage

namespace Transform

/-- Everything holds of the free-form values of a transform that nothing is asked of. -/
lemma agree_true (t : Transform) : t.Agree (fun _ _ => True) (fun _ _ => True) t :=
  Agree.combine (R := Eq) (S := Eq) (fun _ _ _ _ => trivial) (fun _ _ _ _ => trivial)
    (agree_eq_iff.mpr rfl) (agree_eq_iff.mpr rfl)

/-- Everything holds of the free-form values of transforms that nothing is asked of. -/
lemma agreeList_true (ts : List Transform) :
    AgreeList (fun _ _ => True) (fun _ _ => True) ts ts :=
  AgreeList.combine (R := Eq) (S := Eq) (fun _ _ _ _ => trivial) (fun _ _ _ _ => trivial)
    (agreeList_eq_iff.mpr rfl) (agreeList_eq_iff.mpr rfl)

/-- Everything holds of the free-form values of named transforms that nothing is asked of. -/
lemma agreeNamed_true (ts : List (String × Transform)) :
    AgreeNamed (fun _ _ => True) (fun _ _ => True) ts ts :=
  AgreeNamed.combine (R := Eq) (S := Eq) (fun _ _ _ _ => trivial) (fun _ _ _ _ => trivial)
    (agreeNamed_eq_iff.mpr rfl) (agreeNamed_eq_iff.mpr rfl)

end Transform

namespace Graph

variable {α β : Type} {idOf : Node → NodeId}

/-! ### Parts of graphs -/

/-- A graph is part of another one: what stands under an identifier stays there. -/
def Within (g g' : Graph) : Prop := ∀ id node, g.find? id = some node → g'.find? id = some node

/-- A graph is part of itself. -/
lemma Within.refl (g : Graph) : Within g g := fun _ _ h => h

/-- A part of a part is a part. -/
lemma Within.trans {g g' g'' : Graph} (h : Within g g') (h' : Within g' g'') : Within g g'' :=
  fun id node hnode => h' id node (h id node hnode)

/-- What a part has is there. -/
lemma Within.contains {g g' : Graph} (h : Within g g') {id : NodeId} (hid : g.contains id = true) :
    g'.contains id = true := by
  obtain ⟨node, hnode⟩ := Option.isSome_iff_exists.mp hid
  exact Option.isSome_of_eq_some (h id node hnode)

/-- A graph has all nodes of another one, and its further nodes stand under their identifiers. -/
structure Grown (idOf : Node → NodeId) (g g' : Graph) : Prop where
  /-- All nodes are kept. -/
  within : Within g g'
  /-- Further nodes stand under their identifiers. -/
  keyed : ∀ id node, g'.find? id = some node → g.find? id = some node ∨ idOf node = id

/-- A graph that has not changed has grown. -/
lemma Grown.refl (g : Graph) : Grown idOf g g := ⟨Within.refl g, fun _ _ => Or.inl⟩

/-- The node under an identifier after one is added under another one. -/
lemma find?_add_of_ne {g : Graph} {id id' : NodeId} {node : Node} (h : id' ≠ id) :
    (g.add id' node).find? id = g.find? id := by
  unfold add
  split
  · rfl
  · exact (find?_cons id' node g.entries id).trans (if_neg h)

/-- A graph to which a node is added under its identifier grows. -/
lemma grown_add (g : Graph) (node : Node) : Grown idOf g (g.add (idOf node) node) := by
  refine ⟨fun id old hold => ?_, fun id found hfound => ?_⟩
  · by_cases hid : idOf node = id
    · subst hid
      rw [find?_add_self, hold]
      rfl
    · rwa [find?_add_of_ne hid]
  · by_cases hid : idOf node = id
    · subst hid
      rw [find?_add_self] at hfound
      cases hold : g.find? (idOf node) with
      | none =>
        rw [hold] at hfound
        cases hfound
        exact Or.inr rfl
      | some old =>
        rw [hold] at hfound
        exact Or.inl hfound
    · rw [find?_add_of_ne hid] at hfound
      exact Or.inl hfound

/-- What has grown from a grown graph has grown. -/
lemma Grown.trans {g g' g'' : Graph} (h : Grown idOf g g') (h' : Grown idOf g' g'') :
    Grown idOf g g'' :=
  ⟨h.within.trans h'.within, fun id node hnode =>
    (h'.keyed id node hnode).elim (h.keyed id node) Or.inr⟩

/-- Adding a node keeps a graph grown from another one. -/
lemma preserves_grown (g : Graph) (node : Node) :
    Preserves (Grown idOf g) (insert idOf node) := by
  intro g' hg'
  rw [run_insert]
  split
  · exact hg'
  · exact hg'.trans (grown_add g' node)

/-- Adding the node of a step keeps a graph grown from another one. -/
lemma preserves_grown_place (g : Graph) (content : Step) (name : String) (heading : Heading)
    (arguments : List NodeId) (named : Dict NodeId) :
    Preserves (Grown idOf g) (place idOf name heading content arguments named) :=
  preserves_place (fun _ _ _ _ _ => preserves_grown g _) name heading arguments named

/-- **Adding the nodes of a transform keeps all nodes**, whether it succeeds or fails. -/
theorem grown_apply (t : Transform) (arguments : List NodeId) (named : Dict NodeId) (g : Graph) :
    Grown idOf g ((apply idOf arguments named t).run g).2 :=
  preserves_apply (Q := fun _ => True) (fun content _ => preserves_grown_place g content)
    (Transform.agree_true t) arguments named g (Grown.refl g)

/-- Adding the nodes of transforms keeps all nodes. -/
lemma grown_applyAll (ts : List Transform) (arguments : List NodeId) (named : Dict NodeId)
    (g : Graph) : Grown idOf g ((applyAll idOf arguments named ts).run g).2 :=
  preserves_applyAll (Q := fun _ => True) (fun content _ => preserves_grown_place g content)
    (Transform.agreeList_true ts) arguments named g (Grown.refl g)

/-- Adding the nodes of named transforms keeps all nodes. -/
lemma grown_applyNamed (ts : List (String × Transform)) (arguments : List NodeId)
    (named : Dict NodeId) (g : Graph) :
    Grown idOf g ((applyNamed idOf arguments named ts).run g).2 :=
  preserves_applyNamed (Q := fun _ => True) (fun content _ => preserves_grown_place g content)
    (Transform.agreeNamed_true ts) arguments named g (Grown.refl g)

/-! ### Computations that keep all nodes -/

/-- A computation keeps all nodes. -/
def Growing (build : Build α) : Prop := ∀ g, Within g (build.run g).2

/-- A returned value leaves all nodes as they are. -/
lemma growing_pure (a : α) : Growing (pure a : Build α) := Within.refl

/-- A failure leaves all nodes as they are. -/
lemma growing_throw (fault : Fault) : Growing (throw fault : Build α) := Within.refl

/-- The graph before a run is part of the graph after it. -/
lemma Growing.within_of_run {build : Build α} (h : Growing build) {g g' : Graph}
    {outcome : Outcome α} (hrun : build.run g = (outcome, g')) : Within g g' := by
  have hgrown := h g
  rwa [hrun] at hgrown

/-- A computation after another keeps all nodes if both do. -/
lemma Growing.bind {build : Build α} {next : α → Build β} (h : Growing build)
    (hnext : ∀ a, Growing (next a)) : Growing (build >>= next) := fun g =>
  preserves_bind (P := Within g) (fun _ hg => hg.trans (h _)) (fun a _ hg => hg.trans (hnext a _)) g
    (Within.refl g)

/-- The graph after the first of two computations is part of the graph after both. -/
lemma within_bind (build : Build α) {next : α → Build β} (hnext : ∀ a, Growing (next a))
    (g : Graph) : Within (build.run g).2 ((build >>= next).run g).2 := by
  rw [run_bind]
  rcases build.run g with ⟨outcome, g₁⟩
  cases outcome with
  | error fault => exact Within.refl g₁
  | ok a => exact hnext a g₁

/-- A computation after another one succeeds if both do. -/
lemma run_bind_eq_ok {build : Build α} {next : α → Build β} {g g₂ : Graph} {b : β} :
    (build >>= next).run g = (.ok b, g₂) ↔
      ∃ a g₁, build.run g = (.ok a, g₁) ∧ (next a).run g₁ = (.ok b, g₂) := by
  rw [run_bind]
  rcases build.run g with ⟨outcome, g₁⟩
  cases outcome <;> simp

/-- Adding the node of a step keeps all nodes. -/
lemma growing_place (name : String) (heading : Heading) (content : Step)
    (arguments : List NodeId) (named : Dict NodeId) :
    Growing (place idOf name heading content arguments named) := fun g =>
  (preserves_grown_place g content name heading arguments named g (Grown.refl g)).within

/-- Adding the nodes of a transform keeps all nodes. -/
lemma growing_apply (t : Transform) (arguments : List NodeId) (named : Dict NodeId) :
    Growing (apply idOf arguments named t) := fun g => (grown_apply t arguments named g).within

/-- Adding the nodes of transforms keeps all nodes. -/
lemma growing_applyAll (ts : List Transform) (arguments : List NodeId) (named : Dict NodeId) :
    Growing (applyAll idOf arguments named ts) :=
  fun g => (grown_applyAll ts arguments named g).within

/-- Adding the nodes of named transforms keeps all nodes. -/
lemma growing_applyNamed (ts : List (String × Transform)) (arguments : List NodeId)
    (named : Dict NodeId) : Growing (applyNamed idOf arguments named ts) :=
  fun g => (grown_applyNamed ts arguments named g).within

end Graph

end Lineage
