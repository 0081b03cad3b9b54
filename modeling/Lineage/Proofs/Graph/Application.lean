import Lineage.Proofs.Graph.Failure
import Lineage.Proofs.Transform.Compose

set_option autoImplicit false

/-!
# What applying a transform needs and adds

A transform whose steps stand at the heads of compositions can only be applied where there is a node
for each of its variables, and these are all that it looks up among what it is given. Applying a
transform twice makes the same node twice and adds nothing the second time.

## Main definitions

* `Lineage.Graph.Requires`: a computation looks up some positions among what it is given.

## Main results

* `Lineage.Graph.requires_apply`: applying a transform looks up its variables.
* `Lineage.Graph.apply_needs_variables`: which variables a transform has after arguments are put
  into it, and that applying it needs them.
* `Lineage.Graph.apply_again`: applying a transform again adds nothing.

## Design

That a variable has no node is one of several reasons why a transform cannot be applied, and the
first of them is the one that is told. All others are broken rules of the graph, so the fault tells
whether a variable was in the way.
-/

namespace Lineage

namespace Graph

variable {α β : Type} {idOf : Node → NodeId} {xs : List NodeId} {ys : Dict NodeId}

/-! ### Faults of steps -/

/-- A step that does not fit its parents breaks a rule of the graph. -/
lemma exists_invariant_of_kindOf {g : Graph} {content : Step} {arguments : List NodeId}
    {named : Dict NodeId} {fault : Fault} (h : kindOf g content arguments named = .error fault) :
    ∃ detail, fault = .invariant detail := by
  unfold kindOf at h
  split at h
  · cases h
  · split at h
    · rename_i parent
      unfold Graph.node at h
      cases hparent : g.find? parent with
      | none =>
        rw [hparent] at h
        cases h
        exact ⟨_, rfl⟩
      | some node =>
        rw [hparent, Outcome.ofOption, Outcome.ok_bind] at h
        split at h <;> cases h
        exact ⟨_, rfl⟩
    · cases h
      exact ⟨_, rfl⟩

/-- A step that cannot be made breaks a rule of the graph. -/
lemma exists_invariant_of_place {name : String} {heading : Heading} {content : Step}
    {arguments : List NodeId} {named : Dict NodeId} {g g' : Graph} {fault : Fault}
    (h : (place idOf name heading content arguments named).run g = (.error fault, g')) :
    ∃ detail, fault = .invariant detail := by
  rw [run_place] at h
  cases hkind : kindOf g content arguments named with
  | error reason =>
    rw [hkind] at h
    cases h
    exact exists_invariant_of_kindOf hkind
  | ok kind =>
    rw [hkind] at h
    dsimp only at h
    rw [run_insert] at h
    split at h <;> cases h
    exact ⟨_, rfl⟩

/-! ### What is looked up -/

/-- A computation looks up some positions among what it is given: it succeeds only if there is
something at each of them, and if it fails, there is nothing at one of them or a rule of the graph
is broken. -/
structure Requires (xs : List NodeId) (ys : Dict NodeId) (ps : List Position) (build : Build α) :
    Prop where
  /-- After a success there was something at each position. -/
  of_ok : ∀ {g g' a}, build.run g = (.ok a, g') → ∀ p ∈ ps, (p.find? xs ys).isSome = true
  /-- What a failure is about. -/
  of_error : ∀ {g g' fault}, build.run g = (.error fault, g') →
    (fault = unbound ∧ ∃ p ∈ ps, p.find? xs ys = none) ∨ ∃ detail, fault = .invariant detail

/-- A returned value needs nothing. -/
lemma requires_pure (a : α) : Requires xs ys [] (pure a : Build α) :=
  ⟨fun _ => List.forall_mem_nil _, fun hrun => by cases hrun⟩

/-- A step needs nothing but its parents. -/
lemma requires_place (name : String) (heading : Heading) (content : Step)
    (arguments : List NodeId) (named : Dict NodeId) :
    Requires xs ys [] (place idOf name heading content arguments named) :=
  ⟨fun _ => List.forall_mem_nil _, fun hrun => Or.inr (exists_invariant_of_place hrun)⟩

/-- A computation after another needs what both need. -/
lemma Requires.bind {ps qs : List Position} {build : Build α} {next : α → Build β}
    (h : Requires xs ys ps build) (hnext : ∀ a, Requires xs ys qs (next a)) :
    Requires xs ys (ps ++ qs) (build >>= next) := by
  refine ⟨fun hrun p hp => ?_, fun hrun => ?_⟩
  · obtain ⟨a, g₁, hfirst, hrest⟩ := run_bind_eq_ok.mp hrun
    exact (List.mem_append.mp hp).elim (h.of_ok hfirst p) ((hnext a).of_ok hrest p)
  · rcases run_bind_eq_error.mp hrun with hfirst | ⟨a, g₁, -, hrest⟩
    · refine (h.of_error hfirst).imp_left fun ⟨hfault, p, hp, hnone⟩ => ⟨hfault, p, ?_, hnone⟩
      exact List.mem_append_left _ hp
    · refine ((hnext a).of_error hrest).imp_left fun ⟨hfault, p, hp, hnone⟩ =>
        ⟨hfault, p, ?_, hnone⟩
      exact List.mem_append_right _ hp

/-- What is made of a result needs nothing more. -/
lemma Requires.map {ps : List Position} {build : Build α} (h : Requires xs ys ps build)
    (f : α → β) : Requires xs ys ps (do return f (← build)) := by
  have hpure : ∀ a, Requires xs ys [] (pure (f a) : Build β) := fun a => requires_pure (f a)
  have hbind := h.bind hpure
  rwa [List.append_nil] at hbind

/-- Applying transforms needs what each of them needs. -/
lemma requires_applyAll {ts : List Transform}
    (h : ∀ t ∈ ts, Requires xs ys t.positions (apply idOf xs ys t)) :
    Requires xs ys (ts.flatMap Transform.positions) (applyAll idOf xs ys ts) := by
  induction ts with
  | nil =>
    rw [applyAll]
    exact requires_pure []
  | cons t ts ih =>
    obtain ⟨hfirst, hrest⟩ := List.forall_mem_cons.mp h
    rw [applyAll, List.flatMap_cons]
    exact hfirst.bind fun id => (ih hrest).map (id :: ·)

/-- Applying named transforms needs what each of them needs. -/
lemma requires_applyNamed {ts : List (String × Transform)}
    (h : ∀ entry ∈ ts, Requires xs ys entry.2.positions (apply idOf xs ys entry.2)) :
    Requires xs ys (ts.flatMap fun entry => entry.2.positions) (applyNamed idOf xs ys ts) := by
  induction ts with
  | nil =>
    rw [applyNamed]
    exact requires_pure []
  | cons entry ts ih =>
    obtain ⟨hfirst, hrest⟩ := List.forall_mem_cons.mp h
    rw [applyNamed, List.flatMap_cons]
    exact hfirst.bind fun id => (ih hrest).map ((entry.1, id) :: ·)

/-- **Applying a transform looks up its variables**, if its steps stand at the heads of
compositions.

**Proof sketch.** By induction on the transform. The arguments look up their variables one
after the other, and the step that stands on top looks up nothing. -/
theorem requires_apply {t : Transform} (h : t.Layered) :
    Requires xs ys t.positions (apply idOf xs ys t) := by
  induction h with
  | @place heading position =>
    rw [apply, Transform.positions]
    cases hid : position.find? xs ys with
    | none =>
      refine ⟨fun hrun => ?_, fun hrun => Or.inl ?_⟩ <;> cases hrun
      exact ⟨rfl, position, List.mem_singleton_self _, hid⟩
    | some id =>
      refine ⟨fun _ p hp => ?_, fun hrun => ?_⟩
      · rw [List.mem_singleton.mp hp, hid, Option.isSome_some]
      · cases hrun
  | @composed heading stepHeading content inner innerNamed _ _ hinner hnamed =>
    -- The step itself looks up nothing more: its parents are the results of its arguments.
    rw [apply_composed, Transform.positions_composed_step,
      ← List.append_nil (List.flatMap _ innerNamed)]
    refine (requires_applyAll hinner).bind fun args => ?_
    refine (requires_applyNamed hnamed).bind fun namedArgs => ?_
    exact requires_place stepHeading.name stepHeading content args (Dict.ofList namedArgs)

/-- **The variables of a transform are what applying it needs**, if its steps stand at the heads of
compositions. After arguments are put into it, they are those of the arguments and those without
argument, in order and each once. Where there is no node for one of them the transform cannot be
applied, and only there it is told that not all variables can be substituted.

**Proof sketch.** A success had a node for every variable, and a failure for want of one has
none at a variable (`requires_apply`); all other failures are broken rules of the graph. Which
variables are left is known for such transforms
(`Transform.Layered.mem_variablePositions_compose`). -/
theorem apply_needs_variables {t : Transform} (h : t.Layered) :
    (∀ (us : List Transform) (named : Dict Transform),
      (t.compose us named).variablePositions.Pairwise Position.Before ∧
      ∀ p, p ∈ (t.compose us named).variablePositions ↔
        ∃ q ∈ t.variablePositions, p ∈ Transform.variablesAt us named q) ∧
    ∀ (idOf : Node → NodeId) (g : Graph) (xs : List NodeId) (ys : Dict NodeId),
      ((∃ p ∈ t.variablePositions, p.find? xs ys = none) →
        ∃ fault g', (apply idOf xs ys t).run g = (.error fault, g')) ∧
      ∀ g', (apply idOf xs ys t).run g =
          (.error (.invalidInput "Cannot substitute all variables"), g') →
        ∃ p ∈ t.variablePositions, p.find? xs ys = none := by
  refine ⟨fun us named => ⟨Transform.pairwise_variablePositions _, fun p =>
    h.mem_variablePositions_compose⟩, fun idOf g xs ys => ⟨?_, fun g' hrun => ?_⟩⟩
  · rintro ⟨p, hp, hnone⟩
    have hp := Transform.mem_variablePositions.mp hp
    rcases hrun : (apply idOf xs ys t).run g with ⟨outcome, g'⟩
    cases outcome with
    | error fault => exact ⟨fault, g', rfl⟩
    | ok id =>
      have hsome := (requires_apply h).of_ok hrun p hp
      rw [hnone] at hsome
      cases hsome
  · rcases (requires_apply h).of_error hrun with ⟨-, p, hp, hnone⟩ | ⟨detail, hinvariant⟩
    · exact ⟨p, Transform.mem_variablePositions.mpr hp, hnone⟩
    · cases hinvariant

/-- The join of rows in random order with their weights stands on top of variables. -/
lemma layered_weightedRows : Transform.weightedRows.Layered := by
  refine .composed (List.forall_mem_singleton.mpr (.composed ?_ ?_)) ?_
  · exact List.forall_mem_singleton.mpr .place
  · exact List.forall_mem_nil _
  · exact List.forall_mem_singleton.mpr .place

/-- Without weights the join cannot be made: it is told that a variable is without argument, after
the rows have been shuffled. -/
lemma run_apply_weightedRows :
    (apply Node.id [givenRows.id] [] Transform.weightedRows).run givenGraph =
      (.error unbound, shuffledGraph) := by
  rw [Transform.weightedRows, apply_composed]
  refine run_bind_eq_error.mpr (Or.inr ⟨[shuffledRows.id], shuffledGraph, ?_, rfl⟩)
  rw [applyAll]
  exact run_bind_eq_ok.mpr ⟨_, _, run_shuffleOf_givenGraph rfl, rfl⟩

/-- The variables of the join after other rows have been put in, and what becomes of the join
without weights. -/
theorem apply_needs_variables_weightedRows :
    Transform.weightedRows.Layered ∧
    (.name "rows" ∈
      (Transform.weightedRows.compose [.ofPosition (.name "rows")] []).variablePositions) ∧
    (∃ fault g', (apply Node.id [givenRows.id] [] Transform.weightedRows).run givenGraph =
      (.error fault, g')) ∧
    ∃ p ∈ Transform.weightedRows.variablePositions,
      p.find? [givenRows.id] ([] : Dict NodeId) = none := by
  obtain ⟨hleft, hneeded⟩ := apply_needs_variables layered_weightedRows
  obtain ⟨hfails, honly⟩ := hneeded Node.id givenGraph [givenRows.id] []
  have hrows := Transform.mem_variablePositions_weightedRows.mpr (Or.inl rfl)
  have hweights := Transform.mem_variablePositions_weightedRows.mpr (Or.inr rfl)
  refine ⟨layered_weightedRows, ?_, hfails ⟨.name "weights", hweights, rfl⟩,
    honly shuffledGraph run_apply_weightedRows⟩
  refine ((hleft [.ofPosition (.name "rows")] []).2 _).mpr ⟨.index 0, hrows, ?_⟩
  exact Transform.mem_variablePositions.mpr (List.mem_singleton_self _)

/-- **Applying a transform again adds nothing** and makes the same node.

**Proof sketch.** A success is repeated in every larger graph (`adds_apply`), and so in the
one that it leaves. -/
theorem apply_again {t : Transform} {g g' : Graph} {id : NodeId}
    (h : (apply idOf xs ys t).run g = (.ok id, g')) :
    (apply idOf xs ys t).run g' = (.ok id, g') :=
  (adds_apply t xs ys).ok_again h g' (Within.refl g')

/-- A shuffle on top of a shuffle of the first argument. -/
def reshuffle : Transform :=
  .composed (Transform.named "composed") (.ofStep .shuffle) [shuffleOf (.index 0)] []

/-- The given rows are shuffled twice: two nodes are added. -/
lemma run_apply_reshuffle :
    (apply Node.id [givenRows.id] [] reshuffle).run givenGraph =
      (.ok reshuffledRows.id, shuffledGraph.add reshuffledRows.id reshuffledRows) := by
  rw [reshuffle, apply_composed, applyAll]
  refine run_bind_eq_ok.mpr ⟨[shuffledRows.id], shuffledGraph, ?_, ?_⟩
  · exact run_bind_eq_ok.mpr ⟨_, _, run_shuffleOf_givenGraph rfl, rfl⟩
  · have hlast : (apply Node.id [shuffledRows.id] [] (shuffleOf (.index 0))).run shuffledGraph =
        (.ok reshuffledRows.id, shuffledGraph.add reshuffledRows.id reshuffledRows) :=
      run_apply_shuffleOf rfl find?_shuffledGraph_shuffledRows rfl
    rw [apply_shuffleOf rfl] at hlast
    exact hlast

/-- The second time the given rows are shuffled twice, both nodes are there. -/
theorem apply_again_reshuffle :
    (apply Node.id [givenRows.id] [] reshuffle).run givenGraph =
        (.ok reshuffledRows.id, shuffledGraph.add reshuffledRows.id reshuffledRows) ∧
      (apply Node.id [givenRows.id] [] reshuffle).run
          (shuffledGraph.add reshuffledRows.id reshuffledRows) =
        (.ok reshuffledRows.id, shuffledGraph.add reshuffledRows.id reshuffledRows) :=
  ⟨run_apply_reshuffle, apply_again run_apply_reshuffle⟩

end Graph

end Lineage
