import Lineage.Proofs.Graph.Consistency
import Lineage.Proofs.Graph.Substitution

set_option autoImplicit false

/-!
# Calls that fail

A call that fails leaves the nodes that it has added. These are nodes of steps made for the
arguments of a composition, in their order, and they stand behind all older nodes. A call that makes
no step for an argument leaves the graph as it is. What a failed call leaves is all that it can add:
the same call fails again and adds nothing.

## Main definitions

* `Lineage.Transform.argumentSteps`: the steps of a transform that come before the last one.
* `Lineage.Graph.MadeOf`: nodes are those of some steps.
* `Lineage.Graph.Adds`: which nodes a computation adds, and that it adds nothing when repeated.
* `Lineage.Graph.ExtendedBy`: a graph has some more nodes than another one, behind the older ones.

## Main results

* `Lineage.Graph.adds_apply`: the nodes that applying a transform adds.
* `Lineage.Graph.Call.run_eq_error`: what a failed call leaves.

## Design

A composition first applies its arguments and then makes the node of its head, and nothing is taken
back when a later part fails. So a computation is described by two lists of steps: all of them are
made if it succeeds, and a first part of the `early` ones is made if it fails.
-/

namespace Lineage

namespace Transform

mutual

/-- The steps of a transform in the order in which their nodes are added: those of the arguments,
then those of the head. -/
def steps : Transform → List (Heading × Step)
  | .variable .. => []
  | .step heading content => [(heading, content)]
  | .composed _ head inner innerNamed => stepsOf inner ++ stepsOfNamed innerNamed ++ steps head

/-- The steps of a list of transforms. -/
def stepsOf : List Transform → List (Heading × Step)
  | [] => []
  | t :: rest => steps t ++ stepsOf rest

/-- The steps of named transforms. -/
def stepsOfNamed : List (String × Transform) → List (Heading × Step)
  | [] => []
  | (_, t) :: rest => steps t ++ stepsOfNamed rest

end

/-- The steps that are made before the last one: those of the arguments of all compositions. -/
def argumentSteps : Transform → List (Heading × Step)
  | .composed _ head inner innerNamed =>
    stepsOf inner ++ stepsOfNamed innerNamed ++ argumentSteps head
  | _ => []

/-- The steps for arguments are the first ones. -/
lemma argumentSteps_prefix_steps (t : Transform) : t.argumentSteps <+: t.steps := by
  fun_induction argumentSteps t with
  | case1 heading head inner innerNamed ih =>
    rw [steps]
    exact (List.prefix_append_right_inj _).mpr ih
  | case2 t hother => exact List.nil_prefix

end Transform

namespace Graph

variable {α β : Type} {idOf : Node → NodeId}

/-! ### Adding nodes in a row -/

/-- The graph with further nodes under their identifiers, each unless there is one already. -/
def addAll (idOf : Node → NodeId) (g : Graph) (nodes : List Node) : Graph :=
  nodes.foldl (fun g node => g.add (idOf node) node) g

/-- Further nodes after others. -/
lemma addAll_append (g : Graph) (nodes nodes' : List Node) :
    g.addAll idOf (nodes ++ nodes') = (g.addAll idOf nodes).addAll idOf nodes' :=
  List.foldl_append

/-- A graph is kept in itself. -/
lemma KeptIn.refl (g : Graph) : KeptIn g g :=
  ⟨List.prefix_refl _, List.prefix_refl _, Within.refl g⟩

/-- What is kept in a kept graph is kept. -/
lemma KeptIn.trans {g g' g'' : Graph} (h : KeptIn g g') (h' : KeptIn g' g'') : KeptIn g g'' :=
  ⟨h.ids.trans h'.ids, h.nodes.trans h'.nodes, h.within.trans h'.within⟩

/-- A graph is kept when a node is added. -/
lemma keptIn_add (g : Graph) (node : Node) : KeptIn g (g.add (idOf node) node) := by
  have hsuffix : g.entries <:+ (g.add (idOf node) node).entries := by
    unfold add
    split
    · exact List.suffix_refl _
    · exact List.suffix_cons _ _
  exact ⟨List.reverse_prefix.mpr (hsuffix.map Prod.fst),
    List.reverse_prefix.mpr (hsuffix.map Prod.snd), (grown_add g node).within⟩

/-- A graph is kept when nodes are added. -/
lemma keptIn_addAll (g : Graph) (nodes : List Node) : KeptIn g (g.addAll idOf nodes) := by
  induction nodes generalizing g with
  | nil => exact KeptIn.refl g
  | cons node nodes ih => exact (keptIn_add g node).trans (ih _)

/-- What is there after nodes are added. -/
lemma contains_addAll_iff {g : Graph} {nodes : List Node} {id : NodeId} :
    (g.addAll idOf nodes).contains id = true ↔ id ∈ nodes.map idOf ∨ g.contains id = true := by
  induction nodes generalizing g with
  | nil => simp [addAll]
  | cons node nodes ih =>
    rw [addAll, List.foldl_cons, ← addAll, ih, contains_add_iff, List.map_cons, List.mem_cons,
      ← or_assoc, or_comm (a := id ∈ nodes.map idOf), eq_comm]

/-- Adding nodes leaves a graph as it is exactly when there is one under each identifier. -/
lemma addAll_eq_self_iff {g : Graph} {nodes : List Node} :
    g.addAll idOf nodes = g ↔ ∀ node ∈ nodes, g.contains (idOf node) = true := by
  constructor
  · intro h node hnode
    rw [← h]
    exact contains_addAll_iff.mpr (Or.inl (List.mem_map_of_mem hnode))
  · intro h
    induction nodes with
    | nil => rfl
    | cons node nodes ih =>
      rw [addAll, List.foldl_cons, ← addAll,
        (add_eq_self_iff _ _ _).mpr (h node List.mem_cons_self)]
      exact ih fun node hnode => h node (List.mem_cons_of_mem _ hnode)

/-- The newest node with a name is not another one after a node with another name is added. -/
lemma named?_add {g : Graph} {id : NodeId} {node : Node} {name : String} (h : node.name ≠ name) :
    (g.add id node).named? name = g.named? name := by
  unfold add
  split
  · rfl
  · rw [named?, List.find?_cons_of_neg (by simpa using h), ← named?]

/-- The newest node with a name is not another one after nodes with other names are added. -/
lemma named?_addAll {g : Graph} {nodes : List Node} {name : String}
    (h : ∀ node ∈ nodes, node.name ≠ name) : (g.addAll idOf nodes).named? name = g.named? name := by
  induction nodes generalizing g with
  | nil => rfl
  | cons node nodes ih =>
    rw [addAll, List.foldl_cons, ← addAll,
      ih fun node hnode => h node (List.mem_cons_of_mem _ hnode),
      named?_add (h node List.mem_cons_self)]

/-- Nodes are those of some steps: each is named after its step, which is all its transform. -/
def MadeOf (steps : List (Heading × Step)) (nodes : List Node) : Prop :=
  List.Forall₂ (fun step node => ∃ kind arguments named, node =
    .ofOrigin step.1.name kind (.transformed (.step step.1 step.2) arguments named)) steps nodes

/-- The nodes of steps have the names of steps. -/
lemma MadeOf.exists_name {steps : List (Heading × Step)} {nodes : List Node}
    (h : MadeOf steps nodes) {node : Node} (hnode : node ∈ nodes) :
    ∃ step ∈ steps, node.name = step.1.name := by
  induction h with
  | nil => cases hnode
  | cons hfirst _ ih =>
    rcases List.mem_cons.mp hnode with rfl | hnode
    · obtain ⟨kind, arguments, named, rfl⟩ := hfirst
      exact ⟨_, List.mem_cons_self, rfl⟩
    · obtain ⟨step, hstep, hname⟩ := ih hnode
      exact ⟨step, List.mem_cons_of_mem _ hstep, hname⟩

/-- A graph has the nodes of first ones of the `early` steps more than another one. -/
def StoppedAt (idOf : Node → NodeId) (early : List (Heading × Step)) (g g' : Graph) : Prop :=
  ∃ steps added, steps <+: early ∧ MadeOf steps added ∧ g' = g.addAll idOf added

/-- A graph that has not changed has none of the steps more. -/
lemma StoppedAt.refl (early : List (Heading × Step)) (g : Graph) : StoppedAt idOf early g g :=
  ⟨[], [], List.nil_prefix, .nil, rfl⟩

/-- A graph is another one with the nodes of some steps behind its own. -/
structure ExtendedBy (idOf : Node → NodeId) (steps : List (Heading × Step)) (added : List Node)
    (g g' : Graph) : Prop where
  /-- The nodes are those of the steps. -/
  made : MadeOf steps added
  /-- They are added in order, each unless there is one under its identifier. -/
  eq : g' = g.addAll idOf added
  /-- All older nodes keep their places and their identifiers. -/
  kept : KeptIn g g'
  /-- Names that no step has stand for the nodes that they stood for. -/
  named : ∀ name, (∀ step ∈ steps, step.1.name ≠ name) → g'.named? name = g.named? name
  /-- The graph is the same exactly if there was a node under each identifier. -/
  unchanged_iff : g' = g ↔ ∀ node ∈ added, g.contains (idOf node) = true

/-- A graph to which the nodes of some steps are added is extended by them. -/
lemma extendedBy_addAll {steps : List (Heading × Step)} {added : List Node} {g g' : Graph}
    (hmade : MadeOf steps added) (h : g' = g.addAll idOf added) :
    ExtendedBy idOf steps added g g' := by
  subst h
  refine ⟨hmade, rfl, keptIn_addAll g added, fun name hname => ?_, addAll_eq_self_iff⟩
  refine named?_addAll fun node hnode => ?_
  obtain ⟨step, hstep, hnode⟩ := hmade.exists_name hnode
  rw [hnode]
  exact hname step hstep

/-! ### What a computation adds -/

/-- A computation adds the nodes of `all` steps if it succeeds and those of the first ones of the
`early` steps if it fails. Done again where it has added them, it has the same outcome and adds
nothing. -/
structure Adds (idOf : Node → NodeId) (early all : List (Heading × Step)) (build : Build α) :
    Prop where
  /-- What a success adds. -/
  of_ok : ∀ {g g' a}, build.run g = (.ok a, g') →
    ∃ added, MadeOf all added ∧ g' = g.addAll idOf added
  /-- What a failure adds. -/
  of_error : ∀ {g g' fault}, build.run g = (.error fault, g') → StoppedAt idOf early g g'
  /-- A success is repeated in all larger graphs. -/
  ok_again : ∀ {g g' a}, build.run g = (.ok a, g') → ∀ h, Within g' h → build.run h = (.ok a, h)
  /-- A failure is repeated in the graph that it leaves. -/
  error_again : ∀ {g g' fault}, build.run g = (.error fault, g') → build.run g' = (.error fault, g')

/-- A success keeps all nodes. -/
lemma Adds.within_of_ok {early all : List (Heading × Step)} {build : Build α}
    (h : Adds idOf early all build) {g g' : Graph} {a : α} (hrun : build.run g = (.ok a, g')) :
    Within g g' := by
  obtain ⟨added, -, rfl⟩ := h.of_ok hrun
  exact (keptIn_addAll g added).within

/-- A failure keeps all nodes. -/
lemma Adds.within_of_error {early all : List (Heading × Step)} {build : Build α}
    (h : Adds idOf early all build) {g g' : Graph} {fault : Fault}
    (hrun : build.run g = (.error fault, g')) : Within g g' := by
  obtain ⟨steps, added, -, -, rfl⟩ := h.of_error hrun
  exact (keptIn_addAll g added).within

/-- A returned value adds nothing. -/
lemma adds_pure (a : α) : Adds idOf [] [] (pure a : Build α) := by
  refine ⟨fun hrun => ?_, fun hrun => ?_, fun hrun h _ => ?_, fun hrun => ?_⟩ <;> cases hrun
  · exact ⟨[], .nil, rfl⟩
  · rfl

/-- A failure adds nothing. -/
lemma adds_throw (all : List (Heading × Step)) (fault : Fault) :
    Adds idOf [] all (throw fault : Build α) := by
  refine ⟨fun hrun => ?_, fun hrun => ?_, fun hrun h _ => ?_, fun hrun => ?_⟩ <;> cases hrun
  · exact StoppedAt.refl _ _
  · rfl

/-- A computation after another fails if one of them does. -/
lemma run_bind_eq_error {build : Build α} {next : α → Build β} {g g₂ : Graph} {fault : Fault} :
    (build >>= next).run g = (.error fault, g₂) ↔ build.run g = (.error fault, g₂) ∨
      ∃ a g₁, build.run g = (.ok a, g₁) ∧ (next a).run g₁ = (.error fault, g₂) := by
  rw [run_bind]
  rcases build.run g with ⟨outcome, g₁⟩
  cases outcome <;> simp

/-- A computation after another one adds its nodes behind those of the first. -/
lemma Adds.bind {early₁ all₁ early₂ all₂ : List (Heading × Step)} {build : Build α}
    {next : α → Build β} (h : Adds idOf early₁ all₁ build) (hearly : early₁ <+: all₁)
    (hnext : ∀ a, Adds idOf early₂ all₂ (next a)) :
    Adds idOf (all₁ ++ early₂) (all₁ ++ all₂) (build >>= next) := by
  refine ⟨fun hrun => ?_, fun hrun => ?_, fun hrun g' hg' => ?_, fun hrun => ?_⟩
  · obtain ⟨a, g₁, hfirst, hrest⟩ := run_bind_eq_ok.mp hrun
    obtain ⟨added₁, hmade₁, rfl⟩ := h.of_ok hfirst
    obtain ⟨added₂, hmade₂, rfl⟩ := (hnext a).of_ok hrest
    exact ⟨added₁ ++ added₂, List.rel_append hmade₁ hmade₂, (addAll_append _ _ _).symm⟩
  · rcases run_bind_eq_error.mp hrun with hfirst | ⟨a, g₁, hfirst, hrest⟩
    · obtain ⟨steps, added, hsteps, hmade, heq⟩ := h.of_error hfirst
      exact ⟨steps, added, (hsteps.trans hearly).trans (List.prefix_append _ _), hmade, heq⟩
    · obtain ⟨added₁, hmade₁, rfl⟩ := h.of_ok hfirst
      obtain ⟨steps, added₂, hsteps, hmade₂, rfl⟩ := (hnext a).of_error hrest
      exact ⟨all₁ ++ steps, added₁ ++ added₂, (List.prefix_append_right_inj _).mpr hsteps,
        List.rel_append hmade₁ hmade₂, (addAll_append _ _ _).symm⟩
  · obtain ⟨a, g₁, hfirst, hrest⟩ := run_bind_eq_ok.mp hrun
    have hlater := ((hnext a).within_of_ok hrest).trans hg'
    exact run_bind_eq_ok.mpr ⟨a, g', h.ok_again hfirst g' hlater, (hnext a).ok_again hrest g' hg'⟩
  · refine run_bind_eq_error.mpr ?_
    rcases run_bind_eq_error.mp hrun with hfirst | ⟨a, g₁, hfirst, hrest⟩
    · exact Or.inl (h.error_again hfirst)
    · exact Or.inr ⟨a, _, h.ok_again hfirst _ ((hnext a).within_of_error hrest),
        (hnext a).error_again hrest⟩

/-- What is returned from a result adds nothing. -/
lemma Adds.map {early all : List (Heading × Step)} {build : Build α}
    (h : Adds idOf early all build) (hearly : early <+: all) (f : α → β) :
    Adds idOf all all (do return f (← build)) := by
  have hpure : ∀ a, Adds idOf [] [] (pure (f a) : Build β) := fun a => adds_pure (f a)
  have hbind := h.bind hearly hpure
  rwa [List.append_nil] at hbind

/-- A step that fits its parents fits them in larger graphs. -/
lemma kindOf_of_within {g g' : Graph} (h : Within g g') {content : Step} {arguments : List NodeId}
    {named : Dict NodeId} {kind : NodeKind} (hkind : kindOf g content arguments named = .ok kind) :
    kindOf g' content arguments named = .ok kind := by
  refine Runs.kindOf_eq_ok hkind (fun id node node' hnode hnode' => ?_) fun id _ => h.contains
  rw [h id node hnode] at hnode'
  rw [Option.some.inj hnode']

/-- A node that cannot be added leaves the graph as it is. -/
lemma run_insert_eq_error {node : Node} {g g' : Graph} {fault : Fault}
    (h : (insert idOf node).run g = (.error fault, g')) : g' = g := by
  rw [run_insert] at h
  split at h <;> cases h
  rfl

/-- A node that is added: its parents are there. -/
lemma run_insert_eq_ok {node : Node} {g g' : Graph} {id : NodeId}
    (h : (insert idOf node).run g = (.ok id, g')) :
    (∀ parent ∈ node.parents, g.contains parent = true) ∧ id = idOf node ∧
      g' = g.add (idOf node) node := by
  rw [run_insert] at h
  split at h
  · cases h
  · rename_i hnone
    cases h
    refine ⟨fun parent hparent => ?_, rfl, rfl⟩
    simpa using List.find?_eq_none.mp hnone parent hparent

/-- A step that cannot be made leaves the graph as it is. -/
lemma run_place_eq_error {name : String} {heading : Heading} {content : Step}
    {arguments : List NodeId} {named : Dict NodeId} {g g' : Graph} {fault : Fault}
    (h : (place idOf name heading content arguments named).run g = (.error fault, g')) :
    g' = g := by
  rw [run_place] at h
  split at h
  · cases h
    rfl
  · exact run_insert_eq_error h

/-- **The node of one step** is all that it adds. -/
lemma adds_place (heading : Heading) (content : Step) (arguments : List NodeId)
    (named : Dict NodeId) : Adds idOf [] [(heading, content)]
      (place idOf heading.name heading content arguments named) := by
  refine ⟨fun {g g' id} hrun => ?_, fun hrun => ?_, fun {g g' id} hrun h hwithin => ?_,
    fun hrun => ?_⟩
  · rw [run_place] at hrun
    split at hrun
    · cases hrun
    · rename_i kind hkind
      obtain ⟨-, -, rfl⟩ := run_insert_eq_ok hrun
      exact ⟨[_], .cons ⟨kind, arguments, named, rfl⟩ .nil, rfl⟩
  · rw [run_place_eq_error hrun]
    exact StoppedAt.refl _ _
  · rw [run_place] at hrun
    split at hrun
    · cases hrun
    · rename_i kind hkind
      obtain ⟨hparents, rfl, rfl⟩ := run_insert_eq_ok hrun
      have hkept : Within g h := (keptIn_add g _).within.trans hwithin
      rw [run_place, kindOf_of_within hkept hkind]
      refine (run_insert_of_parents fun parent hparent =>
        hkept.contains (hparents parent hparent)).trans (congrArg _ ?_)
      exact (add_eq_self_iff _ _ _).mpr (hwithin.contains (contains_add_iff.mpr (Or.inl rfl)))
  · rwa [run_place_eq_error hrun] at *

mutual

/-- **Applying a transform adds the nodes of its steps**, and if it fails, those of first steps for
arguments.

**Proof sketch.** By induction on the transform, together with lists of transforms. A
composition adds the nodes of its arguments and then that of its head (`Adds.bind`,
`adds_place`). The second time each of them is there, as later nodes do not take earlier ones
away. -/
theorem adds_apply : ∀ (t : Transform) (arguments : List NodeId) (named : Dict NodeId),
    Adds idOf t.argumentSteps t.steps (apply idOf arguments named t)
  | .variable heading position, arguments, named => by
    rw [apply, Transform.argumentSteps, Transform.steps]
    · split
      · exact adds_pure _
      · exact adds_throw _ _
    · exact fun _ _ _ _ h => Transform.noConfusion h
  | .step heading content, arguments, named => by
    rw [apply, Transform.argumentSteps, Transform.steps]
    · exact adds_place heading content arguments named
    · exact fun _ _ _ _ h => Transform.noConfusion h
  | .composed heading head inner innerNamed, arguments, named => by
    rw [apply_composed, Transform.argumentSteps, Transform.steps, List.append_assoc,
      List.append_assoc]
    refine (adds_applyAll inner arguments named).bind (List.prefix_refl _) fun args => ?_
    refine (adds_applyNamed innerNamed arguments named).bind (List.prefix_refl _) fun ids => ?_
    cases head with
    | step heading content => exact adds_place heading content args _
    | «variable» heading position => exact adds_throw _ _
    | composed heading head inner innerNamed => exact adds_apply (.composed ..) args _

/-- Applying transforms adds the nodes of their steps, and if it fails, those of first ones. -/
theorem adds_applyAll : ∀ (ts : List Transform) (arguments : List NodeId) (named : Dict NodeId),
    Adds idOf (Transform.stepsOf ts) (Transform.stepsOf ts) (applyAll idOf arguments named ts)
  | [], arguments, named => by
    rw [applyAll, Transform.stepsOf]
    exact adds_pure []
  | t :: rest, arguments, named => by
    rw [applyAll, Transform.stepsOf]
    exact (adds_apply t arguments named).bind t.argumentSteps_prefix_steps fun id =>
      (adds_applyAll rest arguments named).map (List.prefix_refl _) (id :: ·)

/-- Applying named transforms adds the nodes of their steps, and if it fails, those of first
ones. -/
theorem adds_applyNamed : ∀ (ts : List (String × Transform)) (arguments : List NodeId)
    (named : Dict NodeId),
    Adds idOf (Transform.stepsOfNamed ts) (Transform.stepsOfNamed ts)
      (applyNamed idOf arguments named ts)
  | [], arguments, named => by
    rw [applyNamed, Transform.stepsOfNamed]
    exact adds_pure []
  | (name, t) :: rest, arguments, named => by
    rw [applyNamed, Transform.stepsOfNamed]
    exact (adds_apply t arguments named).bind t.argumentSteps_prefix_steps fun id =>
      (adds_applyNamed rest arguments named).map (List.prefix_refl _) ((name, id) :: ·)

end

/-! ### Calls -/

/-- The steps that a call makes for arguments before the node that it is asked for. -/
def Call.argumentSteps : Call → List (Heading × Step)
  | .transformed t _ | .transformedAs _ t _ _ | .apply t _ _ => t.argumentSteps
  | _ => []

/-- A failed call for a transform: first steps for its arguments are made. -/
lemma run_transformedAs_eq_error {name : String} {t : Transform} {arguments : List NodeId}
    {named : Dict NodeId} {g g' : Graph} {fault : Fault}
    (h : (transformedAs idOf name t arguments named).run g = (.error fault, g')) :
    StoppedAt idOf t.argumentSteps g g' ∧
      (transformedAs idOf name t arguments named).run g' = (.error fault, g') := by
  cases t with
  | step heading content =>
    obtain rfl := run_place_eq_error h
    exact ⟨StoppedAt.refl _ _, h⟩
  | «variable» heading position =>
    cases h
    exact ⟨StoppedAt.refl _ _, rfl⟩
  | composed heading head inner innerNamed =>
    have happly : Adds idOf _ _ (apply idOf arguments named (.composed heading head inner
      innerNamed)) := adds_apply _ arguments named
    exact ⟨happly.of_error h, happly.error_again h⟩

/-- A failed call: first steps for its arguments are made. -/
lemma Call.stoppedAt_of_error {call : Call} {g g' : Graph} {fault : Fault}
    (h : (call.build idOf).run g = (.error fault, g')) :
    StoppedAt idOf call.argumentSteps g g' ∧ (call.build idOf).run g' = (.error fault, g') := by
  cases call with
  | insert node | source name uri schema | scalar name value =>
    dsimp only [Call.build, Graph.source, Graph.scalar] at h
    obtain rfl := run_insert_eq_error h
    exact ⟨StoppedAt.refl _ _, h⟩
  | transformed t arguments | transformedAs name t arguments named =>
    exact run_transformedAs_eq_error h
  | apply t arguments named =>
    have happly : Adds idOf _ _ (Graph.apply idOf arguments named t) := adds_apply t _ _
    exact ⟨happly.of_error h, happly.error_again h⟩

/-- **What a failed call leaves.** The graph is extended by nodes of first steps for arguments, so
it is the same one if the call makes no steps for arguments. Repeated, the call fails with the same
fault and adds nothing.

**Proof sketch.** What a call leaves are nodes of first steps for its arguments
(`Call.stoppedAt_of_error`). They stand behind the older ones (`extendedBy_addAll`). -/
theorem Call.run_eq_error {call : Call} {g g' : Graph} {fault : Fault}
    (h : (call.build idOf).run g = (.error fault, g')) :
    (∃ steps added, steps <+: call.argumentSteps ∧ ExtendedBy idOf steps added g g') ∧
      (call.argumentSteps = [] → g' = g) ∧ (call.build idOf).run g' = (.error fault, g') := by
  obtain ⟨⟨steps, added, hsteps, hmade, heq⟩, hagain⟩ := Call.stoppedAt_of_error h
  refine ⟨⟨steps, added, hsteps, extendedBy_addAll hmade heq⟩, fun hnone => ?_, hagain⟩
  rw [hnone] at hsteps
  obtain rfl := List.prefix_nil.mp hsteps
  cases hmade
  exact heq

/-! ### A slice that is given too few arguments -/

/-- The first row of the first argument in random order; the slice is given the second argument,
too. -/
def sliceOfBoth : Transform :=
  .composed (Transform.named "composed") (.ofStep (.slice 0 1))
    [shuffleOf (.index 0), .ofPosition (.index 1)] []

/-- Without a second argument the call fails, after the rows have been shuffled. -/
lemma run_apply_sliceOfBoth :
    ((Call.apply sliceOfBoth [givenRows.id] []).build Node.id).run givenGraph =
      (.error unbound, shuffledGraph) := by
  show (apply Node.id [givenRows.id] [] sliceOfBoth).run givenGraph = _
  rw [sliceOfBoth, apply_composed]
  refine run_bind_eq_error.mpr (Or.inl ?_)
  rw [applyAll]
  refine run_bind_eq_error.mpr (Or.inr ⟨_, _, run_shuffleOf_givenGraph rfl, ?_⟩)
  rfl

/-- The failed call leaves the shuffled rows behind the given ones; repeated, it adds nothing. -/
theorem Call.run_eq_error_sliceOfBoth :
    ((Call.apply sliceOfBoth [givenRows.id] []).build Node.id).run givenGraph =
        (.error unbound, shuffledGraph) ∧
      (∃ steps added, steps <+: [(Transform.named "shuffle", Step.shuffle)] ∧
        ExtendedBy Node.id steps added givenGraph shuffledGraph) ∧
      ((Call.apply sliceOfBoth [givenRows.id] []).build Node.id).run shuffledGraph =
        (.error unbound, shuffledGraph) := by
  obtain ⟨hextended, -, hagain⟩ := Call.run_eq_error run_apply_sliceOfBoth
  exact ⟨run_apply_sliceOfBoth, hextended, hagain⟩

/-- A failed call may leave a graph with other identifiers, other nodes and a name that stood for
nothing before. -/
theorem not_unchanged_sliceOfBoth :
    ((Call.apply sliceOfBoth [givenRows.id] []).build Node.id).run givenGraph =
        (.error unbound, shuffledGraph) ∧
      shuffledGraph.ids ≠ givenGraph.ids ∧ shuffledGraph.nodes ≠ givenGraph.nodes ∧
      givenGraph.named? "shuffle" = none ∧
      shuffledGraph.named? "shuffle" = some shuffledRows.id := by
  have hids : shuffledGraph.ids = givenGraph.ids ++ [shuffledRows.id] := rfl
  have hnodes : shuffledGraph.nodes = givenGraph.nodes ++ [shuffledRows] := rfl
  refine ⟨run_apply_sliceOfBoth, ?_, ?_, rfl, rfl⟩
  · simp [hids]
  · simp [hnodes]

end Graph

end Lineage
