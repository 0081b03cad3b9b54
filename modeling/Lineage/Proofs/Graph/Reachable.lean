import Lineage.Graph.Basic
import Lineage.Proofs.Graph.Node

set_option autoImplicit false

/-!
# Graphs after any calls

Every way of adding to a graph comes down to adding one node after the other. So whatever adding
one node preserves holds of the graph after any sequence of calls, whether these succeed or fail.

## Main definitions

* `Lineage.Graph.Preserves`: a computation keeps a property of the graph.
* `Lineage.Graph.Call`, `Lineage.Graph.after`: the calls that add to a graph, and the graph after
  some of them.
* `Lineage.Graph.Sound`: nodes stand under the identifiers of their contents and are well formed.

## Main results

* `Lineage.Graph.preserves_apply`: adding the nodes of a transform keeps what adding those of its
  steps keeps.
* `Lineage.Graph.Call.preserves`: every call keeps what adding one node keeps.
* `Lineage.Graph.sound_after`: the graph after any calls is sound.

## Design

The graph of a failed computation is that of its last success, so properties of graphs are stated
of the graph that a computation leaves, whatever its outcome.
-/

namespace Lineage

namespace Graph

variable {α β : Type} {P : Graph → Prop}

/-! ### Computations that keep a property -/

/-- A computation keeps a property of the graph, whether it succeeds or fails. -/
def Preserves (P : Graph → Prop) (build : Build α) : Prop := ∀ g, P g → P (build.run g).2

/-- A computation followed by another: the second runs on the graph that the first leaves. -/
lemma run_bind (build : Build α) (next : α → Build β) (g : Graph) :
    (build >>= next).run g = match build.run g with
      | (.ok a, g') => (next a).run g'
      | (.error e, g') => (.error e, g') := by
  have hstep : (build >>= next).run g = (match (build.run g).1 with
      | .ok a => (next a).run (build.run g).2
      | .error e => (.error e, (build.run g).2)) := by
    show (ExceptT.bindCont next (build.run g).1 : StateM Graph (Outcome β)) (build.run g).2 = _
    cases (build.run g).1 <;> rfl
  rw [hstep]
  rcases build.run g with ⟨outcome, g'⟩
  cases outcome <;> rfl

/-- A returned value leaves the graph as it is. -/
lemma preserves_pure (a : α) : Preserves P (pure a : Build α) := fun _ h => h

/-- A failure leaves the graph as it is. -/
lemma preserves_throw (e : Fault) : Preserves P (throw e : Build α) := fun _ h => h

/-- Two computations that keep a property keep it together. -/
lemma preserves_bind {build : Build α} {next : α → Build β} (hb : Preserves P build)
    (hn : ∀ a, Preserves P (next a)) : Preserves P (build >>= next) := by
  intro g hg
  rw [run_bind]
  have hleft := hb g hg
  revert hleft
  rcases build.run g with ⟨outcome, g'⟩
  intro hleft
  cases outcome with
  | ok a => exact hn a g' hleft
  | error e => exact hleft

variable {idOf : Node → NodeId}

/-- Adding a node: a fault if one of its parents is missing, else the node stands under its
identifier. -/
lemma run_insert (node : Node) (g : Graph) :
    (insert idOf node).run g =
      match node.parents.find? fun parent => !g.contains parent with
      | some parent => (.error (unknownParent node parent), g)
      | none => (.ok (idOf node), g.add (idOf node) node) := by
  show (match node.parents.find? fun parent => !g.contains parent with
      | some parent => (throw (unknownParent node parent) : Build NodeId)
      | none => do
        let id := idOf node
        set (g.add id node)
        return id).run g = _
  cases node.parents.find? fun parent => !g.contains parent <;> rfl

/-- Adding the node of one step: a fault if the step does not fit its parents, else the node is
added. -/
lemma run_place (name : String) (heading : Heading) (content : Step) (arguments : List NodeId)
    (named : Dict NodeId) (g : Graph) :
    (place idOf name heading content arguments named).run g =
      match kindOf g content arguments named with
      | .error e => (.error e, g)
      | .ok kind => (insert idOf
          (.ofOrigin name kind (.transformed (.step heading content) arguments named))).run g := by
  have hget : (get : Build Graph).run g = (.ok g, g) := rfl
  have hkind : Build.run (ExceptT.mk (pure (kindOf g content arguments named))) g =
      (kindOf g content arguments named, g) := rfl
  unfold place
  rw [run_bind, hget]
  dsimp only
  rw [run_bind, hkind]
  cases kindOf g content arguments named <;> rfl

/-! ### Adding the nodes of a transform -/

/-- Adding the node of one step keeps what adding any node with that step keeps. -/
lemma preserves_place {content : Step}
    (h : ∀ name kind heading arguments named, Preserves P (insert idOf
      (.ofOrigin name kind (.transformed (.step heading content) arguments named))))
    (name : String) (heading : Heading) (arguments : List NodeId) (named : Dict NodeId) :
    Preserves P (place idOf name heading content arguments named) := by
  intro g hg
  rw [run_place]
  cases kindOf g content arguments named with
  | error e => exact hg
  | ok kind => exact h name kind heading arguments named g hg

variable {Q : Json → Prop}

mutual

/-- **Adding the nodes of a transform keeps what adding the nodes of its steps keeps.** -/
theorem preserves_apply
    (h : ∀ content : Step, content.Agree (fun _ _ => True) (fun v _ => Q v) content →
      ∀ name heading arguments named,
        Preserves P (place idOf name heading content arguments named)) :
    ∀ {t : Transform}, t.Agree (fun _ _ => True) (fun v _ => Q v) t →
      ∀ arguments named, Preserves P (apply idOf arguments named t)
  | .variable heading position, _, arguments, named => by
    simp only [apply]
    split
    · exact preserves_pure _
    · exact preserves_throw _
  | .step heading content, ht, arguments, named => by
    simp only [Transform.Agree, Transform.step.injEq, true_and, exists_eq_left'] at ht
    simp only [apply]
    exact h content ht _ _ _ _
  | .composed heading head inner innerNamed, ht, arguments, named => by
    simp only [Transform.Agree, Transform.composed.injEq, true_and, and_assoc, exists_and_left,
      exists_eq_left'] at ht
    obtain ⟨hhead, hinner, hnamed⟩ := ht
    unfold apply
    refine preserves_bind (preserves_applyAll h hinner arguments named) fun args => ?_
    refine preserves_bind (preserves_applyNamed h hnamed arguments named) fun namedArgs => ?_
    cases head with
    | step heading' content =>
      simp only [Transform.Agree, Transform.step.injEq, true_and, exists_eq_left'] at hhead
      exact h content hhead _ _ _ _
    | «variable» heading' position => exact preserves_throw _
    | composed heading' head' inner' named' =>
      exact preserves_apply h hhead args (Dict.ofList namedArgs)

/-- Adding the nodes of transforms keeps what adding the nodes of their steps keeps. -/
theorem preserves_applyAll
    (h : ∀ content : Step, content.Agree (fun _ _ => True) (fun v _ => Q v) content →
      ∀ name heading arguments named,
        Preserves P (place idOf name heading content arguments named)) :
    ∀ {ts : List Transform}, Transform.AgreeList (fun _ _ => True) (fun v _ => Q v) ts ts →
      ∀ arguments named, Preserves P (applyAll idOf arguments named ts)
  | [], _, arguments, named => by
    simp only [applyAll]
    exact preserves_pure _
  | t :: rest, ht, arguments, named => by
    simp only [Transform.AgreeList, List.cons.injEq, and_assoc, exists_and_left,
      exists_eq_left'] at ht
    simp only [applyAll]
    refine preserves_bind (preserves_apply h ht.1 arguments named) fun id => ?_
    exact preserves_bind (preserves_applyAll h ht.2 arguments named) fun ids => preserves_pure _

/-- Adding the nodes of named transforms keeps what adding the nodes of their steps keeps. -/
theorem preserves_applyNamed
    (h : ∀ content : Step, content.Agree (fun _ _ => True) (fun v _ => Q v) content →
      ∀ name heading arguments named,
        Preserves P (place idOf name heading content arguments named)) :
    ∀ {ts : List (String × Transform)},
      Transform.AgreeNamed (fun _ _ => True) (fun v _ => Q v) ts ts →
      ∀ arguments named, Preserves P (applyNamed idOf arguments named ts)
  | [], _, arguments, named => by
    simp only [applyNamed]
    exact preserves_pure _
  | (name, t) :: rest, ht, arguments, named => by
    simp only [Transform.AgreeNamed, List.cons.injEq, Prod.mk.injEq, true_and, and_assoc,
      exists_and_left, exists_eq_left'] at ht
    simp only [applyNamed]
    refine preserves_bind (preserves_apply h ht.1 arguments named) fun id => ?_
    exact preserves_bind (preserves_applyNamed h ht.2 arguments named) fun ids => preserves_pure _

end

/-! ### Calls -/

/-- The calls that add to a graph. -/
inductive Call where
  /-- Add a node. -/
  | insert (node : Node)
  /-- Add rows read from outside. -/
  | source (name uri : String) (schema : Schema)
  /-- Add a given value. -/
  | scalar (name : String) (value : Json)
  /-- Add a node named after its transform. -/
  | transformed (transform : Transform) (arguments : List NodeId)
  /-- Add a node of a given name for a transform. -/
  | transformedAs (name : String) (transform : Transform) (arguments : List NodeId)
    (named : Dict NodeId)
  /-- Add the nodes of a transform. -/
  | apply (transform : Transform) (arguments : List NodeId) (named : Dict NodeId)

/-- What a call does. -/
def Call.build (idOf : Node → NodeId) : Call → Build NodeId
  | .insert node => Graph.insert idOf node
  | .source name uri schema => Graph.source idOf name uri schema
  | .scalar name value => Graph.scalar idOf name value
  | .transformed t arguments => Graph.transformed idOf t arguments
  | .transformedAs name t arguments named => Graph.transformedAs idOf name t arguments named
  | .apply t arguments named => Graph.apply idOf arguments named t

/-- `Q` holds of the free-form values that a call gives. -/
def Call.Holds (Q : Json → Prop) : Call → Prop
  | .insert node => node.Holds (fun _ => True) Q
  | .source .. => True
  | .scalar _ value => Q value
  | .transformed t _ | .transformedAs _ t _ _ | .apply t _ _ =>
    t.Agree (fun _ _ => True) (fun v _ => Q v) t

/-- The graph after some calls, successful or not, from the empty one on. -/
def after (idOf : Node → NodeId) (calls : List Call) : Graph :=
  calls.foldl (fun g call => ((call.build idOf).run g).2) empty

/-- One call more. -/
@[simp]
lemma after_concat (calls : List Call) (call : Call) :
    after idOf (calls ++ [call]) = ((call.build idOf).run (after idOf calls)).2 := by
  rw [after, List.foldl_append]
  rfl

/-- **Every call keeps what adding one node keeps.** -/
theorem Call.preserves
    (h : ∀ node : Node, node.Holds (fun _ => True) Q → Preserves P (Graph.insert idOf node)) :
    ∀ {call : Call}, call.Holds Q → Preserves P (call.build idOf) := by
  have hstep : ∀ content : Step, content.Agree (fun _ _ => True) (fun v _ => Q v) content →
      ∀ name heading arguments named,
        Preserves P (place idOf name heading content arguments named) := by
    intro content hcontent name heading arguments named
    refine preserves_place (fun name kind heading arguments named => h _ ?_) _ _ _ _
    refine ⟨rfl, rfl, rfl, ⟨_, rfl, ?_⟩, rfl⟩
    simp only [Transform.Agree, Transform.step.injEq, true_and, exists_eq_left']
    exact hcontent
  have hnamed : ∀ {name t arguments named},
      t.Agree (fun _ _ => True) (fun v _ => Q v) t →
      Preserves P (Graph.transformedAs idOf name t arguments named) := by
    intro name t arguments named ht
    cases t with
    | step heading content =>
      simp only [Transform.Agree, Transform.step.injEq, true_and, exists_eq_left'] at ht
      exact hstep content ht _ _ _ _
    | «variable» heading position => exact preserves_throw _
    | composed heading head inner innerNamed => exact preserves_apply hstep ht _ _
  intro call hcall
  cases call with
  | insert node => exact h node hcall
  | source name uri schema =>
    refine h _ ⟨rfl, rfl, rfl, ⟨schema, rfl, rfl, ?_, rfl, rfl⟩, rfl⟩
    exact Ty.agree_refl (fun _ => trivial) schema.ty
  | scalar name value => exact h _ ⟨rfl, rfl, rfl, ⟨value, rfl, hcall⟩, rfl⟩
  | transformed t arguments => exact hnamed hcall
  | transformedAs name t arguments named => exact hnamed hcall
  | apply t arguments named => exact preserves_apply hstep hcall _ _

/-- What the empty graph has and adding one node keeps holds after all calls. -/
theorem after_induction (hempty : P empty)
    (h : ∀ node : Node, node.Holds (fun _ => True) Q → Preserves P (insert idOf node)) :
    ∀ {calls : List Call}, (∀ call ∈ calls, call.Holds Q) → P (after idOf calls) := by
  intro calls
  induction calls using List.reverseRecOn with
  | nil => exact fun _ => hempty
  | append_singleton calls call ih =>
    intro hcalls
    rw [after_concat]
    refine Call.preserves h (hcalls call (by simp)) _ (ih fun c hc => ?_)
    exact hcalls c (List.mem_append_left _ hc)

/-! ### Sound graphs -/

/-- Every node stands under the identifier of its content, after the nodes it is made from, and its
free-form values are well formed. -/
structure Sound (idOf : Node → NodeId) (g : Graph) : Prop where
  /-- Nodes stand under the identifiers of their contents. -/
  keyed : ∀ entry ∈ g.entries, entry.1 = idOf entry.2
  /-- The nodes that a node is made from are there. -/
  closed : ∀ entry ∈ g.entries, ∀ parent ∈ entry.2.parents, g.contains parent = true
  /-- Free-form values are well formed. -/
  values : ∀ entry ∈ g.entries, entry.2.Holds (fun _ => True) Json.WellFormed

/-- A node under an identifier is one of the entries. -/
lemma mem_entries_of_find? {g : Graph} {id : NodeId} {node : Node} (h : g.find? id = some node) :
    (id, node) ∈ g.entries := by
  obtain ⟨entry, hentry, rfl⟩ := Option.map_eq_some_iff.mp h
  have hid : entry.1 = id := by simpa using List.find?_some hentry
  rw [← hid]
  exact List.mem_of_find?_eq_some hentry

/-- What is there after a node is added: what was there and that node. -/
lemma contains_add_iff {g : Graph} {id id' : NodeId} {node : Node} :
    (g.add id' node).contains id = true ↔ id' = id ∨ g.contains id = true := by
  unfold add
  split
  · rename_i hid'
    refine ⟨Or.inr, ?_⟩
    rintro (rfl | h)
    · exact hid'
    · exact h
  · simp only [contains, find?, Option.isSome_map, List.find?_cons]
    by_cases h : id' = id
    · simp [h]
    · simp only [h, beq_eq_false_iff_ne.mpr h, false_or]

/-- A node that is there stays after another one is added. -/
lemma contains_add_of_contains {g : Graph} {id id' : NodeId} {node : Node}
    (h : g.contains id = true) : (g.add id' node).contains id = true :=
  contains_add_iff.mpr (Or.inr h)

/-- The node under an identifier after one is added under it: the older one, if there is one. -/
lemma find?_add_self (g : Graph) (id : NodeId) (node : Node) :
    (g.add id node).find? id = some ((g.find? id).getD node) := by
  unfold add contains
  cases hid : g.find? id with
  | none => simp [find?]
  | some old => simpa using hid

/-- Adding a node leaves the graph as it is exactly when there is one under the identifier. -/
lemma add_eq_self_iff (g : Graph) (id : NodeId) (node : Node) :
    g.add id node = g ↔ g.contains id = true := by
  unfold add
  split
  · rename_i h
    exact iff_of_true rfl h
  · rename_i h
    refine iff_of_false (fun heq => ?_) h
    have hlength := congrArg (fun g : Graph => g.entries.length) heq
    simp at hlength

/-- A node whose parents are there is added. -/
lemma run_insert_of_parents {node : Node} {g : Graph}
    (h : ∀ parent ∈ node.parents, g.contains parent = true) :
    (insert idOf node).run g = (.ok (idOf node), g.add (idOf node) node) := by
  have hnone : (node.parents.find? fun parent => !g.contains parent) = none :=
    List.find?_eq_none.mpr fun parent hmem => by simp [h parent hmem]
  rw [run_insert, hnone]

/-- Adding a node with well-formed free-form values keeps a graph sound. -/
lemma preserves_sound {node : Node} (hvalues : node.Holds (fun _ => True) Json.WellFormed) :
    Preserves (Sound idOf) (insert idOf node) := by
  intro g hg
  rw [run_insert]
  split
  · exact hg
  · rename_i hnone
    have hparents : ∀ parent ∈ node.parents, g.contains parent = true := by
      intro parent hmem
      simpa using List.find?_eq_none.mp hnone parent hmem
    have hmem : ∀ entry ∈ (g.add (idOf node) node).entries,
        entry = (idOf node, node) ∨ entry ∈ g.entries := by
      intro entry hentry
      unfold add at hentry
      split at hentry
      · exact Or.inr hentry
      · exact List.mem_cons.mp hentry
    refine ⟨fun entry hentry => ?_, fun entry hentry parent hparent => ?_, fun entry hentry => ?_⟩
    · rcases hmem entry hentry with rfl | hold
      · rfl
      · exact hg.keyed entry hold
    · refine contains_add_of_contains ?_
      rcases hmem entry hentry with rfl | hold
      · exact hparents parent hparent
      · exact hg.closed entry hold parent hparent
    · rcases hmem entry hentry with rfl | hold
      · exact hvalues
      · exact hg.values entry hold

/-- **The graph after any calls is sound.** -/
theorem sound_after {calls : List Call} (h : ∀ call ∈ calls, call.Holds Json.WellFormed) :
    Sound idOf (after idOf calls) := by
  refine after_induction ⟨?_, ?_, ?_⟩ (fun node => preserves_sound) h <;> intro entry hentry <;>
    cases hentry

/-- The node under an identifier of a sound graph has that identifier. -/
lemma Sound.id_of_find? {g : Graph} (hg : Sound idOf g) {id : NodeId} {node : Node}
    (h : g.find? id = some node) : id = idOf node :=
  hg.keyed _ (mem_entries_of_find? h)

/-- What is in a sound graph of digests is named by sixteen bytes. -/
lemma Sound.full_of_contains {g : Graph} (hg : Sound Node.id g) {id : NodeId}
    (h : g.contains id = true) : id.Full := by
  obtain ⟨node, hnode⟩ := Option.isSome_iff_exists.mp h
  rw [hg.id_of_find? hnode]
  exact node.full_id

/-- The nodes of a sound graph of digests are well formed. -/
lemma Sound.wellFormed {g : Graph} (hg : Sound Node.id g) {entry : NodeId × Node}
    (h : entry ∈ g.entries) : entry.2.WellFormed :=
  ⟨fun parent hparent => hg.full_of_contains (hg.closed entry h parent hparent), hg.values entry h⟩

end Graph

end Lineage
