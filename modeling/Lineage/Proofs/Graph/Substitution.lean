import Lineage.Proofs.Dict
import Lineage.Proofs.Graph.Growth
import Lineage.Proofs.Outcome
import Lineage.Transform.Compose

set_option autoImplicit false

/-!
# Substitution into transforms and application

Putting arguments in the place of the variables of a transform and applying the result makes the
node that applying the arguments first and then the transform makes. The two runs add nodes in
different orders, and the second does not add those of arguments that are not used. So they are
compared by what they know: the second run has every node of the first, up to those that only the
arguments added.

## Main definitions

* `Lineage.Graph.Runs`: the graphs that two runs start from and end in.
* `Lineage.Graph.Runs.Follows`: the second run has what the first has.
* `Lineage.Graph.Runs.Mirrored`: one computation does in the second run what another one does in the
  first.

## Main results

* `Lineage.Graph.Runs.mirrored_apply`: a transform does the same in both runs.
* `Lineage.Graph.Runs.mirrored_compose`: a transform with arguments in it does in the second run
  what the transform does in the first.
* `Lineage.Graph.apply_compose`: substitution and application commute.

## Design

That a step takes rows is decided by the kind of the node it is applied to. The runs therefore agree
only if equal identifiers stand for nodes of one kind, and this is asked of the nodes in the graphs
at the ends of the two runs, whatever the outcome of the second.
-/

namespace Lineage

namespace Graph

variable {α β : Type} {idOf : Node → NodeId}

/-- Applying a composition: the arguments are applied, then the head is to their results. -/
lemma apply_composed (arguments : List NodeId) (named : Dict NodeId) (heading : Heading)
    (head : Transform) (inner : List Transform) (innerNamed : List (String × Transform)) :
    apply idOf arguments named (.composed heading head inner innerNamed) = (do
      let args ← applyAll idOf arguments named inner
      let namedArgs ← applyNamed idOf arguments named innerNamed
      transformedAs idOf head.name head args (Dict.ofList namedArgs)) := by
  rw [apply]
  cases head <;> rfl

/-- Applying named transforms: the first one, under its name, then the others. -/
lemma applyNamed_cons (arguments : List NodeId) (named : Dict NodeId) (name : String)
    (t : Transform) (rest : List (String × Transform)) :
    applyNamed idOf arguments named ((name, t) :: rest) = (do
      return (← (do return (name, ← apply idOf arguments named t))) ::
        (← applyNamed idOf arguments named rest)) := by
  rw [applyNamed, bind_assoc]
  simp only [pure_bind]

/-- No two nodes have one identifier. -/
def Apart (idOf : Node → NodeId) (nodes : List Node) : Prop :=
  ∀ node ∈ nodes, ∀ node' ∈ nodes, idOf node = idOf node' → node = node'

/-- Fewer nodes have still fewer identifiers in common. -/
lemma Apart.mono {idOf : Node → NodeId} {nodes nodes' : List Node} (h : Apart idOf nodes)
    (hsubset : nodes' ⊆ nodes) : Apart idOf nodes' :=
  fun node hnode node' hnode' => h node (hsubset hnode) node' (hsubset hnode')

/-- A node under an identifier is one of the nodes. -/
lemma mem_nodes_of_find? {g : Graph} {id : NodeId} {node : Node} (h : g.find? id = some node) :
    node ∈ g.nodes :=
  List.mem_reverse.mpr (List.mem_map_of_mem (f := Prod.snd) (mem_entries_of_find? h))

/-! ### Two runs -/

/-- The graphs that two runs are compared by. The first run adds the nodes of some arguments before
it does what the second does. -/
structure Runs where
  /-- The graph that both start from. -/
  start : Graph
  /-- The graph in which the first run has the arguments. -/
  supplied : Graph
  /-- The graph in which the first run ends. -/
  first : Graph
  /-- The graph in which the second run ends. -/
  second : Graph

namespace Runs

variable {r : Runs}

/-- A node that only the arguments of the first run added. -/
def Ahead (r : Runs) (id : NodeId) : Prop :=
  r.supplied.contains id = true ∧ r.start.contains id = false

/-- The second run may use a node if it has it; one that no argument added is as unknown in the
first run. -/
def Known (r : Runs) (g : Graph) (id : NodeId) : Prop := g.contains id = true ∨ ¬r.Ahead id

/-- The second run has what both start from and what the first run has, up to what only the
arguments added. -/
structure Follows (r : Runs) (g g' : Graph) : Prop where
  /-- The second run has what both start from. -/
  start : ∀ id, r.start.contains id = true → g'.contains id = true
  /-- The second run has what the first run has. -/
  covers : ∀ id, g.contains id = true → g'.contains id = true ∨ r.Ahead id

/-- The kind of a node does not differ between the ends of the two runs. -/
def SameKinds (r : Runs) : Prop := ∀ id node node',
  r.first.find? id = some node → r.second.find? id = some node' → node.kind = node'.kind

/-- One computation does in the second run what another one does in the first, where the second run
may use the `known` nodes; afterwards it may use the nodes that come out. -/
structure Mirrored (r : Runs) (known : List NodeId) (made : α → List NodeId)
    (build build' : Build α) : Prop where
  /-- The computation of the first run keeps all nodes. -/
  growing : Growing build
  /-- The computation of the second run keeps all nodes. -/
  growing' : Growing build'
  /-- If the first run succeeds, so does the second, with the same result. -/
  same : ∀ ⦃g g₁ g' : Graph⦄ ⦃a : α⦄, build.run g = (.ok a, g₁) → Within g₁ r.first →
    Within (build'.run g').2 r.second → r.Follows g g' → (∀ id ∈ known, r.Known g' id) →
    ∃ g₁', build'.run g' = (.ok a, g₁') ∧ r.Follows g₁ g₁' ∧ ∀ id ∈ made a, r.Known g₁' id

/-- What the second run may use it may use later on. -/
lemma Known.mono {g g' : Graph} {id : NodeId} (h : r.Known g id) (hg : Within g g') :
    r.Known g' id := h.imp_left hg.contains

/-- What the second run may use it has if the first run has it. -/
lemma Follows.contains {g g' : Graph} (h : r.Follows g g') {id : NodeId} (hid : r.Known g' id)
    (hg : g.contains id = true) : g'.contains id = true :=
  (h.covers id hg).elim (fun hg' => hg') fun hahead => hid.elim (fun hg' => hg') (absurd hahead)

/-- The second run may have more nodes. -/
lemma Follows.mono {g g' g'' : Graph} (h : r.Follows g g') (hg : Within g' g'') :
    r.Follows g g'' :=
  ⟨fun id hid => hg.contains (h.start id hid), fun id hid => (h.covers id hid).imp_left hg.contains⟩

/-- Both runs add a node. -/
lemma Follows.add {g g' : Graph} (h : r.Follows g g') (id : NodeId) (node : Node) :
    r.Follows (g.add id node) (g'.add id node) where
  start other hother := contains_add_of_contains (h.start other hother)
  covers other hother := by
    rcases contains_add_iff.mp hother with rfl | hold
    · exact Or.inl (contains_add_iff.mpr (Or.inl rfl))
    · exact (h.covers other hold).imp_left contains_add_of_contains

/-- More nodes may be known. -/
lemma Mirrored.mono {known known' : List NodeId} {made : α → List NodeId} {build build' : Build α}
    (h : r.Mirrored known made build build') (hknown : known ⊆ known') :
    r.Mirrored known' made build build' :=
  ⟨h.growing, h.growing', fun _ _ _ _ hrun hfirst hsecond hfollows hids =>
    h.same hrun hfirst hsecond hfollows fun id hid => hids id (hknown hid)⟩

/-- Both runs return a value. -/
lemma mirrored_pure {known : List NodeId} {made : α → List NodeId} {a : α} (h : made a ⊆ known) :
    r.Mirrored known made (pure a) (pure a) := by
  refine ⟨growing_pure a, growing_pure a, fun g g₁ g' a' hrun _ _ hfollows hids => ?_⟩
  cases hrun
  exact ⟨g', rfl, hfollows, fun id hid => hids id (h hid)⟩

/-- What fails in the first run need not be mirrored. -/
lemma mirrored_throw {known : List NodeId} {made : α → List NodeId} {fault : Fault}
    {build' : Build α} (h : Growing build') : r.Mirrored known made (throw fault) build' := by
  refine ⟨growing_throw fault, h, fun g g₁ g' a hrun => ?_⟩
  cases hrun

/-- A computation after another is mirrored if both are. -/
lemma Mirrored.bind {known : List NodeId} {made : α → List NodeId} {made' : β → List NodeId}
    {build build' : Build α} {next next' : α → Build β} (h : r.Mirrored known made build build')
    (hnext : ∀ a, r.Mirrored (known ++ made a) made' (next a) (next' a)) :
    r.Mirrored known made' (build >>= next) (build' >>= next') := by
  refine ⟨h.growing.bind fun a => (hnext a).growing, h.growing'.bind fun a => (hnext a).growing',
    fun g g₂ g' b hrun hfirst hsecond hfollows hids => ?_⟩
  obtain ⟨a, g₁, hbuild, hrest⟩ := run_bind_eq_ok.mp hrun
  have hlater := within_bind build' (fun a => (hnext a).growing') g'
  obtain ⟨g₁', hbuild', hfollows₁, hmade⟩ := h.same hbuild
    (((hnext a).growing.within_of_run hrest).trans hfirst) (hlater.trans hsecond) hfollows hids
  rw [run_bind, hbuild'] at hsecond ⊢
  refine (hnext a).same hrest hfirst hsecond hfollows₁ fun id hid => ?_
  rcases List.mem_append.mp hid with hid | hid
  · exact (hids id hid).mono (h.growing'.within_of_run hbuild')
  · exact hmade id hid

/-- A result that is given a name is mirrored if it is. -/
lemma Mirrored.map {known : List NodeId} {build build' : Build NodeId}
    (h : r.Mirrored known (fun id => [id]) build build') (name : String) :
    r.Mirrored known (fun entry : String × NodeId => [entry.2]) (do return (name, ← build))
      (do return (name, ← build')) :=
  h.bind fun _ => mirrored_pure (List.subset_append_right _ _)

/-- An item and a list of further ones are made in both runs. -/
lemma mirrored_cons {γ : Type} {known : List NodeId} {made : γ → List NodeId}
    (madeAll : List γ → List NodeId) {item item' : Build γ} {rest rest' : Build (List γ)}
    (hitem : r.Mirrored known made item item') (hrest : r.Mirrored known madeAll rest rest')
    (hmade : ∀ c cs, madeAll (c :: cs) = made c ++ madeAll cs) :
    r.Mirrored known madeAll (do return (← item) :: (← rest))
      (do return (← item') :: (← rest')) := by
  refine hitem.bind fun c => (hrest.mono (List.subset_append_left _ _)).bind fun cs =>
    mirrored_pure ?_
  rw [hmade, List.append_assoc]
  exact List.subset_append_right _ _

/-- A step takes the same nodes in both runs. -/
lemma kindOf_eq_ok {g g' : Graph} {content : Step} {arguments : List NodeId} {named : Dict NodeId}
    {kind : NodeKind} (h : kindOf g content arguments named = .ok kind)
    (hkinds : ∀ id node node', g.find? id = some node → g'.find? id = some node' →
      node.kind = node'.kind)
    (hthere : ∀ id ∈ arguments ++ named.values, g.contains id = true → g'.contains id = true) :
    kindOf g' content arguments named = .ok kind := by
  unfold kindOf at h ⊢
  split
  · exact h
  · rename_i hstandard
    split at h
    · rename_i call
      exact absurd rfl (hstandard call)
    · split at h
      · rename_i parent
        obtain ⟨node, hnode, h⟩ := Outcome.bind_eq_ok.mp h
        have hfound := Outcome.ofOption_eq_ok.mp hnode
        obtain ⟨node', hfound'⟩ := Option.isSome_iff_exists.mp
          (hthere parent (by simp) (Option.isSome_of_eq_some hfound))
        have hdataset : node'.isDataset = node.isDataset := by
          rw [Node.isDataset, Node.isDataset, hkinds parent node node' hfound hfound']
        split at h
        · rename_i hnode
          refine Outcome.bind_eq_ok.mpr ⟨node', Outcome.ofOption_eq_ok.mpr hfound', ?_⟩
          rw [hdataset, if_pos hnode]
          exact h
        · cases h
      · cases h

/-- **The node of a step** is added in both runs.

**Proof sketch.** If the step can be made in the first run, its parents are there. The second
run may use them and has them as well, of the same kinds, so it makes the same node. -/
lemma mirrored_place (hkinds : r.SameKinds) (name : String) (heading : Heading) (content : Step)
    (arguments : List NodeId) (named : Dict NodeId) :
    r.Mirrored (arguments ++ named.values) (fun id => [id])
      (place idOf name heading content arguments named)
      (place idOf name heading content arguments named) := by
  have hgrowing : Growing (place idOf name heading content arguments named) :=
    growing_place name heading content arguments named
  refine ⟨hgrowing, hgrowing, fun g g₁ g' id hrun hfirst hsecond hfollows hknown => ?_⟩
  have hthere : ∀ parent ∈ arguments ++ named.values,
      g.contains parent = true → g'.contains parent = true :=
    fun parent hparent => hfollows.contains (hknown parent hparent)
  have hwithin := (hgrowing.within_of_run hrun).trans hfirst
  have hwithin' := (hgrowing g').trans hsecond
  rw [run_place] at hrun
  cases hkind : kindOf g content arguments named with
  | error fault =>
    rw [hkind] at hrun
    cases hrun
  | ok kind =>
    have hkind' : kindOf g' content arguments named = .ok kind :=
      kindOf_eq_ok hkind (fun parent node node' hnode hnode' => hkinds parent node node'
        (hwithin parent node hnode) (hwithin' parent node' hnode')) hthere
    rw [hkind] at hrun
    dsimp only at hrun
    rw [run_insert] at hrun
    split at hrun
    · cases hrun
    · rename_i hparents
      cases hrun
      have hparents' : ∀ parent ∈ arguments ++ named.values, g'.contains parent = true :=
        fun parent hparent => hthere parent hparent
          (by simpa using List.find?_eq_none.mp hparents parent hparent)
      rw [run_place, hkind']
      refine ⟨_, run_insert_of_parents hparents', hfollows.add _ _, fun id hid => ?_⟩
      rw [List.mem_singleton.mp hid]
      exact Or.inl (contains_add_iff.mpr (Or.inl rfl))

/-! ### Transforms in both runs -/

/-- A head is applied to the results of both runs. -/
lemma mirrored_head {known : List NodeId} {name : String} {head : Transform}
    {args args' : Build (List NodeId)} {named named' : Build (Dict NodeId)}
    (hargs : r.Mirrored known (fun ids => ids) args args')
    (hnamed : r.Mirrored known Dict.values named named')
    (hhead : ∀ (ids : List NodeId) (namedIds : Dict NodeId),
      r.Mirrored (ids ++ namedIds.values) (fun id => [id])
        (transformedAs idOf name head ids namedIds) (transformedAs idOf name head ids namedIds)) :
    r.Mirrored known (fun id => [id])
      (do transformedAs idOf name head (← args) (Dict.ofList (← named)))
      (do transformedAs idOf name head (← args') (Dict.ofList (← named'))) := by
  refine hargs.bind fun ids => (hnamed.mono (List.subset_append_left _ _)).bind fun namedIds =>
    (hhead ids (Dict.ofList namedIds)).mono (List.append_subset.mpr ⟨?_, ?_⟩)
  · exact fun id hid => List.mem_append_left _ (List.mem_append_right _ hid)
  · exact fun id hid => List.mem_append_right _ (Dict.values_ofList_subset namedIds hid)

mutual

/-- **A transform does the same in both runs.**

**Proof sketch.** By induction on the transform, together with lists of transforms: where a
step is made, both runs make it (`mirrored_place`), and what comes after one another is
mirrored piece by piece (`Mirrored.bind`). -/
theorem mirrored_apply (hkinds : r.SameKinds) : ∀ (t : Transform) (arguments : List NodeId)
    (named : Dict NodeId), r.Mirrored (arguments ++ named.values) (fun id => [id])
      (apply idOf arguments named t) (apply idOf arguments named t)
  | .step heading content, arguments, named => by
    rw [apply]
    exact mirrored_place hkinds heading.name heading content arguments named
  | .variable heading position, arguments, named => by
    rw [apply]
    split
    · rename_i id hid
      refine mirrored_pure (List.cons_subset.mpr ⟨?_, List.nil_subset _⟩)
      cases position with
      | index i => exact List.mem_append_left _ (List.mem_of_getElem? hid)
      | name n =>
        obtain ⟨entry, hentry, rfl⟩ := Option.map_eq_some_iff.mp hid
        exact List.mem_append_right _ (List.mem_map_of_mem (List.mem_of_find?_eq_some hentry))
    · exact mirrored_throw (growing_throw _)
  | .composed heading head inner innerNamed, arguments, named => by
    rw [apply_composed]
    refine mirrored_head (mirrored_applyAll hkinds inner arguments named)
      (mirrored_applyNamed hkinds innerNamed arguments named) fun args namedArgs => ?_
    cases head with
    | step heading' content =>
      exact mirrored_place hkinds heading'.name heading' content args namedArgs
    | «variable» heading' position => exact mirrored_throw (growing_throw _)
    | composed heading' head' inner' named' =>
      exact mirrored_apply hkinds (.composed heading' head' inner' named') args namedArgs

/-- Transforms do the same in both runs. -/
theorem mirrored_applyAll (hkinds : r.SameKinds) : ∀ (ts : List Transform)
    (arguments : List NodeId) (named : Dict NodeId),
    r.Mirrored (arguments ++ named.values) (fun ids => ids)
      (applyAll idOf arguments named ts) (applyAll idOf arguments named ts)
  | [], arguments, named => by
    rw [applyAll]
    exact mirrored_pure (List.nil_subset _)
  | t :: rest, arguments, named => by
    rw [applyAll]
    exact mirrored_cons (fun ids => ids) (mirrored_apply hkinds t arguments named)
      (mirrored_applyAll hkinds rest arguments named) fun _ _ => rfl

/-- Named transforms do the same in both runs. -/
theorem mirrored_applyNamed (hkinds : r.SameKinds) : ∀ (ts : List (String × Transform))
    (arguments : List NodeId) (named : Dict NodeId),
    r.Mirrored (arguments ++ named.values) Dict.values
      (applyNamed idOf arguments named ts) (applyNamed idOf arguments named ts)
  | [], arguments, named => by
    rw [applyNamed]
    exact mirrored_pure (List.nil_subset _)
  | (name, t) :: rest, arguments, named => by
    rw [applyNamed_cons]
    exact mirrored_cons Dict.values ((mirrored_apply hkinds t arguments named).map name)
      (mirrored_applyNamed hkinds rest arguments named) fun _ _ => rfl

end

/-- A node of a given name is added for a transform in both runs. -/
lemma mirrored_transformedAs (hkinds : r.SameKinds) (name : String) (t : Transform)
    (arguments : List NodeId) (named : Dict NodeId) :
    r.Mirrored (arguments ++ named.values) (fun id => [id])
      (transformedAs idOf name t arguments named) (transformedAs idOf name t arguments named) := by
  cases t with
  | step heading content => exact mirrored_place hkinds name heading content arguments named
  | «variable» heading position => exact mirrored_throw (growing_throw _)
  | composed heading head inner innerNamed => exact mirrored_apply hkinds _ arguments named

/-! ### Arguments in the place of variables -/

section Substitution

variable {xs : List NodeId} {ys : Dict NodeId}

/-- The first run has applied a transform before, with a node as the result. -/
def Supplied (idOf : Node → NodeId) (r : Runs) (xs : List NodeId) (ys : Dict NodeId)
    (u : Transform) (id : NodeId) : Prop :=
  ∃ g g₁, (apply idOf xs ys u).run g = (.ok id, g₁) ∧ Within g₁ r.supplied

/-- What the second run may be given: nothing that only the arguments added, and these are part of
the first run. -/
structure Substitutes (r : Runs) (xs : List NodeId) (ys : Dict NodeId) : Prop where
  /-- The kinds of nodes agree. -/
  kinds : r.SameKinds
  /-- The first run goes on with the arguments. -/
  supplied : Within r.supplied r.first
  /-- No given node was added by the arguments. -/
  inputs : ∀ x ∈ xs ++ ys.values, ¬r.Ahead x

/-- What the first run looks up, the second one makes.

**Proof sketch.** The graph in which the first run applied the argument lies before the one in
which it has all arguments. What is there and not at the start only the arguments added, so
the second run follows that graph too. -/
lemma mirrored_supplied (h : r.Substitutes xs ys) {u : Transform} {id : NodeId}
    (hu : Supplied idOf r xs ys u id) :
    r.Mirrored [] (fun id => [id]) (pure id) (apply idOf xs ys u) := by
  have happly : r.Mirrored (xs ++ ys.values) (fun id => [id]) (apply idOf xs ys u)
      (apply idOf xs ys u) := mirrored_apply h.kinds u xs ys
  obtain ⟨before, after, hrun, hsupplied⟩ := hu
  refine ⟨growing_pure id, happly.growing', fun g g₁ g' a hpure _ hsecond hfollows _ => ?_⟩
  cases hpure
  have hbefore := happly.growing.within_of_run hrun
  -- What the graph before the argument has and the start lacks, only the arguments added.
  have hfollows' : r.Follows before g' := by
    refine ⟨hfollows.start, fun id hid => ?_⟩
    cases hstart : r.start.contains id with
    | true => exact Or.inl (hfollows.start id hstart)
    | false => exact Or.inr ⟨(hbefore.trans hsupplied).contains hid, hstart⟩
  obtain ⟨g₁', hrun', -, hmade⟩ := happly.same hrun
    (hsupplied.trans h.supplied) hsecond hfollows' fun x hx => Or.inr (h.inputs x hx)
  exact ⟨g₁', hrun', hfollows.mono (happly.growing'.within_of_run hrun'), hmade⟩

/-- What the first run looked up for all arguments, the second one makes. -/
lemma mirrored_suppliedAll (h : r.Substitutes xs ys) {us : List Transform} {is : List NodeId}
    (hus : List.Forall₂ (Supplied idOf r xs ys) us is) :
    r.Mirrored [] (fun ids => ids) (pure is) (applyAll idOf xs ys us) := by
  induction hus with
  | nil => exact mirrored_pure (List.nil_subset _)
  | @cons u id us is hu _ ih =>
    have hcons := mirrored_cons (fun ids => ids) (mirrored_supplied h hu) ih
      fun _ _ => rfl
    rwa [pure_bind, pure_bind, ← applyAll] at hcons

/-- Two named things have one name and the first run has applied the first with the second as the
result. -/
def SuppliedAs (idOf : Node → NodeId) (r : Runs) (xs : List NodeId) (ys : Dict NodeId)
    (u : String × Transform) (id : String × NodeId) : Prop :=
  u.1 = id.1 ∧ Supplied idOf r xs ys u.2 id.2

/-- What the first run looked up for all named arguments, the second one makes. -/
lemma mirrored_suppliedNamed (h : r.Substitutes xs ys) {us : Dict Transform} {js : Dict NodeId}
    (hus : List.Forall₂ (SuppliedAs idOf r xs ys) us js) :
    r.Mirrored [] Dict.values (pure js) (applyNamed idOf xs ys us) := by
  induction hus with
  | nil => exact mirrored_pure (List.nil_subset _)
  | @cons u id us js hu _ ih =>
    obtain ⟨name, u⟩ := u
    obtain ⟨name', id⟩ := id
    obtain ⟨rfl, hu⟩ := hu
    have hcons := mirrored_cons Dict.values ((mirrored_supplied h hu).map name) ih
      fun _ _ => rfl
    rwa [pure_bind, pure_bind, pure_bind, ← applyNamed_cons] at hcons

/-- The argument at a position of a transform is the one that the first run has applied. -/
lemma find?_supplied {us : List Transform} {named : Dict Transform} {is : List NodeId}
    {js : Dict NodeId} (hus : List.Forall₂ (Supplied idOf r xs ys) us is)
    (hnamed : List.Forall₂ (SuppliedAs idOf r xs ys) named js) {position : Position} {id : NodeId}
    (hid : position.find? is js = some id) :
    ∃ u, position.find? us named = some u ∧ Supplied idOf r xs ys u id := by
  cases position with
  | index i =>
    have hlength := hus.length_eq
    obtain ⟨hi, rfl⟩ := List.getElem?_eq_some_iff.mp hid
    exact ⟨us[i], List.getElem?_eq_getElem (hlength ▸ hi), (List.forall₂_iff_get.mp hus).2 i _ _⟩
  | name n =>
    simp only [Position.find?, Dict.find?] at hid ⊢
    induction hnamed with
    | nil => cases hid
    | @cons u entry named js hu _ ih =>
      rw [List.find?_cons] at hid ⊢
      rw [hu.1]
      split at hid
      · cases hid
        exact ⟨u.2, rfl, hu.2⟩
      · exact ih hid

/-- The results of named transforms have their names, so they are sorted if these are. -/
lemma sorted_of_supplied {us : Dict Transform} {js : Dict NodeId}
    (hus : List.Forall₂ (SuppliedAs idOf r xs ys) us js) (h : us.Sorted) : js.Sorted := by
  have hkeys : List.Forall₂ (· = ·) (us.map Prod.fst) (js.map Prod.fst) :=
    List.forall₂_map_left_iff.mpr (List.forall₂_map_right_iff.mpr (hus.imp fun _ _ hu => hu.1))
  rw [List.forall₂_eq_eq_eq] at hkeys
  unfold Dict.Sorted at h ⊢
  rw [← List.pairwise_map] at h ⊢
  rwa [← hkeys]

section Compose

variable {us : List Transform} {named : Dict Transform} {is : List NodeId} {js : Dict NodeId}

mutual

/-- **A transform with arguments in it does in the second run what the transform does in the
first**, where the arguments have been applied.

**Proof sketch.** By induction on the transform. Where the first run looks up the result of an
argument, the second one applies the argument that has taken the place of the variable
(`mirrored_supplied`). -/
theorem mirrored_compose (h : r.Substitutes xs ys)
    (hus : List.Forall₂ (Supplied idOf r xs ys) us is)
    (hnamed : List.Forall₂ (SuppliedAs idOf r xs ys) named js) (hsorted : js.Sorted) :
    ∀ t : Transform, r.Mirrored [] (fun id => [id]) (apply idOf is js t)
      (apply idOf xs ys (t.compose us named))
  | .variable heading position => by
    rw [apply, Transform.compose]
    split
    · rename_i id hid
      obtain ⟨u, hu, hid⟩ := find?_supplied hus hnamed hid
      rw [hu]
      exact mirrored_supplied h hid
    · exact mirrored_throw (growing_apply _ _ _)
  | .step heading content => by
    -- In the first run the step is applied to what the arguments have been looked up as.
    have hlook : apply idOf is js (.step heading content) = (do
        transformedAs idOf heading.name (.step heading content) (← pure is)
          (Dict.ofList (← pure js))) := by
      rw [apply, pure_bind, pure_bind, Dict.ofList_of_sorted hsorted, transformedAs]
    rw [Transform.compose, apply_composed, hlook]
    exact mirrored_head (mirrored_suppliedAll h hus) (mirrored_suppliedNamed h hnamed)
      (mirrored_transformedAs h.kinds heading.name _)
  | .composed heading head inner innerNamed => by
    rw [Transform.compose, apply_composed, apply_composed]
    exact mirrored_head (mirrored_composeAll h hus hnamed hsorted inner)
      (mirrored_composeNamed h hus hnamed hsorted innerNamed)
      (mirrored_transformedAs h.kinds head.name head)

/-- Transforms with arguments in them do in the second run what they do in the first. -/
theorem mirrored_composeAll (h : r.Substitutes xs ys)
    (hus : List.Forall₂ (Supplied idOf r xs ys) us is)
    (hnamed : List.Forall₂ (SuppliedAs idOf r xs ys) named js) (hsorted : js.Sorted) :
    ∀ ts : List Transform, r.Mirrored [] (fun ids => ids) (applyAll idOf is js ts)
      (applyAll idOf xs ys (Transform.composeAll us named ts))
  | [] => by
    rw [Transform.composeAll, applyAll, applyAll]
    exact mirrored_pure (List.nil_subset _)
  | t :: rest => by
    rw [Transform.composeAll, applyAll, applyAll]
    exact mirrored_cons (fun ids => ids) (mirrored_compose h hus hnamed hsorted t)
      (mirrored_composeAll h hus hnamed hsorted rest) fun _ _ => rfl

/-- Named transforms with arguments in them do in the second run what they do in the first. -/
theorem mirrored_composeNamed (h : r.Substitutes xs ys)
    (hus : List.Forall₂ (Supplied idOf r xs ys) us is)
    (hnamed : List.Forall₂ (SuppliedAs idOf r xs ys) named js) (hsorted : js.Sorted) :
    ∀ ts : List (String × Transform), r.Mirrored [] Dict.values (applyNamed idOf is js ts)
      (applyNamed idOf xs ys (Transform.composeNamed us named ts))
  | [] => by
    rw [Transform.composeNamed, applyNamed, applyNamed]
    exact mirrored_pure (List.nil_subset _)
  | (name, t) :: rest => by
    rw [Transform.composeNamed, applyNamed_cons, applyNamed_cons]
    exact mirrored_cons Dict.values ((mirrored_compose h hus hnamed hsorted t).map name)
      (mirrored_composeNamed h hus hnamed hsorted rest) fun _ _ => rfl

end

end Compose

/-- The results of the arguments are those that the first run has applied. -/
lemma supplied_of_run {us : List Transform} {is : List NodeId} {g g' : Graph}
    (hrun : (applyAll idOf xs ys us).run g = (.ok is, g')) (h : Within g' r.supplied) :
    List.Forall₂ (Supplied idOf r xs ys) us is := by
  induction us generalizing is g with
  | nil =>
    cases hrun
    exact .nil
  | cons u us ih =>
    rw [applyAll] at hrun
    obtain ⟨id, g₁, hid, hrun⟩ := run_bind_eq_ok.mp hrun
    obtain ⟨ids, g₂, hids, hrun⟩ := run_bind_eq_ok.mp hrun
    cases hrun
    exact .cons ⟨g, g₁, hid, ((growing_applyAll us xs ys).within_of_run hids).trans h⟩ (ih hids)

/-- The results of the named arguments are those that the first run has applied. -/
lemma suppliedAs_of_run {us : Dict Transform} {js : Dict NodeId} {g g' : Graph}
    (hrun : (applyNamed idOf xs ys us).run g = (.ok js, g')) (h : Within g' r.supplied) :
    List.Forall₂ (SuppliedAs idOf r xs ys) us js := by
  induction us generalizing js g with
  | nil =>
    cases hrun
    exact .nil
  | cons u us ih =>
    rw [applyNamed] at hrun
    obtain ⟨id, g₁, hid, hrun⟩ := run_bind_eq_ok.mp hrun
    obtain ⟨ids, g₂, hids, hrun⟩ := run_bind_eq_ok.mp hrun
    cases hrun
    exact .cons ⟨rfl, g, g₁, hid, ((growing_applyNamed us xs ys).within_of_run hids).trans h⟩
      (ih hids)

end Substitution

/-- If no two nodes have one identifier, nodes that two graphs have grown by are of one kind. -/
lemma sameKinds_of_grown (h : Apart idOf (r.first.nodes ++ r.second.nodes))
    (hfirst : Grown idOf r.start r.first) (hsecond : Grown idOf r.start r.second) :
    r.SameKinds := by
  intro id node node' hnode hnode'
  rcases hfirst.keyed id node hnode with hold | hid
  · rw [hsecond.within id node hold] at hnode'
    rw [Option.some.inj hnode']
  · rcases hsecond.keyed id node' hnode' with hold | hid'
    · rw [hfirst.within id node' hold] at hnode
      rw [Option.some.inj hnode]
    · rw [h node (List.mem_append_left _ (mem_nodes_of_find? hnode)) node'
        (List.mem_append_right _ (mem_nodes_of_find? hnode')) (hid.trans hid'.symm)]

end Runs

/-- The graph that a run leaves has grown. -/
lemma grown_of_run {build : Build α} {g g' : Graph} {outcome : Outcome α}
    (h : Grown idOf g (build.run g).2) (hrun : build.run g = (outcome, g')) : Grown idOf g g' := by
  rwa [hrun] at h

/-- **Substitution and application commute.** If the arguments can be applied and then the transform
to their results, the transform with the arguments in it can be applied, and makes the same node.
No two nodes that the runs leave may have one identifier, and the arguments may not add what the
transforms are given and the graph lacks.

**Proof sketch.** The first run applies the arguments and then the transform, the second one
the transform with the arguments in it. At the start the second has what the first has, up to
what the arguments added, and none of this is among what is given. So the second does what the
first does (`Runs.mirrored_compose`). The kinds of nodes agree, as no two nodes have one
identifier. -/
theorem apply_compose {g g₁ g₂ g₃ : Graph} {xs is : List NodeId} {ys js : Dict NodeId}
    {us : List Transform} {named : Dict Transform} {t : Transform} {id : NodeId}
    (hsorted : named.Sorted)
    (hus : (applyAll idOf xs ys us).run g = (.ok is, g₁))
    (hnamed : (applyNamed idOf xs ys named).run g₁ = (.ok js, g₂))
    (happly : (apply idOf is js t).run g₂ = (.ok id, g₃))
    (hinputs : ∀ x ∈ xs ++ ys.values, g₂.contains x = true → g.contains x = true)
    (hapart : Apart idOf (g₃.nodes ++ ((apply idOf xs ys (t.compose us named)).run g).2.nodes)) :
    ((apply idOf xs ys (t.compose us named)).run g).1 = .ok id := by
  have hgrown₁ := grown_of_run (grown_applyAll us xs ys g) hus
  have hgrown₂ := grown_of_run (grown_applyNamed named xs ys g₁) hnamed
  have hgrown₃ := grown_of_run (grown_apply t is js g₂) happly
  have hgrown : Grown idOf g ((apply idOf xs ys (t.compose us named)).run g).2 :=
    grown_apply _ xs ys g
  let r : Runs := ⟨g, g₂, g₃, ((apply idOf xs ys (t.compose us named)).run g).2⟩
  have hsubstitutes : r.Substitutes xs ys := by
    refine ⟨Runs.sameKinds_of_grown hapart ((hgrown₁.trans hgrown₂).trans hgrown₃) hgrown,
      hgrown₃.within, fun x hx hahead => ?_⟩
    exact Bool.false_ne_true (hahead.2.symm.trans (hinputs x hx hahead.1))
  have hsupplied := Runs.supplied_of_run (r := r) hus hgrown₂.within
  have hsuppliedAs := Runs.suppliedAs_of_run (r := r) hnamed (Within.refl g₂)
  have hfollows : r.Follows g₂ g := by
    refine ⟨fun _ h => h, fun x hx => ?_⟩
    cases hstart : g.contains x with
    | true => exact Or.inl rfl
    | false => exact Or.inr ⟨hx, hstart⟩
  obtain ⟨g', hrun, -, -⟩ := (Runs.mirrored_compose hsubstitutes hsupplied hsuppliedAs
    (Runs.sorted_of_supplied hsuppliedAs hsorted) t).same happly (Within.refl g₃)
    (Within.refl _) hfollows fun x hx => absurd hx List.not_mem_nil
  rw [hrun]

/-! ### Shuffled rows -/

/-- Rows read from outside. -/
def givenRows : Node := .ofOrigin "s" .dataset (.source "s.csv" ⟨"s", .struct [], [], []⟩)

/-- The rows under an identifier in random order. -/
def shuffled (id : NodeId) : Node :=
  .ofOrigin "shuffle" .dataset (.transformed (.ofStep .shuffle) [id] [])

/-- The given rows in random order. -/
def shuffledRows : Node := shuffled givenRows.id

/-- The given rows in random order twice. -/
def reshuffledRows : Node := shuffled shuffledRows.id

/-- The identifier of the given rows. -/
lemma id_givenRows : givenRows.id =
    ⟨[112, 90, 192, 13, 55, 137, 146, 112, 44, 121, 204, 4, 184, 150, 174, 141]⟩ := by
  decide +kernel

/-- The identifier of the shuffled rows. -/
lemma id_shuffledRows : shuffledRows.id =
    ⟨[190, 52, 156, 7, 223, 7, 246, 9, 60, 33, 215, 137, 98, 105, 1, 106]⟩ := by
  rw [shuffledRows, id_givenRows]
  decide +kernel

/-- The identifier of the rows that are shuffled twice. -/
lemma id_reshuffledRows : reshuffledRows.id =
    ⟨[151, 190, 165, 63, 140, 59, 21, 181, 189, 68, 15, 174, 0, 131, 53, 95]⟩ := by
  rw [reshuffledRows, id_shuffledRows]
  decide +kernel

/-- The given rows and the shuffled ones have two identifiers. -/
lemma id_shuffledRows_ne : shuffledRows.id ≠ givenRows.id := by
  rw [id_shuffledRows, id_givenRows]
  decide

/-- No two of the three nodes have one identifier. -/
lemma apart_shuffled : Apart Node.id [givenRows, shuffledRows, reshuffledRows] := by
  have hnodup : ([givenRows, shuffledRows, reshuffledRows].map Node.id).Nodup := by
    rw [List.map_cons, List.map_cons, List.map_cons, List.map_nil, id_givenRows, id_shuffledRows,
      id_reshuffledRows]
    decide
  exact fun node hnode node' hnode' => List.inj_on_of_nodup_map hnodup hnode hnode'

/-- The graph of the given rows. -/
def givenGraph : Graph := ⟨[(givenRows.id, givenRows)]⟩

/-- The graph of the given rows and the shuffled ones. -/
def shuffledGraph : Graph := ⟨[(shuffledRows.id, shuffledRows), (givenRows.id, givenRows)]⟩

/-- A shuffle of the argument at a position. -/
def shuffleOf (position : Position) : Transform :=
  .composed (Transform.named "composed") (.ofStep .shuffle) [.ofPosition position] []

/-- Applying a shuffle of an argument: the node of a shuffle is added. -/
lemma apply_shuffleOf {arguments : List NodeId} {named : Dict NodeId} {position : Position}
    {id : NodeId} (h : position.find? arguments named = some id) :
    apply Node.id arguments named (shuffleOf position) =
      place Node.id "shuffle" (Transform.named "shuffle") .shuffle [id] [] := by
  rw [shuffleOf, apply_composed, applyAll, applyAll, applyNamed, Transform.ofPosition, apply, h]
  rfl

/-- Shuffling rows that are there. -/
lemma run_apply_shuffleOf {g : Graph} {arguments : List NodeId} {named : Dict NodeId}
    {position : Position} {id : NodeId} {node : Node}
    (h : position.find? arguments named = some id) (hnode : g.find? id = some node)
    (hdataset : node.isDataset = true) :
    (apply Node.id arguments named (shuffleOf position)).run g =
      (.ok (shuffled id).id, g.add (shuffled id).id (shuffled id)) := by
  have hkind : kindOf g .shuffle [id] [] = .ok .dataset := by
    show (g.node id >>= _) = _
    rw [Graph.node, hnode]
    exact if_pos hdataset
  rw [apply_shuffleOf h, run_place, hkind]
  refine run_insert_of_parents fun parent hparent => ?_
  rw [List.mem_singleton.mp hparent, contains, hnode, Option.isSome_some]

/-- Shuffling what is not there. -/
lemma run_apply_shuffleOf_missing {g : Graph} {arguments : List NodeId} {named : Dict NodeId}
    {position : Position} {id : NodeId} (h : position.find? arguments named = some id)
    (hmissing : g.find? id = none) :
    (apply Node.id arguments named (shuffleOf position)).run g = (.error (unknown id), g) := by
  have hkind : kindOf g .shuffle [id] [] = .error (unknown id) := by
    show (g.node id >>= _) = _
    rw [Graph.node, hmissing]
    rfl
  rw [apply_shuffleOf h, run_place, hkind]

/-- The given rows are in their graph. -/
lemma find?_givenGraph : givenGraph.find? givenRows.id = some givenRows :=
  (find?_cons _ _ _ _).trans (if_pos rfl)

/-- The shuffled rows are not in the graph of the given ones. -/
lemma find?_givenGraph_shuffledRows : givenGraph.find? shuffledRows.id = none :=
  (find?_cons _ _ _ _).trans (if_neg id_shuffledRows_ne.symm)

/-- Shuffling the given rows adds the shuffled ones. -/
lemma add_givenGraph : givenGraph.add shuffledRows.id shuffledRows = shuffledGraph := by
  rw [add, contains, find?_givenGraph_shuffledRows]
  rfl

/-- The given rows are in the graph of both. -/
lemma find?_shuffledGraph : shuffledGraph.find? givenRows.id = some givenRows :=
  (find?_cons _ _ _ _).trans ((if_neg id_shuffledRows_ne).trans find?_givenGraph)

/-- The shuffled rows are in the graph of both. -/
lemma find?_shuffledGraph_shuffledRows :
    shuffledGraph.find? shuffledRows.id = some shuffledRows :=
  (find?_cons _ _ _ _).trans (if_pos rfl)

/-- The argument that shuffles the given rows adds the shuffled ones. -/
lemma run_shuffleOf_givenGraph {arguments : List NodeId} {named : Dict NodeId}
    {position : Position} (h : position.find? arguments named = some givenRows.id) :
    (apply Node.id arguments named (shuffleOf position)).run givenGraph =
      (.ok shuffledRows.id, shuffledGraph) := by
  rw [run_apply_shuffleOf h find?_givenGraph rfl, ← add_givenGraph]
  rfl

/-- Shuffled rows, once by an argument that shuffles and once by a transform that shuffles the named
rows: the transform with the arguments in it makes the same node. -/
theorem apply_compose_shuffledRows :
    ((apply Node.id [givenRows.id] [] ((shuffleOf (.name "rows")).compose [shuffleOf (.index 0)]
      [("rows", .ofPosition (.index 0))])).run givenGraph).1 = .ok shuffledRows.id := by
  have hus : (applyAll Node.id [givenRows.id] [] [shuffleOf (.index 0)]).run givenGraph =
      (.ok [shuffledRows.id], shuffledGraph) := by
    rw [applyAll]
    exact run_bind_eq_ok.mpr ⟨_, _, run_shuffleOf_givenGraph rfl, rfl⟩
  have hnamed : (applyNamed Node.id [givenRows.id] [] [("rows", .ofPosition (.index 0))]).run
      shuffledGraph = (.ok [("rows", givenRows.id)], shuffledGraph) := rfl
  have happly : (apply Node.id [shuffledRows.id] [("rows", givenRows.id)]
      (shuffleOf (.name "rows"))).run shuffledGraph = (.ok shuffledRows.id, shuffledGraph) := by
    rw [run_apply_shuffleOf rfl find?_shuffledGraph rfl]
    exact congrArg (Prod.mk _) ((add_eq_self_iff _ _ _).mpr
      (Option.isSome_of_eq_some find?_shuffledGraph_shuffledRows))
  have hcompose : (shuffleOf (.name "rows")).compose [shuffleOf (.index 0)]
      [("rows", .ofPosition (.index 0))] = shuffleOf (.index 0) := rfl
  refine apply_compose (List.pairwise_singleton _ _) hus hnamed happly ?_ ?_
  · intro x hx _
    rw [List.mem_singleton.mp hx]
    exact Option.isSome_of_eq_some find?_givenGraph
  · rw [hcompose, run_shuffleOf_givenGraph rfl]
    exact apart_shuffled.mono (by simp [nodes, shuffledGraph])

/-- Without the condition on what the transforms are given, substitution and application do not
commute. Here the second node given is the one that the first argument adds. -/
theorem not_apply_compose_of_added :
    Apart Node.id [givenRows, shuffledRows, reshuffledRows] ∧
    (applyAll Node.id [givenRows.id, shuffledRows.id] []
      [shuffleOf (.index 0), .ofPosition (.index 1)]).run givenGraph =
      (.ok [shuffledRows.id, shuffledRows.id], shuffledGraph) ∧
    (applyNamed Node.id [givenRows.id, shuffledRows.id] [] []).run shuffledGraph =
      (.ok [], shuffledGraph) ∧
    (apply Node.id [shuffledRows.id, shuffledRows.id] [] (shuffleOf (.index 1))).run
      shuffledGraph =
      (.ok reshuffledRows.id, shuffledGraph.add reshuffledRows.id reshuffledRows) ∧
    (apply Node.id [givenRows.id, shuffledRows.id] [] ((shuffleOf (.index 1)).compose
      [shuffleOf (.index 0), .ofPosition (.index 1)] [])).run givenGraph =
      (.error (unknown shuffledRows.id), givenGraph) := by
  have hus : (applyAll Node.id [givenRows.id, shuffledRows.id] []
      [shuffleOf (.index 0), .ofPosition (.index 1)]).run givenGraph =
      (.ok [shuffledRows.id, shuffledRows.id], shuffledGraph) := by
    rw [applyAll]
    exact run_bind_eq_ok.mpr ⟨_, _, run_shuffleOf_givenGraph rfl, rfl⟩
  have hcompose : (shuffleOf (.index 1)).compose [shuffleOf (.index 0), .ofPosition (.index 1)]
      [] = shuffleOf (.index 1) := rfl
  refine ⟨apart_shuffled, hus, rfl, ?_, ?_⟩
  · exact run_apply_shuffleOf rfl find?_shuffledGraph_shuffledRows rfl
  · rw [hcompose]
    exact run_apply_shuffleOf_missing rfl find?_givenGraph_shuffledRows

end Graph

end Lineage
