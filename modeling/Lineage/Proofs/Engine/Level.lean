import Lineage.Engine.Basic
import Lineage.Proofs.Graph.Order

set_option autoImplicit false

/-!
# One node at a time

What the engine answers for a node of an ordered graph follows from the node and from what it
answers for the nodes that this one is made from.

## Main definitions

* `Lineage.Access.SameAt`: two ways to answer agree on one node.

## Main results

* `Lineage.Engine.schemaOf_congr`, `Lineage.Engine.streamOf_congr`,
  `Lineage.Engine.resultStreamOf_congr`, `Lineage.Engine.valueOf_congr`: the answers for a node
  depend on those for its parents only.
* `Lineage.Engine.schema_eq`, `Lineage.Engine.stream_eq`, `Lineage.Engine.resultStream_eq`,
  `Lineage.Engine.value_eq`: the equations of the answers for the nodes of an ordered graph.
-/

namespace Lineage

namespace Access

/-- Two ways to answer give the same answers for a node. -/
structure SameAt (a b : Access) (id : NodeId) : Prop where
  /-- The node. -/
  node? : a.node? id = b.node? id
  /-- Its schema. -/
  schema : a.schema id = b.schema id
  /-- Its batches. -/
  stream : a.stream id = b.stream id
  /-- Its batches as a result. -/
  resultStream : a.resultStream id = b.resultStream id
  /-- Its value. -/
  value : a.value id = b.value id

/-- Answers that agree, the other way round. -/
lemma SameAt.symm {a b : Access} {id : NodeId} (h : a.SameAt b id) : b.SameAt a id :=
  ⟨h.node?.symm, h.schema.symm, h.stream.symm, h.resultStream.symm, h.value.symm⟩

/-- Answers that agree with answers that agree with others. -/
lemma SameAt.trans {a b c : Access} {id : NodeId} (h : a.SameAt b id) (h' : b.SameAt c id) :
    a.SameAt c id :=
  ⟨h.node?.trans h'.node?, h.schema.trans h'.schema, h.stream.trans h'.stream,
    h.resultStream.trans h'.resultStream, h.value.trans h'.value⟩

/-- The node under an identifier, or a fault. -/
lemma SameAt.node {a b : Access} {id : NodeId} (h : a.SameAt b id) : a.node id = b.node id := by
  rw [Access.node, Access.node, h.node?]

end Access

/-- After a failure nothing is computed. -/
lemma Evaluation.throw_bind {α β : Type} (fault : Fault) (f : α → Evaluation β) :
    ((throw fault : Evaluation α) >>= f) = throw fault := rfl

namespace Engine

variable {e : Engine} {a b : Access}

/-! ### Answers depend on those for the parents -/

section Congruence

/-- A node as an external operation gets it depends on the answers for this node. -/
lemma materialize_congr {id : NodeId} (h : a.SameAt b id) :
    materialize e a id = materialize e b id := by
  unfold materialize batchesOf
  rw [h.node, h.stream, h.schema, h.value]

/-- Nodes as an external operation gets them depend on the answers for these nodes. -/
lemma mapM_materialize_congr {ids : List NodeId} (h : ∀ id ∈ ids, a.SameAt b id) :
    ids.mapM (materialize e a) = ids.mapM (materialize e b) := by
  induction ids with
  | nil => rfl
  | cons id ids ih =>
    rw [List.mapM_cons, List.mapM_cons, materialize_congr (h id List.mem_cons_self),
      ih fun id' hid => h id' (List.mem_cons_of_mem _ hid)]

/-- Named nodes as an external operation gets them depend on the answers for these nodes. -/
lemma materializeNamed_congr {named : Dict NodeId} (h : ∀ id ∈ named.values, a.SameAt b id) :
    materializeNamed e a named = materializeNamed e b named := by
  induction named with
  | nil => rfl
  | cons entry rest ih =>
    obtain ⟨name, id⟩ := entry
    unfold materializeNamed
    rw [materialize_congr (h id List.mem_cons_self),
      ih fun id' hid => h id' (List.mem_cons_of_mem _ hid)]

/-- What an external operation returns depends on the answers for its parents. -/
lemma externalResult_congr (call : ExternalCall) {arguments : List NodeId} {named : Dict NodeId}
    (h : ∀ id ∈ arguments ++ named.values, a.SameAt b id) :
    externalResult e a call arguments named = externalResult e b call arguments named := by
  unfold externalResult
  rw [mapM_materialize_congr fun id hid => h id (List.mem_append_left _ hid),
    materializeNamed_congr fun id hid => h id (List.mem_append_right _ hid)]

/-- The table that an external operation returns depends on the answers for its parents. -/
lemma externalTable_congr (name : String) (call : ExternalCall) {arguments : List NodeId}
    {named : Dict NodeId} (h : ∀ id ∈ arguments ++ named.values, a.SameAt b id) :
    externalTable e a name call arguments named = externalTable e b name call arguments named := by
  unfold externalTable
  rw [externalResult_congr call h]

/-- A step on one dataset, whose name the step takes from its arguments. -/
lemma bind_datasetParent_congr {α : Type} (node : Node) {arguments : List NodeId}
    {named : Dict NodeId} (h : ∀ id ∈ arguments ++ named.values, a.SameAt b id)
    {f g : NodeId × Node → Evaluation α}
    (hfg : ∀ id ∈ arguments ++ named.values, ∀ parent, f (id, parent) = g (id, parent)) :
    (Evaluation.ofOutcome (datasetParent a node arguments named) >>= f) =
      (Evaluation.ofOutcome (datasetParent b node arguments named) >>= g) := by
  rcases arguments with _ | ⟨id, _ | ⟨id', rest⟩⟩
  · rfl
  · cases named with
    | nil =>
      have hid : id ∈ [id] ++ Dict.values ([] : Dict NodeId) := List.mem_cons_self
      simp only [datasetParent, (h id hid).node]
      cases b.node id with
      | error fault => rfl
      | ok parent =>
        cases hparent : parent.isDataset
        · simp only [bind, Except.bind, hparent]
          rfl
        · simp only [bind, Except.bind, hparent]
          exact hfg id hid parent
    | cons entry rest => rfl
  · rfl

/-- The schema of the result of a query depends on the answers for its parent. -/
lemma querySchema_congr (node : Node) {id : NodeId} (parent : Node) (query : String)
    (h : a.SameAt b id) :
    querySchema e a node id parent query = querySchema e b node id parent query := by
  unfold querySchema
  rw [h.stream]

/-- The schema of a result depends on the answers for its parents. -/
lemma derivedSchema_congr (node : Node) (t : Transform) {arguments : List NodeId}
    {named : Dict NodeId} (h : ∀ id ∈ arguments ++ named.values, a.SameAt b id) :
    derivedSchema e a node t arguments named = derivedSchema e b node t arguments named := by
  unfold derivedSchema
  refine bind_datasetParent_congr node h fun id hid parent => ?_
  simp only [(h id hid).schema, querySchema_congr node parent _ (h id hid)]

/-- **The schema of a node depends on the answers for its parents.** -/
theorem schemaOf_congr {node : Node} (h : ∀ id ∈ node.parents, a.SameAt b id) :
    schemaOf e a node = schemaOf e b node := by
  unfold schemaOf
  split
  · rfl
  · rfl
  · rename_i t arguments named horigin
    have hparents : ∀ id ∈ arguments ++ named.values, a.SameAt b id := by
      simpa only [Node.parents, horigin] using h
    split
    · rw [externalTable_congr _ _ hparents]
    · exact derivedSchema_congr node _ hparents

/-- The batches of a step depend on the answers for its parent. -/
lemma stepStream_congr {id : NodeId} (parent : Node) (n : ℕ) (content : Step)
    (h : a.SameAt b id) :
    stepStream e a id parent n content = stepStream e b id parent n content := by
  cases content <;> simp only [stepStream, batchwise, tablewise, h.schema, h.stream]

/-- The batches of a result depend on the answers for its parents. -/
lemma transformStream_congr (node : Node) (t : Transform) {arguments : List NodeId}
    {named : Dict NodeId} (n : ℕ) (h : ∀ id ∈ arguments ++ named.values, a.SameAt b id) :
    transformStream e a node t arguments named n =
      transformStream e b node t arguments named n := by
  unfold transformStream
  cases node.isDataset
  · simp only [Bool.not_false, if_true, Evaluation.throw_bind]
  simp only [Bool.not_true, Bool.false_eq_true, if_false]
  split
  · rw [externalTable_congr _ _ h]
  · refine bind_datasetParent_congr node h fun id hid parent => ?_
    exact stepStream_congr parent n _ (h id hid)
  · exact bind_datasetParent_congr node h fun id hid parent => rfl

/-- **The batches of a result depend on the answers for its parents.** -/
theorem resultStreamOf_congr {node : Node} (n : ℕ) (h : ∀ id ∈ node.parents, a.SameAt b id) :
    resultStreamOf e a node n = resultStreamOf e b node n := by
  unfold resultStreamOf
  congr 1
  split
  · rename_i t arguments named horigin
    refine transformStream_congr node t n ?_
    simpa only [Node.parents, horigin] using h
  · rfl

/-- **The batches of a node depend on the answers for its parents.** -/
theorem streamOf_congr {node : Node} (n : ℕ) (h : ∀ id ∈ node.parents, a.SameAt b id) :
    streamOf e a node n = streamOf e b node n := by
  unfold streamOf
  rw [resultStreamOf_congr n h]

/-- **The value of a node depends on the answers for its parents.** -/
theorem valueOf_congr {node : Node} (h : ∀ id ∈ node.parents, a.SameAt b id) :
    valueOf e a node = valueOf e b node := by
  unfold valueOf
  congr 1
  split
  · rfl
  · rename_i call arguments named horigin
    rw [externalResult_congr]
    simpa only [Node.parents, horigin] using h
  · rfl

end Congruence

/-! ### The answers for the nodes of a graph -/

section Unfolding

/-- The answers for an older node are those of the older nodes. -/
lemma accessIn_cons_of_contains {key : NodeId} {node : Node} {older : List (NodeId × Node)}
    (h : Graph.Ordered ((key, node) :: older)) {id : NodeId}
    (hid : Graph.contains ⟨older⟩ id = true) :
    (e.accessIn ((key, node) :: older)).SameAt (e.accessIn older) id := by
  have hkey := Graph.ne_of_contains h.1 hid
  constructor <;> simp only [accessIn, extend, if_neg hkey]

/-- Answers for one more node are the same if the answers for its parents are. -/
lemma extend_sameAt {id : NodeId} {node : Node} (h : ∀ parent ∈ node.parents, a.SameAt b parent) :
    (e.extend a id node).SameAt (e.extend b id node) id := by
  constructor <;> simp only [extend, if_true]
  · rw [schemaOf_congr h]
  · exact funext fun n => streamOf_congr n h
  · exact funext fun n => resultStreamOf_congr n h
  · exact valueOf_congr h

/-- The answers for a node of ordered entries follow from those for its parents. -/
lemma sameAt_extend {entries : List (NodeId × Node)} (h : Graph.Ordered entries) {id : NodeId}
    {node : Node} (hnode : Graph.find? ⟨entries⟩ id = some node) :
    (e.accessIn entries).SameAt (e.extend (e.accessIn entries) id node) id := by
  induction entries with
  | nil => cases hnode
  | cons entry older ih =>
    obtain ⟨key, first⟩ := entry
    have hparents : ∀ parent, Graph.contains ⟨older⟩ parent = true →
        (e.accessIn older).SameAt (e.accessIn ((key, first) :: older)) parent :=
      fun parent hparent => (accessIn_cons_of_contains h hparent).symm
    rw [Graph.find?_cons] at hnode
    by_cases hkey : key = id
    · subst hkey
      rw [if_pos rfl] at hnode
      cases hnode
      exact extend_sameAt fun parent hparent => hparents parent (h.2.1 parent hparent)
    · rw [if_neg hkey] at hnode
      have hid : Graph.contains ⟨older⟩ id = true := Option.isSome_of_eq_some hnode
      refine ((hparents id hid).symm.trans (ih h.2.2 hnode)).trans (extend_sameAt ?_)
      exact fun parent hparent => hparents parent (h.2.2.contains_of_parent hnode hparent)

variable {id : NodeId} {node : Node}

/-- The node that is found under an identifier. -/
theorem access_node? (e : Engine) (id : NodeId) : e.access.node? id = e.graph.find? id := by
  have hentries : ∀ entries, (e.accessIn entries).node? id = Graph.find? ⟨entries⟩ id := by
    intro entries
    induction entries with
    | nil => rfl
    | cons entry older ih =>
      rw [Graph.find?_cons, ← ih]
      rfl
  exact hentries e.graph.entries

/-- **The schema of a node** is remembered, or follows from the answers for its parents. -/
theorem schema_eq (h : Graph.Ordered e.graph.entries) (hnode : e.graph.find? id = some node) :
    e.schema id = Evaluation.cached id (schemaOf e e.access node) := by
  have hsame := (sameAt_extend (e := e) h hnode).schema
  simp only [extend, if_true] at hsame
  exact hsame

/-- **The batches of a node** follow from the answers for its parents. -/
theorem stream_eq (h : Graph.Ordered e.graph.entries) (hnode : e.graph.find? id = some node)
    (n : ℕ) : e.stream id n = streamOf e e.access node n := by
  have hsame := congrFun (sameAt_extend (e := e) h hnode).stream n
  simp only [extend, if_true] at hsame
  exact hsame

/-- **The batches of a result** follow from the answers for its parents. -/
theorem resultStream_eq (h : Graph.Ordered e.graph.entries) (hnode : e.graph.find? id = some node)
    (n : ℕ) : e.resultStream id n = resultStreamOf e e.access node n := by
  have hsame := congrFun (sameAt_extend (e := e) h hnode).resultStream n
  simp only [extend, if_true] at hsame
  exact hsame

/-- **The value of a node** follows from the answers for its parents. -/
theorem value_eq (h : Graph.Ordered e.graph.entries) (hnode : e.graph.find? id = some node) :
    e.value id = valueOf e e.access node := by
  have hsame := (sameAt_extend (e := e) h hnode).value
  simp only [extend, if_true] at hsame
  exact hsame

/-- Nothing is known of an identifier without node. -/
theorem access_of_absent (hnode : e.graph.find? id = none) : e.access.SameAt Access.empty id := by
  have hentries : ∀ entries, Graph.find? ⟨entries⟩ id = none →
      (e.accessIn entries).SameAt Access.empty id := by
    intro entries hnone
    induction entries with
    | nil => exact ⟨rfl, rfl, rfl, rfl, rfl⟩
    | cons entry older ih =>
      obtain ⟨key, first⟩ := entry
      rw [Graph.find?_cons] at hnone
      have hkey : key ≠ id := by
        rintro rfl
        simp at hnone
      refine Access.SameAt.trans ?_ (ih (by rwa [if_neg hkey] at hnone))
      constructor <;> simp only [accessIn, extend, if_neg hkey]
  exact hentries e.graph.entries hnode

end Unfolding

end Engine

end Lineage
