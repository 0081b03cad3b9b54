import Lineage.Proofs.Engine.Level
import Lineage.Proofs.Outcome

set_option autoImplicit false

/-!
# What is remembered does not show

The engine remembers schemas. As long as all that is remembered is what it would find out anyway,
every question is answered as if nothing was remembered, and what is remembered stays so. Hence the
questions that were asked before have no influence on an answer.

## Main definitions

* `Lineage.Evaluation.answer`: the outcome of a computation with nothing remembered.
* `Lineage.Evaluation.Transparent`: what is remembered does not show in the outcome.
* `Lineage.Engine.Coherent`: what is remembered is what would be found out.
* `Lineage.Engine.Question`, `Lineage.Engine.rememberedAfter`: what can be asked, and what is
  remembered after some questions.

## Main results

* `Lineage.Evaluation.answer_bind`: answers compose.
* `Lineage.Engine.transparentAt`: no answer shows what is remembered.
* `Lineage.Engine.coherent_rememberedAfter`: after any questions, all that is remembered is what
  would be found out.
-/

namespace Lineage

namespace Evaluation

variable {α β : Type} {V : SchemaCache → Prop}

/-- The outcome of a computation with nothing remembered. -/
def answer (x : Evaluation α) : Outcome α := (x.run []).1

/-- Whatever is remembered, if it is as `V` says, the outcome is the same, and what is remembered
afterwards is as `V` says, too. -/
def Transparent (V : SchemaCache → Prop) (x : Evaluation α) : Prop :=
  ∀ cache, V cache → (x.run cache).1 = x.answer ∧ V (x.run cache).2

/-- A computation followed by another: the second remembers what the first leaves. -/
lemma run_bind (x : Evaluation α) (f : α → Evaluation β) (cache : SchemaCache) :
    (x >>= f).run cache = match x.run cache with
      | (.ok a, cache') => (f a).run cache'
      | (.error fault, cache') => (.error fault, cache') := by
  have hstep : (x >>= f).run cache = (match (x.run cache).1 with
      | .ok a => (f a).run (x.run cache).2
      | .error fault => (.error fault, (x.run cache).2)) := by
    show (ExceptT.bindCont f (x.run cache).1 : StateM SchemaCache (Outcome β)) (x.run cache).2 = _
    cases (x.run cache).1 <;> rfl
  rw [hstep]
  rcases x.run cache with ⟨outcome, cache'⟩
  cases outcome <;> rfl

/-- A value that is returned. -/
@[simp]
lemma answer_pure (a : α) : (pure a : Evaluation α).answer = .ok a := rfl

/-- A failure. -/
@[simp]
lemma answer_throw (fault : Fault) : (throw fault : Evaluation α).answer = .error fault := rfl

/-- An outcome that does not depend on what is remembered. -/
@[simp]
lemma answer_ofOutcome (outcome : Outcome α) : (ofOutcome outcome).answer = outcome := rfl

/-- A returned value does not show what is remembered. -/
lemma transparent_pure (a : α) : Transparent V (pure a : Evaluation α) :=
  fun _ h => ⟨rfl, h⟩

/-- A failure does not show what is remembered. -/
lemma transparent_throw (fault : Fault) : Transparent V (throw fault : Evaluation α) :=
  fun _ h => ⟨rfl, h⟩

/-- A given outcome does not show what is remembered. -/
lemma transparent_ofOutcome (outcome : Outcome α) : Transparent V (ofOutcome outcome) :=
  fun _ h => ⟨rfl, h⟩

/-- **Answers compose**: one computation after the other. -/
theorem answer_bind (hV : V []) {x : Evaluation α} {f : α → Evaluation β}
    (hx : Transparent V x) (hf : ∀ a, Transparent V (f a)) :
    (x >>= f).answer = x.answer >>= fun a => (f a).answer := by
  obtain ⟨-, hleft⟩ := hx [] hV
  unfold answer
  rw [run_bind]
  revert hleft
  rcases x.run [] with ⟨outcome, cache⟩
  intro hleft
  cases outcome with
  | ok a => exact (hf a cache hleft).1
  | error fault => rfl

/-- A computation on a given outcome. -/
lemma answer_ofOutcome_bind (outcome : Outcome α) (f : α → Evaluation β) :
    (ofOutcome outcome >>= f).answer = outcome >>= fun a => (f a).answer := by
  cases outcome <;> rfl

/-- Computations one after the other do not show what is remembered if none of them does. -/
lemma transparent_bind (hV : V []) {x : Evaluation α} {f : α → Evaluation β}
    (hx : Transparent V x) (hf : ∀ a, Transparent V (f a)) : Transparent V (x >>= f) := by
  intro cache hcache
  obtain ⟨hsame, hleft⟩ := hx cache hcache
  rw [answer_bind hV hx hf, run_bind]
  revert hsame hleft
  rcases x.run cache with ⟨outcome, cache'⟩
  intro hsame hleft
  dsimp only at hsame hleft
  rw [← hsame]
  cases outcome with
  | ok a => exact hf a cache' hleft
  | error fault => exact ⟨rfl, hleft⟩

/-- A computation on a given outcome does not show what is remembered if none on its value does. -/
lemma transparent_ofOutcome_bind {outcome : Outcome α} {f : α → Evaluation β}
    (hf : ∀ a, outcome = .ok a → Transparent V (f a)) :
    Transparent V (ofOutcome outcome >>= f) := by
  cases outcome with
  | ok a => exact hf a rfl
  | error fault => exact transparent_throw fault

/-- Computations on the items of a list do not show what is remembered if none of them does. -/
lemma transparent_mapM (hV : V []) {f : α → Evaluation β} {as : List α}
    (h : ∀ a ∈ as, Transparent V (f a)) : Transparent V (as.mapM f) := by
  induction as with
  | nil => exact transparent_pure []
  | cons a as ih =>
    rw [List.mapM_cons]
    refine transparent_bind hV (h a List.mem_cons_self) fun b => ?_
    refine transparent_bind hV (ih fun a' ha => h a' (List.mem_cons_of_mem _ ha)) fun bs => ?_
    exact transparent_pure (b :: bs)

/-- A schema that is looked up, or else found out and remembered. -/
lemma run_cached (id : NodeId) (find : Evaluation Schema) (cache : SchemaCache) :
    (cached id find).run cache = match cache.find? id with
      | some schema => (.ok schema, cache)
      | none => match find.run cache with
        | (.ok schema, cache') => (.ok schema, cache'.remember id schema)
        | (.error fault, cache') => (.error fault, cache') := by
  unfold cached
  rw [run_bind]
  show (match cache.find? id with
    | some schema => (pure schema : Evaluation Schema)
    | none => do
      let schema ← find
      modify fun cache => SchemaCache.remember cache id schema
      return schema).run cache = _
  cases cache.find? id with
  | some schema => rfl
  | none =>
    dsimp only
    rw [run_bind]
    rcases find.run cache with ⟨outcome, cache'⟩
    cases outcome <;> rfl

/-- With nothing remembered, a schema is found out. -/
@[simp]
lemma answer_cached (id : NodeId) (find : Evaluation Schema) :
    (cached id find).answer = find.answer := by
  unfold answer
  rw [run_cached]
  show (match find.run [] with
    | (.ok schema, cache') => ((.ok schema : Outcome Schema), cache'.remember id schema)
    | (.error fault, cache') => (.error fault, cache')).1 = _
  rcases find.run [] with ⟨outcome, cache'⟩
  cases outcome <;> rfl

/-- A remembered schema does not show if it is the one that would be found out, and if remembering
that one is all right. -/
lemma transparent_cached {id : NodeId} {find : Evaluation Schema} (hfind : Transparent V find)
    (hold : ∀ cache schema, V cache → cache.find? id = some schema → find.answer = .ok schema)
    (hnew : ∀ cache schema, V cache → find.answer = .ok schema → V (cache.remember id schema)) :
    Transparent V (cached id find) := by
  intro cache hcache
  rw [answer_cached, run_cached]
  cases hknown : cache.find? id with
  | some schema => exact ⟨(hold cache schema hcache hknown).symm, hcache⟩
  | none =>
    obtain ⟨hsame, hleft⟩ := hfind cache hcache
    revert hsame hleft
    rcases find.run cache with ⟨outcome, cache'⟩
    intro hsame hleft
    cases outcome with
    | ok schema => exact ⟨hsame, hnew cache' schema hleft hsame.symm⟩
    | error fault => exact ⟨hsame, hleft⟩

end Evaluation

namespace Access

open Evaluation (Transparent)

/-- No answer for a node shows what is remembered. -/
structure TransparentAt (V : SchemaCache → Prop) (a : Access) (id : NodeId) : Prop where
  /-- Not its schema. -/
  schema : Transparent V (a.schema id)
  /-- Not its batches. -/
  stream : ∀ n, Transparent V (a.stream id n)
  /-- Not its batches as a result. -/
  resultStream : ∀ n, Transparent V (a.resultStream id n)
  /-- Not its value. -/
  value : Transparent V (a.value id)

/-- Answers about batches do not show what is remembered, nor do they for size zero. -/
lemma transparent_sized {V : SchemaCache → Prop} {n : ℕ} {x : Evaluation BatchStream}
    (h : Transparent V x) : Transparent V (sized n x) := by
  unfold sized
  split
  · exact Evaluation.transparent_throw _
  · exact h

end Access

namespace Engine

open Evaluation (Transparent transparent_pure transparent_throw transparent_ofOutcome
  transparent_ofOutcome_bind transparent_bind transparent_mapM)

/-! ### The answers for one node -/

section Level

variable {e : Engine} {a : Access} {V : SchemaCache → Prop} (hV : V [])

include hV

/-- All batches of a node do not show what is remembered. -/
lemma transparent_batchesOf {id : NodeId} (h : a.TransparentAt V id) :
    Transparent V (batchesOf e a id) :=
  transparent_bind hV (h.stream _) fun _ => transparent_ofOutcome _

/-- A node as an external operation gets it does not show what is remembered. -/
lemma transparent_materialize {id : NodeId} (h : a.TransparentAt V id) :
    Transparent V (materialize e a id) := by
  refine transparent_bind hV (transparent_ofOutcome _) fun node => ?_
  split
  · refine transparent_bind hV (transparent_batchesOf hV h) fun batches => ?_
    split
    · exact transparent_bind hV (transparent_ofOutcome _) fun _ => transparent_pure _
    · refine transparent_bind hV h.schema fun schema => ?_
      exact transparent_bind hV (transparent_ofOutcome _) fun _ => transparent_pure _
  · exact transparent_bind hV h.value fun _ => transparent_pure _

/-- Named nodes as an external operation gets them do not show what is remembered. -/
lemma transparent_materializeNamed {named : Dict NodeId}
    (h : ∀ id ∈ named.values, a.TransparentAt V id) :
    Transparent V (materializeNamed e a named) := by
  induction named with
  | nil => exact transparent_pure _
  | cons entry rest ih =>
    obtain ⟨name, id⟩ := entry
    refine transparent_bind hV (transparent_materialize hV (h id List.mem_cons_self)) fun _ => ?_
    refine transparent_bind hV (ih fun id' hid => h id' (List.mem_cons_of_mem _ hid)) fun _ => ?_
    exact transparent_pure _

/-- What an external operation returns does not show what is remembered. -/
lemma transparent_externalResult (call : ExternalCall) {arguments : List NodeId}
    {named : Dict NodeId} (h : ∀ id ∈ arguments ++ named.values, a.TransparentAt V id) :
    Transparent V (externalResult e a call arguments named) := by
  refine transparent_bind hV (transparent_ofOutcome _) fun operation => ?_
  refine transparent_bind hV (transparent_mapM hV fun id hid =>
    transparent_materialize hV (h id (List.mem_append_left _ hid))) fun parents => ?_
  refine transparent_bind hV (transparent_materializeNamed hV fun id hid =>
    h id (List.mem_append_right _ hid)) fun namedParents => ?_
  exact transparent_ofOutcome _

/-- The table that an external operation returns does not show what is remembered. -/
lemma transparent_externalTable (name : String) (call : ExternalCall) {arguments : List NodeId}
    {named : Dict NodeId} (h : ∀ id ∈ arguments ++ named.values, a.TransparentAt V id) :
    Transparent V (externalTable e a name call arguments named) :=
  transparent_bind hV (transparent_externalResult hV call h) fun _ => transparent_ofOutcome _

omit hV in
/-- The one dataset that a node is made from is among its parents. -/
lemma mem_of_datasetParent {node : Node} {arguments : List NodeId} {named : Dict NodeId}
    {id : NodeId} {parent : Node} (h : datasetParent a node arguments named = .ok (id, parent)) :
    id ∈ arguments ++ named.values := by
  unfold datasetParent at h
  split at h
  · obtain ⟨found, -, hfound⟩ := Outcome.bind_eq_ok.mp h
    split at hfound
    · cases hfound
      exact List.mem_cons_self
    · cases hfound
  · cases h

/-- The schema of the result of a query does not show what is remembered. -/
lemma transparent_querySchema (node : Node) {id : NodeId} (parent : Node) (query : String)
    (h : a.TransparentAt V id) : Transparent V (querySchema e a node id parent query) :=
  transparent_bind hV (h.stream _) fun _ => transparent_ofOutcome _

/-- The schema of a result does not show what is remembered. -/
lemma transparent_derivedSchema (node : Node) (t : Transform) {arguments : List NodeId}
    {named : Dict NodeId} (h : ∀ id ∈ arguments ++ named.values, a.TransparentAt V id) :
    Transparent V (derivedSchema e a node t arguments named) := by
  refine transparent_ofOutcome_bind fun found hfound => ?_
  obtain ⟨id, parent⟩ := found
  have hid := h id (mem_of_datasetParent hfound)
  refine transparent_bind hV hid.schema fun schema => ?_
  refine transparent_bind hV (transparent_ofOutcome _) fun propagation => ?_
  split
  · exact transparent_pure _
  · exact transparent_querySchema hV node parent _ hid
  · exact transparent_throw _

/-- **The schema of a node does not show what is remembered.** -/
theorem transparent_schemaOf {node : Node} (h : ∀ id ∈ node.parents, a.TransparentAt V id) :
    Transparent V (schemaOf e a node) := by
  unfold schemaOf
  split
  · exact transparent_pure _
  · exact transparent_throw _
  · rename_i t arguments named horigin
    have hparents : ∀ id ∈ arguments ++ named.values, a.TransparentAt V id := by
      simpa only [Node.parents, horigin] using h
    split
    · refine transparent_bind hV (transparent_externalTable hV _ _ hparents) fun _ => ?_
      exact transparent_ofOutcome _
    · exact transparent_derivedSchema hV node _ hparents

/-- The batches of an operation on batches do not show what is remembered. -/
lemma transparent_batchwise (operation : BatchOperation) {id : NodeId} (n : ℕ)
    (h : a.TransparentAt V id) : Transparent V (batchwise a operation id n) :=
  transparent_bind hV (h.stream n) fun _ => transparent_pure _

/-- The batches of an operation on batches. -/
lemma answer_batchwise (operation : BatchOperation) {id : NodeId} (n : ℕ)
    (h : a.TransparentAt V id) : (batchwise a operation id n).answer =
      (a.stream id n).answer.map fun input => (operation.stream input).regroup n := by
  rw [batchwise, Evaluation.answer_bind hV (h.stream n) fun _ => transparent_pure _]
  exact Outcome.bind_ok _ _

/-- The batches of an operation on tables do not show what is remembered. -/
lemma transparent_tablewise (operation : TableOperation) {id : NodeId} (n : ℕ)
    (h : a.TransparentAt V id) : Transparent V (tablewise e a operation id n) := by
  refine transparent_bind hV (transparent_ofOutcome _) fun _ => ?_
  exact transparent_bind hV (h.stream n) fun _ => transparent_pure _

/-- The batches of an operation on tables. -/
lemma answer_tablewise (operation : TableOperation) {id : NodeId} (n : ℕ)
    (h : a.TransparentAt V id) : (tablewise e a operation id n).answer =
      operation.validate >>= fun _ =>
        (a.stream id n).answer.map (operation.stream .ofWords e.generator n) := by
  rw [tablewise, Evaluation.answer_bind hV (transparent_ofOutcome _) fun _ =>
    transparent_bind hV (h.stream n) fun _ => transparent_pure _]
  refine bind_congr fun _ => ?_
  rw [Evaluation.answer_bind hV (h.stream n) fun _ => transparent_pure _]
  exact Outcome.bind_ok _ _

/-- The batches of a step do not show what is remembered. -/
lemma transparent_stepStream {id : NodeId} (parent : Node) (n : ℕ) (content : Step)
    (h : a.TransparentAt V id) : Transparent V (stepStream e a id parent n content) := by
  cases content with
  | filter target | project target | getItem path =>
    exact transparent_bind hV h.schema fun _ => transparent_batchwise hV _ n h
  | sample size | slice start stop | extract size seed | shuffle =>
    exact transparent_tablewise hV _ n h
  | selectSql query => exact transparent_bind hV (h.stream n) fun _ => transparent_pure _
  | differentiatedSample size | external call => exact transparent_throw _

/-- The batches of a result do not show what is remembered. -/
lemma transparent_transformStream (node : Node) (t : Transform) {arguments : List NodeId}
    {named : Dict NodeId} (n : ℕ) (h : ∀ id ∈ arguments ++ named.values, a.TransparentAt V id) :
    Transparent V (transformStream e a node t arguments named n) := by
  unfold transformStream
  cases node.isDataset
  · exact transparent_throw _
  simp only [Bool.not_true, Bool.false_eq_true, if_false]
  split
  · refine transparent_bind hV (transparent_externalTable hV _ _ h) fun table => ?_
    exact transparent_bind hV (transparent_ofOutcome _) fun _ => transparent_pure _
  · refine transparent_ofOutcome_bind fun found hfound => ?_
    exact transparent_stepStream hV _ n _ (h _ (mem_of_datasetParent hfound))
  · exact transparent_bind hV (transparent_ofOutcome _) fun _ => transparent_throw _

/-- **The batches of a result do not show what is remembered.** -/
theorem transparent_resultStreamOf {node : Node} (n : ℕ)
    (h : ∀ id ∈ node.parents, a.TransparentAt V id) :
    Transparent V (resultStreamOf e a node n) := by
  refine Access.transparent_sized ?_
  split
  · rename_i t arguments named horigin
    refine transparent_transformStream hV node t n ?_
    simpa only [Node.parents, horigin] using h
  · exact transparent_throw _

/-- **The batches of a node do not show what is remembered.** -/
theorem transparent_streamOf {node : Node} (n : ℕ)
    (h : ∀ id ∈ node.parents, a.TransparentAt V id) : Transparent V (streamOf e a node n) := by
  refine Access.transparent_sized ?_
  split
  · exact transparent_bind hV (transparent_ofOutcome _) fun _ => transparent_pure _
  · exact transparent_throw _
  · exact transparent_resultStreamOf hV n h

/-- **The value of a node does not show what is remembered.** -/
theorem transparent_valueOf {node : Node} (h : ∀ id ∈ node.parents, a.TransparentAt V id) :
    Transparent V (valueOf e a node) := by
  unfold valueOf
  split
  · exact transparent_throw _
  · split
    · exact transparent_pure _
    · rename_i call arguments named horigin
      refine transparent_bind hV (transparent_externalResult hV call ?_) fun _ =>
        transparent_ofOutcome _
      simpa only [Node.parents, horigin] using h
    · exact transparent_throw _

end Level

/-! ### All answers -/

/-- All that is remembered is what would be found out. -/
def Coherent (e : Engine) (cache : SchemaCache) : Prop :=
  ∀ id schema, cache.find? id = some schema → (e.schema id).answer = .ok schema

/-- Nothing is remembered. -/
lemma coherent_nil (e : Engine) : e.Coherent [] := fun _ _ h => by cases h

/-- A schema that would be found out may be remembered. -/
lemma Coherent.remember {e : Engine} {cache : SchemaCache} (h : e.Coherent cache) {id : NodeId}
    {schema : Schema} (hschema : (e.schema id).answer = .ok schema) :
    e.Coherent (cache.remember id schema) := by
  intro id' schema' hfound
  unfold SchemaCache.remember SchemaCache.find? at hfound
  by_cases hid : id = id'
  · subst hid
    simp only [List.find?_cons, beq_self_eq_true, Option.map_some, Option.some.injEq] at hfound
    exact hfound ▸ hschema
  · rw [List.find?_cons_of_neg (by simpa using hid)] at hfound
    exact h id' schema' hfound

/-- A schema that is looked up does not show what is remembered if finding it out does not. -/
lemma transparent_schema {e : Engine} {id : NodeId} {find : Evaluation Schema}
    (heq : e.schema id = Evaluation.cached id find) (hfind : Transparent e.Coherent find) :
    Transparent e.Coherent (e.schema id) := by
  have hanswer : (e.schema id).answer = find.answer := by
    rw [heq, Evaluation.answer_cached]
  rw [heq]
  refine Evaluation.transparent_cached hfind (fun cache schema hcache hfound => ?_)
    fun cache schema hcache hschema => hcache.remember (hanswer.trans hschema)
  exact hanswer.symm.trans (hcache id schema hfound)

/-- **No answer of an engine on an ordered graph shows what is remembered.** -/
theorem transparentAt {e : Engine} (h : Graph.Ordered e.graph.entries) (id : NodeId) :
    e.access.TransparentAt e.Coherent id := by
  have hV := coherent_nil e
  cases hid : e.graph.find? id with
  | none =>
    have hsame := access_of_absent hid
    refine ⟨transparent_schema hsame.schema (transparent_throw _), fun n => ?_, fun n => ?_, ?_⟩
    · rw [hsame.stream]
      exact Access.transparent_sized (transparent_throw _)
    · rw [hsame.resultStream]
      exact Access.transparent_sized (transparent_throw _)
    · rw [hsame.value]
      exact transparent_throw _
  | some node =>
    refine h.induction (P := e.access.TransparentAt e.Coherent) (fun id node hnode hparents => ?_)
      id (Option.isSome_of_eq_some hid)
    refine ⟨transparent_schema (schema_eq h hnode) (transparent_schemaOf hV hparents), fun n => ?_,
      fun n => ?_, ?_⟩
    · rw [show e.access.stream id n = streamOf e e.access node n from stream_eq h hnode n]
      exact transparent_streamOf hV n hparents
    · rw [show e.access.resultStream id n = resultStreamOf e e.access node n from
        resultStream_eq h hnode n]
      exact transparent_resultStreamOf hV n hparents
    · rw [show e.access.value id = valueOf e e.access node from value_eq h hnode]
      exact transparent_valueOf hV hparents

/-! ### Questions asked before -/

/-- What an engine can be asked. -/
inductive Question where
  /-- The schema of a dataset. -/
  | schema (id : NodeId)
  /-- The batches of a dataset. -/
  | stream (id : NodeId) (n : ℕ)
  /-- The batches of a dataset that is made from others. -/
  | resultStream (id : NodeId) (n : ℕ)
  /-- All batches of a dataset. -/
  | collect (id : NodeId)
  /-- The value of a scalar. -/
  | value (id : NodeId)

/-- What is remembered after a question, whatever the answer. -/
def rememberedBy (e : Engine) (cache : SchemaCache) : Question → SchemaCache
  | .schema id => ((e.schema id).run cache).2
  | .stream id n => ((e.stream id n).run cache).2
  | .resultStream id n => ((e.resultStream id n).run cache).2
  | .collect id => ((e.collect id).run cache).2
  | .value id => ((e.value id).run cache).2

/-- What is remembered after some questions. -/
def rememberedAfter (e : Engine) (questions : List Question) : SchemaCache :=
  questions.foldl e.rememberedBy []

/-- A question keeps what is remembered coherent. -/
lemma Coherent.rememberedBy {e : Engine} (h : Graph.Ordered e.graph.entries) {cache : SchemaCache}
    (hcache : e.Coherent cache) (question : Question) :
    e.Coherent (e.rememberedBy cache question) := by
  have hid := e.transparentAt h
  cases question with
  | schema id => exact ((hid id).schema cache hcache).2
  | stream id n => exact ((hid id).stream n cache hcache).2
  | resultStream id n => exact ((hid id).resultStream n cache hcache).2
  | collect id => exact (transparent_batchesOf (coherent_nil e) (hid id) cache hcache).2
  | value id => exact ((hid id).value cache hcache).2

/-- **After any questions, all that is remembered is what would be found out.** -/
theorem coherent_rememberedAfter {e : Engine} (h : Graph.Ordered e.graph.entries)
    (questions : List Question) : e.Coherent (e.rememberedAfter questions) := by
  unfold rememberedAfter
  generalize hcache : ([] : SchemaCache) = cache
  have hstart : e.Coherent cache := hcache ▸ coherent_nil e
  clear hcache
  induction questions generalizing cache with
  | nil => exact hstart
  | cons question questions ih => exact ih _ (hstart.rememberedBy h question)

end Engine

end Lineage
