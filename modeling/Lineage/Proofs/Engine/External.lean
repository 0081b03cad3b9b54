import Lineage.Proofs.Engine.Sources
import Lineage.Proofs.Engine.StaticSchema
import Lineage.Proofs.Stream.Sized

set_option autoImplicit false

/-!
# What external operations get

An external operation gets each dataset as one table. Where there are batches, they are put under
one another; where there are none, a table without rows is made from the type of the dataset. That
type need not be one of rows: it may be that of a part that was taken out, or not to be had without
rows.

## Main definitions

* `Lineage.Ty.IsRows`: types of rows.
* `Lineage.Engine.received`: what an external operation gets for a node.
* `Lineage.Engine.inputOf`, `Lineage.Engine.returned`: what it gets for all nodes that it is called
  with, and what it returns for them.
* `Lineage.Engine.Receivable`: when there is a table for a dataset.

## Main results

* `Lineage.Engine.answer_externalResult`: a call is the operation on what is received.
* `Lineage.Engine.input_of_dataset`: external operations get a table for a dataset exactly if it is
  receivable, and are not called otherwise.
* `Lineage.Engine.receivable_of_uniform`: datasets with rows are receivable if the batches of every
  source have the same columns.
* `Lineage.Engine.receivable_source_iff`, `Lineage.Engine.not_receivable_of_getItem`,
  `Lineage.Engine.not_receivable_of_external`: which datasets without rows are receivable.
* `Lineage.Engine.not_received_noDigits`: a part of no rows that is not received.
-/

namespace Lineage

namespace Batch

/-- Batches can be put under one another exactly if all of them can take the columns. -/
theorem exists_concat_iff {fields : List Field} {batches : List Batch} :
    (∃ b, concat fields batches = .ok b) ↔ ∀ b ∈ batches, b.Joins fields := by
  constructor
  · rintro ⟨merged, hmerged⟩ b hb
    obtain ⟨hstores, hmake⟩ := concat_eq_ok.mp hmerged
    refine ⟨hstores b hb, fun row hrow => allows_take.mp ((make_eq_ok.mp hmake).2 _ ?_)⟩
    exact List.mem_flatMap.mpr ⟨b, hb, List.mem_map_of_mem hrow⟩
  · intro h
    refine ⟨_, concat_eq_ok.mpr ⟨fun b hb => (h b hb).stores, make_eq_ok.mpr ⟨rfl, ?_⟩⟩⟩
    intro row hrow
    obtain ⟨b, hb, hrow⟩ := List.mem_flatMap.mp hrow
    obtain ⟨whole, hwhole, rfl⟩ := List.mem_map.mp hrow
    exact allows_take.mpr ((h b hb).allows whole hwhole)

end Batch

namespace Ty

/-- Types of rows: structs and unions, perhaps constrained. -/
def IsRows : Ty → Prop
  | .members .. => True
  | .wrapped _ (.constrained _) inner => IsRows inner
  | _ => False

/-- Only types of rows have columns. -/
lemma isRows_of_batchFields {t : Ty} {fields : List Field} (h : t.batchFields = .ok fields) :
    t.IsRows := by
  fun_induction batchFields t with
  | case1 info form fields => trivial
  | case2 info constraint inner ih => exact ih h
  | case3 t => cases h

end Ty

/-- All batches of a stream that ends well. -/
lemma BatchStream.collect_eq_ok {s : BatchStream} {batches : List Batch} :
    s.collect = .ok batches ↔ s.failure = none ∧ s.batches = batches := by
  unfold collect
  cases s.failure <;> simp

namespace Evaluation

variable {α β : Type} {V : SchemaCache → Prop}

/-- Answers to the items of a list. -/
lemma answer_mapM (hV : V []) {f : α → Evaluation β} (h : ∀ a, Transparent V (f a))
    (as : List α) : (as.mapM f).answer = as.mapM fun a => (f a).answer := by
  induction as with
  | nil => rfl
  | cons a as ih =>
    have hrest : Transparent V (as.mapM f) := transparent_mapM hV fun a _ => h a
    rw [List.mapM_cons, List.mapM_cons, ← ih, answer_bind hV (h a) fun b =>
      transparent_bind hV hrest fun bs => transparent_pure _]
    refine bind_congr fun b => ?_
    exact answer_bind hV hrest fun bs => transparent_pure _

end Evaluation

namespace Engine

open Evaluation (Transparent answer_bind answer_ofOutcome_bind answer_mapM transparent_bind
  transparent_pure transparent_ofOutcome transparent_mapM)

/-! ### Calls -/

/-- What an external operation gets for a node. -/
def received (e : Engine) (id : NodeId) : Outcome Datum := (materialize e e.access id).answer

/-- What an external operation gets for the nodes that it is called with. -/
def inputOf (e : Engine) (call : ExternalCall) (arguments : List NodeId) (named : Dict NodeId) :
    Outcome ExternalInput := do
  let parents ← arguments.mapM e.received
  let namedParents ← named.mapM fun entry => (e.received entry.2).map fun datum => (entry.1, datum)
  .ok ⟨call.arguments, parents, namedParents⟩

/-- What an external operation returns for the nodes that it is called with. -/
def returned (e : Engine) (call : ExternalCall) (arguments : List NodeId) (named : Dict NodeId) :
    Outcome Datum := do
  let operation ← e.externals.find call.library call.op
  let input ← e.inputOf call arguments named
  operation input

section Calls

variable {e : Engine} (h : Graph.Ordered e.graph.entries)

include h

/-- What is got for named nodes. -/
lemma answer_materializeNamed (named : Dict NodeId) :
    (materializeNamed e e.access named).answer =
      named.mapM fun entry => (e.received entry.2).map fun datum => (entry.1, datum) := by
  have hV := coherent_nil e
  have hone : ∀ id, Transparent e.Coherent (materialize e e.access id) :=
    fun id => transparent_materialize hV (e.transparentAt h id)
  induction named with
  | nil => rfl
  | cons entry rest ih =>
    obtain ⟨name, id⟩ := entry
    have hrest : Transparent e.Coherent (materializeNamed e e.access rest) :=
      transparent_materializeNamed hV fun id _ => e.transparentAt h id
    rw [materializeNamed, answer_bind hV (hone id) fun _ => transparent_bind hV hrest fun _ =>
      transparent_pure _, List.mapM_cons, ← ih]
    show (e.received id >>= _) = _
    cases e.received id with
    | error fault => rfl
    | ok datum => exact answer_bind hV hrest fun _ => transparent_pure _

/-- **A call of an external operation** is the operation on what is received.

**Proof sketch.** What is asked of the nodes one after the other is answered for each by
itself, since no question changes the answers to later ones (`transparent_materialize`). -/
theorem answer_externalResult (call : ExternalCall) (arguments : List NodeId)
    (named : Dict NodeId) :
    (externalResult e e.access call arguments named).answer =
      e.returned call arguments named := by
  have hV := coherent_nil e
  have hone : ∀ id, Transparent e.Coherent (materialize e e.access id) :=
    fun id => transparent_materialize hV (e.transparentAt h id)
  have hnamed : Transparent e.Coherent (materializeNamed e e.access named) :=
    transparent_materializeNamed hV fun id _ => e.transparentAt h id
  have hall : Transparent e.Coherent (arguments.mapM (materialize e e.access)) :=
    transparent_mapM hV fun id _ => hone id
  unfold externalResult returned
  rw [answer_ofOutcome_bind]
  refine bind_congr fun operation => ?_
  rw [answer_bind hV hall fun _ => transparent_bind hV hnamed fun _ => transparent_ofOutcome _,
    answer_mapM hV hone, inputOf, bind_assoc]
  refine bind_congr fun parents => ?_
  rw [answer_bind hV hnamed fun _ => transparent_ofOutcome _, answer_materializeNamed h,
    bind_assoc]
  rfl

/-- The table that an external operation returns is what it returns, if that is a table. -/
lemma answer_externalTable (name : String) (call : ExternalCall) (arguments : List NodeId)
    (named : Dict NodeId) :
    (externalTable e e.access name call arguments named).answer =
      e.returned call arguments named >>= fun datum => datum.asTable name := by
  have hV := coherent_nil e
  have hresult : Transparent e.Coherent (externalResult e e.access call arguments named) :=
    transparent_externalResult hV call fun id _ => e.transparentAt h id
  rw [externalTable, answer_bind hV hresult fun _ => transparent_ofOutcome _,
    answer_externalResult h]
  rfl

end Calls

section Input

variable {e : Engine} {call : ExternalCall} {arguments : List NodeId} {named : Dict NodeId}

/-- An external operation that gets an input has received every node. -/
lemma exists_received_of_inputOf {input : ExternalInput}
    (h : e.inputOf call arguments named = .ok input) {id : NodeId}
    (hid : id ∈ arguments ++ named.values) : ∃ datum, e.received id = .ok datum := by
  obtain ⟨parents, hparents, h⟩ := Outcome.bind_eq_ok.mp h
  obtain ⟨namedParents, hnamed, -⟩ := Outcome.bind_eq_ok.mp h
  rcases List.mem_append.mp hid with hid | hid
  · exact Outcome.exists_of_mapM_eq_ok hparents hid
  · obtain ⟨entry, hentry, rfl⟩ := List.mem_map.mp hid
    obtain ⟨_, hdatum⟩ := Outcome.exists_of_mapM_eq_ok hnamed hentry
    obtain ⟨datum, hdatum, -⟩ := Outcome.map_eq_ok.mp hdatum
    exact ⟨datum, hdatum⟩

/-- An operation is not called if a node is not received. -/
lemma returned_eq_error {id : NodeId} (hid : id ∈ arguments ++ named.values) {fault : Fault}
    (h : e.received id = .error fault) :
    ∃ fault, e.returned call arguments named = .error fault := by
  cases hreturned : e.returned call arguments named with
  | error fault => exact ⟨fault, rfl⟩
  | ok datum =>
    obtain ⟨operation, -, hcalled⟩ := Outcome.bind_eq_ok.mp hreturned
    obtain ⟨input, hinput, -⟩ := Outcome.bind_eq_ok.mp hcalled
    obtain ⟨datum', hdatum⟩ := exists_received_of_inputOf hinput hid
    cases h.symm.trans hdatum

end Input

/-! ### Datasets -/

/-- There is a table for a dataset with given batches: all of them can take the columns of the
first, or there are none and the type of the dataset is known and one of rows. -/
def Receivable (e : Engine) (id : NodeId) : List Batch → Prop
  | [] => ∃ s fields, (e.schema id).answer = .ok s ∧ s.ty.batchFields = .ok fields
  | first :: rest => ∀ b ∈ first :: rest, b.Joins first.fields

section Datasets

variable {e : Engine} (h : Graph.Ordered e.graph.entries)

include h

/-- All batches of a dataset do not depend on the questions asked before. -/
lemma run_collect (id : NodeId) (earlier : List Question) :
    ((e.collect id).run (e.rememberedAfter earlier)).1 = (e.collect id).answer :=
  (transparent_batchesOf (coherent_nil e) (e.transparentAt h id) _
    (coherent_rememberedAfter h earlier)).1

/-- All batches of a dataset are those of its stream. -/
lemma answer_collect (id : NodeId) :
    (e.collect id).answer = (e.stream id e.settings.batchSize).answer >>= BatchStream.collect :=
  answer_bind (coherent_nil e) ((e.transparentAt h id).stream _) fun _ => transparent_ofOutcome _

/-- The value of a scalar does not depend on the questions asked before. -/
lemma run_value (id : NodeId) (earlier : List Question) :
    ((e.value id).run (e.rememberedAfter earlier)).1 = (e.value id).answer :=
  ((e.transparentAt h id).value _ (coherent_rememberedAfter h earlier)).1

variable {p : NodeId} {parent : Node} (hparent : e.graph.find? p = some parent)
  (hdataset : parent.isDataset = true)

include hparent hdataset

/-- What is got for a dataset follows from its batches. -/
lemma received_of_dataset : e.received p = (e.collect p).answer >>= fun batches =>
    match batches with
    | first :: rest => (Batch.concat first.fields (first :: rest)).map .table
    | [] => (e.schema p).answer >>= fun s => s.ty.batchFields.map fun fields =>
        .table (.empty fields) := by
  have hV := coherent_nil e
  have hid := e.transparentAt h p
  have hnode : e.access.node p = .ok parent := by
    rw [Access.node, access_node?, hparent]
    rfl
  have hempty : ∀ s : Schema, Transparent e.Coherent (do
      return Datum.table (.empty (← Evaluation.ofOutcome s.ty.batchFields))) := fun _ =>
    transparent_bind hV (transparent_ofOutcome _) fun _ => transparent_pure _
  rw [received, materialize, answer_ofOutcome_bind, hnode, Outcome.ok_bind, if_pos hdataset,
    answer_bind hV (transparent_batchesOf hV hid) fun batches => ?_]
  · refine bind_congr fun batches => ?_
    cases batches with
    | nil =>
      dsimp only
      rw [answer_bind hV hid.schema hempty]
      refine bind_congr fun s => ?_
      rw [answer_ofOutcome_bind]
      exact Outcome.bind_ok _ _
    | cons first rest =>
      dsimp only
      rw [answer_ofOutcome_bind]
      exact Outcome.bind_ok _ _
  · cases batches with
    | nil => exact transparent_bind hV hid.schema hempty
    | cons first rest =>
      exact transparent_bind hV (transparent_ofOutcome _) fun _ => transparent_pure _

variable {batches : List Batch} (hcollect : (e.collect p).answer = .ok batches)

include hcollect

/-- **A receivable dataset is received as one table** of all its rows.

**Proof sketch.** Without batches a table without rows is made from the type of the dataset.
With batches they are put under one another, which can be done exactly if each can take the
columns of the first (`Batch.exists_concat_iff`). -/
theorem received_of_receivable (hreceivable : e.Receivable p batches) :
    ∃ t, e.received p = .ok (.table t) ∧ t.size = Batch.totalSize batches ∧
      ((∀ b ∈ batches, ∀ row ∈ b.rows, row.length = t.fields.length) →
        t.rows = batches.flatMap Batch.rows) := by
  rw [received_of_dataset h hparent hdataset, hcollect, Outcome.ok_bind]
  cases batches with
  | nil =>
    obtain ⟨s, fields, hs, hfields⟩ := hreceivable
    refine ⟨.empty fields, ?_, rfl, fun _ => rfl⟩
    dsimp only
    rw [hs, Outcome.ok_bind, hfields]
    rfl
  | cons first rest =>
    have hjoins : ∀ b ∈ first :: rest, b.Joins first.fields := hreceivable
    obtain ⟨t, ht⟩ := Batch.exists_concat_iff.mpr hjoins
    refine ⟨t, congrArg (Except.map Datum.table) ht, BatchStream.size_of_concat ht,
      fun hlength => ?_⟩
    obtain ⟨-, hmake⟩ := Batch.concat_eq_ok.mp ht
    obtain ⟨rfl, -⟩ := Batch.make_eq_ok.mp hmake
    rw [Batch.concat_of_joins hjoins hlength] at ht
    exact (congrArg Batch.rows (Except.ok.inj ht)).symm

/-- **A dataset that is not receivable is not received.** -/
theorem received_eq_error (hreceivable : ¬e.Receivable p batches) :
    ∃ fault, e.received p = .error fault := by
  cases hreceived : e.received p with
  | error fault => exact ⟨fault, rfl⟩
  | ok datum =>
    refine absurd ?_ hreceivable
    rw [received_of_dataset h hparent hdataset, hcollect, Outcome.ok_bind] at hreceived
    cases batches with
    | nil =>
      obtain ⟨s, hs, hreceived⟩ := Outcome.bind_eq_ok.mp hreceived
      obtain ⟨fields, hfields, -⟩ := Outcome.map_eq_ok.mp hreceived
      exact ⟨s, fields, hs, hfields⟩
    | cons first rest =>
      obtain ⟨t, ht, -⟩ := Outcome.map_eq_ok.mp hreceived
      exact Batch.exists_concat_iff.mp ⟨t, ht⟩

end Datasets

/-! ### Nodes made by external operations -/

section External

variable {e : Engine} (h : Graph.Ordered e.graph.entries) {id : NodeId} {node : Node}
  (hnode : e.graph.find? id = some node) {heading : Heading} {call : ExternalCall}
  {arguments : List NodeId} {named : Dict NodeId}
  (horigin : node.origin = .transformed (.step heading (.external call)) arguments named)

include h hnode horigin

/-- The value of a scalar that an external operation makes. -/
lemma answer_value_of_external (hscalar : node.isDataset = false) :
    (e.value id).answer =
      e.returned call arguments named >>= fun datum => datum.asValue heading.name := by
  have hV := coherent_nil e
  have hresult : Transparent e.Coherent (externalResult e e.access call arguments named) :=
    transparent_externalResult hV call fun id _ => e.transparentAt h id
  rw [value_eq h hnode]
  simp only [valueOf, hscalar, Bool.false_eq_true, if_false, horigin]
  rw [answer_bind hV hresult fun _ => transparent_ofOutcome _, answer_externalResult h]
  rfl

/-- The batches of a dataset that an external operation makes. -/
lemma answer_stream_of_external (hdataset : node.isDataset = true) {n : ℕ} (hn : 0 < n) :
    (e.stream id n).answer = (do
      let datum ← e.returned call arguments named
      let table ← datum.asTable heading.name
      .ok (BatchStream.ofList (table.chunks n))) := by
  have hV := coherent_nil e
  have htable : Transparent e.Coherent
      (externalTable e e.access heading.name call arguments named) :=
    transparent_externalTable hV _ call fun id _ => e.transparentAt h id
  rw [stream_eq h hnode]
  simp only [streamOf, resultStreamOf, transformStream, Access.sized, horigin, hdataset,
    if_neg (Nat.ne_of_gt hn), Bool.not_true, Bool.false_eq_true, if_false, Batch.rechunk]
  rw [answer_bind hV htable fun _ => transparent_bind hV (transparent_ofOutcome _) fun _ =>
    transparent_pure _, answer_externalTable h, bind_assoc]
  rfl

/-- The schema of a dataset that an external operation makes. -/
lemma answer_schema_of_external :
    (e.schema id).answer = (do
      let datum ← e.returned call arguments named
      let table ← datum.asTable heading.name
      Schema.ofTable node.name (some table)) := by
  have hV := coherent_nil e
  have htable : Transparent e.Coherent
      (externalTable e e.access heading.name call arguments named) :=
    transparent_externalTable hV _ call fun id _ => e.transparentAt h id
  rw [schema_eq h hnode, Evaluation.answer_cached]
  simp only [schemaOf, horigin]
  rw [answer_bind hV htable fun _ => transparent_ofOutcome _, answer_externalTable h, bind_assoc]
  rfl

end External

/-- **What external operations get for a dataset.** Let all batches of a dataset be had, and let an
external operation be called with it. If the dataset is receivable, the operation gets a table of
all its rows. Otherwise it gets nothing and is not called, whatever it is. What the node shows is
what the operation returns for what it gets.

**Proof sketch.** Whatever was asked before, the answers are those to the first question
(`run_collect`, `run_value`, `run_stream`), and a call is the operation on what is received.
So the claims on the dataset are `received_of_receivable` and `received_eq_error`, and a call
for which one node is not received has no input (`returned_eq_error`). -/
theorem input_of_dataset {idOf : Node → NodeId} {calls : List Graph.Call} {e : Engine}
    (hgraph : e.graph = Graph.after idOf calls) {p : NodeId} {parent : Node}
    (hparent : e.graph.find? p = some parent) (hdataset : parent.isDataset = true)
    (earlier : List Question) {batches : List Batch}
    (hcollect : ((e.collect p).run (e.rememberedAfter earlier)).1 = .ok batches) {id : NodeId}
    {node : Node} (hnode : e.graph.find? id = some node) {heading : Heading} {call : ExternalCall}
    {arguments : List NodeId} {named : Dict NodeId}
    (horigin : node.origin = .transformed (.step heading (.external call)) arguments named)
    (hp : p ∈ arguments ++ named.values) (later : List Question) :
    (e.Receivable p batches → ∃ t, e.received p = .ok (.table t) ∧
      t.size = Batch.totalSize batches ∧
      ((∀ b ∈ batches, ∀ row ∈ b.rows, row.length = t.fields.length) →
        t.rows = batches.flatMap Batch.rows)) ∧
    (¬e.Receivable p batches → (∃ fault, e.received p = .error fault) ∧
      ∃ fault, e.returned call arguments named = .error fault) ∧
    (node.isDataset = false → ((e.value id).run (e.rememberedAfter later)).1 =
      e.returned call arguments named >>= fun datum => datum.asValue heading.name) ∧
    (node.isDataset = true → ∀ n, 0 < n → ((e.stream id n).run (e.rememberedAfter later)).1 = (do
      let datum ← e.returned call arguments named
      let table ← datum.asTable heading.name
      .ok (BatchStream.ofList (table.chunks n)))) := by
  have hordered : Graph.Ordered e.graph.entries := hgraph ▸ Graph.ordered_after idOf calls
  rw [run_collect hordered] at hcollect
  refine ⟨received_of_receivable hordered hparent hdataset hcollect, fun hreceivable => ?_,
    fun hscalar => ?_, fun hrows n hn => ?_⟩
  · obtain ⟨fault, hfault⟩ := received_eq_error hordered hparent hdataset hcollect hreceivable
    exact ⟨⟨fault, hfault⟩, returned_eq_error hp hfault⟩
  · rw [run_value hordered, answer_value_of_external hordered hnode horigin hscalar]
  · rw [run_stream hordered, answer_stream_of_external hordered hnode horigin hrows hn]

/-! ### Which datasets are receivable -/

section Receivable

variable {e : Engine} (h : Graph.Ordered e.graph.entries) {p : NodeId} {node : Node}
  (hnode : e.graph.find? p = some node)

/-- Batches of the same columns are received. -/
lemma receivable_of_fields {batches : List Batch} (hne : batches ≠ []) {fields : List Field}
    (hformed : ∀ b ∈ batches, b.FormedOf fields) : e.Receivable p batches := by
  obtain ⟨first, rest, rfl⟩ := List.exists_cons_of_ne_nil hne
  intro b hb
  rw [(hformed first List.mem_cons_self).fields_eq]
  exact (hformed b hb).joins

include h hnode

/-- **Rows are received** if the batches of every source have the same columns.

**Proof sketch.** The dataset is seen as one table that is cut (`cutsTable_stream`), so that
all of its batches have the same columns. -/
theorem receivable_of_uniform (hcatalog : e.catalog.Uniform) {batches : List Batch}
    (hcollect : (e.collect p).answer = .ok batches) (hne : batches ≠ [])
    (hformed : ∀ b ∈ batches, b.FormedOf b.fields) : e.Receivable p batches := by
  obtain ⟨stream, hstream, hbatches⟩ :=
    Outcome.bind_eq_ok.mp ((answer_collect h p).symm.trans hcollect)
  rcases Nat.eq_zero_or_pos e.settings.batchSize with hn | hn
  · rw [hn, stream_eq h hnode] at hstream
    cases hstream
  · obtain ⟨hend, rfl⟩ := BatchStream.collect_eq_ok.mp hbatches
    obtain ⟨table, htable⟩ := cutsTable_stream h hcatalog p _ stream hn hstream hend
    obtain rfl : BatchStream.ofList (table.chunks e.settings.batchSize) = stream :=
      Except.ok.inj ((htable _ hn).symm.trans hstream)
    have hsame : ∀ b ∈ table.chunks e.settings.batchSize, b.FormedOf table.fields := by
      intro b hb
      rw [← Batch.fields_of_mem_chunks hb]
      exact hformed b hb
    exact receivable_of_fields hne hsame

/-- **No rows of a source** are received exactly if its type is known to be one of rows. -/
theorem receivable_source_iff {uri : String} {schema : Schema}
    (horigin : node.origin = .source uri schema) :
    e.Receivable p [] ↔ ∃ fields, schema.ty.batchFields = .ok fields := by
  have hschema : (e.schema p).answer = .ok schema := by
    rw [schema_eq h hnode, Evaluation.answer_cached]
    simp only [schemaOf, horigin]
    rfl
  constructor
  · rintro ⟨s, fields, hs, hfields⟩
    obtain rfl := Except.ok.inj (hschema.symm.trans hs)
    exact ⟨fields, hfields⟩
  · rintro ⟨fields, hfields⟩
    exact ⟨schema, fields, hschema, hfields⟩

/-- **No rows of a part** are not received if the part is not one of rows.

**Proof sketch.** The type of the dataset is that of the part, and only types of rows have
columns. -/
theorem not_receivable_of_getItem {heading : Heading} {path : Path} {parent : NodeId}
    (horigin : node.origin = .transformed (.step heading (.getItem path)) [parent] [])
    {found : Node} (hfound : e.graph.find? parent = some found)
    (hdataset : found.isDataset = true) {s : Schema} (hs : (e.schema parent).answer = .ok s)
    (hwrapper : s.hasWrapper = false) {part : Ty} (hpart : s.item path = .ok part)
    (hrows : ¬part.IsRows) : ¬e.Receivable p [] := by
  rintro ⟨s', fields, hs', hfields⟩
  have hschema : (e.schema p).answer = node.schemaAfter (.step heading (.getItem path)) s := by
    rw [schema_eq h hnode, Evaluation.answer_cached]
    simp only [schemaOf, horigin]
    rw [answer_derivedSchema h rfl hfound hdataset, hs]
    rfl
  rw [hschema] at hs'
  obtain ⟨result, hresult, hready⟩ := Outcome.bind_eq_ok.mp hs'
  obtain ⟨part', hpart', hresult⟩ := Outcome.bind_eq_ok.mp hresult
  obtain ⟨derived, hderived, hresult⟩ := Outcome.bind_eq_ok.mp hresult
  cases hresult
  cases hready
  obtain rfl := Except.ok.inj (hpart.symm.trans hpart')
  have hty : s'.ty = s.rewrap part := (Schema.of_derive hderived).1
  rw [Schema.rewrap, hwrapper, if_neg Bool.false_ne_true] at hty
  exact hrows (hty ▸ Ty.isRows_of_batchFields hfields)

/-- **No rows that an external operation returned** are not received by another one. -/
theorem not_receivable_of_external {heading : Heading} {call : ExternalCall}
    {arguments : List NodeId} {named : Dict NodeId}
    (horigin : node.origin = .transformed (.step heading (.external call)) arguments named)
    (hdataset : node.isDataset = true) (hcollect : (e.collect p).answer = .ok []) :
    ¬e.Receivable p [] := by
  rintro ⟨s, fields, hs, -⟩
  rw [answer_schema_of_external h hnode horigin] at hs
  obtain ⟨datum, hdatum, hs⟩ := Outcome.bind_eq_ok.mp hs
  obtain ⟨table, htable, hs⟩ := Outcome.bind_eq_ok.mp hs
  obtain ⟨stream, hstream, hbatches⟩ :=
    Outcome.bind_eq_ok.mp ((answer_collect h p).symm.trans hcollect)
  rcases Nat.eq_zero_or_pos e.settings.batchSize with hn | hn
  · rw [hn, stream_eq h hnode] at hstream
    cases hstream
  · rw [answer_stream_of_external h hnode horigin hdataset hn, hdatum, Outcome.ok_bind, htable,
      Outcome.ok_bind] at hstream
    cases hstream
    -- A table that is cut into no batches has no rows, and no type is told from it.
    have hchunks : table.chunks e.settings.batchSize = [] := Except.ok.inj hbatches
    have hrows : table.rows = [] := by
      rw [← Batch.flatMap_rows_chunks hn table, hchunks]
      rfl
    rw [Schema.ofTable, hrows] at hs
    cases hs

end Receivable

/-! ### The digits of no rows -/

/-- An operation that counts the tables that it gets. -/
def countTables (arguments : Json) : ExternalCall := ⟨"demo", "count", arguments, .scalar⟩

/-- No rows with a digit, the digit alone, and the number of tables that an operation gets for the
rows, and for the digit. Nodes are told apart by the lengths of their names. -/
def noDigits : Engine where
  settings := .default
  graph := .after (fun node => ⟨[node.name.length.toUInt8]⟩)
    [.source "s" "memory://s" (.ofTy "s" (.struct [("a", .integer 0 9)])),
      .transformedAs "pp" (.ofStep (.getItem (.ofLabels ["a"]))) [⟨[1]⟩] [],
      .transformedAs "xxx" (.ofStep (.external (countTables .null))) [⟨[1]⟩] [],
      .transformedAs "yyyy" (.ofStep (.external (countTables .null))) [⟨[2]⟩] []]
  catalog := ⟨[("s", [])], fun _ => .missing⟩
  externals := ⟨[("demo.count", fun input => .ok (.value (.int input.parents.length)))]⟩
  queries := Query.run
  entropy := .ofSeed 0

/-- The rows are received as a table without rows. For the digit nothing is received, and the
operation is not called. -/
theorem input_of_dataset_noDigits :
    (∃ t, noDigits.received ⟨[1]⟩ = .ok (.table t) ∧ t.size = 0) ∧
    ((noDigits.value ⟨[3]⟩).run (noDigits.rememberedAfter [.value ⟨[4]⟩])).1 = .ok (.int 1) ∧
    ∃ fault, noDigits.returned (countTables .null) [⟨[2]⟩] [] = .error fault := by
  have hcount : noDigits.graph.find? ⟨[3]⟩ = some (.ofOrigin "xxx" .scalar
      (.transformed (.ofStep (.external (countTables .null))) [⟨[1]⟩] [])) := rfl
  have hfail : noDigits.graph.find? ⟨[4]⟩ = some (.ofOrigin "yyyy" .scalar
      (.transformed (.ofStep (.external (countTables .null))) [⟨[2]⟩] [])) := rfl
  obtain ⟨hreceived, -, hvalue, -⟩ := input_of_dataset (e := noDigits) rfl (p := ⟨[1]⟩) rfl rfl []
    rfl hcount rfl List.mem_cons_self [.value ⟨[4]⟩]
  obtain ⟨-, hmissing, -, -⟩ := input_of_dataset (e := noDigits) rfl (p := ⟨[2]⟩) rfl rfl []
    rfl hfail rfl List.mem_cons_self []
  have hrows : noDigits.Receivable ⟨[1]⟩ [] := ⟨_, _, rfl, rfl⟩
  have hdigit : ¬noDigits.Receivable ⟨[2]⟩ [] := by
    have hpart : (Schema.ofTy "s" (.struct [("a", .integer 0 9)])).item (.ofLabels ["a"]) =
        .ok (.integer 0 9) := by cbv
    exact not_receivable_of_getItem (Graph.ordered_after _ _) rfl rfl rfl rfl rfl rfl hpart id
  obtain ⟨t, ht, hsize, -⟩ := hreceived hrows
  exact ⟨⟨t, ht, hsize⟩, hvalue rfl, (hmissing hdigit).2⟩

/-- The digit of no rows can be had in all batches, there are none. No table is received for it, and
what the operation would count cannot be had. -/
theorem not_received_noDigits :
    ((noDigits.collect ⟨[2]⟩).run []).1 = .ok [] ∧
    (∀ t, noDigits.received ⟨[2]⟩ ≠ .ok (.table t)) ∧
    ((noDigits.value ⟨[4]⟩).run []).1 =
      .error (.schema "a integer type does not describe a record batch") := by
  have hreceived : noDigits.received ⟨[2]⟩ =
      .error (.schema "a integer type does not describe a record batch") := by cbv
  refine ⟨rfl, fun t ht => ?_, by cbv⟩
  cases hreceived.symm.trans ht

end Engine

end Lineage
