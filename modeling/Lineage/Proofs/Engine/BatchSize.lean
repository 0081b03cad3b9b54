import Lineage.Proofs.Csv.Table
import Lineage.Proofs.Engine.Memory
import Lineage.Proofs.Stream.Operation
import Lineage.Proofs.Ty.Columns

set_option autoImplicit false

/-!
# Batches of any size show the same rows

The rows of a dataset do not depend on the size of the batches that are asked for, although this
size reaches the sources and every operation on the way. What is seen of a dataset is always a
table, cut.

## Main definitions

* `Lineage.CutsTable`: what is seen in batches of any size is the same table.
* `Lineage.Catalog.Uniform`: all batches under a key have the same columns.

## Main results

* `Lineage.Engine.cutsTable_stream`: every dataset of an ordered graph is seen as a table.
* `Lineage.Engine.stream_of_other_size`: if a dataset is seen to its end in batches of one size, it
  is in batches of any other, with the same rows.
-/

namespace Lineage

open BatchStream (ofList)

/-- If for some size of the batches a stream ends well, it is a table that is cut, the same one for
all sizes. -/
def CutsTable (x : ℕ → Outcome BatchStream) : Prop :=
  ∀ n s, 0 < n → x n = .ok s → s.failure = none →
    ∃ table : Batch, ∀ m, 0 < m → x m = .ok (ofList (table.chunks m))

namespace CutsTable

variable {α : Type}

/-- A stream that cannot be had. -/
lemma ofError (fault : Fault) : CutsTable fun _ => .error fault :=
  fun _ _ _ hs => by cases hs

/-- Streams that are the same for all sizes but zero. -/
lemma congr {x y : ℕ → Outcome BatchStream} (hx : CutsTable x) (h : ∀ n, 0 < n → y n = x n) :
    CutsTable y := by
  intro n s hn hs hend
  obtain ⟨table, htable⟩ := hx n s hn ((h n hn).symm.trans hs) hend
  exact ⟨table, fun m hm => (h m hm).trans (htable m hm)⟩

/-- A stream that is only asked for if something is found that does not depend on the size. -/
lemma bind {y : Outcome α} {x : α → ℕ → Outcome BatchStream}
    (h : ∀ a, y = .ok a → CutsTable (x a)) : CutsTable fun n => y >>= fun a => x a n := by
  cases y with
  | error fault => exact ofError fault
  | ok a => exact h a rfl

/-- A table that is cut. -/
lemma ofRechunk (table : Batch) : CutsTable fun n => (table.rechunk n).map ofList := by
  intro n s hn hs hend
  refine ⟨table, fun m hm => ?_⟩
  simp only [Batch.rechunk, if_neg (Nat.ne_of_gt hm)]
  rfl

/-- **A stream made of another one**, if it is a table whenever the other one is.

**Proof sketch.** The other stream ends well if the one made of it does, so it is a table that
is cut. -/
theorem map {x : ℕ → Outcome BatchStream} (hx : CutsTable x) {g : ℕ → BatchStream → BatchStream}
    (hend : ∀ n s, (g n s).failure = none → s.failure = none)
    (hg : ∀ (table : Batch) n, 0 < n → (g n (ofList (table.chunks n))).failure = none →
      ∃ result : Batch, ∀ m, 0 < m →
        g m (ofList (table.chunks m)) = ofList (result.chunks m)) :
    CutsTable fun n => (x n).map (g n) := by
  intro n s hn hs hfailure
  obtain ⟨input, hinput, rfl⟩ := Outcome.map_eq_ok.mp hs
  obtain ⟨table, htable⟩ := hx n input hn hinput (hend n input hfailure)
  obtain ⟨⟩ : ofList (table.chunks n) = input := Except.ok.inj ((htable n hn).symm.trans hinput)
  obtain ⟨result, hresult⟩ := hg table n hn hfailure
  refine ⟨result, fun m hm => ?_⟩
  simp only [htable m hm]
  exact congrArg Except.ok (hresult m hm)

end CutsTable

/-! ### Sources -/

namespace Catalog

/-- All batches under a key have the same columns. -/
def Uniform (c : Catalog) : Prop :=
  ∀ entry ∈ c.memory, ∃ fields, ∀ b ∈ entry.2, b.fields = fields

/-- Batches of the same columns are regrouped. -/
lemma cutsTable_regroup {fields : List Field} {batches : List Batch}
    (h : ∀ b ∈ batches, b.fields = fields) :
    CutsTable fun n => .ok ((ofList batches).regroup n) := by
  intro n s hn hs hend
  cases hs
  obtain ⟨-, hnulls⟩ := BatchStream.of_regroup hn h hend
  exact ⟨_, fun m hm => congrArg Except.ok (BatchStream.regroup_eq hm h hnulls)⟩

/-- Rows that are cut, checked and regrouped. -/
lemma cutsTable_batchesOfRows (type : Ty) (columns : List Field) (rows : List (List Cell)) :
    CutsTable fun n => (do
      let batches ← Csv.batchesOfRows columns (max n 1) rows
      batches.forM type.checkBatch
      .ok batches).map fun batches => (ofList batches).regroup n := by
  -- A table is as its type says exactly when the batches are that it is cut into.
  have hload : ∀ n, 0 < n → ∀ batches, (do
      let batches ← Csv.batchesOfRows columns (max n 1) rows
      batches.forM type.checkBatch
      .ok batches : Outcome (List Batch)) = .ok batches ↔
        batches = Batch.chunks n ⟨columns, rows⟩ ∧ (∀ row ∈ rows, Batch.Allows columns row) ∧
          (rows = [] ∨ type.checkBatch ⟨columns, rows⟩ = .ok ()) := by
    intro n hn batches
    have hcheck : (∀ chunk ∈ Batch.chunks n ⟨columns, rows⟩, type.checkBatch chunk = .ok ()) ↔
        rows = [] ∨ type.checkBatch ⟨columns, rows⟩ = .ok () := by
      rw [← Batch.forall_mem_chunks_iff (P := fun rows => type.checkBatch ⟨columns, rows⟩ = .ok ())
        hn fun _ _ => Ty.checkBatch_append]
      refine forall₂_congr fun chunk hchunk => ?_
      have hfields : chunk.fields = columns := Batch.fields_of_mem_chunks hchunk
      rw [← hfields]
    rw [Nat.max_eq_left hn, ← hcheck]
    simp only [Outcome.bind_eq_ok, Csv.batchesOfRows_eq_ok hn, Except.ok.injEq]
    constructor
    · rintro ⟨_, ⟨rfl, hrows⟩, _, hforM, rfl⟩
      exact ⟨rfl, hrows, Outcome.forM_eq_ok.mp hforM⟩
    · rintro ⟨rfl, hrows, hall⟩
      exact ⟨_, ⟨rfl, hrows⟩, (), Outcome.forM_eq_ok.mpr hall, rfl⟩
  intro n s hn hs hend
  obtain ⟨batches, hbatches, rfl⟩ := Outcome.map_eq_ok.mp hs
  obtain ⟨-, hrows, hcheck⟩ := (hload n hn batches).mp hbatches
  refine ⟨Batch.conform ⟨columns, rows⟩, fun m hm => ?_⟩
  simp only [(hload m hm _).mpr ⟨rfl, hrows, hcheck⟩]
  have hshown := Batch.flatMap_rows_chunks hm ⟨columns, rows⟩
  have hregroup := BatchStream.regroup_eq (s := ofList (Batch.chunks m ⟨columns, rows⟩)) hm
    (fun b hb => Batch.fields_of_mem_chunks hb) (by rwa [ofList, hshown])
  rw [show (ofList (Batch.chunks m ⟨columns, rows⟩)).batches.flatMap Batch.rows = rows from hshown]
    at hregroup
  exact congrArg Except.ok hregroup

/-- The rows of a file, cut into batches of any size. -/
lemma cutsTable_readText (columns : List Field) (type : Ty) (text : String) :
    CutsTable fun n => (do
      let batches ← Csv.readBatches columns (max n 1) text
      batches.forM type.checkBatch
      .ok batches).map fun batches => (ofList batches).regroup n := by
  rcases Csv.readBatches_cases columns text with ⟨fault, hfault⟩ | ⟨rows, hrows⟩
  · simp only [hfault]
    exact CutsTable.ofError _
  · have hmax : ∀ n, 0 < max n 1 := fun n => Nat.lt_of_lt_of_le one_pos (Nat.le_max_right n 1)
    simp only [hrows _ (hmax _)]
    exact cutsTable_batchesOfRows type columns rows

/-- **The rows of a source do not depend on the size of the batches.**

**Proof sketch.** Batches at hand have the same columns and are regrouped. A file is read into
rows in the same way for all sizes, and cut afterwards, so that only the cut batches are
checked: they pass exactly if the table does (`cutsTable_batchesOfRows`). -/
theorem cutsTable_load {c : Catalog} (h : c.Uniform) (uri : String) (type : Ty) :
    CutsTable fun n => (c.load uri type n).map fun batches => (ofList batches).regroup n := by
  unfold load read
  cases Address.ofText uri with
  | other => exact CutsTable.ofError _
  | key key =>
    dsimp only
    cases hfound : c.batches? key with
    | none => exact CutsTable.ofError _
    | some batches =>
      obtain ⟨entry, hentry, rfl⟩ := Option.map_eq_some_iff.mp hfound
      obtain ⟨fields, hfields⟩ := h entry (List.mem_of_find?_eq_some hentry)
      cases hcheck : entry.2.forM type.checkBatch with
      | error fault =>
        simp only [Outcome.ofOption, Outcome.ok_bind, hcheck]
        exact CutsTable.ofError fault
      | ok =>
        simp only [Outcome.ofOption, Outcome.ok_bind, hcheck]
        exact cutsTable_regroup hfields
  | path path =>
    dsimp only
    cases c.openFile uri path with
    | error fault => exact CutsTable.ofError _
    | ok content =>
      cases type.batchFields with
      | error fault => exact CutsTable.ofError _
      | ok columns =>
        cases content with
        | none => exact CutsTable.ofError _
        | some text =>
          simp only [Outcome.ok_bind]
          exact cutsTable_readText columns type text

end Catalog

/-! ### Operations on all rows -/

/-- **All rows of a table that is cut**, as one batch. -/
theorem BatchStream.table_chunks {n : ℕ} (hn : 0 < n) (table : Batch) :
    (ofList (table.chunks n)).table = if table.rows = [] then .ok none
      else (Batch.make table.fields (Batch.conform table).rows).map some := by
  obtain ⟨fields, rows⟩ := table
  by_cases hnil : rows = []
  · rw [hnil, Batch.chunks_nil hn, if_pos rfl]
    rfl
  · rw [if_neg hnil]
    have hrows := Batch.flatMap_rows_chunks hn ⟨fields, rows⟩
    have hfields : ∀ b ∈ Batch.chunks n ⟨fields, rows⟩, b.fields = fields :=
      fun b hb => Batch.fields_of_mem_chunks hb
    cases hchunks : Batch.chunks n ⟨fields, rows⟩ with
    | nil =>
      rw [hchunks] at hrows
      exact absurd hrows.symm hnil
    | cons first rest =>
      rw [hchunks] at hrows hfields
      show (Batch.concat first.fields (first :: rest)).map some = _
      rw [hfields first List.mem_cons_self, Batch.concat_of_stores fun b hb i f hf =>
        ⟨f, (hfields b hb).symm ▸ hf, rfl⟩, ← List.map_flatMap, hrows]
      rfl

/-- All rows of a stream can be had only if it ends well. -/
lemma BatchStream.failure_of_table {s : BatchStream} {table : Option Batch}
    (h : s.table = .ok table) : s.failure = none := by
  obtain ⟨batches, hbatches, -⟩ := Outcome.bind_eq_ok.mp h
  unfold collect at hbatches
  split at hbatches
  · assumption
  · cases hbatches

/-- A stream that does not fail at once has been computed. -/
lemma BatchStream.ofOutcome_failure_eq_none {outcome : Outcome (List Batch)} :
    (BatchStream.ofOutcome outcome).failure = none ↔ ∃ batches, outcome = .ok batches := by
  cases outcome <;> simp [ofOutcome, ofList, failed]

namespace CutsTable

/-- **A table that is computed from all rows and cut.** -/
theorem ofTable {x : ℕ → Outcome BatchStream} (hx : CutsTable x)
    {g : Option Batch → Outcome Batch} : CutsTable fun n => (x n).map fun input =>
      .ofOutcome (input.table >>= fun table => g table >>= Batch.rechunk n) := by
  refine hx.map (fun n s hend => ?_) fun table n hn hend => ?_
  · obtain ⟨batches, hbatches⟩ := BatchStream.ofOutcome_failure_eq_none.mp hend
    obtain ⟨table, htable, -⟩ := Outcome.bind_eq_ok.mp hbatches
    exact BatchStream.failure_of_table htable
  · obtain ⟨batches, hbatches⟩ := BatchStream.ofOutcome_failure_eq_none.mp hend
    obtain ⟨all, hall, hrest⟩ := Outcome.bind_eq_ok.mp hbatches
    obtain ⟨result, hresult, -⟩ := Outcome.bind_eq_ok.mp hrest
    refine ⟨result, fun m hm => ?_⟩
    rw [BatchStream.table_chunks hn, ← BatchStream.table_chunks hm] at hall
    rw [hall, Outcome.ok_bind, hresult, Outcome.ok_bind, Batch.rechunk, if_neg (Nat.ne_of_gt hm)]
    rfl

end CutsTable

/-! ### Nodes -/

namespace Engine

open Evaluation (answer_bind answer_ofOutcome answer_pure answer_throw transparent_pure
  transparent_throw transparent_ofOutcome transparent_bind)

section Level

variable {e : Engine} {a : Access} {V : SchemaCache → Prop} (hV : V [])

include hV

/-- The batches of an operation on one batch at a time. -/
lemma cutsTable_batchwise (operation : BatchOperation) {id : NodeId} (hid : a.TransparentAt V id)
    (h : CutsTable fun n => (a.stream id n).answer) :
    CutsTable fun n => (batchwise a operation id n).answer := by
  simp only [answer_batchwise hV operation _ hid]
  refine h.map (fun n s hend => ?_) fun table n hn hend => ?_
  · exact (BatchStream.mapFrom_failure_eq_none.mp (BatchStream.failure_of_regroup hend)).1
  · exact operation.separable.exists_table table hn hend

/-- The batches of an operation on all rows. -/
lemma cutsTable_tablewise (operation : TableOperation) {id : NodeId} (hid : a.TransparentAt V id)
    (h : CutsTable fun n => (a.stream id n).answer) :
    CutsTable fun n => (tablewise e a operation id n).answer := by
  simp only [answer_tablewise hV operation _ hid]
  refine CutsTable.bind fun _ hvalid => ?_
  refine (h.ofTable (g := fun table => table.elim (operation.onEmpty.map fun _ => .empty [])
    (operation.evaluate .ofWords e.generator))).congr fun n hn => ?_
  congr 1
  funext input
  simp only [TableOperation.stream, hvalid, TableOperation.results]
  congr 1
  refine bind_congr fun table => ?_
  cases table with
  | none =>
    cases operation.onEmpty with
    | error fault => rfl
    | ok =>
      show (.ok [] : Outcome (List Batch)) = Batch.rechunk n (.empty [])
      rw [Batch.rechunk, if_neg (Nat.ne_of_gt hn), Batch.empty, Batch.chunks_nil hn]
  | some table => rfl

/-- The batches of the result of a query. -/
lemma cutsTable_queryStream (parent : Node) (query : String) {id : NodeId}
    (hid : a.TransparentAt V id) (h : CutsTable fun n => (a.stream id n).answer) :
    CutsTable fun n => (do
      let input ← a.stream id n
      return e.queryStream parent input query n : Evaluation BatchStream).answer := by
  have hanswer : ∀ n, (do
      let input ← a.stream id n
      return e.queryStream parent input query n : Evaluation BatchStream).answer =
        (a.stream id n).answer.map fun input => e.queryStream parent input query n := by
    intro n
    rw [answer_bind hV (hid.stream n) fun _ => transparent_pure _]
    exact Outcome.bind_ok _ _
  simp only [hanswer]
  exact h.ofTable

/-- The batches of a step on a dataset. -/
lemma cutsTable_stepStream (parent : Node) (content : Step) {id : NodeId}
    (hid : a.TransparentAt V id) (h : CutsTable fun n => (a.stream id n).answer) :
    CutsTable fun n => (stepStream e a id parent n content).answer := by
  -- The wrapper and the type of the parent are the same for all sizes.
  have hschema : ∀ operation : Schema → BatchOperation, CutsTable fun n =>
      (a.schema id >>= fun schema => batchwise a (operation schema) id n).answer := by
    intro operation
    have hbatchwise : ∀ n schema, Evaluation.Transparent V (batchwise a (operation schema) id n) :=
      fun n schema => transparent_batchwise hV _ n hid
    simp only [answer_bind hV hid.schema (hbatchwise _)]
    exact CutsTable.bind fun schema _ => cutsTable_batchwise hV _ hid h
  cases content with
  | filter target => exact hschema fun schema => .filter target schema.hasWrapper
  | project target => exact hschema fun schema => .project target schema.hasWrapper
  | getItem path => exact hschema fun schema => .getItem path schema.payload schema.hasWrapper
  | sample size => exact cutsTable_tablewise hV (.sample size) hid h
  | slice start stop => exact cutsTable_tablewise hV (.slice start stop) hid h
  | extract size seed => exact cutsTable_tablewise hV (.extract size seed) hid h
  | shuffle => exact cutsTable_tablewise hV .shuffle hid h
  | selectSql query => exact cutsTable_queryStream hV parent query hid h
  | _ => exact CutsTable.ofError _

/-- The batches of a node that is made from others. -/
lemma cutsTable_transformStream (node : Node) (t : Transform) {arguments : List NodeId}
    {named : Dict NodeId} (hids : ∀ id ∈ arguments ++ named.values, a.TransparentAt V id)
    (h : ∀ id ∈ arguments ++ named.values, CutsTable fun n => (a.stream id n).answer) :
    CutsTable fun n => (transformStream e a node t arguments named n).answer := by
  unfold transformStream
  cases node.isDataset
  · exact CutsTable.ofError _
  simp only [Bool.not_true, Bool.false_eq_true, if_false]
  split
  · rename_i heading call
    have htable := transparent_externalTable (e := e) hV heading.name call hids
    have hcut : ∀ n table, Evaluation.Transparent V (do
        return .ofList (← Evaluation.ofOutcome (Batch.rechunk n table)) :
          Evaluation BatchStream) :=
      fun n table => transparent_bind hV (transparent_ofOutcome _) fun _ => transparent_pure _
    simp only [answer_bind hV htable (hcut _)]
    refine CutsTable.bind fun table _ => (CutsTable.ofRechunk table).congr fun n _ => ?_
    rw [answer_bind hV (transparent_ofOutcome _) fun _ => transparent_pure _]
    exact Outcome.bind_ok _ _
  · cases hfound : datasetParent a node arguments named with
    | error fault => exact CutsTable.ofError fault
    | ok found =>
      have hid := mem_of_datasetParent hfound
      exact cutsTable_stepStream hV found.2 _ (hids _ hid) (h _ hid)
  · cases datasetParent a node arguments named with
    | error fault => exact CutsTable.ofError fault
    | ok found => exact CutsTable.ofError _

/-- **The batches of a node show a table, cut, if those of its parents do.**

**Proof sketch.** By what the node is made from. A source is loaded; an external operation
returns a table, which is cut; and a step keeps the property of its parent, whether it takes
one batch at a time or all rows at once. -/
theorem cutsTable_streamOf (hcatalog : e.catalog.Uniform) {node : Node}
    (hids : ∀ id ∈ node.parents, a.TransparentAt V id)
    (h : ∀ id ∈ node.parents, CutsTable fun n => (a.stream id n).answer) :
    CutsTable fun n => (streamOf e a node n).answer := by
  unfold streamOf resultStreamOf
  cases horigin : node.origin with
  | value content =>
    refine (CutsTable.ofError (notDataset node)).congr fun n hn => ?_
    rw [Access.sized, if_neg (Nat.ne_of_gt hn)]
    rfl
  | source uri schema =>
    refine (Catalog.cutsTable_load hcatalog uri schema.ty).congr fun n hn => ?_
    rw [Access.sized, if_neg (Nat.ne_of_gt hn),
      answer_bind hV (transparent_ofOutcome _) fun _ => transparent_pure _]
    exact Outcome.bind_ok _ _
  | transformed t arguments named =>
    simp only [Node.parents, horigin] at hids h
    refine (cutsTable_transformStream (e := e) hV node t hids h).congr fun n hn => ?_
    simp only [Access.sized, if_neg (Nat.ne_of_gt hn)]

end Level

/-- **Every dataset of an ordered graph is seen as a table, cut.**

**Proof sketch.** By induction on the graph, in which each node comes after its parents. A
node that is not there cannot be had for any size. -/
theorem cutsTable_stream {e : Engine} (h : Graph.Ordered e.graph.entries)
    (hcatalog : e.catalog.Uniform) (id : NodeId) :
    CutsTable fun n => (e.stream id n).answer := by
  cases hid : e.graph.find? id with
  | none =>
    have hsame := (access_of_absent hid).stream
    refine (CutsTable.ofError (Access.absent id)).congr fun n hn => ?_
    rw [Engine.stream, hsame]
    show (Access.sized n (throw (Access.absent id))).answer = _
    rw [Access.sized, if_neg (Nat.ne_of_gt hn)]
    rfl
  | some node =>
    refine h.induction (P := fun id => CutsTable fun n => (e.stream id n).answer)
      (fun id node hnode hparents => ?_) id (Option.isSome_of_eq_some hid)
    simp only [stream_eq h hnode]
    exact cutsTable_streamOf (coherent_nil e) hcatalog (fun id _ => e.transparentAt h id) hparents

/-- What is seen of a dataset does not depend on the questions asked before. -/
lemma run_stream {e : Engine} (h : Graph.Ordered e.graph.entries) (id : NodeId) (n : ℕ)
    (earlier : List Question) :
    ((e.stream id n).run (e.rememberedAfter earlier)).1 = (e.stream id n).answer :=
  ((e.transparentAt h id).stream n _ (coherent_rememberedAfter h earlier)).1

/-- The schema of a dataset does not depend on the questions asked before. -/
lemma run_schema {e : Engine} (h : Graph.Ordered e.graph.entries) (id : NodeId)
    (earlier : List Question) :
    ((e.schema id).run (e.rememberedAfter earlier)).1 = (e.schema id).answer :=
  ((e.transparentAt h id).schema _ (coherent_rememberedAfter h earlier)).1

/-- **Batches of any size show the same rows.** If a dataset is seen to its end in batches of `n`
rows, it is in batches of `m`, whatever was asked before. It has the same rows in the same columns,
and of the batches only the last may have fewer rows than was asked for.

**Proof sketch.** What is seen does not depend on earlier questions (`run_stream`), and is the
same table, cut, for both sizes (`cutsTable_stream`). -/
theorem stream_of_other_size {idOf : Node → NodeId} {calls : List Graph.Call} {e : Engine}
    (hgraph : e.graph = Graph.after idOf calls) (hcatalog : e.catalog.Uniform) {d : NodeId}
    {n m : ℕ} (hn : 0 < n) (hm : 0 < m) (earlier later : List Question) {s : BatchStream}
    (hs : ((e.stream d n).run (e.rememberedAfter earlier)).1 = .ok s) (hend : s.failure = none) :
    ∃ t, ((e.stream d m).run (e.rememberedAfter later)).1 = .ok t ∧ t.failure = none ∧
      t.batches.flatMap Batch.rows = s.batches.flatMap Batch.rows ∧
      (∃ fields, ∀ b ∈ s.batches ++ t.batches, b.fields = fields) ∧
      Batch.SizedBy n s.batches ∧ Batch.SizedBy m t.batches := by
  have hordered : Graph.Ordered e.graph.entries := hgraph ▸ Graph.ordered_after idOf calls
  rw [run_stream hordered] at hs
  obtain ⟨table, htable⟩ := cutsTable_stream hordered hcatalog d n s hn hs hend
  obtain rfl : ofList (table.chunks n) = s := Except.ok.inj ((htable n hn).symm.trans hs)
  refine ⟨ofList (table.chunks m), ?_, rfl, ?_, ⟨table.fields, fun b hb => ?_⟩,
    Batch.sizedBy_chunks hn table, Batch.sizedBy_chunks hm table⟩
  · rw [run_stream hordered]
    exact htable m hm
  · rw [ofList, ofList, Batch.flatMap_rows_chunks hm, Batch.flatMap_rows_chunks hn]
  · rcases List.mem_append.mp hb with hb | hb
    · exact Batch.fields_of_mem_chunks hb
    · exact Batch.fields_of_mem_chunks hb

/-! ### Numbers above one -/

/-- Rows of a whole number. -/
def numbersBetween (min max : Int) : Ty := .struct [("number", .integer min max)]

/-- The columns of such rows. -/
def numberFields : List Field := [⟨"number", .int64, false⟩]

/-- The numbers from one to three in two batches, and a filter that keeps those above one. Nodes are
told apart by how many nodes they are made from. -/
def numbersAboveOne : Engine where
  settings := .default
  graph := .after (fun node => ⟨[node.parents.length.toUInt8]⟩)
    [.source "numbers" "memory://numbers" (.ofTy "numbers" (numbersBetween 1 3)),
      .transformed (.step ⟨"above", "", []⟩ (.filter (numbersBetween 2 3))) [⟨[0]⟩]]
  catalog := ⟨[("numbers", [⟨numberFields, [[.int 1], [.int 2]]⟩, ⟨numberFields, [[.int 3]]⟩])],
    fun _ => .missing⟩
  externals := .empty
  queries := Query.run
  entropy := .ofSeed 0

/-- The numbers above one, seen in batches of one row, are seen in batches of two rows as well, also
after the schema has been asked for. -/
theorem stream_of_other_size_numbersAboveOne :
    ((numbersAboveOne.stream ⟨[1]⟩ 1).run (numbersAboveOne.rememberedAfter [])).1 =
      .ok (ofList [⟨numberFields, [[.int 2]]⟩, ⟨numberFields, [[.int 3]]⟩]) ∧
    ∃ t, ((numbersAboveOne.stream ⟨[1]⟩ 2).run
        (numbersAboveOne.rememberedAfter [.schema ⟨[1]⟩])).1 = .ok t ∧ t.failure = none ∧
      t.batches.flatMap Batch.rows = [[.int 2], [.int 3]] ∧ Batch.SizedBy 2 t.batches := by
  have hstream : ((numbersAboveOne.stream ⟨[1]⟩ 1).run (numbersAboveOne.rememberedAfter [])).1 =
      .ok (ofList [⟨numberFields, [[.int 2]]⟩, ⟨numberFields, [[.int 3]]⟩]) := rfl
  have huniform : numbersAboveOne.catalog.Uniform := by
    simp [Catalog.Uniform, numbersAboveOne]
  obtain ⟨t, ht, hend, hrows, -, -, hsized⟩ := stream_of_other_size (e := numbersAboveOne) rfl
    huniform one_pos two_pos [] [.schema ⟨[1]⟩] hstream rfl
  exact ⟨hstream, t, ht, hend, hrows, hsized⟩

end Engine

end Lineage
