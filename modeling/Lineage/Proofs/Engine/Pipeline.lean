import Mathlib
import Lineage.Proofs.Document.Plan
import Lineage.Proofs.Engine.BatchSize
import Lineage.Proofs.Stream.Described

set_option autoImplicit false

/-!
# Schemas and batches agree along pipelines

The schema of a dataset and its batches are found out on two separate ways: one rewrites types, the
other reshapes columns. Along filters, projections and steps that pick rows, both agree: the type in
the schema describes all batches.

## Main definitions

* `Lineage.Graph.Piped`: a node goes back to a source by steps that keep rows or some of them.
* `Lineage.Graph.PlainSources`: the types of all sources are plain.

## Main results

* `Lineage.Engine.schema_of_piped`: the schema of such a node is the one that is known without
  looking at rows; it protects nothing and its type is plain.
* `Lineage.Engine.describedBy_of_piped`: this type describes the batches of the node.
* `Lineage.Engine.checkBatch_of_piped`: in the graph of a document they pass the check against it.
-/

namespace Lineage

namespace Graph

/-- A node is a source, or made from one by steps that keep rows or some of them. -/
inductive Piped (g : Graph) : NodeId → Prop
  /-- A source. -/
  | source {id : NodeId} {node : Node} {uri : String} {schema : Schema}
      (hnode : g.find? id = some node) (horigin : node.origin = .source uri schema) : Piped g id
  /-- One more step. -/
  | step {id parent : NodeId} {node : Node} {heading : Heading} {content : Step}
      (hnode : g.find? id = some node)
      (horigin : node.origin = .transformed (.step heading content) [parent] [])
      (hpipes : content.pipes = true) (hparent : Piped g parent) : Piped g id

/-- The types of all sources are plain. -/
def PlainSources (g : Graph) : Prop :=
  ∀ id node uri schema, g.find? id = some node → node.origin = .source uri schema → schema.ty.Plain

end Graph

namespace Engine

open Evaluation (answer_bind answer_cached answer_ofOutcome_bind transparent_pure transparent_throw
  transparent_ofOutcome transparent_bind)

variable {e : Engine}

/-! ### Answers for sources and steps -/

section Level

variable {a : Access} {V : SchemaCache → Prop} (hV : V []) {id : NodeId}
  (hid : a.TransparentAt V id) {n : ℕ} {out : BatchStream}

include hV hid

/-- An operation on one batch at a time that depends on the schema. -/
lemma of_schema_batchwise {operation : Schema → BatchOperation}
    (hout : (a.schema id >>= fun s => batchwise a (operation s) id n).answer = .ok out) :
    ∃ s input, (a.schema id).answer = .ok s ∧ (a.stream id n).answer = .ok input ∧
      out = ((operation s).stream input).regroup n := by
  rw [answer_bind hV hid.schema fun _ => transparent_batchwise hV _ n hid] at hout
  obtain ⟨s, hs, hrest⟩ := Outcome.bind_eq_ok.mp hout
  rw [answer_batchwise hV _ n hid] at hrest
  obtain ⟨input, hinput, rfl⟩ := Outcome.map_eq_ok.mp hrest
  exact ⟨s, input, hs, hinput, rfl⟩

/-- An operation on all rows. -/
lemma of_tablewise {operation : TableOperation}
    (hout : (tablewise e a operation id n).answer = .ok out) :
    ∃ input, (a.stream id n).answer = .ok input ∧
      out = operation.stream .ofWords e.generator n input := by
  rw [answer_tablewise hV _ n hid] at hout
  obtain ⟨_, -, hrest⟩ := Outcome.bind_eq_ok.mp hout
  obtain ⟨input, hinput, rfl⟩ := Outcome.map_eq_ok.mp hrest
  exact ⟨input, hinput, rfl⟩

end Level

section Answers

variable (h : Graph.Ordered e.graph.entries) {id : NodeId} {node : Node}
  (hnode : e.graph.find? id = some node)

include h hnode

/-- The schema of a source is the declared one. -/
lemma schema_of_source {uri : String} {schema : Schema}
    (horigin : node.origin = .source uri schema) : (e.schema id).answer = .ok schema := by
  rw [schema_eq h hnode, answer_cached]
  simp only [schemaOf, horigin]
  rfl

/-- The batches of a source are those in store, regrouped. -/
lemma stream_of_source {uri : String} {schema : Schema} {n : ℕ} {out : BatchStream}
    (horigin : node.origin = .source uri schema) (hout : (e.stream id n).answer = .ok out) :
    ∃ batches, e.catalog.load uri schema.ty n = .ok batches ∧
      out = (BatchStream.ofList batches).regroup n := by
  rw [stream_eq h hnode] at hout
  simp only [streamOf, Access.sized, horigin] at hout
  split at hout
  · cases hout
  · rw [answer_bind (coherent_nil e) (transparent_ofOutcome _) fun _ => transparent_pure _] at hout
    obtain ⟨batches, hbatches, hout⟩ := Outcome.bind_eq_ok.mp hout
    cases hout
    exact ⟨batches, hbatches, rfl⟩

variable {parent : NodeId} {heading : Heading} {content : Step}
  (horigin : node.origin = .transformed (.step heading content) [parent] [])
  (hpipes : content.pipes = true)

include horigin hpipes

/-- The schema after a step comes from the schema of the node that the step works on.

**Proof sketch.** The schema is derived from that of the dataset that the step works on, and
the only parent is this dataset. Asking for it changes no later answer. -/
lemma schema_of_step {s' : Schema} (hs' : (e.schema id).answer = .ok s') :
    ∃ s result, (e.schema parent).answer = .ok s ∧
      s.propagate node.name (.step heading content) = .ok result ∧
      ∀ ready, result = .ready ready → ready = s' := by
  have hschema : schemaOf e e.access node =
      derivedSchema e e.access node (.step heading content) [parent] [] := by
    unfold schemaOf
    rw [horigin]
    cases content <;> first | rfl | cases hpipes
  rw [schema_eq h hnode, answer_cached, hschema, derivedSchema, answer_ofOutcome_bind] at hs'
  obtain ⟨⟨id', found⟩, hfound, hderived⟩ := Outcome.bind_eq_ok.mp hs'
  obtain rfl : id' = parent := List.mem_singleton.mp (mem_of_datasetParent hfound)
  have hV := coherent_nil e
  have hid := e.transparentAt h id'
  dsimp only at hderived
  rw [answer_bind hV hid.schema] at hderived
  · obtain ⟨s, hs, hrest⟩ := Outcome.bind_eq_ok.mp hderived
    rw [answer_ofOutcome_bind] at hrest
    obtain ⟨result, hresult, hanswer⟩ := Outcome.bind_eq_ok.mp hrest
    refine ⟨s, result, hs, hresult, fun ready hready => ?_⟩
    subst hready
    exact Except.ok.inj hanswer
  · intro schema
    refine transparent_bind hV (transparent_ofOutcome _) fun propagation => ?_
    split
    · exact transparent_pure _
    · exact transparent_querySchema hV node found _ hid
    · exact transparent_throw _

/-- The batches after a step are those that the step makes from the node it works on. -/
lemma stepStream_of_stream {n : ℕ} {out : BatchStream} (hout : (e.stream id n).answer = .ok out) :
    ∃ found, (stepStream e e.access parent found n content).answer = .ok out := by
  have htransform : transformStream e e.access node (.step heading content) [parent] [] n =
      if !node.isDataset then throw (notDataset node) else
        Evaluation.ofOutcome (datasetParent e.access node [parent] []) >>= fun found =>
          stepStream e e.access found.1 found.2 n content := by
    unfold transformStream
    cases node.isDataset <;> cases content <;> first | rfl | cases hpipes
  rw [stream_eq h hnode] at hout
  simp only [streamOf, resultStreamOf, Access.sized, horigin] at hout
  split at hout
  · cases hout
  · rw [htransform] at hout
    split at hout
    · cases hout
    · rw [answer_ofOutcome_bind] at hout
      obtain ⟨⟨id', found⟩, hfound, hstep⟩ := Outcome.bind_eq_ok.mp hout
      obtain rfl : id' = parent := List.mem_singleton.mp (mem_of_datasetParent hfound)
      exact ⟨found, hstep⟩

/-- The batches after a step come from the batches of the node that the step works on. -/
lemma stream_of_step {n : ℕ} {out : BatchStream} (hout : (e.stream id n).answer = .ok out) :
    ∃ input, (e.stream parent n).answer = .ok input ∧
      match content.target? with
      | some target => ∃ s operation, (e.schema parent).answer = .ok s ∧
          BatchOperation.CutsTo operation target s.hasWrapper ∧
          out = (operation.stream input).regroup n
      | none => ∃ operation : TableOperation,
          out = operation.stream .ofWords e.generator n input := by
  obtain ⟨found, hstep⟩ := stepStream_of_stream h hnode horigin hpipes hout
  have hV := coherent_nil e
  have hid := e.transparentAt h parent
  cases content with
  | filter target =>
    obtain ⟨s, input, hs, hinput, rfl⟩ := of_schema_batchwise hV hid hstep
    exact ⟨input, hinput, s, _, hs, .inl rfl, rfl⟩
  | project target =>
    obtain ⟨s, input, hs, hinput, rfl⟩ := of_schema_batchwise hV hid hstep
    exact ⟨input, hinput, s, _, hs, .inr rfl, rfl⟩
  | sample size | slice start stop | extract size seed | shuffle =>
    obtain ⟨input, hinput, rfl⟩ := of_tablewise hV hid hstep
    exact ⟨input, hinput, _, rfl⟩
  | _ => cases hpipes

end Answers

/-! ### Nodes along a pipeline -/

section Pipeline

variable (hg : e.graph.Planned) (hplain : e.graph.PlainSources)

include hg hplain

/-- **The schema along a pipeline** is the one that is known without looking at rows. It protects
nothing, and its type is plain.

**Proof sketch.** By induction on the steps. The type after a filter or projection is its
target with the references of the type before, which is cut out of that type in the graph of a
document; the other steps leave the type as it is. -/
theorem schema_of_piped {d : NodeId} (hd : e.graph.Piped d) {s : Schema}
    (hs : (e.schema d).answer = .ok s) :
    e.graph.staticSchema d = .ok s ∧ s.protectedPaths = [] ∧ s.ty.Plain := by
  induction hd generalizing s with
  | source hnode horigin =>
    rename_i id node uri schema
    rw [schema_of_source hg.ordered hnode horigin] at hs
    cases hs
    have hprotected : node.PlannedIn e.graph := hg.nodes id node hnode
    simp only [Node.PlannedIn, horigin] at hprotected
    exact ⟨Graph.staticSchema_source hg.ordered hnode horigin, hprotected,
      hplain id node uri schema hnode horigin⟩
  | step hnode horigin hpipes hparent ih =>
    rename_i id parent node heading content
    obtain ⟨before, result, hbefore, hresult, hready⟩ :=
      schema_of_step hg.ordered hnode horigin hpipes hs
    obtain ⟨hstatic, hnone, hplainBefore⟩ := ih hbefore
    obtain ⟨s', rfl, hnone', hty⟩ := Schema.propagate_pipes hpipes hnone hresult
    obtain rfl := hready s' rfl
    refine ⟨Graph.staticSchema_step hg.ordered hnode horigin hstatic hresult, hnone', ?_⟩
    rw [hty]
    cases htarget : content.target? with
    | none => exact hplainBefore
    | some target =>
      have hcut := hg.cut_target hnode horigin hstatic hnone htarget
      have hdropped : Ty.Cut (target.updateReferences before.ty) target :=
        Ty.cut_retainReferences _ target
      exact Ty.Cut.plain before.ty (Ty.Cut.trans before.ty hdropped hcut) hplainBefore

/-- **The type of a node along a pipeline describes its batches.**

**Proof sketch.** By induction on the steps. A source has passed the check for its type; a
step that picks rows changes no columns; and what a filter or projection leaves of a described
batch is described by its target (`BatchStream.DescribedBy.cutDown`). -/
theorem describedBy_of_piped (hmemory : e.catalog.WellMade) {d : NodeId}
    (hd : e.graph.Piped d) {s : Schema} (hs : (e.schema d).answer = .ok s) {n : ℕ}
    {stream : BatchStream} (hstream : (e.stream d n).answer = .ok stream) :
    stream.DescribedBy s.ty := by
  induction hd generalizing s stream with
  | source hnode horigin =>
    rename_i id node uri schema
    rw [schema_of_source hg.ordered hnode horigin] at hs
    cases hs
    obtain ⟨batches, hload, rfl⟩ := stream_of_source hg.ordered hnode horigin hstream
    refine BatchStream.DescribedBy.regroup ?_
    exact Catalog.describes_of_load hmemory (hplain id node uri schema hnode horigin) hload
  | step hnode horigin hpipes hparent ih =>
    rename_i id parent node heading content
    obtain ⟨before, result, hbefore, hresult, hready⟩ :=
      schema_of_step hg.ordered hnode horigin hpipes hs
    obtain ⟨hstatic, hnone, hplainBefore⟩ := schema_of_piped hg hplain hparent hbefore
    obtain ⟨s', rfl, -, hty⟩ := Schema.propagate_pipes hpipes hnone hresult
    obtain rfl := hready s' rfl
    obtain ⟨input, hinput, hout⟩ := stream_of_step hg.ordered hnode horigin hpipes hstream
    have hdescribed : input.DescribedBy before.ty := ih hbefore hinput
    rw [hty]
    cases htarget : content.target? with
    | none =>
      simp only [htarget] at hout
      obtain ⟨operation, rfl⟩ := hout
      exact hdescribed.tableOperation _ _ operation
    | some target =>
      simp only [htarget] at hout
      obtain ⟨schema, operation, hschema, hto, rfl⟩ := hout
      obtain rfl : schema = before := Except.ok.inj (hschema.symm.trans hbefore)
      rw [Schema.hasWrapper_of_unprotected hnone] at hto
      have hcut := hg.cut_target hnode horigin hstatic hnone htarget
      refine BatchStream.DescribedBy.regroup fun b hb => ?_
      -- Types that differ in references only describe the same batches.
      obtain ⟨expected, hexpected, hcolumns⟩ := hdescribed.cutDown hplainBefore hcut hto b hb
      exact ⟨expected, Ty.batchFields_retainReferences _ target hexpected, hcolumns⟩

end Pipeline

/-- **Schemas and batches agree along pipelines.** In the graph of a text, let a dataset go back to
a source by filters, projections and steps that pick rows, and let the types of the sources be
plain. Whatever was asked before, batches of any size pass the check against the type in the
schema.

**Proof sketch.** What was asked before has no influence (`run_schema`, `run_stream`). The
type in the schema describes the batches and is plain, and batches that a plain type describes
pass the check against it. -/
theorem checkBatch_of_piped {idOf : Node → NodeId} {infer : Document.TypeSource} {text : String}
    {p : Document.Plan} (hplan : Document.planOfText idOf infer text = .ok p)
    (hplain : p.graph.PlainSources) {e : Engine} (hgraph : e.graph = p.graph)
    (hmemory : e.catalog.WellMade) {d : NodeId} (hd : p.graph.Piped d)
    (earlier later : List Question) {s : Schema}
    (hs : ((e.schema d).run (e.rememberedAfter earlier)).1 = .ok s) {n : ℕ} {stream : BatchStream}
    (hstream : ((e.stream d n).run (e.rememberedAfter later)).1 = .ok stream) :
    ∀ b ∈ stream.batches, s.ty.checkBatch b = .ok () := by
  obtain ⟨doc, -, hdoc⟩ := Outcome.bind_eq_ok.mp hplan
  have hg : e.graph.Planned := hgraph ▸ Document.planned_plan hdoc
  rw [← hgraph] at hplain hd
  rw [run_schema hg.ordered] at hs
  rw [run_stream hg.ordered] at hstream
  obtain ⟨-, -, hty⟩ := schema_of_piped hg hplain hd hs
  have hdescribed := describedBy_of_piped hg hplain hmemory hd hs hstream
  exact fun b hb => (hdescribed b hb).checkBatch hty

/-! ### The left sides of pairs -/

/-- Pairs of texts, and their left sides. -/
def pairsText : String :=
  "datasets:\n"
    ++ "- name: pairs\n"
    ++ "  source: memory://pairs\n"
    ++ "  fields:\n"
    ++ "  - name: left\n"
    ++ "    type: text\n"
    ++ "  - name: right\n"
    ++ "    type: text\n"
    ++ "- name: lefts\n"
    ++ "  from: pairs\n"
    ++ "  transform:\n"
    ++ "    op: project\n"
    ++ "    'columns': ['left']\n"

/-- Sources are told from other nodes. -/
def sourceOrNot (node : Node) : NodeId := ⟨[if node.isSource then 0 else 1]⟩

/-- Rows of a left side. -/
def leftSide : Ty := .struct [("left", .text)]

/-- The graph of the pairs and their left sides. -/
def pairsGraph : Graph :=
  ⟨[(⟨[1]⟩, .ofOrigin "lefts" .dataset (.transformed (.ofStep (.project leftSide)) [⟨[0]⟩] [])),
    (⟨[0]⟩, .ofOrigin "pairs" .dataset
      (.source "memory://pairs" (.ofTy "pairs" (.struct [("left", .text), ("right", .text)]))))]⟩

/-- Two pairs in one batch. -/
def twoPairs : Engine where
  settings := .default
  graph := pairsGraph
  catalog := ⟨[("pairs", [⟨[⟨"left", .utf8, false⟩, ⟨"right", .utf8, false⟩],
    [[.text "a", .text "b"], [.text "c", .text "d"]]⟩])], fun _ => .missing⟩
  externals := .empty
  queries := Query.run
  entropy := .ofSeed 0

set_option maxRecDepth 2000 in
/-- The graph of the text. -/
lemma planOfText_pairsText : Document.planOfText sourceOrNot Document.declaredOnly pairsText =
    .ok ⟨pairsGraph, .empty, [("pairs", ⟨[0]⟩), ("lefts", ⟨[1]⟩)]⟩ := by cbv

/-- The left sides of two pairs, in batches of one row. -/
theorem checkBatch_of_piped_twoPairs :
    Document.planOfText sourceOrNot Document.declaredOnly pairsText =
      .ok ⟨pairsGraph, .empty, [("pairs", ⟨[0]⟩), ("lefts", ⟨[1]⟩)]⟩ ∧
    ∃ s stream, ((twoPairs.schema ⟨[1]⟩).run (twoPairs.rememberedAfter [])).1 = .ok s ∧
      ((twoPairs.stream ⟨[1]⟩ 1).run (twoPairs.rememberedAfter [.schema ⟨[1]⟩])).1 = .ok stream ∧
      stream.batches.map Batch.rows = [[[.text "a"]], [[.text "c"]]] ∧
      ∀ b ∈ stream.batches, s.ty.checkBatch b = .ok () := by
  have hplain : pairsGraph.PlainSources := by
    intro id node uri schema hnode horigin
    obtain ⟨entry, hentry, rfl⟩ := Option.map_eq_some_iff.mp hnode
    have hmem := List.mem_of_find?_eq_some hentry
    simp only [pairsGraph, List.mem_cons, List.not_mem_nil, or_false] at hmem
    rcases hmem with rfl | rfl
    · cases horigin
    · cases horigin
      simp [Schema.ofTy, Ty.struct, Ty.Plain, Ty.PlainMembers, Ty.text, Ty.ofLeaf, fieldSelected]
  have hmemory : twoPairs.catalog.WellMade := by
    intro entry hentry b hb
    obtain rfl := List.mem_singleton.mp hentry
    obtain rfl := List.mem_singleton.mp hb
    rfl
  have hd : pairsGraph.Piped ⟨[1]⟩ := .step rfl rfl rfl (.source rfl rfl)
  have hs : ((twoPairs.schema ⟨[1]⟩).run (twoPairs.rememberedAfter [])).1 =
      .ok (.ofTy "lefts" leftSide) := rfl
  have hstream : ((twoPairs.stream ⟨[1]⟩ 1).run (twoPairs.rememberedAfter [.schema ⟨[1]⟩])).1 =
      .ok (.ofList [⟨[⟨"left", .utf8, false⟩], [[.text "a"]]⟩,
        ⟨[⟨"left", .utf8, false⟩], [[.text "c"]]⟩]) := rfl
  exact ⟨planOfText_pairsText, _, _, hs, hstream, rfl,
    checkBatch_of_piped planOfText_pairsText hplain rfl hmemory hd [] [.schema ⟨[1]⟩] hs
      hstream⟩

end Engine

end Lineage
