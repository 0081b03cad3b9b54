import Lineage.Proofs.Engine.BatchSize

set_option autoImplicit false

/-!
# What is remembered is what a new engine finds out

An engine remembers schemas on the way to its answers, also to answers that fail in the end. If its
random draws start from a seed, all that it remembers is what an engine that was asked nothing so
far finds out; and of a node whose schema cannot be had it never remembers one.

## Main definitions

* `Lineage.Engine.withEntropy`: an engine whose draws start elsewhere where there is no seed.

## Main results

* `Lineage.Engine.accessIn_withEntropy`: with a seed, where other draws start has no influence.
* `Lineage.Engine.find?_rememberedAfter`: what is remembered after any questions.
-/

namespace Lineage

namespace Engine

variable {e : Engine}

/-! ### Draws from a seed -/

/-- The engine with another start of random draws where the settings have no seed. -/
def withEntropy (e : Engine) (entropy : Generator) : Engine := { e with entropy := entropy }

/-- No draws are made to get named nodes for an external operation. -/
lemma materializeNamed_withEntropy (entropy : Generator) (a : Access) (named : Dict NodeId) :
    materializeNamed (e.withEntropy entropy) a named = materializeNamed e a named := by
  induction named with
  | nil => rfl
  | cons entry rest ih =>
    obtain ⟨name, id⟩ := entry
    rw [materializeNamed, materializeNamed, ih]
    rfl

/-- No draws are made by an external operation. -/
lemma externalResult_withEntropy (entropy : Generator) (a : Access) (call : ExternalCall)
    (arguments : List NodeId) (named : Dict NodeId) :
    externalResult (e.withEntropy entropy) a call arguments named =
      externalResult e a call arguments named := by
  rw [externalResult, externalResult, materializeNamed_withEntropy]
  rfl

section Seed

variable {seed : ℕ} (hseed : e.settings.seed = some seed) (entropy : Generator)

include hseed

/-- Draws from a seed start from the seed. -/
lemma generator_withEntropy : (e.withEntropy entropy).generator = e.generator := by
  have hsettings : (e.withEntropy entropy).settings.seed = some seed := hseed
  rw [generator, generator, hsettings, hseed]

variable (a : Access)

/-- With a seed, the batches of an operation on tables are the same for all starts of other
draws. -/
lemma tablewise_withEntropy (operation : TableOperation) (id : NodeId) (n : ℕ) :
    tablewise (e.withEntropy entropy) a operation id n = tablewise e a operation id n := by
  rw [tablewise, tablewise, generator_withEntropy hseed]

/-- With a seed, the batches of a step are the same for all starts of other draws. -/
lemma stepStream_withEntropy (id : NodeId) (parent : Node) (n : ℕ) (content : Step) :
    stepStream (e.withEntropy entropy) a id parent n content =
      stepStream e a id parent n content := by
  cases content with
  | sample size | slice start stop | extract size seed | shuffle =>
    exact tablewise_withEntropy hseed entropy a _ id n
  | _ => rfl

/-- With a seed, the batches of a result are the same for all starts of other draws. -/
lemma transformStream_withEntropy (node : Node) (t : Transform) (arguments : List NodeId)
    (named : Dict NodeId) (n : ℕ) :
    transformStream (e.withEntropy entropy) a node t arguments named n =
      transformStream e a node t arguments named n := by
  unfold transformStream externalTable
  simp only [externalResult_withEntropy, stepStream_withEntropy hseed]

/-- With a seed, the answers for a node are the same for all starts of other draws. -/
lemma extend_withEntropy (key : NodeId) (node : Node) :
    (e.withEntropy entropy).extend a key node = e.extend a key node := by
  have hresult : ∀ n, resultStreamOf (e.withEntropy entropy) a node n =
      resultStreamOf e a node n := by
    intro n
    simp only [resultStreamOf, transformStream_withEntropy hseed]
  have hstream : ∀ n, streamOf (e.withEntropy entropy) a node n = streamOf e a node n := by
    intro n
    simp only [streamOf, hresult]
    rfl
  have hschema : schemaOf (e.withEntropy entropy) a node = schemaOf e a node := by
    simp only [schemaOf, externalTable, externalResult_withEntropy]
    rfl
  have hvalue : valueOf (e.withEntropy entropy) a node = valueOf e a node := by
    simp only [valueOf, externalResult_withEntropy]
  simp only [extend, hresult, hstream, hschema, hvalue]

/-- **With a seed, no answer depends on where other draws start.**

**Proof sketch.** By induction on the nodes: the answers for a node make draws only in
operations on tables, and these start from the seed. -/
theorem accessIn_withEntropy (entries : List (NodeId × Node)) :
    (e.withEntropy entropy).accessIn entries = e.accessIn entries := by
  induction entries with
  | nil => rfl
  | cons entry older ih =>
    obtain ⟨key, node⟩ := entry
    rw [accessIn, accessIn, ih, extend_withEntropy hseed]

/-- With a seed, schemas are the same for all starts of other draws. -/
lemma schema_withEntropy (id : NodeId) : (e.withEntropy entropy).schema id = e.schema id :=
  congrArg (fun a : Access => a.schema id) (accessIn_withEntropy hseed entropy e.graph.entries)

end Seed

/-! ### What is remembered -/

/-- Of a node whose schema cannot be had, coherent memory has none. -/
lemma Coherent.find?_eq_none {cache : SchemaCache} (h : e.Coherent cache) {id : NodeId}
    {fault : Fault} (hfault : (e.schema id).answer = .error fault) : cache.find? id = none := by
  cases hknown : cache.find? id with
  | none => rfl
  | some schema =>
    rw [h id schema hknown] at hfault
    cases hfault

/-- **What is remembered after any questions.** Let random draws start from a seed. After any
questions, whether they were answered or failed, a remembered schema is the one that a new engine on
the same graph, sources and operations finds out; and if the schema of a node cannot be had then,
none is remembered for it after having asked, nor after any further questions.

**Proof sketch.** Whatever is remembered in an ordered graph is what a new engine answers
(`coherent_rememberedAfter`), and with a seed it does not matter where the draws of the new
engine start. So a schema that cannot be had would have to be one that is had, if it were
remembered. -/
theorem find?_rememberedAfter {idOf : Node → NodeId} {calls : List Graph.Call}
    (hgraph : e.graph = Graph.after idOf calls) {seed : ℕ} (hseed : e.settings.seed = some seed)
    (entropy : Generator) (questions : List Question) (id : NodeId) :
    (∀ schema, (e.rememberedAfter questions).find? id = some schema →
      (((e.withEntropy entropy).schema id).run []).1 = .ok schema) ∧
    ∀ fault, ((e.schema id).run (e.rememberedAfter questions)).1 = .error fault →
      ∀ further, (e.rememberedAfter (questions ++ .schema id :: further)).find? id = none := by
  have hordered : Graph.Ordered e.graph.entries := hgraph ▸ Graph.ordered_after idOf calls
  constructor
  · intro schema hknown
    rw [schema_withEntropy hseed]
    exact coherent_rememberedAfter hordered questions id schema hknown
  · intro fault hfault further
    rw [run_schema hordered] at hfault
    exact (coherent_rememberedAfter hordered _).find?_eq_none hfault

/-! ### A filter on the result of a query -/

/-- Some numbers, the result of a query on them, a filter on this result, and the result of a query
on the filtered ones that selects nothing. Nodes are told apart by the lengths of their names. -/
def queriedNumbers : Engine where
  settings := Settings.default.withSeed 7
  graph := .after (fun node => ⟨[node.name.length.toUInt8]⟩)
    [.source "s" "memory://numbers" (.ofTy "s" (numbersBetween 1 3)),
      .transformedAs "qq" (.ofStep (.selectSql "some")) [⟨[1]⟩] [],
      .transformedAs "fff" (.ofStep (.filter (numbersBetween 2 3))) [⟨[2]⟩] [],
      .transformedAs "gggg" (.ofStep (.selectSql "none")) [⟨[3]⟩] []]
  catalog := ⟨[("numbers", [⟨numberFields, [[.int 1], [.int 2]]⟩])], fun _ => .missing⟩
  externals := .empty
  queries := fun _ _ text => .ok (if text = "some" then [[("number", .int 2)]] else [])
  entropy := .ofSeed 0

/-- The schema of a result without rows cannot be had. On the way the engine has found out the
schema of the first result and remembers it; it is the one that a new engine finds out. Of the empty
result it remembers nothing, however often it is asked. -/
theorem find?_rememberedAfter_queriedNumbers :
    (∃ schema, (queriedNumbers.rememberedAfter [.schema ⟨[4]⟩]).find? ⟨[2]⟩ = some schema ∧
      schema.ty = .struct [("number", Ty.integersOf .i64)] ∧
      (((queriedNumbers.withEntropy (.ofSeed 9)).schema ⟨[2]⟩).run []).1 = .ok schema) ∧
    (queriedNumbers.rememberedAfter
      [.schema ⟨[4]⟩, .schema ⟨[4]⟩, .collect ⟨[3]⟩]).find? ⟨[4]⟩ = none := by
  have hseed : queriedNumbers.settings.seed = some 7 := rfl
  have hresult := find?_rememberedAfter (e := queriedNumbers) rfl hseed (.ofSeed 9)
    [.schema ⟨[4]⟩] ⟨[2]⟩
  have hempty := find?_rememberedAfter (e := queriedNumbers) rfl hseed (.ofSeed 9)
    [.schema ⟨[4]⟩] ⟨[4]⟩
  exact ⟨⟨_, rfl, rfl, hresult.1 _ rfl⟩, hempty.2 _ rfl [.collect ⟨[3]⟩]⟩

end Engine

end Lineage
