import Lineage.Proofs.Engine.BatchSize
import Lineage.Proofs.Stream.Merge

set_option autoImplicit false

/-!
# Sources in batches of any size

Batches at hand that are all as the type of a source says may still have different columns: the type
does not say whether parts are nullable, allows columns that could hold nulls but do not, and takes
anything for a column of nulls. They are put under one another under the columns of one of them when
they are regrouped, and whether this fails depends on the size that is asked for.

## Main definitions

* `Lineage.Engine.digitsInTwoBatches`: two batches, of which only the second can hold nulls.

## Main results

* `Lineage.Engine.stream_of_memory`: in which sizes the rows of a source at hand can be seen.
* `Lineage.Engine.not_stream_digitsInTwoBatches`: rows that are seen in batches of two, but not in
  larger ones.
-/

namespace Lineage

open BatchStream (LedBy Delivers ofList)

namespace Engine

/-- Batches at hand that are as the type says are what is read. -/
lemma load_of_memory {catalog : Catalog} {uri key : String}
    (haddress : Catalog.Address.ofText uri = .key key) {batches : List Batch}
    (hbatches : catalog.batches? key = some batches) {t : Ty}
    (hcheck : ∀ b ∈ batches, t.checkBatch b = .ok ()) (n : ℕ) :
    catalog.load uri t n = .ok batches := by
  have hforM : batches.forM t.checkBatch = .ok () := Outcome.forM_eq_ok.mpr hcheck
  rw [Catalog.load, Catalog.read, haddress]
  simp only [hbatches, Outcome.ofOption, Outcome.ok_bind, hforM]

/-- Batches that are as the type says have as many columns as one another. -/
lemma exists_width {batches : List Batch} {t : Ty}
    (hcheck : ∀ b ∈ batches, t.checkBatch b = .ok ()) :
    ∃ width, ∀ b ∈ batches, b.fields.length = width := by
  cases batches with
  | nil => exact ⟨0, List.forall_mem_nil _⟩
  | cons first rest =>
    refine ⟨first.fields.length, fun b hb => ?_⟩
    obtain ⟨expected, hexpected, hfirst⟩ :=
      Ty.checkBatch_eq_ok.mp (hcheck first List.mem_cons_self)
    obtain ⟨expected', hexpected', hother⟩ := Ty.checkBatch_eq_ok.mp (hcheck b hb)
    obtain rfl := Except.ok.inj (hexpected.symm.trans hexpected')
    exact hother.length_eq.symm.trans hfirst.length_eq

/-- **The rows of a source at hand in batches of `n`.** All batches are as the type says. They are
seen in order and to the end exactly if every batch can take the columns of the one that it is put
under, and in any size if all batches have the same columns. Otherwise the stream fails, after full
batches of the first rows.

**Proof sketch.** All batches pass the check, so they are what is read, and they have as many
columns as one another (`exists_width`). What regrouping them delivers is told by
`BatchStream.delivers_regroup`: it ends well exactly if no batch is put under one whose
columns it cannot take, which is so if all columns are the same. -/
theorem stream_of_memory {idOf : Node → NodeId} {calls : List Graph.Call} {e : Engine}
    (hgraph : e.graph = Graph.after idOf calls) {d : NodeId} {node : Node}
    (hnode : e.graph.find? d = some node) {uri key : String} {schema : Schema}
    (horigin : node.origin = .source uri schema) (haddress : Catalog.Address.ofText uri = .key key)
    {batches : List Batch} (hbatches : e.catalog.batches? key = some batches)
    (hformed : ∀ b ∈ batches, b.FormedOf b.fields)
    (hcheck : ∀ b ∈ batches, schema.ty.checkBatch b = .ok ()) {n : ℕ} (hn : 0 < n)
    (earlier : List Question) :
    ∃ s, ((e.stream d n).run (e.rememberedAfter earlier)).1 = .ok s ∧
      Delivers n (batches.flatMap Batch.rows)
        (∀ lead b, LedBy n 0 batches lead b → b.Joins lead.fields) s ∧
      ((∀ b ∈ batches, ∀ b' ∈ batches, b.fields = b'.fields) → s.failure = none) := by
  have hordered : Graph.Ordered e.graph.entries := hgraph ▸ Graph.ordered_after idOf calls
  have hload := load_of_memory haddress hbatches hcheck n
  have hstream : ((e.stream d n).run (e.rememberedAfter earlier)).1 =
      .ok ((ofList batches).regroup n) := by
    rw [run_stream hordered, stream_eq hordered hnode]
    simp only [streamOf, Access.sized, horigin, hload]
    rw [if_neg (Nat.ne_of_gt hn)]
    rfl
  obtain ⟨width, hwidth⟩ := exists_width hcheck
  have hdelivers := BatchStream.delivers_regroup hn fun b hb => ⟨hformed b hb, hwidth b hb⟩
  refine ⟨_, hstream, hdelivers, fun hsame => hdelivers.ends_iff.mpr fun lead b hled => ?_⟩
  obtain ⟨hlead, hb⟩ := hled.mem
  rw [hsame lead hlead b hb]
  exact (hformed b hb).joins

/-! ### Digits that may be missing -/

/-- Digits that may be missing. -/
def optionalDigit : Ty := .struct [("a", .optional (.integer 0 9))]

/-- Two digits in a column that cannot hold nulls. -/
def plainDigits : Batch := ⟨[⟨"a", .int64, false⟩], [[.int 1], [.int 2]]⟩

/-- A digit and a missing one. -/
def digitAndNull : Batch := ⟨[⟨"a", .int64, true⟩], [[.int 3], [.null]]⟩

/-- Both batches are as batches are built, and as the type says. -/
lemma of_mem_digits : ∀ b ∈ [plainDigits, digitAndNull],
    b.FormedOf b.fields ∧ optionalDigit.checkBatch b = .ok () := by
  simp only [List.forall_mem_cons, List.not_mem_nil, false_implies, implies_true, and_true]
  refine ⟨⟨⟨rfl, ?_, Batch.nullsAllowed_iff.mp rfl⟩, rfl⟩,
    ⟨⟨rfl, ?_, Batch.nullsAllowed_iff.mp rfl⟩, rfl⟩⟩ <;>
    simp [plainDigits, digitAndNull]

/-- Both batches at hand. Nodes are told apart by how many nodes they are made from. -/
def digitsInTwoBatches : Engine where
  settings := .default
  graph := .after (fun node => ⟨[node.parents.length.toUInt8]⟩)
    [.source "s" "memory://s" (.ofTy "s" optionalDigit)]
  catalog := ⟨[("s", [plainDigits, digitAndNull])], fun _ => .missing⟩
  externals := .empty
  queries := Query.run
  entropy := .ofSeed 0

/-- In batches of two all digits are seen, none of the batches being put under another one. -/
theorem stream_of_memory_digitsInTwoBatches :
    ∃ s, ((digitsInTwoBatches.stream ⟨[0]⟩ 2).run
        (digitsInTwoBatches.rememberedAfter [.schema ⟨[0]⟩])).1 = .ok s ∧ s.failure = none ∧
      s.batches.flatMap Batch.rows = [[.int 1], [.int 2], [.int 3], [.null]] ∧
      Batch.SizedBy 2 s.batches := by
  obtain ⟨s, hs, hdelivers, -⟩ := stream_of_memory (e := digitsInTwoBatches) rfl (d := ⟨[0]⟩) rfl
    rfl rfl rfl (fun b hb => (of_mem_digits b hb).1) (fun b hb => (of_mem_digits b hb).2) two_pos
    [.schema ⟨[0]⟩]
  obtain rfl : ofList [plainDigits, digitAndNull] = s :=
    Except.ok.inj (Eq.trans (b := ((digitsInTwoBatches.stream ⟨[0]⟩ 2).run _).1) rfl hs)
  exact ⟨_, hs, rfl, hdelivers.of_end rfl⟩

/-- Both batches are as the type says. In batches of two all digits are seen; in larger ones the
second batch is put under the first, which cannot hold its null, and nothing is seen. -/
theorem not_stream_digitsInTwoBatches :
    digitsInTwoBatches.catalog.batches? "s" = some [plainDigits, digitAndNull] ∧
    (∀ b ∈ [plainDigits, digitAndNull], optionalDigit.checkBatch b = .ok ()) ∧
    ((digitsInTwoBatches.stream ⟨[0]⟩ 2).run []).1 = .ok (ofList [plainDigits, digitAndNull]) ∧
    ((digitsInTwoBatches.stream ⟨[0]⟩ 3).run []).1 = .ok (.failed .columns) ∧
    ((digitsInTwoBatches.stream ⟨[0]⟩ 4).run []).1 = .ok (.failed .columns) :=
  ⟨rfl, fun b hb => (of_mem_digits b hb).2, rfl, rfl, rfl⟩

end Engine

end Lineage
