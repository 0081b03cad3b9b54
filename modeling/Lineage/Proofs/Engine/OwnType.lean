import Lineage.Proofs.Engine.Pipeline
import Lineage.Proofs.Engine.Sources
import Lineage.Proofs.Engine.StaticSchema
import Lineage.Proofs.Schema.Wrapper
import Lineage.Proofs.Stream.OwnType
import Lineage.Proofs.Ty.ItemNulls

set_option autoImplicit false

/-!
# Sources filtered by their own type

What is read from a source has passed the check against the declared type. The check looks at how
values are stored, not at the values: a filter by the type of the payload may still drop rows.

## Main definitions

* `Lineage.Batch.Conforms`: rows are stored as a type says.
* `Lineage.Engine.filteredByOwnType`: a batch of a type and a filter of it by this type.

## Main results

* `Lineage.Engine.conforms_of_mem_regroup`: what is seen of a source conforms to its type.
* `Lineage.Engine.stream_filter_payload`: how many rows of a source its own type lets pass.
* `Lineage.Engine.ownFilterKeeps_fewer`: sources of which fewer rows are left.
-/

namespace Lineage

open BatchStream (ofList)
open Batch (totalSize)

/-! ### Batches of a source -/

namespace Batch

variable {t : Ty} {b : Batch}

/-- Rows are stored as a type says, their columns can hold them, and columns of nulls may hold
nulls. -/
structure Conforms (t : Ty) (b : Batch) : Prop where
  /-- The rows are stored as the type says. -/
  stored : t.StoredAs (.struct b.fields)
  /-- The columns can hold the rows. -/
  fits : b.Fits
  /-- Columns of nulls may hold nulls. -/
  nulls : ∀ f ∈ b.fields, f.type = .null → f.nullable = true

/-- A batch with rows that has passed the check. -/
lemma conforms_of_checkBatch (hcheck : t.checkBatch b = .ok ()) (hfits : b.Fits)
    (hsize : b.size ≠ 0) : b.Conforms t := by
  refine ⟨Ty.storedAs_of_checkBatch hcheck, hfits, fun f hf hnull => ?_⟩
  -- a column of nulls holds a null in every row, and there is one
  obtain ⟨row, hrow⟩ := List.exists_mem_of_length_pos (Nat.pos_of_ne_zero hsize)
  obtain ⟨i, hi, rfl⟩ := List.getElem_of_mem hf
  obtain ⟨hcell, hpresent⟩ := (hfits row hrow).of_struct (List.getElem?_eq_getElem hi)
  rw [hnull] at hcell
  by_contra hnullable
  have hvalue := hcell.of_scalar (hpresent (Bool.eq_false_iff.mpr hnullable) rfl)
  cases hcells : Cell.part i (.struct true row) <;> rw [hcells] at hvalue <;> exact hvalue

/-- Conforming batches under one another conform. -/
lemma Conforms.concat {first : Batch} {batches : List Batch}
    (h : ∀ b' ∈ first :: batches, b'.Conforms t)
    (hconcat : Batch.concat first.fields (first :: batches) = .ok b) : b.Conforms t := by
  obtain ⟨hstored, -, hnulls⟩ := h first List.mem_cons_self
  have hfits := Fits.concat (fun b' hb' => (h b' hb').fits) hnulls hconcat
  obtain ⟨-, hmake⟩ := concat_eq_ok.mp hconcat
  obtain ⟨rfl, -⟩ := make_eq_ok.mp hmake
  exact ⟨hstored, hfits, hnulls⟩

/-- Some rows of a conforming batch. -/
lemma Conforms.slice (start count : ℕ) (h : b.Conforms t) : (b.slice start count).Conforms t :=
  ⟨h.stored, h.fits.slice start count, h.nulls⟩

end Batch

namespace Schema

variable {s : Schema}

/-- The payload is the whole, or a member of it. -/
lemma payload_cases (s : Schema) : s.hasWrapper = false ∧ s.payload = s.ty ∨
    s.hasWrapper = true ∧ ∃ info fields, s.ty = .members info .struct fields ∧
      Ty.lookup? dataLabel fields = some s.payload := by
  cases hwrapper : s.hasWrapper with
  | false => exact Or.inl ⟨rfl, if_neg (by simp [hwrapper])⟩
  | true =>
    have hstruct := (hasWrapper_iff.mp hwrapper).2.1
    have hchild := payload_of_hasWrapper hwrapper
    refine Or.inr ⟨rfl, ?_⟩
    generalize s.ty = ty at hstruct hchild
    match ty, hstruct with
    | .members info .struct fields, _ => exact ⟨info, fields, rfl, hchild⟩

/-- The columns of the payload have different names if all columns have. -/
lemma distinctColumns_payload (h : s.ty.DistinctColumns) : s.payload.DistinctColumns := by
  rcases s.payload_cases with ⟨-, hwhole⟩ | ⟨-, info, fields, hty, hfound⟩
  · rwa [hwhole]
  · rw [hty] at h
    cases h with
    | members nodup selector below => exact below _ (Ty.mem_of_lookup? hfound)

/-- The payloads of conforming rows are stored as the type of the payload says. -/
lemma holdsPayloads_of_conforms (h : s.ty.DistinctColumns) {b : Batch} (hb : b.Conforms s.ty) :
    b.HoldsPayloads s.payload s.hasWrapper := by
  refine ⟨?_, hb.fits⟩
  rcases s.payload_cases with ⟨hwrapper, hwhole⟩ | ⟨hwrapper, info, fields, hty, hfound⟩
  · rw [hwrapper, hwhole]
    exact ⟨_, rfl, hb.stored⟩
  · have hstored := hb.stored
    rw [hty] at h hstored
    obtain ⟨i, part, hplace, -⟩ := (hstored.carries h).member (Ty.mem_of_lookup? hfound)
    have hpart : b.payloadType? true = some part := by
      rw [Batch.payloadType?, if_pos rfl, Batch.payloadPlace?, hplace]
      rfl
    rw [hwrapper]
    exact ⟨part, hpart, hstored.member hfound hplace⟩

end Schema

namespace Engine

/-- What is read from a source has passed the check. -/
lemma checkBatch_of_load {catalog : Catalog} {uri : String} {t : Ty} {n : ℕ} {batches : List Batch}
    (hload : catalog.load uri t n = .ok batches) : ∀ b ∈ batches, t.checkBatch b = .ok () := by
  obtain ⟨found, -, hchecked⟩ := Outcome.bind_eq_ok.mp hload
  obtain ⟨_, hforM, hfound⟩ := Outcome.bind_eq_ok.mp hchecked
  cases hfound
  exact Outcome.forM_eq_ok.mp hforM

/-- Regrouped batches that have passed the check conform.

**Proof sketch.** Every batch with rows conforms, since it has passed the check
(`Batch.conforms_of_checkBatch`). What is regrouped from them is put under one another or cut,
which keeps the property; batches without rows are left out from the start. -/
lemma conforms_of_mem_regroup {t : Ty} {batches : List Batch}
    (hcheck : ∀ b ∈ batches, t.checkBatch b = .ok ()) (hfits : ∀ b ∈ batches, b.Fits) (n : ℕ) :
    ∀ b ∈ ((ofList batches).regroup n).batches, b.Conforms t := by
  -- batches without rows need not conform, but nothing comes of them
  have hskip : (ofList batches).regroup n =
      (ofList (batches.filter fun b => b.size ≠ 0)).regroup n := by
    unfold BatchStream.regroup ofList
    rw [BatchStream.regroupFrom_filter]
  rw [hskip]
  refine BatchStream.forall_mem_regroup Batch.Conforms.concat Batch.Conforms.slice fun b hb => ?_
  obtain ⟨hb, hsize⟩ := List.mem_filter.mp hb
  exact Batch.conforms_of_checkBatch (hcheck b hb) (hfits b hb) (of_decide_eq_true hsize)

open Evaluation (answer_bind answer_ofOutcome_bind)

variable {e : Engine}

section Answers

variable (h : Graph.Ordered e.graph.entries) {d : NodeId} {source : Node}
  (hsource : e.graph.find? d = some source) {n : ℕ} (hn : 0 < n)

include h hsource hn

/-- The batches of a source that can be read. -/
lemma answer_stream_of_load {uri : String} {schema : Schema}
    (horigin : source.origin = .source uri schema) {batches : List Batch}
    (hload : e.catalog.load uri schema.ty n = .ok batches) :
    (e.stream d n).answer = .ok ((ofList batches).regroup n) := by
  rw [stream_eq h hsource]
  simp only [streamOf, Access.sized, horigin, hload]
  rw [if_neg (Nat.ne_of_gt hn)]
  rfl

/-- The batches of a dataset that is filtered. -/
lemma answer_stream_of_filter (hkind : source.isDataset = true) {f : NodeId} {filter : Node}
    (hfilter : e.graph.find? f = some filter) (hfilterKind : filter.isDataset = true)
    {heading : Heading} {target : Ty}
    (horigin : filter.origin = .transformed (.step heading (.filter target)) [d] [])
    {schema : Schema} (hschema : (e.schema d).answer = .ok schema) {s : BatchStream}
    (hs : (e.stream d n).answer = .ok s) : (e.stream f n).answer =
      .ok (((BatchOperation.filter target schema.hasWrapper).stream s).regroup n) := by
  have hV := coherent_nil e
  have hd := e.transparentAt h d
  have hparent : datasetParent e.access filter [d] [] = .ok (d, source) :=
    datasetParent_of_find? hsource hkind
  rw [stream_eq h hfilter]
  simp only [streamOf, resultStreamOf, Access.sized, horigin, if_neg (Nat.ne_of_gt hn),
    transformStream, hfilterKind, hparent]
  rw [if_neg (by decide), answer_ofOutcome_bind, Outcome.ok_bind, stepStream,
    answer_bind hV hd.schema fun _ => transparent_batchwise hV _ n hd]
  rw [show (e.access.schema d).answer = _ from hschema, Outcome.ok_bind,
    answer_batchwise hV _ n hd, show (e.access.stream d n).answer = _ from hs]
  rfl

end Answers

/-- **How many rows of a source its own type lets pass.** A source is read, what is read passes the
check, and it is filtered by the type of its payload. All columns have different names. No rows are
added; if the dates are within the calendar's range, none are lost exactly if the type lets all of
them pass, and then the filter shows the very stream of the source.

**Proof sketch.** The source shows its batches regrouped, and the filter shows what is left of
these, regrouped again. Both streams do not depend on earlier questions (`run_stream`). The
batches of the source conform, so that their payloads are stored as the type of the payload
says (`Schema.holdsPayloads_of_conforms`), and `BatchStream.filter_own` counts what is left of
them. -/
theorem stream_filter_payload {idOf : Node → NodeId} {calls : List Graph.Call}
    (hgraph : e.graph = Graph.after idOf calls) {d f : NodeId} {source filter : Node}
    (hsource : e.graph.find? d = some source) (hkind : source.isDataset = true) {uri : String}
    {schema : Schema} (horigin : source.origin = .source uri schema)
    (hfilter : e.graph.find? f = some filter) (hfilterKind : filter.isDataset = true)
    {heading : Heading}
    (hstep : filter.origin = .transformed (.step heading (.filter schema.payload)) [d] [])
    {n : ℕ} (hn : 0 < n) {batches : List Batch}
    (hload : e.catalog.load uri schema.ty n = .ok batches) (hfits : ∀ b ∈ batches, b.Fits)
    (hdistinct : schema.ty.DistinctColumns) (earlier later : List Question) :
    ∃ s s', ((e.stream d n).run (e.rememberedAfter earlier)).1 = .ok s ∧
      ((e.stream f n).run (e.rememberedAfter later)).1 = .ok s' ∧
      totalSize s'.batches ≤ totalSize s.batches ∧
      ((∀ b ∈ s.batches, b.Payloads schema.payload.DatesReadable schema.hasWrapper) →
        (totalSize s'.batches = totalSize s.batches ↔
          ∀ b ∈ s.batches, b.Payloads schema.payload.Passes schema.hasWrapper) ∧
        ((∀ b ∈ s.batches, b.Payloads schema.payload.Passes schema.hasWrapper) → s' = s)) := by
  have hordered : Graph.Ordered e.graph.entries := hgraph ▸ Graph.ordered_after idOf calls
  have hschema := schema_of_source hordered hsource horigin
  have hs := answer_stream_of_load hordered hsource hn horigin hload
  have hs' := answer_stream_of_filter hordered hsource hn hkind hfilter hfilterKind hstep hschema hs
  refine ⟨_, _, (run_stream hordered _ _ _).trans hs, (run_stream hordered _ _ _).trans hs', ?_⟩
  have hcheck := checkBatch_of_load hload
  obtain ⟨width, hwidth⟩ := exists_width hcheck
  have hdelivers := BatchStream.delivers_regroup hn fun b hb =>
    ⟨(hfits b hb).formedOf, hwidth b hb⟩
  have hconforms := conforms_of_mem_regroup hcheck hfits n
  have hfull := fun hfails => (hdelivers.of_fault hfails).2.1
  refine BatchStream.filter_own hn (Schema.distinctColumns_payload hdistinct)
    (fun b hb => Schema.holdsPayloads_of_conforms hdistinct (hconforms b hb)) ?_ hfull
  by_cases hends : ((ofList batches).regroup n).failure = none
  · exact (hdelivers.of_end hends).2
  · rw [← List.append_nil ((ofList batches).regroup n).batches]
    exact Batch.sizedBy_append hn (hfull hends) trivial

/-! ### Batches that are filtered by their own type -/

/-- A batch of a type, and a filter of it by this type. Nodes are told apart by how many nodes they
are made from. -/
def filteredByOwnType (t : Ty) (b : Batch) : Engine where
  settings := .default
  graph := .after (fun node => ⟨[node.parents.length.toUInt8]⟩)
    [.source "s" "memory://s" (.ofTy "s" t),
      .transformed (.step ⟨"own", "", []⟩ (.filter t)) [⟨[0]⟩]]
  catalog := ⟨[("s", [b])], fun _ => .missing⟩
  externals := .empty
  queries := Query.run
  entropy := .ofSeed 0

/-- The digits have a column that can hold them. -/
lemma fits_digitAndNull : digitAndNull.Fits := by
  simp [Batch.Fits, digitAndNull, Cell.Fits, Cell.FitsParts, Cell.FitsScalar, ColumnType.int64,
    IntWidth.lo, IntWidth.hi, Number.least64, Number.greatest64]

/-- Digits that may be missing have one column. -/
lemma distinctColumns_optionalDigit : optionalDigit.DistinctColumns := by
  refine .members (by decide) nofun ?_
  rw [List.forall_mem_singleton]
  exact .wrapped .leaf

/-- There are no dates among digits. -/
lemma datesReadable_optionalDigit {type : ColumnType} {cell : Cell} :
    optionalDigit.DatesReadable type cell := by
  refine .members ?_
  rw [List.forall_mem_singleton]
  exact fun _ _ _ => .optional (.leaf nofun)

/-- Digits that may be missing let a digit and a missing one pass. -/
lemma passes_digitAndNull : digitAndNull.Payloads optionalDigit.Passes false := by
  intro type htype row hrow
  cases htype
  refine .struct ?_
  rw [List.forall_mem_singleton]
  intro part under hpart
  obtain ⟨rfl, rfl⟩ := (Ty.partAt_iff (i := 0) rfl).mp hpart
  simp only [digitAndNull, List.mem_cons, List.not_mem_nil, or_false] at hrow
  rcases hrow with rfl | rfl
  · exact .present (.leaf ⟨by decide, by decide⟩)
  · exact .null rfl

/-- A filter for digits that may be missing shows a digit and a missing one as they were read. -/
theorem stream_filter_payload_digitAndNull :
    ∃ s, (((filteredByOwnType optionalDigit digitAndNull).stream ⟨[0]⟩ 2).run
        ((filteredByOwnType optionalDigit digitAndNull).rememberedAfter [.schema ⟨[1]⟩])).1 =
          .ok s ∧
      (((filteredByOwnType optionalDigit digitAndNull).stream ⟨[1]⟩ 2).run
        ((filteredByOwnType optionalDigit digitAndNull).rememberedAfter [])).1 = .ok s ∧
      totalSize s.batches = 2 := by
  obtain ⟨s, s', hs, hs', -, hexact⟩ :=
    stream_filter_payload (e := filteredByOwnType optionalDigit digitAndNull) rfl (d := ⟨[0]⟩)
      (f := ⟨[1]⟩) rfl rfl rfl rfl rfl rfl two_pos rfl
      (List.forall_mem_singleton.mpr fits_digitAndNull) distinctColumns_optionalDigit
      [.schema ⟨[1]⟩] []
  obtain rfl : ofList [digitAndNull] = s := Except.ok.inj (Eq.trans
    (b := (((filteredByOwnType optionalDigit digitAndNull).stream ⟨[0]⟩ 2).run _).1) rfl hs)
  have hdates : ∀ b ∈ [digitAndNull], b.Payloads optionalDigit.DatesReadable false :=
    fun _ _ _ _ _ _ => datesReadable_optionalDigit
  have hsame := (hexact hdates).2 (List.forall_mem_singleton.mpr passes_digitAndNull)
  exact ⟨_, hs, hsame ▸ hs', rfl⟩

/-- A batch is read from a source of a type, and `kept` of its rows are left by a filter by this
type. -/
def OwnFilterKeeps (t : Ty) (b : Batch) (kept : ℕ) : Prop :=
  (filteredByOwnType t b).catalog.load "memory://s" t 10 = .ok [b] ∧
    (((filteredByOwnType t b).stream ⟨[0]⟩ 10).run []).1 = .ok (ofList [b]) ∧
    ∃ s, (((filteredByOwnType t b).stream ⟨[1]⟩ 10).run []).1 = .ok s ∧ totalSize s.batches = kept

/-- Rows of one column. -/
def oneColumn (t : Ty) : Ty := .struct [("a", t)]

/-- Sources that can be read and lose rows to a filter by their own type. A number is out of bounds;
two columns have one name, and the first is taken for both; a branch has the name of the column that
names the branches; a date is out of the calendar's range; nulls are in a column of nulls that may
not hold them. -/
theorem ownFilterKeeps_fewer :
    OwnFilterKeeps (oneColumn (.integer 0 9))
      ⟨[⟨"a", .int64, false⟩], [[.int 5], [.int 50]]⟩ 1 ∧
    OwnFilterKeeps (.struct [("a", .text), ("a", .integer 0 9)])
      ⟨[⟨"a", .utf8, false⟩, ⟨"a", .int64, false⟩], [[.text "50", .int 5]]⟩ 0 ∧
    OwnFilterKeeps (oneColumn (.union [(fieldSelected, .text)]))
      ⟨[⟨"a", .struct [⟨fieldSelected, .utf8, true⟩, Ty.selectorField], false⟩],
        [[.struct true [.text "x", .text fieldSelected]]]⟩ 0 ∧
    OwnFilterKeeps (oneColumn (.ofLeaf (.datetime "%Y-%m-%d" "" "9" .date)))
      ⟨[⟨"a", .scalar .date32, false⟩], [[.int 100000000]]⟩ 0 ∧
    OwnFilterKeeps (oneColumn (.ofLeaf .null)) ⟨[⟨"a", .null, false⟩], [[.null]]⟩ 0 :=
  ⟨⟨rfl, rfl, _, rfl, rfl⟩, ⟨rfl, rfl, _, rfl, rfl⟩, ⟨rfl, rfl, _, rfl, rfl⟩,
    ⟨rfl, rfl, _, rfl, rfl⟩, ⟨rfl, rfl, _, rfl, rfl⟩⟩

end Engine

end Lineage
