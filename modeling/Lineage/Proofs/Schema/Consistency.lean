import Lineage.Proofs.Dict
import Lineage.Proofs.Graph.Substitution
import Lineage.Proofs.Path.Json
import Lineage.Proofs.Schema.Propagation
import Lineage.Proofs.Ty.Address
import Lineage.Proofs.Ty.References

set_option autoImplicit false

/-!
# Consistent schemas

The references, the primary keys and the protected parts of a schema are paths into its type. Steps
that cut data down drop those that no longer lead anywhere, so schemas stay consistent along any
chain of steps. The primary keys are kept as text and are written and read at every step.

## Main definitions

* `Lineage.Schema.Consistent`: all paths of a schema lead somewhere in its type.
* `Lineage.Step.narrows`: a step keeps data or a part of it.
* `Lineage.Node.Narrows`: a node is a consistent source or made by such a step from one node.

## Main results

* `Lineage.Schema.keysOfText?_keysText`: keys are read back from their text.
* `Lineage.Schema.derive_consistent`: derived data has a consistent schema.
* `Lineage.Schema.propagate_consistent`: a step keeps schemas consistent.
* `Lineage.Graph.staticSchema_consistent`: the schemas of a whole graph are consistent.
-/

namespace Lineage

namespace Ty

/-- A path leads somewhere in a type. -/
def Resolves (t : Ty) (path : Path) : Prop := ∃ part, t.get path = .ok part

/-- The test for paths that lead somewhere. -/
lemma hasPath_iff_resolves {t : Ty} {path : Path} : t.hasPath path = true ↔ t.Resolves path := by
  unfold hasPath Resolves
  cases t.get path <;> simp

end Ty

namespace Schema

/-- All references, primary keys and protected parts of a schema lead somewhere in its type. -/
structure Consistent (s : Schema) : Prop where
  /-- The references do, also those of the candidates of hypotheses. -/
  references : ∀ r ∈ s.ty.references, s.ty.Resolves r
  /-- The primary keys can be read and do. -/
  keys : ∃ keys, s.primaryKeys = .ok keys ∧ ∀ key ∈ keys, s.ty.Resolves key
  /-- The protected parts do. -/
  protectedPaths : ∀ path ∈ s.protectedPaths, s.ty.Resolves path

/-! ### Primary keys -/

open Json in
/-- **Keys are read back** from their text, unless they nest too deep.

**Proof sketch.** Keys are written as values of which all member names are known, and these
are read back if they are not deeper than the reader goes (`parseMembers?_render`). -/
theorem keysOfText?_keysText {keys : List Path}
    (h : nestingOfItems (Path.toJsonList keys) + 1 < depthLimit) :
    keysOfText? (keysText keys) = some keys := by
  have hverbal : isVerbal Path.memberNames.contains (.array (Path.toJsonList keys)) = true :=
    Path.areVerbal_toJsonList keys
  rw [keysOfText?, keysText, parseMembers?_render hverbal h]
  exact Path.ofJsonList?_toJsonList keys

open Json in
/-- Keys that have been read do not nest too deep. -/
lemma nesting_of_keysOfText? {text : String} {keys : List Path}
    (h : keysOfText? text = some keys) :
    nestingOfItems (Path.toJsonList keys) + 1 < depthLimit := by
  unfold keysOfText? at h
  split at h
  · rename_i items hitems
    have hdepth := nesting_lt_of_parseMembers? hitems
    have hle := Path.nestingOfItems_toJsonList_le h
    rw [nesting] at hdepth
    omega
  · cases h

/-- Primary keys that are set can be read, unless they nest too deep. -/
lemma primaryKeys_withPrimaryKeys (s : Schema) {keys : List Path}
    (h : Json.nestingOfItems (Path.toJsonList keys) + 1 < Json.depthLimit) :
    (s.withPrimaryKeys keys).primaryKeys = .ok keys := by
  rw [primaryKeys, withPrimaryKeys, withProperty, Dict.find?_insert_self]
  exact Outcome.ofOption_eq_ok.mpr (keysOfText?_keysText h)

/-- **Some of the primary keys are kept**: they are written as text and read back. -/
theorem primaryKeys_retainPrimaryKeys {s : Schema} {keys : List Path}
    (h : s.primaryKeys = .ok keys) (ty : Ty) : ∃ kept, s.retainPrimaryKeys ty = .ok kept ∧
      kept.primaryKeys = .ok (keys.filter ty.hasPath) := by
  unfold retainPrimaryKeys
  rw [Dict.contains_eq_isSome_find?]
  cases htext : s.properties.find? primaryKeysProperty with
  | none =>
    have hnone : s.primaryKeys = .ok [] := by rw [primaryKeys, htext]
    cases hnone.symm.trans h
    exact ⟨s, rfl, hnone⟩
  | some text =>
    refine ⟨s.withPrimaryKeys (keys.filter ty.hasPath), by rw [h]; rfl, ?_⟩
    have hkeys : keysOfText? text = some keys := by
      rw [primaryKeys, htext] at h
      exact Outcome.ofOption_eq_ok.mp h
    have hdepth := nesting_of_keysOfText? hkeys
    have hle := Path.nestingOfItems_toJsonList_filter_le ty.hasPath keys
    exact primaryKeys_withPrimaryKeys s (by omega)

/-! ### Derived schemas -/

/-- **Derived data has a consistent schema** if the references of its type lead somewhere.

**Proof sketch.** Keys and protected parts are cut down to those that lead somewhere in the
new type. The keys that are left have been read, so that they are not too deep to be read
again (`primaryKeys_retainPrimaryKeys`). -/
theorem derive_consistent {s : Schema} {keys : List Path} (hkeys : s.primaryKeys = .ok keys)
    (name : String) {ty : Ty} (hty : ∀ r ∈ ty.references, ty.Resolves r) :
    ∃ s', s.derive name ty = .ok s' ∧ s'.Consistent := by
  obtain ⟨kept, hkept, hkeptKeys⟩ := primaryKeys_retainPrimaryKeys
    (s := ⟨name, ty, s.protectedPaths, s.properties⟩) hkeys ty
  refine ⟨⟨name, ty, kept.protectedPaths.filter ty.hasPath, kept.properties⟩, ?_, hty,
    ⟨_, hkeptKeys, fun key hkey => ?_⟩, fun path hpath => ?_⟩
  · rw [derive, hkept]
    rfl
  · exact Ty.hasPath_iff_resolves.mp (List.mem_filter.mp hkey).2
  · exact Ty.hasPath_iff_resolves.mp (List.mem_filter.mp hpath).2

/-- **Data that is cut down to a target has a consistent schema**, whatever the target. -/
theorem narrowed_consistent {s : Schema} (h : s.Consistent) (name : String) (target : Ty) :
    ∃ s', s.narrowed name target = .ok s' ∧ s'.Consistent := by
  obtain ⟨keys, hkeys, -⟩ := h.keys
  exact derive_consistent hkeys name fun r hr =>
    Ty.hasPath_iff_resolves.mp (Ty.hasPath_of_mem_updateReferences hr)

end Schema

/-- A step keeps data or a part of it that a type describes. -/
def Step.narrows : Step → Bool
  | .filter _ | .project _ | .sample _ | .slice .. | .extract .. | .shuffle
  | .differentiatedSample _ => true
  | .getItem _ | .selectSql _ | .external _ => false

/-- **A step keeps schemas consistent.** -/
theorem Schema.propagate_consistent {s : Schema} (h : s.Consistent) {content : Step}
    (hcontent : content.narrows = true) (name : String) (heading : Heading) :
    ∃ s', s.propagate name (.step heading content) = .ok (.ready s') ∧ s'.Consistent := by
  have hcut : ∀ target, ∃ s', (s.narrowed name target).map Propagation.ready = .ok (.ready s') ∧
      s'.Consistent := by
    intro target
    obtain ⟨s', hs', hconsistent⟩ := narrowed_consistent h name target
    exact ⟨s', by rw [hs']; rfl, hconsistent⟩
  cases content with
  | filter target | project target => exact hcut target
  | sample size | slice start stop | extract size seed | shuffle | differentiatedSample size =>
    exact ⟨⟨name, s.ty, s.protectedPaths, s.properties⟩, rfl, h.references, h.keys,
      h.protectedPaths⟩
  | getItem path | selectSql query | external call => cases hcontent

/-- A node is a source with a consistent schema, or made by a step that keeps data or a part of it
from exactly one node. -/
inductive Node.Narrows (node : Node) : Prop where
  /-- The node is a source. -/
  | source {uri : String} {schema : Schema} (horigin : node.origin = .source uri schema)
    (hschema : schema.Consistent)
  /-- The node is made by a step. -/
  | step {heading : Heading} {content : Step} {parent : NodeId} {named : Dict NodeId}
    (horigin : node.origin = .transformed (.step heading content) [parent] named)
    (hcontent : content.narrows = true)

namespace Graph

variable {idOf : Node → NodeId}

/-- **The schemas of a whole graph are consistent.** In a graph that any calls make, where sources
have consistent schemas and all other nodes are made from one node each by steps that keep data or
a part of it, every node has a schema and it is consistent.

**Proof sketch.** By induction along the order of the graph, where parents come before their
children: a source has a consistent schema, and a step makes one of that of its parent
(`Schema.propagate_consistent`). -/
theorem staticSchema_consistent {calls : List Call}
    (h : ∀ id node, (after idOf calls).find? id = some node → node.Narrows) :
    ∀ id, (after idOf calls).contains id = true →
      ∃ s, (after idOf calls).staticSchema id = .ok s ∧ s.Consistent := by
  have hordered := ordered_after idOf calls
  refine hordered.induction fun id node hnode hparents => ?_
  cases h id node hnode with
  | @source uri schema horigin hschema =>
    exact ⟨schema, staticSchema_source hordered hnode horigin, hschema⟩
  | @step heading content parent named horigin hcontent =>
    have hmem : parent ∈ node.parents := by simp [Node.parents, horigin]
    obtain ⟨s, hs, hconsistent⟩ := hparents parent hmem
    obtain ⟨s', hs', hconsistent'⟩ :=
      Schema.propagate_consistent hconsistent hcontent node.name heading
    exact ⟨s', staticSchema_step hordered hnode horigin hs hs', hconsistent'⟩

/-! ### Rows with keys -/

/-- Rows with a key and a reference to it. -/
def keyedSchema : Schema :=
  Schema.withPrimaryKeys [Path.ofLabels ["id"]]
    ⟨"rows", .struct [("id", .ofLeaf (.id true .int64 none)),
      ("parent", .ofLeaf (.id false .int64 (some (Path.ofLabels ["id"]))))],
      [Path.ofLabels ["parent"]], []⟩

/-- The schema of the rows with a key is consistent. -/
lemma consistent_keyedSchema : keyedSchema.Consistent := by
  have hid : keyedSchema.ty.Resolves (Path.ofLabels ["id"]) :=
    ⟨_, Ty.get_ofLabels_eq_ok.mpr rfl⟩
  have hparent : keyedSchema.ty.Resolves (Path.ofLabels ["parent"]) :=
    ⟨_, Ty.get_ofLabels_eq_ok.mpr rfl⟩
  refine ⟨fun r hr => ?_, ⟨[Path.ofLabels ["id"]], ?_, fun key hkey => ?_⟩, fun path hpath => ?_⟩
  · rw [List.mem_singleton.mp hr]
    exact hid
  · exact Schema.primaryKeys_withPrimaryKeys _ (by decide)
  · rw [List.mem_singleton.mp hkey]
    exact hid
  · rw [List.mem_singleton.mp hpath]
    exact hparent

/-- The rows with a key. -/
def keyedRows : Node := .ofOrigin "rows" .dataset (.source "memory://rows" keyedSchema)

/-- The references of the rows with a key, without the key. -/
def parentsOfRows : Node :=
  .ofOrigin "parents" .dataset (.transformed (.ofStep (.project (.struct [("parent",
    .ofLeaf (.id false .int64 (some (Path.ofLabels ["id"]))))]))) [keyedRows.id] [])

/-- A source is added to the empty graph, then a node made from it. -/
lemma after_insert_insert {a b : Node} (ha : a.parents = [])
    (hb : ∀ parent ∈ b.parents, parent = a.id) :
    after Node.id [.insert a, .insert b] = (⟨[(a.id, a)]⟩ : Graph).add b.id b := by
  have hfirst : after Node.id [.insert a] = ⟨[(a.id, a)]⟩ := by
    rw [← List.nil_append [Call.insert a], after_concat, Call.build,
      run_insert_of_parents (by simp [ha])]
    rfl
  have hparents : ∀ parent ∈ b.parents, (⟨[(a.id, a)]⟩ : Graph).contains parent = true := by
    intro parent hparent
    rw [hb parent hparent, contains, find?_cons, if_pos rfl, Option.isSome_some]
  rw [show [Call.insert a, .insert b] = [.insert a] ++ [.insert b] from rfl, after_concat, hfirst,
    Call.build, run_insert_of_parents hparents]

/-- The references of the rows alone have a consistent schema: they refer to nothing any more. -/
theorem staticSchema_consistent_parentsOfRows :
    ∃ s, (after Node.id [.insert keyedRows, .insert parentsOfRows]).staticSchema parentsOfRows.id =
      .ok s ∧ s.Consistent := by
  have hafter : after Node.id [.insert keyedRows, .insert parentsOfRows] =
      (⟨[(keyedRows.id, keyedRows)]⟩ : Graph).add parentsOfRows.id parentsOfRows :=
    after_insert_insert rfl fun parent hparent => List.mem_singleton.mp hparent
  refine staticSchema_consistent (fun id node hnode => ?_) _ ?_
  · have hmem := mem_entries_of_find? hnode
    rw [hafter, add] at hmem
    split at hmem
    · cases List.mem_singleton.mp hmem
      exact .source rfl consistent_keyedSchema
    · rcases List.mem_cons.mp hmem with heq | hmem
      · cases heq
        exact .step rfl rfl
      · cases List.mem_singleton.mp hmem
        exact .source rfl consistent_keyedSchema
  · rw [hafter]
    exact contains_add_iff.mpr (Or.inl rfl)

/-- The given rows shuffled together with themselves. -/
def shuffledTwice : Node :=
  .ofOrigin "shuffle" .dataset (.transformed (.ofStep .shuffle) [givenRows.id, givenRows.id] [])

/-- The given rows and their shuffle with themselves have two identifiers. -/
lemma id_shuffledTwice_ne : shuffledTwice.id ≠ givenRows.id := by
  rw [shuffledTwice, id_givenRows]
  decide +kernel

/-- A node made from two nodes has no schema, even if the step is one of those that keep data and
the source has a consistent schema. -/
theorem staticSchema_of_two_parents :
    givenRows.Narrows ∧ Step.narrows .shuffle = true ∧
    shuffledTwice.origin = .transformed (.ofStep .shuffle) [givenRows.id, givenRows.id] [] ∧
    (after Node.id [.insert givenRows, .insert shuffledTwice]).nodes =
      [givenRows, shuffledTwice] ∧
    (after Node.id [.insert givenRows, .insert shuffledTwice]).staticSchema shuffledTwice.id =
      .error (.invariant "'shuffle' has 2 parents, expected one") := by
  have hparents : ∀ parent ∈ shuffledTwice.parents, parent = givenRows.id := by
    simp [shuffledTwice, Node.parents, Node.ofOrigin, Dict.values]
  have hafter : after Node.id [.insert givenRows, .insert shuffledTwice] =
      ⟨[(shuffledTwice.id, shuffledTwice), (givenRows.id, givenRows)]⟩ := by
    rw [after_insert_insert rfl hparents, add, contains, find?_cons,
      if_neg id_shuffledTwice_ne.symm]
    rfl
  have hgiven : (⟨"s", .struct [], [], []⟩ : Schema).Consistent := by
    refine ⟨fun r hr => absurd hr List.not_mem_nil, ⟨[], rfl, fun key hkey => ?_⟩,
      fun path hpath => absurd hpath List.not_mem_nil⟩
    exact absurd hkey List.not_mem_nil
  refine ⟨.source rfl hgiven, rfl, rfl, ?_, ?_⟩
  · rw [hafter]
    rfl
  · rw [hafter, staticSchema, staticSchemaIn, if_pos rfl]
    rfl

end Graph

end Lineage
