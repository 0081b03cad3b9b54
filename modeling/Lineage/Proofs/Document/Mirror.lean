import Mathlib
import Lineage.Proofs.Document.Plan
import Lineage.Proofs.Graph.Failure
import Lineage.Proofs.Graph.Substitution

set_option autoImplicit false

/-!
# The graph of a document mirrors the document

Nodes are told apart by their contents, datasets of a document by their names. The name is part of
the content, so no two datasets share a node unless identifiers collide, and the graph of a document
has one node for each dataset, in the order of the document.

## Main definitions

* `Lineage.Document.Dataset.node`: the node that a dataset describes, given those of other datasets.
* `Lineage.Document.nodes`: the nodes that the datasets of a document describe.
* `Lineage.Document.Built`: a plan that has been made of some datasets.
* `Lineage.Document.Dataset.MirroredBy`: a node is as a dataset says.

## Main results

* `Lineage.Graph.ids_addAll`, `Lineage.Graph.find?_addAll`: adding nodes of different identifiers.
* `Lineage.Document.addDataset_eq_ok`: what adding a dataset does.
* `Lineage.Document.built_plan`: the plan of a document is made of its datasets, for all ways to
  identify nodes.
* `Lineage.Document.mirrored_planOfText`: the graph of a text mirrors the document.

## Design

The schema of a dataset and the node under a name do not change when further datasets are added. So
the node of a dataset can be read off the final plan, although it was made from an earlier one.
-/

namespace Lineage

namespace Graph

variable {idOf : Node → NodeId} {nodes : List Node}

/-- Nodes of different identifiers are listed in the order in which they are added. -/
theorem ids_addAll (h : (nodes.map idOf).Nodup) :
    (empty.addAll idOf nodes).ids = nodes.map idOf := by
  induction nodes using List.reverseRecOn with
  | nil => rfl
  | append_singleton nodes node ih =>
    rw [List.map_append, List.nodup_append] at h
    obtain ⟨hnodes, -, hnew⟩ := h
    have habsent : (empty.addAll idOf nodes).contains (idOf node) = false := by
      refine Bool.eq_false_iff.mpr fun hid => ?_
      rw [← mem_ids_iff, ih hnodes] at hid
      exact hnew _ hid _ List.mem_cons_self rfl
    show ((empty.addAll idOf (nodes ++ [node]))).ids = _
    rw [addAll_append, List.map_append, ← ih hnodes]
    show ((empty.addAll idOf nodes).add (idOf node) node).ids = _
    rw [add, habsent, if_neg Bool.false_ne_true, ids_cons]
    rfl

/-- Nodes that no other nodes share an identifier with are found under their identifiers. -/
theorem find?_addAll (h : Apart idOf nodes) {node : Node} (hnode : node ∈ nodes) :
    (empty.addAll idOf nodes).find? (idOf node) = some node := by
  induction nodes using List.reverseRecOn generalizing node with
  | nil => cases hnode
  | append_singleton nodes last ih =>
    have hfront : Apart idOf nodes := h.mono (List.subset_append_left _ _)
    have hold : ∀ old ∈ nodes,
        (empty.addAll idOf (nodes ++ [last])).find? (idOf old) = some old := by
      intro old hmem
      rw [addAll_append]
      exact (keptIn_addAll _ [last]).within _ _ (ih hfront hmem)
    rcases List.mem_append.mp hnode with hmem | hmem
    · exact hold node hmem
    · obtain rfl := List.mem_singleton.mp hmem
      cases hfound : (empty.addAll idOf nodes).find? (idOf node) with
      | none =>
        rw [addAll_append]
        show ((empty.addAll idOf nodes).add (idOf node) node).find? _ = _
        rw [find?_add_self, hfound]
        rfl
      | some old =>
        -- A node that has the identifier already is the same one.
        have hid : idOf node ∈ nodes.map idOf := by
          have hcontains := Option.isSome_of_eq_some hfound
          rcases contains_addAll_iff.mp hcontains with hid | hid
          · exact hid
          · cases hid
        obtain ⟨old', hmem', hsame⟩ := List.mem_map.mp hid
        obtain rfl := h old' (List.mem_append_left _ hmem') node hnode hsame
        exact hold old' hmem'

end Graph

namespace Document

variable {idOf : Node → NodeId} {infer : TypeSource}

/-! ### The nodes of datasets -/

/-- The type of a source: that of its fields, or else the one that is told from its address. -/
def Dataset.type (infer : TypeSource) (d : Dataset) (uri : String) : Outcome Ty :=
  match d.fields with
  | some fields => structOf fields
  | none => infer d.name uri

/-- The node that a dataset describes, where other datasets have the nodes of a plan. -/
def Dataset.node (infer : TypeSource) (p : Plan) (d : Dataset) : Outcome Node :=
  match d.source, d.origin, d.operation with
  | some uri, none, none => do
    let type ← d.type infer uri
    let schema ← sourceSchema d type
    .ok (.ofOrigin d.name .dataset (.source uri schema))
  | none, some origin, some operation => do
    let parent ← Outcome.ofOption (.unknownDataset origin) (p.find? origin)
    let t ← operation.toTransform d.name fun _ => p.graph.staticSchema parent
    .ok (.ofOrigin d.name .dataset (.transformed (t.withDoc d.doc) [parent] []))
  | _, _, _ => .error .document

/-- The nodes that the datasets of a document describe, where they have the nodes of a plan. -/
def nodes (infer : TypeSource) (p : Plan) (doc : Document) : List Node :=
  doc.datasets.filterMap fun d => (d.node infer p).toOption

/-- A node is as a dataset at a place of a document says: it has the name; a source has the address,
the type and the primary keys; the result of a step is made by that step from the one node whose
dataset is named, and that dataset stands at an earlier place. -/
def Dataset.MirroredBy (infer : TypeSource) (p : Plan) (i : ℕ) (d : Dataset) (node : Node) : Prop :=
  node.name = d.name ∧ node.kind = .dataset ∧
  ((∃ uri schema, d.source = some uri ∧ d.origin = none ∧ d.operation = none ∧
      node.origin = .source uri schema ∧ d.type infer uri = .ok schema.ty ∧
      sourceSchema d schema.ty = .ok schema) ∨
    ∃ origin operation t parent j, d.source = none ∧ d.origin = some origin ∧
      d.operation = some operation ∧ node.origin = .transformed (t.withDoc d.doc) [parent] [] ∧
      operation.toTransform d.name (fun _ => p.graph.staticSchema parent) = .ok t ∧
      j < i ∧ p.datasets[j]? = some (origin, parent))

/-- The node of a dataset has its name. -/
lemma Dataset.name_of_node {p : Plan} {d : Dataset} {node : Node} (h : d.node infer p = .ok node) :
    node.name = d.name := by
  unfold Dataset.node at h
  split at h
  · obtain ⟨type, -, h⟩ := Outcome.bind_eq_ok.mp h
    obtain ⟨schema, -, h⟩ := Outcome.bind_eq_ok.mp h
    cases h
    rfl
  · obtain ⟨parent, -, h⟩ := Outcome.bind_eq_ok.mp h
    obtain ⟨t, -, h⟩ := Outcome.bind_eq_ok.mp h
    cases h
    rfl
  · cases h

/-- The schema of a source keeps the type. -/
lemma ty_sourceSchema {d : Dataset} {type : Ty} {schema : Schema}
    (h : sourceSchema d type = .ok schema) : schema.ty = type := by
  unfold sourceSchema at h
  split at h
  · cases h
    rfl
  · obtain ⟨keys, -, h⟩ := Outcome.bind_eq_ok.mp h
    split at h
    · cases h
    · cases h
      rfl

/-- A step is not a call of an external operation. -/
lemma not_external_of_toTransform {operation : Operation} {name : String}
    {schema : Unit → Outcome Schema} {heading : Heading} {call : ExternalCall} :
    operation.toTransform name schema ≠ .ok (.step heading (.external call)) := by
  intro h
  cases operation with
  | filter bounds =>
    obtain ⟨parent, -, h⟩ := Outcome.bind_eq_ok.mp h
    obtain ⟨target, -, h⟩ := Outcome.map_eq_ok.mp h
    cases h
  | project columns =>
    simp only [Operation.toTransform] at h
    split at h
    · cases h
    · obtain ⟨parent, -, h⟩ := Outcome.bind_eq_ok.mp h
      obtain ⟨path, -, h⟩ := Outcome.bind_eq_ok.mp h
      obtain ⟨target, -, h⟩ := Outcome.map_eq_ok.mp h
      cases h
  | getItem dotted =>
    obtain ⟨path, -, h⟩ := Outcome.map_eq_ok.mp h
    cases h
  | sample size fraction =>
    rcases size with _ | size <;> rcases fraction with _ | fraction <;> cases h
  | slice start stop | extract size seed | shuffle | selectSql query => cases h

/-- What a step other than a call of an external operation makes of rows is rows. -/
lemma kindOf_eq_ok {content : Step} (hcontent : ∀ call, content ≠ .external call) {g : Graph}
    {arguments : List NodeId} {named : Dict NodeId} {kind : NodeKind}
    (h : Graph.kindOf g content arguments named = .ok kind) : kind = .dataset := by
  have hrows : ∀ {node : Node} {fault : Fault},
      (if node.isDataset then .ok .dataset else .error fault) = Except.ok kind →
        kind = .dataset := by
    intro node fault hnode
    split at hnode <;> cases hnode
    rfl
  unfold Graph.kindOf at h
  split at h
  · exact absurd rfl (hcontent _)
  · split at h
    · obtain ⟨node, -, hnode⟩ := Outcome.bind_eq_ok.mp h
      exact hrows hnode
    · cases h

/-! ### Adding a dataset -/

/-- Adding a source: its type, then its schema, then the node. -/
lemma addSource_eq (d : Dataset) (uri : String) (g : Graph) :
    addSource idOf infer d uri g = (do
      let type ← d.type infer uri
      let schema ← sourceSchema d type
      let (result, g') := (Graph.source idOf d.name uri schema).run g
      result.map fun id => (id, g')) := by
  unfold addSource Dataset.type
  cases d.fields <;> rfl

/-- Adding a source adds its node. -/
lemma addSource_eq_ok {d : Dataset} {uri : String} {p : Plan} {id : NodeId} {g : Graph}
    (hsource : d.source = some uri) (horigin : d.origin = none) (hoperation : d.operation = none)
    (h : addSource idOf infer d uri p.graph = .ok (id, g)) :
    ∃ node, d.node infer p = .ok node ∧ id = idOf node ∧ g = p.graph.add id node := by
  rw [addSource_eq] at h
  obtain ⟨type, htype, h⟩ := Outcome.bind_eq_ok.mp h
  obtain ⟨schema, hschema, h⟩ := Outcome.bind_eq_ok.mp h
  obtain ⟨id', hid, heq⟩ := Outcome.map_eq_ok.mp h
  obtain ⟨rfl, hg⟩ := Prod.mk.inj heq
  have hrun : (Graph.source idOf d.name uri schema).run p.graph = (.ok id', g) := Prod.ext hid hg
  obtain ⟨-, rfl, rfl⟩ := Graph.run_insert_eq_ok hrun
  refine ⟨_, ?_, rfl, rfl⟩
  simp only [Dataset.node, hsource, horigin, hoperation, htype, hschema, Outcome.ok_bind]

/-- Adding the result of a step adds its node. -/
lemma addStep_eq_ok {d : Dataset} {origin : String} {operation : Operation} {p : Plan}
    {id : NodeId} {g : Graph} (hsource : d.source = none) (horigin : d.origin = some origin)
    (hoperation : d.operation = some operation)
    (h : addStep idOf d origin operation p = .ok (id, g)) :
    ∃ node, d.node infer p = .ok node ∧ id = idOf node ∧ g = p.graph.add id node := by
  obtain ⟨parent, hparent, h⟩ := Outcome.bind_eq_ok.mp h
  obtain ⟨t, ht, h⟩ := Outcome.bind_eq_ok.mp h
  obtain ⟨id', hid, heq⟩ := Outcome.map_eq_ok.mp h
  obtain ⟨rfl, hg⟩ := Prod.mk.inj heq
  obtain ⟨content, rfl, -⟩ := cut_of_toTransform ht
  have hrun : (Graph.place idOf d.name ((Transform.ofStep content).withDoc d.doc).heading content
      [parent] []).run p.graph = (.ok id', g) := Prod.ext hid hg
  rw [Graph.run_place] at hrun
  split at hrun
  · cases hrun
  · rename_i kind hkind
    obtain rfl := kindOf_eq_ok (fun call hcall => not_external_of_toTransform (hcall ▸ ht)) hkind
    obtain ⟨-, rfl, rfl⟩ := Graph.run_insert_eq_ok hrun
    refine ⟨_, ?_, rfl, rfl⟩
    simp only [Dataset.node, hsource, horigin, hoperation, hparent, ht, Outcome.ok_bind]
    rfl

/-- **What adding a dataset does**: there was none of its name, and the node that it describes is
added under the name. -/
theorem addDataset_eq_ok {p p' : Plan} {d : Dataset} (h : addDataset idOf infer p d = .ok p') :
    p.find? d.name = none ∧ ∃ node, d.node infer p = .ok node ∧
      p' = ⟨p.graph.add (idOf node) node, p.settings, p.datasets ++ [(d.name, idOf node)]⟩ := by
  simp only [addDataset] at h
  split at h
  · cases h
  · rename_i hname
    refine ⟨by simpa using hname, ?_⟩
    split at h
    · rename_i uri hsource horigin hoperation
      obtain ⟨⟨id, g⟩, hadded, h⟩ := Outcome.bind_eq_ok.mp h
      cases h
      obtain ⟨node, hnode, rfl, rfl⟩ := addSource_eq_ok hsource horigin hoperation hadded
      exact ⟨node, hnode, rfl⟩
    · rename_i origin operation hsource horigin hoperation
      obtain ⟨⟨id, g⟩, hadded, h⟩ := Outcome.bind_eq_ok.mp h
      cases h
      obtain ⟨node, hnode, rfl, rfl⟩ := addStep_eq_ok hsource horigin hoperation hadded
      exact ⟨node, hnode, rfl⟩
    · cases h

/-! ### Plans made of datasets -/

/-- A plan that has been made of some datasets, which describe some nodes: the names are distinct,
the nodes are added in order and listed under the names of their datasets, and a dataset that a step
is on stands at an earlier place. -/
structure Built (idOf : Node → NodeId) (infer : TypeSource) (datasets : List Dataset)
    (nodes : List Node) (p : Plan) : Prop where
  /-- Each dataset describes its node. -/
  described : List.Forall₂ (fun d node => d.node infer p = .ok node) datasets nodes
  /-- The nodes are listed under their names. -/
  listed : p.datasets = nodes.map fun node => (node.name, idOf node)
  /-- The nodes are added in order, each unless there is one under its identifier. -/
  graph : p.graph = Graph.empty.addAll idOf nodes
  /-- No name is given twice. -/
  distinct : (datasets.map Dataset.name).Nodup
  /-- The dataset that a step is on stands at an earlier place. -/
  earlier : ∀ (i : ℕ) (d : Dataset) (origin : String),
    datasets[i]? = some d → d.origin = some origin →
      ∃ j parent, j < i ∧ p.datasets[j]? = some (origin, parent) ∧ p.find? origin = some parent

/-- The plan without datasets. -/
lemma built_nil (settings : SettingsLayer) : Built idOf infer [] [] ⟨.empty, settings, []⟩ :=
  ⟨.nil, rfl, rfl, List.nodup_nil, fun i d origin hd => by simp at hd⟩

section Described

variable {p : Plan} {datasets : List Dataset} {nodes : List Node}
  (h : List.Forall₂ (fun d node => d.node infer p = .ok node) datasets nodes)

include h

/-- Nodes that datasets describe have their names. -/
lemma map_name_of_forall₂ : nodes.map Node.name = datasets.map Dataset.name := by
  induction h with
  | nil => rfl
  | cons hnode _ ih => rw [List.map_cons, List.map_cons, ih, Dataset.name_of_node hnode]

/-- Nodes that datasets describe are those that are found for the datasets. -/
lemma filterMap_of_forall₂ : (datasets.filterMap fun d => (d.node infer p).toOption) = nodes := by
  induction h with
  | nil => rfl
  | cons hnode _ ih =>
    rw [List.filterMap_cons, hnode, ih]
    rfl

/-- The dataset at a place describes the node at the place. -/
lemma getElem?_of_forall₂ {i : ℕ} {d : Dataset} (hd : datasets[i]? = some d) :
    ∃ node, nodes[i]? = some node ∧ d.node infer p = .ok node := by
  induction h generalizing i with
  | nil => cases hd
  | cons hnode _ ih =>
    cases i with
    | zero =>
      cases hd
      exact ⟨_, rfl, hnode⟩
    | succ i => exact ih hd

end Described

/-- A dataset is found after another one is added. -/
lemma find?_append {p : Plan} {name : String} {id : NodeId} (h : p.find? name = some id)
    (g : Graph) (settings : SettingsLayer) (more : List (String × NodeId)) :
    Plan.find? ⟨g, settings, p.datasets ++ more⟩ name = some id := by
  obtain ⟨entry, hentry, rfl⟩ := Option.map_eq_some_iff.mp h
  rw [Plan.find?, List.find?_append, hentry]
  rfl

/-- A dataset that is found has a place. -/
lemma exists_place_of_find? {p : Plan} {name : String} {id : NodeId} (h : p.find? name = some id) :
    ∃ j : ℕ, p.datasets[j]? = some (name, id) := by
  obtain ⟨⟨name', id'⟩, hentry, rfl⟩ := Option.map_eq_some_iff.mp h
  obtain rfl : name' = name := by simpa using List.find?_some hentry
  exact List.mem_iff_getElem?.mp (List.mem_of_find?_eq_some hentry)

/-- A name that is not found is not there. -/
lemma not_mem_of_find?_eq_none {p : Plan} {name : String} (h : p.find? name = none) :
    name ∉ p.datasets.map Prod.fst := by
  intro hname
  obtain ⟨entry, hentry, rfl⟩ := List.mem_map.mp hname
  have hnone := List.find?_eq_none.mp (Option.map_eq_none_iff.mp h)
  exact hnone entry hentry (beq_self_eq_true _)

/-- The dataset that a step is on is found. -/
lemma Dataset.find?_of_node {p : Plan} {d : Dataset} {node : Node} {origin : String}
    (h : d.node infer p = .ok node) (horigin : d.origin = some origin) :
    ∃ parent, p.find? origin = some parent := by
  unfold Dataset.node at h
  split at h
  · rename_i hnone _
    cases hnone.symm.trans horigin
  · rename_i hsome _
    obtain rfl := Option.some.inj (hsome.symm.trans horigin)
    obtain ⟨parent, hparent, -⟩ := Outcome.bind_eq_ok.mp h
    exact ⟨parent, Outcome.ofOption_eq_ok.mp hparent⟩
  · cases h

namespace Built

variable {datasets rest : List Dataset} {nodes : List Node} {p p' : Plan} {d : Dataset}
  {node : Node}

/-- The names are those of the datasets. -/
lemma names (h : Built idOf infer datasets nodes p) :
    p.datasets.map Prod.fst = datasets.map Dataset.name := by
  rw [h.listed, List.map_map]
  exact map_name_of_forall₂ h.described

/-- There are as many nodes listed as there are datasets. -/
lemma length_eq (h : Built idOf infer datasets nodes p) : p.datasets.length = datasets.length := by
  simpa only [List.length_map] using congrArg List.length h.names

/-- There is a node for every dataset. -/
lemma contains_of_find? (h : Built idOf infer datasets nodes p) {name : String} {id : NodeId}
    (hid : p.find? name = some id) : p.graph.contains id = true := by
  obtain ⟨entry, hentry, rfl⟩ := Option.map_eq_some_iff.mp hid
  have hmem := List.mem_of_find?_eq_some hentry
  rw [h.listed] at hmem
  obtain ⟨node, hnode, rfl⟩ := List.mem_map.mp hmem
  rw [h.graph]
  exact Graph.contains_addAll_iff.mpr (Or.inl (List.mem_map_of_mem hnode))

/-- **A further dataset leaves the nodes that others describe as they are**: the dataset that a step
is on is found as before, and its schema is the same. -/
lemma node_add (h : Built idOf infer datasets nodes p) (hnode : d.node infer p = .ok node)
    (added : Node) (more : List (String × NodeId)) :
    d.node infer ⟨p.graph.add (idOf added) added, p.settings, p.datasets ++ more⟩ = .ok node := by
  unfold Dataset.node at hnode ⊢
  split at hnode
  · exact hnode
  · obtain ⟨parent, hparent, hnode⟩ := Outcome.bind_eq_ok.mp hnode
    have hfound := Outcome.ofOption_eq_ok.mp hparent
    have hschema : (p.graph.add (idOf added) added).staticSchema parent =
        p.graph.staticSchema parent := by
      cases hnew : p.graph.contains (idOf added) with
      | true => rw [(Graph.add_eq_self_iff _ _ _).mpr hnew]
      | false => exact Graph.staticSchema_add hnew (h.contains_of_find? hfound)
    have hlater := find?_append hfound (p.graph.add (idOf added) added) p.settings more
    refine Outcome.bind_eq_ok.mpr ⟨parent, Outcome.ofOption_eq_ok.mpr hlater, ?_⟩
    rw [hschema]
    exact hnode
  · cases hnode

/-- **Adding a dataset** to a plan that has been made of some makes it one of these and the new
one.

**Proof sketch.** The nodes of the older datasets are described as before (`node_add`), the
new node is listed last under the name of its dataset, and this name was not there. A step is
on a dataset that is found, and so at an earlier place. -/
theorem addDataset (h : Built idOf infer datasets nodes p)
    (hadded : addDataset idOf infer p d = .ok p') :
    ∃ node, Built idOf infer (datasets ++ [d]) (nodes ++ [node]) p' := by
  obtain ⟨hnew, node, hnode, rfl⟩ := addDataset_eq_ok hadded
  have hname : node.name = d.name := Dataset.name_of_node hnode
  refine ⟨node, ?_, ?_, ?_, ?_, fun i d' origin hd' horigin => ?_⟩
  · have hold := h.described.imp fun d' node' hnode' =>
      h.node_add hnode' node [(d.name, idOf node)]
    exact List.rel_append hold (.cons (h.node_add hnode node _) .nil)
  · rw [List.map_append, ← h.listed, List.map_singleton, hname]
  · rw [Graph.addAll_append, ← h.graph]
    rfl
  · have hfresh : d.name ∉ datasets.map Dataset.name := h.names ▸ not_mem_of_find?_eq_none hnew
    rw [List.map_append, List.map_singleton, List.nodup_append]
    refine ⟨h.distinct, List.nodup_singleton _, fun name hmem name' hmem' => ?_⟩
    rw [List.mem_singleton.mp hmem']
    rintro rfl
    exact hfresh hmem
  · -- A place below the new dataset keeps what it has; the new one is on a dataset that is there.
    have hlater : ∀ {j parent}, p.datasets[j]? = some (origin, parent) →
        (p.datasets ++ [(d.name, idOf node)])[j]? = some (origin, parent) := fun hj => by
      rwa [List.getElem?_append_left (List.getElem?_eq_some_iff.mp hj).1]
    rcases Nat.lt_or_ge i datasets.length with hi | hi
    · rw [List.getElem?_append_left hi] at hd'
      obtain ⟨j, parent, hj, hplace, hfound⟩ := h.earlier i d' origin hd' horigin
      exact ⟨j, parent, hj, hlater hplace, find?_append hfound _ _ _⟩
    · obtain rfl : d' = d := by
        rw [List.getElem?_append_right hi] at hd'
        exact List.mem_singleton.mp (List.mem_of_getElem? hd')
      obtain ⟨parent, hfound⟩ := Dataset.find?_of_node hnode horigin
      obtain ⟨j, hplace⟩ := exists_place_of_find? hfound
      have hj : j < p.datasets.length := (List.getElem?_eq_some_iff.mp hplace).1
      rw [h.length_eq] at hj
      exact ⟨j, parent, hj.trans_le hi, hlater hplace, find?_append hfound _ _ _⟩

/-- **Adding datasets** one after another to a plan that has been made of some makes it one of
all. -/
theorem foldlM (h : Built idOf infer datasets nodes p)
    (hadded : rest.foldlM (Document.addDataset idOf infer) p = .ok p') :
    ∃ nodes', Built idOf infer (datasets ++ rest) nodes' p' := by
  induction rest generalizing datasets nodes p with
  | nil =>
    cases hadded
    exact ⟨nodes, by rwa [List.append_nil]⟩
  | cons d rest ih =>
    rw [List.foldlM_cons] at hadded
    obtain ⟨next, hnext, hrest⟩ := Outcome.bind_eq_ok.mp hadded
    obtain ⟨node, hbuilt⟩ := h.addDataset hnext
    rw [List.append_cons]
    exact ih hbuilt hrest

end Built

/-- **The plan of a document is made of its datasets**, in whatever way nodes are identified. -/
theorem built_plan {doc : Document} {p : Plan} (h : plan idOf infer doc = .ok p) :
    Built idOf infer doc.datasets (doc.nodes infer p) p := by
  obtain ⟨nodes, hbuilt⟩ := (built_nil doc.settings).foldlM h
  have hnodes : doc.nodes infer p = nodes := filterMap_of_forall₂ hbuilt.described
  rwa [hnodes]

/-- What a dataset describes is as it says. -/
lemma Built.mirroredBy {datasets : List Dataset} {nodes : List Node} {p : Plan}
    (h : Built idOf infer datasets nodes p) {i : ℕ} {d : Dataset} {node : Node}
    (hd : datasets[i]? = some d) (hnode : d.node infer p = .ok node) :
    d.MirroredBy infer p i node := by
  have hname : node.name = d.name := Dataset.name_of_node hnode
  unfold Dataset.node at hnode
  split at hnode
  · rename_i uri hsource horigin hoperation
    obtain ⟨type, htype, hnode⟩ := Outcome.bind_eq_ok.mp hnode
    obtain ⟨schema, hschema, hnode⟩ := Outcome.bind_eq_ok.mp hnode
    cases hnode
    obtain rfl := ty_sourceSchema hschema
    exact ⟨hname, rfl, .inl ⟨uri, schema, hsource, horigin, hoperation, rfl, htype, hschema⟩⟩
  · rename_i origin operation hsource horigin hoperation
    obtain ⟨parent, hparent, hnode⟩ := Outcome.bind_eq_ok.mp hnode
    obtain ⟨t, ht, hnode⟩ := Outcome.bind_eq_ok.mp hnode
    cases hnode
    obtain ⟨j, parent', hj, hplace, hfound⟩ := h.earlier i d origin hd horigin
    obtain rfl : parent' = parent :=
      Option.some.inj (hfound.symm.trans (Outcome.ofOption_eq_ok.mp hparent))
    exact ⟨hname, rfl,
      .inr ⟨origin, operation, t, parent', j, hsource, horigin, hoperation, rfl, ht, hj, hplace⟩⟩
  · cases hnode

/-- Nodes of different datasets are different, as their names are. -/
lemma Built.nodup_ids {datasets : List Dataset} {nodes : List Node} {p : Plan}
    (h : Built idOf infer datasets nodes p) (hapart : Graph.Apart idOf nodes) :
    (nodes.map idOf).Nodup := by
  have hnames : (nodes.map Node.name).Nodup := by
    have hdistinct := h.distinct
    rwa [← h.names, h.listed, List.map_map] at hdistinct
  exact (List.Nodup.of_map _ hnames).map_on hapart

/-- **The graph of a text mirrors the document.** If the nodes that its datasets describe have
identifiers of their own, then the datasets have different names, their nodes are all there are, in
the order of the document and each listed once, and each of them is as its dataset says.

**Proof sketch.** The plan is made of the datasets one after the other (`built_plan`). Their
nodes have different names and so, by the hypothesis, different identifiers: each of them is
added (`Graph.ids_addAll`) and stands under its own (`Graph.find?_addAll`). -/
theorem mirrored_planOfText {text : String} {doc : Document} {p : Plan}
    (hdoc : ofText? text = some doc) (hplan : planOfText idOf infer text = .ok p)
    (hapart : Graph.Apart idOf (doc.nodes infer p)) :
    (doc.datasets.map Dataset.name).Nodup ∧
    p.datasets.map Prod.fst = doc.datasets.map Dataset.name ∧
    p.graph.ids = p.datasets.map Prod.snd ∧ p.graph.ids.Nodup ∧
    ∀ (i : ℕ) (d : Dataset), doc.datasets[i]? = some d →
      ∃ id node, p.datasets[i]? = some (d.name, id) ∧ p.graph.find? id = some node ∧
        d.MirroredBy infer p i node := by
  obtain ⟨doc', hdoc', hplan⟩ := Outcome.bind_eq_ok.mp hplan
  obtain rfl : doc' = doc := Option.some.inj ((Outcome.ofOption_eq_ok.mp hdoc').symm.trans hdoc)
  have hbuilt := built_plan hplan
  have hnodup := hbuilt.nodup_ids hapart
  have hids : p.graph.ids = (doc'.nodes infer p).map idOf := by
    rw [hbuilt.graph, Graph.ids_addAll hnodup]
  have hlisted : p.datasets.map Prod.snd = (doc'.nodes infer p).map idOf := by
    rw [hbuilt.listed, List.map_map]
    rfl
  refine ⟨hbuilt.distinct, hbuilt.names, hids.trans hlisted.symm, hids ▸ hnodup, fun i d hd => ?_⟩
  obtain ⟨node, hnode, hdescribed⟩ := getElem?_of_forall₂ hbuilt.described hd
  have hfound : p.graph.find? (idOf node) = some node := by
    rw [hbuilt.graph]
    exact Graph.find?_addAll hapart (List.mem_of_getElem? hnode)
  refine ⟨idOf node, node, ?_, hfound, hbuilt.mirroredBy hd hdescribed⟩
  rw [hbuilt.listed, List.getElem?_map, hnode, ← Dataset.name_of_node hdescribed]
  rfl

/-! ### Rows that are shuffled twice -/

/-- Two datasets that are shuffles of the same rows. -/
def shufflesText : String :=
  "datasets:\n"
    ++ "- name: rows\n"
    ++ "  source: memory://rows\n"
    ++ "- name: first\n"
    ++ "  from: rows\n"
    ++ "  transform:\n"
    ++ "    op: shuffle\n"
    ++ "- name: second\n"
    ++ "  from: rows\n"
    ++ "  transform:\n"
    ++ "    op: shuffle\n"

/-- The document of the text. -/
def shufflesDocument : Document where
  settings := .empty
  datasets := [⟨"rows", "", some "memory://rows", none, [], none, none⟩,
    ⟨"first", "", none, none, [], some "rows", some .shuffle⟩,
    ⟨"second", "", none, none, [], some "rows", some .shuffle⟩]

/-- Nodes are identified by the lengths of their names. -/
def byLength (node : Node) : NodeId := ⟨[node.name.utf8ByteSize.toUInt8]⟩

/-- All sources have one column of text. -/
def columnOfText : TypeSource := fun _ _ => .ok (.struct [("a", .text)])

/-- A shuffle of the rows. -/
def shuffleNode (name : String) : Node :=
  .ofOrigin name .dataset (.transformed (.ofStep .shuffle) [⟨[4]⟩] [])

/-- The rows. -/
def rowsNode : Node :=
  .ofOrigin "rows" .dataset (.source "memory://rows" (.ofTy "rows" (.struct [("a", .text)])))

/-- The plan of the text. -/
def shufflesPlan : Plan where
  graph := ⟨[(⟨[6]⟩, shuffleNode "second"), (⟨[5]⟩, shuffleNode "first"), (⟨[4]⟩, rowsNode)]⟩
  settings := .empty
  datasets := [("rows", ⟨[4]⟩), ("first", ⟨[5]⟩), ("second", ⟨[6]⟩)]

set_option maxRecDepth 2000 in
/-- The document is read from the text. -/
lemma ofText?_shufflesText : ofText? shufflesText = some shufflesDocument := by cbv

/-- Two shuffles of the same rows are two nodes. -/
theorem mirrored_planOfText_shufflesText :
    ofText? shufflesText = some shufflesDocument ∧
    planOfText byLength columnOfText shufflesText = .ok shufflesPlan ∧
    shufflesPlan.graph.ids = [⟨[4]⟩, ⟨[5]⟩, ⟨[6]⟩] ∧ shufflesPlan.graph.ids.Nodup ∧
    ∃ node, shufflesPlan.graph.find? ⟨[6]⟩ = some node ∧
      Dataset.MirroredBy columnOfText shufflesPlan 2
        ⟨"second", "", none, none, [], some "rows", some .shuffle⟩ node := by
  have hplan : planOfText byLength columnOfText shufflesText = .ok shufflesPlan := by
    rw [planOfText, ofText?_shufflesText]
    rfl
  have hapart : Graph.Apart byLength (shufflesDocument.nodes columnOfText shufflesPlan) := by
    have hnodup : ((shufflesDocument.nodes columnOfText shufflesPlan).map byLength).Nodup := by
      show [(⟨[4]⟩ : NodeId), ⟨[5]⟩, ⟨[6]⟩].Nodup
      decide
    exact fun node hnode node' hnode' => List.inj_on_of_nodup_map hnodup hnode hnode'
  obtain ⟨-, -, hids, hnodup, hnodes⟩ :=
    mirrored_planOfText ofText?_shufflesText hplan hapart
  obtain ⟨id, node, hid, hnode, hmirrored⟩ := hnodes 2 _ rfl
  cases hid
  exact ⟨ofText?_shufflesText, hplan, hids, hnodup, node, hnode, hmirrored⟩

end Document

end Lineage
