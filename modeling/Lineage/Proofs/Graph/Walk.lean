import Lineage.Proofs.Digest
import Lineage.Proofs.Graph.Ancestry

set_option autoImplicit false

/-!
# Walks back to the sources

The sources that a node goes back to can be found by a walk over the whole graph, which keeps a
stack of nodes to be visited and looks up each node once. In an ordered graph this walk comes to an
end and finds what is found by going through the nodes from the newest to the oldest.

## Main definitions

* `Lineage.Graph.SourceAt`: there is a node that is not made from others.
* `Lineage.Graph.Walk`, `Lineage.Graph.walk`: the state of a walk, and a bounded number of rounds.
* `Lineage.Graph.edgeCount`: how many edges a graph has.

## Main results

* `Lineage.Graph.mem_sourcesIn`: the sources among the nodes are the ancestors that are sources.
* `Lineage.Graph.Walk.Sound.walk_eq`: a walk ends within a number of rounds.
* `Lineage.Graph.walk_eq_sources`: it finds the sources.
* `Lineage.Graph.sources_after`: which nodes the sources are, after any calls.
-/

namespace Lineage

namespace Graph

/-- There is a node that is not made from others. -/
def SourceAt (g : Graph) (id : NodeId) : Prop :=
  ∃ node, g.find? id = some node ∧ node.isSource = true

/-- A source is not made from other nodes. -/
lemma parents_of_isSource {node : Node} (h : node.isSource = true) : node.parents = [] := by
  unfold Node.isSource Node.isTransformed at h
  unfold Node.parents
  split
  · rename_i horigin
    simp [horigin] at h
  · rfl

/-! ### From the newest node to the oldest -/

section Older

variable {key : NodeId} {node : Node} {older : List (NodeId × Node)}

/-- Sources, by the newest entry. -/
lemma sourceAt_cons {id : NodeId} : SourceAt ⟨(key, node) :: older⟩ id ↔
    if key = id then node.isSource = true else SourceAt ⟨older⟩ id := by
  unfold SourceAt
  rw [find?_cons]
  split <;> simp

/-- Parents, by the newest entry. -/
lemma parentOf_cons {parent id : NodeId} : ParentOf ⟨(key, node) :: older⟩ parent id ↔
    if key = id then parent ∈ node.parents else ParentOf ⟨older⟩ parent id := by
  unfold ParentOf
  rw [find?_cons]
  split <;> simp

/-- A source is there. -/
lemma SourceAt.contains {g : Graph} {id : NodeId} (h : g.SourceAt id) : g.contains id = true := by
  obtain ⟨node, hnode, -⟩ := h
  exact Option.isSome_of_eq_some hnode

variable (h : Ordered ((key, node) :: older))

include h

/-- A parent of an older node is not the newest node. -/
lemma Ordered.ne_of_parentOf_older {parent id : NodeId} (hparent : ParentOf ⟨older⟩ parent id) :
    key ≠ parent := by
  obtain ⟨found, hfound, hmem⟩ := hparent
  exact ne_of_contains h.1 (h.2.2.contains_of_parent hfound hmem)

/-- The ancestors of another node than the newest are found among the older nodes. -/
lemma Ordered.ancestorOf_older {id start : NodeId} (hstart : key ≠ start) :
    AncestorOf ⟨(key, node) :: older⟩ id start ↔ AncestorOf ⟨older⟩ id start := by
  constructor
  · intro hid
    induction hid with
    | refl => exact .refl
    | tail _ hparent ih =>
      rw [parentOf_cons, if_neg hstart] at hparent
      exact (ih (h.ne_of_parentOf_older hparent)).tail hparent
  · intro hid
    induction hid with
    | refl => exact .refl
    | tail _ hparent ih =>
      refine (ih (h.ne_of_parentOf_older hparent)).tail ?_
      rwa [parentOf_cons, if_neg hstart]

/-- The ancestors of the newest node are this node and the ancestors of its parents. -/
lemma Ordered.ancestorOf_newest {id : NodeId} : AncestorOf ⟨(key, node) :: older⟩ id key ↔
    key = id ∨ ∃ parent ∈ node.parents, AncestorOf ⟨older⟩ id parent := by
  unfold AncestorOf
  rw [Relation.ReflTransGen.cases_tail_iff]
  refine or_congr_right (exists_congr fun parent => ?_)
  rw [parentOf_cons, if_pos rfl, and_comm]
  refine and_congr_right fun hparent => ?_
  exact h.ancestorOf_older (ne_of_contains h.1 (h.2.1 parent hparent))

/-- The newest node is an ancestor of no other node. -/
lemma Ordered.not_ancestorOf_of_ne {start : NodeId} (hstart : key ≠ start) :
    ¬ AncestorOf ⟨(key, node) :: older⟩ key start := by
  rw [h.ancestorOf_older hstart]
  intro hanc
  rcases Relation.ReflTransGen.cases_head hanc with heq | ⟨child, hparent, -⟩
  · exact hstart heq
  · exact h.ne_of_parentOf_older hparent rfl

/-- Another node than the newest is no ancestor of the newest among the older nodes, as this is not
one of them. -/
lemma Ordered.ne_of_ancestorOf_older {id start : NodeId} (hid : key ≠ id)
    (hanc : AncestorOf ⟨older⟩ id start) : key ≠ start := by
  rintro rfl
  rcases (Relation.ReflTransGen.cases_tail_iff _ _ _).mp hanc with heq | ⟨parent, -, hparent⟩
  · exact hid heq
  · obtain ⟨found, hfound, -⟩ := hparent
    exact ne_of_contains h.1 (Option.isSome_of_eq_some hfound) rfl

/-- Going back from some nodes to another node than the newest is going back from them, or from
the parents of the newest node if it is one of them. -/
lemma Ordered.exists_ancestorOf_older {wanted : List NodeId} {id : NodeId} (hid : key ≠ id) :
    (∃ start ∈ if key ∈ wanted then node.parents ++ wanted else wanted,
      AncestorOf ⟨older⟩ id start) ↔
      ∃ start ∈ wanted, AncestorOf ⟨(key, node) :: older⟩ id start := by
  constructor
  · rintro ⟨start, hstart, hanc⟩
    have hkept : start ∈ wanted → ∃ start ∈ wanted, AncestorOf ⟨(key, node) :: older⟩ id start :=
      fun hmem => ⟨start, hmem, (h.ancestorOf_older (h.ne_of_ancestorOf_older hid hanc)).mpr hanc⟩
    split at hstart
    · rename_i hkey
      rcases List.mem_append.mp hstart with hparent | hmem
      · exact ⟨key, hkey, h.ancestorOf_newest.mpr (Or.inr ⟨start, hparent, hanc⟩)⟩
      · exact hkept hmem
    · exact hkept hstart
  · rintro ⟨start, hstart, hanc⟩
    by_cases hkey : key = start
    · subst hkey
      rw [if_pos hstart]
      obtain ⟨parent, hparent, hanc⟩ := (h.ancestorOf_newest.mp hanc).resolve_left hid
      exact ⟨parent, List.mem_append_left _ hparent, hanc⟩
    · refine ⟨start, ?_, (h.ancestorOf_older hkey).mp hanc⟩
      split
      · exact List.mem_append_right _ hstart
      · exact hstart

end Older

/-- **The sources among ordered entries** are those ancestors of the wanted nodes that are not made
from others. -/
theorem mem_sourcesIn {entries : List (NodeId × Node)} (h : Ordered entries)
    {wanted : List NodeId} {id : NodeId} : id ∈ sourcesIn entries wanted ↔
      SourceAt ⟨entries⟩ id ∧ ∃ start ∈ wanted, AncestorOf ⟨entries⟩ id start := by
  induction entries generalizing wanted with
  | nil =>
    simp only [sourcesIn, List.not_mem_nil, false_iff, not_and]
    exact fun hsource => by cases hsource.contains
  | cons entry older ih =>
    obtain ⟨key, node⟩ := entry
    have hcons : id ∈ sourcesIn ((key, node) :: older) wanted ↔
        (key = id ∧ key ∈ wanted ∧ node.isSource = true) ∨
          id ∈ sourcesIn older (if key ∈ wanted then node.parents ++ wanted else wanted) := by
      by_cases hwanted : key ∈ wanted
      · by_cases hsource : node.isSource = true
        · simp [sourcesIn, hwanted, hsource, parents_of_isSource hsource, eq_comm]
        · simp [sourcesIn, hwanted, hsource]
      · simp [sourcesIn, hwanted]
    rw [hcons, ih h.2.2, sourceAt_cons]
    by_cases hkey : key = id
    · subst hkey
      have hold : ¬ SourceAt ⟨older⟩ key := fun hsource =>
        ne_of_contains h.1 hsource.contains rfl
      simp only [hold, false_and, or_false, true_and, if_true]
      rw [and_comm]
      refine and_congr_right fun _ => ⟨fun hwanted => ⟨key, hwanted, .refl⟩, ?_⟩
      rintro ⟨start, hstart, hanc⟩
      by_cases hne : key = start
      · rwa [hne]
      · exact absurd hanc (h.not_ancestorOf_of_ne hne)
    · simp only [hkey, false_and, false_or, if_false]
      rw [h.exists_ancestorOf_older hkey]

/-- No source among ordered entries is found twice. -/
lemma nodup_sourcesIn {entries : List (NodeId × Node)} (h : Ordered entries)
    (wanted : List NodeId) : (sourcesIn entries wanted).Nodup := by
  induction entries generalizing wanted with
  | nil => exact List.nodup_nil
  | cons entry older ih =>
    obtain ⟨key, node⟩ := entry
    have holder := ih h.2.2
    unfold sourcesIn
    split
    · split
      · refine List.nodup_cons.mpr ⟨fun hkey => ?_, holder _⟩
        exact ne_of_contains h.1 ((mem_sourcesIn h.2.2).mp hkey).1.contains rfl
      · exact holder _
    · exact holder _

/-! ### A walk over the whole graph -/

/-- A walk back from a node: what is still to be visited, what has been visited, and the sources
among it. -/
structure Walk where
  /-- The nodes still to be visited, the next one first. -/
  stack : List NodeId
  /-- The nodes that have been visited. -/
  seen : List NodeId
  /-- The sources among them. -/
  found : List NodeId

namespace Walk

/-- The walk that is about to begin at a node. -/
def start (id : NodeId) : Walk := ⟨[id], [], []⟩

/-- The walk after a visit to the node on top of the stack. -/
def visit (w : Walk) (id : NodeId) (node : Node) : Walk :=
  ⟨node.parents.reverse ++ w.stack.tail, id :: w.seen,
    if node.isSource then id :: w.found else w.found⟩

/-- The walk without the node on top of the stack. -/
def skip (w : Walk) : Walk := { w with stack := w.stack.tail }

end Walk

/-- The sources that a walk finds within a number of rounds. In each round the node on top of the
stack is looked up in the whole graph, unless it has been visited before. -/
def walk (g : Graph) : ℕ → Walk → Option (Outcome (List NodeId))
  | 0, _ => none
  | rounds + 1, w =>
    match w.stack with
    | [] => some (.ok w.found)
    | id :: _ =>
      if id ∈ w.seen then walk g rounds w.skip
      else
        match g.find? id with
        | none => some (.error (unknown id))
        | some node => walk g rounds (w.visit id node)

/-- The number of edges from nodes that have not been visited to their parents. -/
def edgesFrom (seen : List NodeId) : List (NodeId × Node) → ℕ
  | [] => 0
  | (id, node) :: older => (if id ∈ seen then 0 else node.parents.length) + edgesFrom seen older

/-- The number of edges. -/
def edgeCount (g : Graph) : ℕ := edgesFrom [] g.entries

/-- A further visit leaves no more edges. -/
lemma edgesFrom_cons_le (id : NodeId) (seen : List NodeId) (entries : List (NodeId × Node)) :
    edgesFrom (id :: seen) entries ≤ edgesFrom seen entries := by
  induction entries with
  | nil => exact Nat.le_refl 0
  | cons entry older ih =>
    obtain ⟨key, node⟩ := entry
    simp only [edgesFrom, List.mem_cons]
    by_cases hseen : key ∈ seen
    · simpa [hseen] using ih
    · by_cases hkey : key = id
      · simp [hkey]
        omega
      · simpa [hseen, hkey] using ih

/-- The first visit to a node leaves fewer edges by those to its parents. -/
lemma edgesFrom_visit {id : NodeId} {node : Node} {seen : List NodeId} (hid : id ∉ seen)
    {entries : List (NodeId × Node)} (hnode : find? ⟨entries⟩ id = some node) :
    node.parents.length + edgesFrom (id :: seen) entries ≤ edgesFrom seen entries := by
  induction entries with
  | nil => cases hnode
  | cons entry older ih =>
    obtain ⟨key, first⟩ := entry
    rw [find?_cons] at hnode
    simp only [edgesFrom, List.mem_cons]
    split at hnode
    · rename_i hkey
      cases hnode
      have hle := edgesFrom_cons_le id seen older
      simp only [hkey, hid, true_or, if_true, if_false]
      omega
    · rename_i hkey
      have hle := ih hnode
      simp only [hkey, false_or]
      omega

namespace Walk

/-- What a walk back from a node keeps to: it visits ancestors only, each node it has visited has
its parents visited or on the stack, and it has found the sources among the visited ones. -/
structure Sound (g : Graph) (origin : NodeId) (w : Walk) : Prop where
  /-- What is visited or on the stack is an ancestor. -/
  ancestors : ∀ id ∈ w.stack ++ w.seen, g.AncestorOf id origin
  /-- The node where the walk begins is visited or on the stack. -/
  covers_origin : origin ∈ w.stack ++ w.seen
  /-- The parents of what is visited are visited or on the stack. -/
  covers_parents : ∀ id ∈ w.seen, ∀ parent, g.ParentOf parent id → parent ∈ w.stack ++ w.seen
  /-- What is found are the sources among what is visited. -/
  mem_found : ∀ id, id ∈ w.found ↔ id ∈ w.seen ∧ g.SourceAt id
  /-- No source is found twice. -/
  nodup_found : w.found.Nodup

variable {g : Graph} {origin : NodeId} {w : Walk}

/-- A walk that is about to begin. -/
lemma sound_start (g : Graph) (origin : NodeId) : Sound g origin (start origin) where
  ancestors id hid := by
    obtain rfl : id = origin := by simpa [start] using hid
    exact .refl
  covers_origin := by simp [start]
  covers_parents id hid := by cases hid
  mem_found id := by simp [start]
  nodup_found := List.nodup_nil

/-- Skipping a node that has been visited keeps a walk sound. -/
lemma Sound.skip {id : NodeId} {rest : List NodeId} (hw : Sound g origin w)
    (hstack : w.stack = id :: rest) (hseen : id ∈ w.seen) : Sound g origin w.skip := by
  have hcovers : ∀ {id'}, id' ∈ w.stack ++ w.seen → id' ∈ w.skip.stack ++ w.skip.seen := by
    intro id' hid'
    simp only [Walk.skip, hstack, List.cons_append, List.mem_cons, List.tail_cons] at hid' ⊢
    rcases hid' with rfl | hid'
    · exact List.mem_append_right _ hseen
    · exact hid'
  refine ⟨fun id' hid' => hw.ancestors id' ?_, hcovers hw.covers_origin,
    fun id' hid' parent hparent => hcovers (hw.covers_parents id' hid' parent hparent),
    hw.mem_found, hw.nodup_found⟩
  rcases List.mem_append.mp hid' with hrest | hseen'
  · exact List.mem_append_left _ (List.mem_of_mem_tail hrest)
  · exact List.mem_append_right _ hseen'

/-- Visiting a node keeps a walk sound. -/
lemma Sound.visit {id : NodeId} {rest : List NodeId} {node : Node} (hw : Sound g origin w)
    (hstack : w.stack = id :: rest) (hseen : id ∉ w.seen) (hnode : g.find? id = some node) :
    Sound g origin (w.visit id node) := by
  have hid : g.AncestorOf id origin := hw.ancestors id (by simp [hstack])
  have hmem : ∀ {id'}, id' ∈ (w.visit id node).stack ++ (w.visit id node).seen ↔
      id' ∈ node.parents ∨ id' ∈ w.stack ++ w.seen := by
    intro id'
    simp only [Walk.visit, hstack, List.tail_cons, List.mem_append, List.mem_reverse,
      List.mem_cons]
    tauto
  refine ⟨fun id' hid' => ?_, hmem.mpr (Or.inr hw.covers_origin), fun id' hid' parent hparent => ?_,
    fun id' => ?_, ?_⟩
  · rcases hmem.mp hid' with hparent | hold
    · exact Relation.ReflTransGen.head ⟨node, hnode, hparent⟩ hid
    · exact hw.ancestors id' hold
  · rcases List.mem_cons.mp hid' with rfl | hold
    · exact hmem.mpr (Or.inl ((parentOf_iff hnode).mp hparent))
    · exact hmem.mpr (Or.inr (hw.covers_parents id' hold parent hparent))
  · have hsource : g.SourceAt id ↔ node.isSource = true := by
      simp [SourceAt, hnode]
    have hold := hw.mem_found id'
    by_cases heq : id' = id
    · subst heq
      by_cases hnew : node.isSource = true
      · simp [Walk.visit, hsource, hnew]
      · simp [Walk.visit, hsource, hnew, hold]
    · by_cases hnew : node.isSource = true <;> simp [Walk.visit, hnew, heq, hold]
  · have hnotfound : id ∉ w.found := fun hfound => hseen ((hw.mem_found id).mp hfound).1
    simp only [Walk.visit]
    split
    · exact List.nodup_cons.mpr ⟨hnotfound, hw.nodup_found⟩
    · exact hw.nodup_found

/-- A walk with nothing left to visit has found the sources that the node goes back to. -/
lemma Sound.mem_found_of_stack (hw : Sound g origin w) (hstack : w.stack = []) (id : NodeId) :
    id ∈ w.found ↔ g.SourceAt id ∧ g.AncestorOf id origin := by
  have hseen : g.AncestorOf id origin → id ∈ w.seen := by
    intro hid
    have hparents := hw.covers_parents
    have horigin := hw.covers_origin
    rw [hstack, List.nil_append] at horigin hparents
    induction hid using Relation.ReflTransGen.head_induction_on with
    | refl => exact horigin
    | head hparent _ ih => exact hparents _ ih _ hparent
  rw [hw.mem_found, and_comm]
  refine and_congr_right fun _ => ⟨fun h => hw.ancestors id (List.mem_append_right _ h), hseen⟩

/-- **A walk comes to an end**: as every node is visited once, there are no more rounds than nodes
on the stack and edges to come.

**Proof sketch.** By induction on the rounds. Every round keeps the walk sound (`Sound.skip`,
`Sound.visit`) and takes a node from the stack; the edges to the nodes that it puts there are
those of a node that had not been visited. With nothing left to visit, what is found are the
sources (`Sound.mem_found_of_stack`). -/
theorem Sound.walk_eq (h : Ordered g.entries) (horigin : g.contains origin = true)
    (hw : Sound g origin w) {rounds : ℕ}
    (hrounds : w.stack.length + edgesFrom w.seen g.entries < rounds) :
    ∃ found : List NodeId, g.walk rounds w = some (.ok found) ∧ found.Nodup ∧
      ∀ id, id ∈ found ↔ g.SourceAt id ∧ g.AncestorOf id origin := by
  induction rounds generalizing w with
  | zero => cases hrounds
  | succ rounds ih =>
    unfold walk
    cases hstack : w.stack with
    | nil => exact ⟨w.found, rfl, hw.nodup_found, hw.mem_found_of_stack hstack⟩
    | cons id rest =>
      rw [hstack, List.length_cons] at hrounds
      dsimp only
      split
      · rename_i hseen
        refine ih (hw.skip hstack hseen) ?_
        simp only [Walk.skip, hstack, List.tail_cons]
        omega
      · rename_i hseen
        have hid : g.contains id = true :=
          h.contains_of_ancestorOf (hw.ancestors id (by simp [hstack])) horigin
        obtain ⟨node, hnode⟩ := Option.isSome_iff_exists.mp hid
        have hedges := edgesFrom_visit hseen hnode
        rw [hnode]
        refine ih (hw.visit hstack hseen hnode) ?_
        simp only [Walk.visit, hstack, List.tail_cons, List.length_append, List.length_reverse]
        omega

end Walk

/-- **The walk over the whole graph finds the sources** of every node, after no more rounds than
there are edges and two; of an identifier without node it finds that it is unknown. -/
theorem walk_eq_sources {g : Graph} (h : Ordered g.entries) (id : NodeId) :
    (g.walk (g.edgeCount + 2) (.start id)).map (Except.map (List.mergeSort · NodeId.le)) =
      some (g.sources id) := by
  cases hid : g.find? id with
  | none =>
    simp [walk, Walk.start, hid, sources, node, Outcome.ofOption, Except.map, bind, Except.bind]
  | some node =>
    have hrounds : (Walk.start id).stack.length + edgesFrom (Walk.start id).seen g.entries <
        g.edgeCount + 2 := by
      simp only [Walk.start, edgeCount, List.length_singleton]
      omega
    obtain ⟨found, hfound, hnodup, hmem⟩ := (Walk.sound_start g id).walk_eq h
      (Option.isSome_of_eq_some hid) hrounds
    have hsame : found.mergeSort NodeId.le = (sourcesIn g.entries [id]).mergeSort NodeId.le := by
      refine NodeId.mergeSort_eq_of_mem_iff hnodup (nodup_sourcesIn h [id]) fun source => ?_
      rw [hmem, mem_sourcesIn h]
      simp
    rw [hfound]
    simp only [Option.map_some, Except.map, hsame]
    simp [sources, Graph.node, hid, Outcome.ofOption, bind, Except.bind]

/-! ### The sources of a node -/

/-- The sources of a node that is there are found, each once. -/
lemma Ordered.exists_sources {g : Graph} (h : Ordered g.entries) {id : NodeId}
    (hid : g.contains id = true) :
    ∃ found : List NodeId, g.sources id = .ok found ∧ found.Nodup ∧
      ∀ source, source ∈ found ↔ g.SourceAt source ∧ g.AncestorOf source id := by
  obtain ⟨node, hnode⟩ := Option.isSome_iff_exists.mp hid
  refine ⟨(sourcesIn g.entries [id]).mergeSort NodeId.le, ?_, ?_, fun source => ?_⟩
  · rw [sources, Graph.node, hnode]
    rfl
  · exact (List.mergeSort_perm _ _).nodup_iff.mpr (nodup_sourcesIn h [id])
  · rw [List.mem_mergeSort, mem_sourcesIn h]
    simp

/-- **The sources of a node** that is in a graph after any calls are found: they are those nodes
that are not made from others and that this node goes back to over any number of parents, positional
or named. The walk over the whole graph, which visits each node once, finds the same.

**Proof sketch.** The nodes are ordered after any calls (`ordered_after`), so that all sources
are found in one pass from the newest node on (`Ordered.exists_sources`). The walk finds the
same nodes and both put them in order (`walk_eq_sources`). -/
theorem sources_after {idOf : Node → NodeId} {calls : List Call} {id : NodeId}
    (h : (after idOf calls).contains id = true) :
    ∃ found : List NodeId, (after idOf calls).sources id = .ok found ∧ found.Nodup ∧
      (∀ source, source ∈ found ↔
        (after idOf calls).SourceAt source ∧ (after idOf calls).AncestorOf source id) ∧
      ((after idOf calls).walk ((after idOf calls).edgeCount + 2) (.start id)).map
        (Except.map (List.mergeSort · NodeId.le)) = some (.ok found) := by
  have hordered := ordered_after idOf calls
  obtain ⟨found, hfound, hnodup, hmem⟩ := hordered.exists_sources h
  refine ⟨found, hfound, hnodup, hmem, ?_⟩
  rw [walk_eq_sources hordered, hfound]

/-- Nodes told apart by how many nodes they are made from. -/
def countedId (node : Node) : NodeId := ⟨[UInt8.ofNat node.parents.length]⟩

/-- Some rows, the rows in random order, a shuffle of what is not there, and a join of the shuffled
rows with the rows as weights. -/
def joinCalls : List Call :=
  [.source "rows" "rows.csv" ⟨"rows", .struct [], [], []⟩,
    .transformed (.ofStep .shuffle) [⟨[0]⟩],
    .transformed (.ofStep .shuffle) [⟨[7]⟩],
    .transformedAs "joined"
      (.step (Transform.named "std.join") (.external ⟨"std", "join", .null, .dataset⟩)) [⟨[1]⟩]
      [("weights", ⟨[0]⟩)]]

/-- The join goes back to the rows in two ways, and they are its only source. -/
theorem sources_after_joinCalls :
    (after countedId joinCalls).contains ⟨[2]⟩ = true ∧
      ∃ found : List NodeId, (after countedId joinCalls).sources ⟨[2]⟩ = .ok found ∧
        found.Nodup ∧ ⟨[0]⟩ ∈ found ∧ ⟨[1]⟩ ∉ found := by
  have hjoined : (after countedId joinCalls).contains ⟨[2]⟩ = true := rfl
  obtain ⟨found, hfound, hnodup, hmem, -⟩ := sources_after hjoined
  refine ⟨hjoined, found, hfound, hnodup, ?_, fun hshuffled => ?_⟩
  · exact (hmem _).mpr ⟨⟨_, rfl, rfl⟩, .single ⟨_, rfl, List.mem_cons_of_mem _ List.mem_cons_self⟩⟩
  · obtain ⟨⟨node, hnode, hsource⟩, -⟩ := (hmem _).mp hshuffled
    cases hnode
    cases hsource

end Graph

end Lineage
