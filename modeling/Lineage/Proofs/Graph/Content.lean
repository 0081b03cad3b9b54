import Lineage.Proofs.Graph.Reachable

set_option autoImplicit false

/-!
# Nodes stand under the identifiers of their contents

Two statements on identifiers as digests, both under the assumption that no collision is among the
texts that are digested. The node that is found under the identifier of an added one is that one,
if all doubles are finite; a double that is not finite is written as another one is, and then an
older node may stand there in its place. Equal nodes have one identifier exactly when they are
spelled alike.

## Main definitions

* `Lineage.Graph.Digested`: the texts that are digested for a graph and one node more.

## Main results

* `Lineage.Graph.found_under_id`: what stands under the identifier of a node that was added.
* `Lineage.Graph.id_eq_iff_spelledAlike`: when equal nodes have one identifier.
-/

namespace Lineage

namespace Node

/-- Where no collision is among their texts, nodes of one identifier have one text. -/
lemma text_eq_of_id_eq {P : List UInt8 → Prop} (hP : CollisionFree P) {a b : Node}
    (ha : P (textBytes a.text)) (hb : P (textBytes b.text)) (h : a.id = b.id) : a.text = b.text :=
  hP.eq ha hb h

/-- Nodes of one text have one identifier. -/
lemma id_eq_of_text_eq {a b : Node} (h : a.text = b.text) : a.id = b.id := by
  rw [id_eq, id_eq, h]

end Node

namespace Graph

/-- The bytes that are digested for the nodes of a graph and for one node more. -/
def Digested (g : Graph) (node : Node) (bytes : List UInt8) : Prop :=
  ∃ digested : Node, (digested = node ∨ digested ∈ g.nodes) ∧ bytes = textBytes digested.text

/-- The text of the added node is digested. -/
lemma digested_self (g : Graph) (node : Node) : Digested g node (textBytes node.text) :=
  ⟨node, Or.inl rfl, rfl⟩

/-- The text of a node that is found is digested. -/
lemma digested_of_find? {g : Graph} {id : NodeId} {found : Node} (node : Node)
    (h : g.find? id = some found) : Digested g node (textBytes found.text) :=
  ⟨found, Or.inr (List.mem_reverse.mpr (List.mem_map_of_mem (mem_entries_of_find? h))), rfl⟩

/-- The node that stands under the identifier of an added one is written like that one. -/
lemma text_of_find?_add {g : Graph} (hg : Sound Node.id g) {node stored : Node}
    (hfree : CollisionFree (Digested g node))
    (h : (g.add node.id node).find? node.id = some stored) : stored.text = node.text := by
  rw [find?_add_self] at h
  cases hold : g.find? node.id with
  | none =>
    rw [hold] at h
    cases h
    rfl
  | some old =>
    rw [hold] at h
    cases h
    exact Node.text_eq_of_id_eq hfree (digested_of_find? node hold) (digested_self g node)
      (hg.id_of_find? hold).symm

/-- The node that stands under the identifier of an added one is as well formed. -/
lemma wellFormed_of_find?_add {g : Graph} (hg : Sound Node.id g) {node stored : Node}
    (hnode : node.WellFormed) (h : (g.add node.id node).find? node.id = some stored) :
    stored.WellFormed := by
  rw [find?_add_self] at h
  cases hold : g.find? node.id with
  | none =>
    rw [hold] at h
    cases h
    exact hnode
  | some old =>
    rw [hold] at h
    cases h
    exact hg.wellFormed (mem_entries_of_find? hold)

/-- A node whose parents are in a sound graph of digests is well formed if its values are. -/
lemma wellFormed_of_parents {g : Graph} (hg : Sound Node.id g) {node : Node}
    (hvalues : node.Holds (fun _ => True) Json.WellFormed)
    (hparents : ∀ parent ∈ node.parents, g.contains parent = true) : node.WellFormed :=
  ⟨fun parent hparent => hg.full_of_contains (hparents parent hparent), hvalues⟩

/-- After a node and then one of the same text, the first stands under their identifier. -/
lemma find?_after_two {calls : List Call} {earlier node : Node}
    (hparents : ∀ parent ∈ node.parents, (after Node.id calls).contains parent = true)
    (hsame : earlier.parents = node.parents) (htext : earlier.text = node.text)
    (hnew : (after Node.id calls).contains node.id = false) :
    (after Node.id (calls ++ [.insert earlier, .insert node])).find? node.id = some earlier := by
  have hid : earlier.id = node.id := Node.id_eq_of_text_eq htext
  have hfirst : after Node.id (calls ++ [.insert earlier]) =
      (after Node.id calls).add node.id earlier := by
    rw [after_concat, Call.build, run_insert_of_parents (hsame ▸ hparents), hid]
  have hparents' : ∀ parent ∈ node.parents,
      ((after Node.id calls).add node.id earlier).contains parent = true :=
    fun parent hparent => contains_add_of_contains (hparents parent hparent)
  have hnone : (after Node.id calls).find? node.id = none := by
    simpa [contains] using hnew
  rw [show calls ++ [.insert earlier, .insert node] =
      (calls ++ [.insert earlier]) ++ [.insert node] by simp, after_concat, hfirst, Call.build,
    run_insert_of_parents hparents', find?_add_self, find?_add_self, hnone]
  rfl

/-- **What stands under the identifier of a node that was added.** Let no collision be among the
texts of a graph after any calls and of a node whose parents are there. Adding the node succeeds,
and what stands under its identifier then agrees with it up to doubles that are written alike; if
all its doubles are finite, it is that node and equal to it. This condition is exact: otherwise
there is a node that, added before, stands there instead and differs.

**Proof sketch.** What stands under the identifier has the text of the added node, as no texts
collide (`text_of_find?_add`). Nodes of one text agree up to doubles that are written alike,
and finite ones are written alike only if they are one. A node with a double that is not
finite has a twin of the same text with another one, which stands there if it is added first
(`find?_after_two`). -/
theorem found_under_id {calls : List Call} {node : Node}
    (hcalls : ∀ call ∈ calls, call.Holds Json.WellFormed)
    (hvalues : node.Holds (fun _ => True) Json.WellFormed)
    (hparents : ∀ parent ∈ node.parents, (after Node.id calls).contains parent = true)
    (hfree : CollisionFree (Digested (after Node.id calls) node)) :
    (∃ g' stored, (insert Node.id node).run (after Node.id calls) = (.ok node.id, g') ∧
      g'.find? node.id = some stored ∧ stored.Agree SameText Eq node ∧
      (node.DoublesFinite → stored = node ∧ stored.Equal node)) ∧
    (¬node.DoublesFinite → (after Node.id calls).contains node.id = false →
      ∃ earlier : Node, earlier.Holds (fun _ => True) Json.WellFormed ∧ earlier.id = node.id ∧
        (after Node.id (calls ++ [.insert earlier, .insert node])).find? node.id = some earlier ∧
        ¬earlier.Equal node) := by
  have hsound : Sound Node.id (after Node.id calls) := sound_after hcalls
  have hnode : node.WellFormed := wellFormed_of_parents hsound hvalues hparents
  refine ⟨?_, fun hinfinite hnew => ?_⟩
  · have hfound := find?_add_self (after Node.id calls) node.id node
    have htext := text_of_find?_add hsound hfree hfound
    have hstored := wellFormed_of_find?_add hsound hnode hfound
    refine ⟨_, _, run_insert_of_parents hparents, hfound,
      (Node.text_eq_iff hstored hnode).mp htext, fun hfinite => ?_⟩
    have heq := Node.eq_of_text_of_finite hstored hnode hfinite htext
    exact ⟨heq, heq.symm ▸ Node.equal_refl hnode hfinite⟩
  · refine ⟨node.twin, (Node.wellFormed_twin hnode).values, Node.id_eq_of_text_eq node.text_twin,
      ?_, fun hequal => hinfinite (Node.doublesFinite_of_twin_equal hequal)⟩
    exact find?_after_two hparents (Node.parents_mapDoubles _ _) node.text_twin hnew

/-! ### Rows with a bound -/

/-- Rows of doubles up to a bound. -/
def boundedRows (bound : Float) : Node :=
  .ofOrigin "rows" .dataset (.source "memory://rows" (.ofTy "rows" (.float 0 bound)))

/-- Such rows are related as their bounds are. -/
lemma agree_boundedRows_iff {R : Float → Float → Prop} {S : Json → Json → Prop} (x y : Float) :
    (boundedRows x).Agree R S (boundedRows y) ↔ R 0 0 ∧ R x y := by
  simp [boundedRows, Node.ofOrigin, Node.Agree, Origin.Agree, Schema.Agree, Schema.ofTy, Ty.float,
    Ty.ofLeaf, Ty.Agree, Leaf.Agree]

/-- The free-form values of such rows, of which there are none, are well formed. -/
lemma holds_boundedRows (bound : Float) :
    (boundedRows bound).Holds (fun _ => True) Json.WellFormed :=
  (agree_boundedRows_iff bound bound).mpr ⟨trivial, trivial⟩

/-- Such rows are added to the graph without nodes. -/
lemma after_boundedRows (bound : Float) :
    after Node.id [.insert (boundedRows bound)] =
      ⟨[((boundedRows bound).id, boundedRows bound)]⟩ := rfl

/-- Bounds that are written alike make rows of one text, which leaves nothing to collide. -/
lemma collisionFree_boundedRows {bound bound' : Float}
    (h : (boundedRows bound).text = (boundedRows bound').text) :
    CollisionFree
      (Digested (after Node.id [.insert (boundedRows bound)]) (boundedRows bound')) := by
  have htext : ∀ bytes, Digested (after Node.id [.insert (boundedRows bound)])
      (boundedRows bound') bytes → bytes = textBytes (boundedRows bound').text := by
    rintro bytes ⟨digested, rfl | hdigested, rfl⟩
    · rfl
    · rw [after_boundedRows] at hdigested
      rw [List.mem_singleton.mp hdigested, h]
  intro s t hs ht _
  rw [htext s hs, htext t ht]

/-- Rows up to one stand under their identifier after being added twice. -/
theorem found_under_id_boundedRows :
    ∃ g' stored, (insert Node.id (boundedRows 1)).run
        (after Node.id [.insert (boundedRows 1)]) = (.ok (boundedRows 1).id, g') ∧
      g'.find? (boundedRows 1).id = some stored ∧ stored = boundedRows 1 ∧
        stored.Equal (boundedRows 1) := by
  have hcalls : ∀ call ∈ [Call.insert (boundedRows 1)], call.Holds Json.WellFormed := by
    simpa [Call.Holds] using holds_boundedRows 1
  obtain ⟨⟨g', stored, hrun, hfound, -, hfinite⟩, -⟩ :=
    found_under_id hcalls (holds_boundedRows 1) (by simp [boundedRows, Node.ofOrigin, Node.parents])
      (collisionFree_boundedRows rfl)
  have hdoubles : (boundedRows 1).DoublesFinite := (agree_boundedRows_iff 1 1).mpr (by decide)
  exact ⟨g', stored, hrun, hfound, hfinite hdoubles⟩

/-- Rows whose bound is not a number take the place of rows without bound: no collision is among
the texts, and what stands under the identifier of the second is the first, which differs. -/
theorem not_equal_under_id :
    CollisionFree (Digested (after Node.id [.insert (boundedRows Binary64.notANumber)])
      (boundedRows Binary64.infinity)) ∧
    ∃ g', (insert Node.id (boundedRows Binary64.infinity)).run
        (after Node.id [.insert (boundedRows Binary64.notANumber)]) =
          (.ok (boundedRows Binary64.infinity).id, g') ∧
      g'.find? (boundedRows Binary64.infinity).id = some (boundedRows Binary64.notANumber) ∧
      ¬(boundedRows Binary64.notANumber).Equal (boundedRows Binary64.infinity) := by
  have htext : (boundedRows Binary64.notANumber).text = (boundedRows Binary64.infinity).text := rfl
  have hid := Node.id_eq_of_text_eq htext
  refine ⟨collisionFree_boundedRows htext, _, run_insert_of_parents (by
    simp [boundedRows, Node.ofOrigin, Node.parents]), ?_, ?_⟩
  · rw [find?_add_self, after_boundedRows, ← hid]
    simp [find?]
  · intro hequal
    exact absurd ((agree_boundedRows_iff _ _).mp hequal).2 (by decide)

/-- Adding a second node after a first one changes nothing exactly when the identifier of the second
is that of the first or was there before. -/
lemma insert_insert_eq_iff {a b : Node} {g : Graph}
    (ha : ∀ parent ∈ a.parents, g.contains parent = true)
    (hb : ∀ parent ∈ b.parents, g.contains parent = true) :
    ((insert Node.id b).run ((insert Node.id a).run g).2).2 = ((insert Node.id a).run g).2 ↔
      a.id = b.id ∨ g.contains b.id = true := by
  have hb' : ∀ parent ∈ b.parents, (g.add a.id a).contains parent = true :=
    fun parent hparent => contains_add_of_contains (hb parent hparent)
  rw [run_insert_of_parents ha, run_insert_of_parents hb']
  dsimp only
  rw [add_eq_self_iff, contains_add_iff]

/-- **When equal nodes have one identifier.** Let no collision be between the texts of two equal
nodes. They have one identifier exactly when they are spelled alike, which makes them one node; and
adding the second after the first leaves a graph unchanged exactly then, unless something stood
under its identifier before.

**Proof sketch.** Equal nodes of one identifier have one text and so are one node, since
nothing but the spelling of doubles and the order of members tells equal nodes apart. The
second one is added exactly if its identifier is new (`insert_insert_eq_iff`). -/
theorem id_eq_iff_spelledAlike {a b : Node} (ha : a.WellFormed) (hb : b.WellFormed)
    (hequal : a.Equal b)
    (hfree : CollisionFree fun bytes => bytes = textBytes a.text ∨ bytes = textBytes b.text) :
    (a.id = b.id ↔ a.SpelledAlike b) ∧ (a.SpelledAlike b → a = b) ∧
    ∀ g : Graph, (∀ parent ∈ a.parents, g.contains parent = true) →
      (((insert Node.id b).run ((insert Node.id a).run g).2).2 = ((insert Node.id a).run g).2 ↔
        a.SpelledAlike b ∨ g.contains b.id = true) := by
  have hid : a.id = b.id ↔ a.SpelledAlike b := by
    rw [← Node.eq_iff_spelledAlike_of_equal hb hequal]
    refine ⟨fun h => ?_, congrArg Node.id⟩
    exact Node.eq_of_equal_of_text ha hb hequal
      (Node.text_eq_of_id_eq hfree (Or.inl rfl) (Or.inr rfl) h)
  refine ⟨hid, (Node.eq_iff_spelledAlike_of_equal hb hequal).mpr, fun g hparents => ?_⟩
  rw [insert_insert_eq_iff hparents (Node.Agree.parents_eq hequal ▸ hparents), hid]

/-! ### Members in another order -/

/-- A scalar of two members. -/
def pairScalar (first second : String × Int) : Node :=
  .ofOrigin "k" .scalar (.value (.object [(first.1, .int first.2), (second.1, .int second.2)]))

/-- A scalar of two members under different keys is well formed. -/
lemma wellFormed_pairScalar {first second : String × Int} (h : first.1 ≠ second.1) :
    (pairScalar first second).WellFormed := by
  refine ⟨fun _ hparent => (List.not_mem_nil hparent).elim, rfl, rfl, rfl, ⟨_, rfl, rfl, ?_⟩, rfl⟩
  simpa [Json.hasDistinctKeys, Json.membersHaveDistinctKeys] using h

/-- Scalars of the same two members are equal. -/
lemma equal_pairScalar {first second : String × Int} (h : first.1 ≠ second.1) :
    (pairScalar first second).Equal (pairScalar second first) := by
  refine ⟨rfl, rfl, rfl, ⟨_, rfl, _, rfl, rfl, ?_⟩, rfl⟩
  simp [Json.EqualMembers, Json.lookup?, Json.Equal, h.symm]

/-- The identifiers of the two scalars of `a` and `b`. -/
lemma id_pairScalar_ne :
    (pairScalar ("a", 1) ("b", 2)).id ≠ (pairScalar ("b", 2) ("a", 1)).id := by
  decide +kernel

/-- The two scalars of `a` and `b` are not spelled alike, and no collision is between them. -/
theorem id_eq_iff_spelledAlike_pairScalar :
    ¬(pairScalar ("a", 1) ("b", 2)).SpelledAlike (pairScalar ("b", 2) ("a", 1)) := by
  have hfree : CollisionFree fun bytes => bytes = textBytes (pairScalar ("a", 1) ("b", 2)).text ∨
      bytes = textBytes (pairScalar ("b", 2) ("a", 1)).text := by
    rintro s t (rfl | rfl) (rfl | rfl) h
    · rfl
    · exact absurd (congrArg NodeId.mk h) id_pairScalar_ne
    · exact absurd (congrArg NodeId.mk h).symm id_pairScalar_ne
    · rfl
  exact fun h => id_pairScalar_ne ((id_eq_iff_spelledAlike (wellFormed_pairScalar (by decide))
    (wellFormed_pairScalar (by decide)) (equal_pairScalar (by decide)) hfree).1.mpr h)

/-- The two scalars of `a` and `b` are well formed and equal, have two identifiers, and both stand
in the graph after they are added. -/
theorem equal_of_two_ids :
    (pairScalar ("a", 1) ("b", 2)).WellFormed ∧ (pairScalar ("b", 2) ("a", 1)).WellFormed ∧
    (pairScalar ("a", 1) ("b", 2)).Equal (pairScalar ("b", 2) ("a", 1)) ∧
    (pairScalar ("a", 1) ("b", 2)).id ≠ (pairScalar ("b", 2) ("a", 1)).id ∧
    (after Node.id [.insert (pairScalar ("a", 1) ("b", 2)),
      .insert (pairScalar ("b", 2) ("a", 1))]).size = 2 := by
  refine ⟨wellFormed_pairScalar (by decide), wellFormed_pairScalar (by decide),
    equal_pairScalar (by decide), id_pairScalar_ne, ?_⟩
  have hfirst : after Node.id [.insert (pairScalar ("a", 1) ("b", 2))] =
      ⟨[((pairScalar ("a", 1) ("b", 2)).id, pairScalar ("a", 1) ("b", 2))]⟩ := rfl
  rw [show [Call.insert (pairScalar ("a", 1) ("b", 2)), .insert (pairScalar ("b", 2) ("a", 1))] =
    [.insert (pairScalar ("a", 1) ("b", 2))] ++ [.insert (pairScalar ("b", 2) ("a", 1))] from rfl,
    after_concat, hfirst, Call.build, run_insert_of_parents fun _ h => (List.not_mem_nil h).elim]
  simp [add, contains, find?, id_pairScalar_ne, size]

end Graph

end Lineage
