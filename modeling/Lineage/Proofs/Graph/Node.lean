import Lineage.Graph.Node
import Lineage.Proofs.Digest
import Lineage.Proofs.Json.Equal
import Lineage.Proofs.Transform.Json

set_option autoImplicit false

/-!
# The written form of a node identifies it

A node is digested in its written form. This form determines the node but for one thing: which
double a double that is not finite is. Nodes are compared up to a relation on the doubles in their
types and samples and a relation on the free-form values of scalars and external operations.

## Main definitions

* `Lineage.Origin.Agree`, `Lineage.Node.Agree`: equality up to two relations.
* `Lineage.Node.Equal`, `Lineage.Node.SpelledAlike`: equality as the program compares, doubles as
  numbers and objects as maps, and what it does not see.
* `Lineage.Node.WellFormed`: what the types of the parts of a node promise.
* `Lineage.Node.text`: the text that is digested.
* `Lineage.Node.twin`: a node that is written alike and differs.

## Main results

* `Lineage.Node.toJson_eq_iff`, `Lineage.Node.text_eq_iff`: nodes are written alike exactly when
  they agree up to doubles that are written alike.
* `Lineage.Node.eq_of_text_of_finite`: where all doubles are finite, the text determines the node.
* `Lineage.Node.eq_of_equal_of_text`, `Lineage.Node.eq_iff_spelledAlike_of_equal`: when equal nodes
  are one node.
-/

namespace Lineage

/-! ### Nodes up to their doubles and free-form values -/

/-- Two origins are equal up to relations on their doubles and on their free-form values. -/
def Origin.Agree (R : Float → Float → Prop) (S : Json → Json → Prop) : Origin → Origin → Prop
  | .source uri schema, o => ∃ schema', o = .source uri schema' ∧ schema.Agree R schema'
  | .value content, o => ∃ content', o = .value content' ∧ S content content'
  | .transformed t arguments named, o =>
    ∃ t', o = .transformed t' arguments named ∧ t.Agree R S t'

/-- An origin with other doubles. -/
def Origin.mapDoubles (f : Float → Float) : Origin → Origin
  | .source uri schema => .source uri (schema.mapDoubles f)
  | .value content => .value content
  | .transformed t arguments named => .transformed (t.mapDoubles f) arguments named

/-- Two nodes are equal up to relations on their doubles and on their free-form values. -/
def Node.Agree (R : Float → Float → Prop) (S : Json → Json → Prop) (a b : Node) : Prop :=
  a.name = b.name ∧ a.doc = b.doc ∧ a.kind = b.kind ∧ a.origin.Agree R S b.origin ∧
    a.properties = b.properties

/-- A node with other doubles. -/
def Node.mapDoubles (f : Float → Float) (n : Node) : Node :=
  ⟨n.name, n.doc, n.kind, n.origin.mapDoubles f, n.properties⟩

variable {R T U : Float → Float → Prop} {S V W : Json → Json → Prop}

/-- Two pairs of relations between origins, taken together. -/
lemma Origin.Agree.combine (hR : ∀ x y, R x y → T x y → U x y)
    (hS : ∀ v w, S v w → V v w → W v w) {o u : Origin} (h : o.Agree R S u)
    (h' : o.Agree T V u) : o.Agree U W u := by
  cases o with
  | source uri schema =>
    obtain ⟨schema', rfl, hn, ht, hp, hq⟩ := h
    obtain ⟨schema'', heq, -, ht', -, -⟩ := h'
    cases heq
    exact ⟨_, rfl, hn, ht.combine hR ht', hp, hq⟩
  | value content =>
    obtain ⟨content', rfl, hc⟩ := h
    obtain ⟨content'', heq, hc'⟩ := h'
    cases heq
    exact ⟨_, rfl, hS _ _ hc hc'⟩
  | transformed t arguments named =>
    obtain ⟨t', rfl, ht⟩ := h
    obtain ⟨t'', heq, ht'⟩ := h'
    cases heq
    exact ⟨_, rfl, ht.combine hR hS ht'⟩

/-- **Two pairs of relations between nodes, taken together.** -/
theorem Node.Agree.combine (hR : ∀ x y, R x y → T x y → U x y)
    (hS : ∀ v w, S v w → V v w → W v w) {a b : Node} (h : a.Agree R S b)
    (h' : a.Agree T V b) : a.Agree U W b :=
  ⟨h.1, h.2.1, h.2.2.1, h.2.2.2.1.combine hR hS h'.2.2.2.1, h.2.2.2.2⟩

/-- **Pairs of relations between nodes, one after the other.** -/
theorem Node.Agree.trans (hR : ∀ x y z, R x y → T y z → U x z)
    (hS : ∀ v w x, S v w → V w x → W v x) {a b c : Node} (h : a.Agree R S b)
    (h' : b.Agree T V c) : a.Agree U W c := by
  obtain ⟨hn, hd, hk, ho, hp⟩ := h
  obtain ⟨hn', hd', hk', ho', hp'⟩ := h'
  refine ⟨hn.trans hn', hd.trans hd', hk.trans hk', ?_, hp.trans hp'⟩
  cases horigin : a.origin with
  | source uri schema =>
    rw [horigin] at ho
    obtain ⟨schema', heq, hsn, hst, hsp, hsq⟩ := ho
    rw [heq] at ho'
    obtain ⟨schema'', heq', hsn', hst', hsp', hsq'⟩ := ho'
    exact ⟨_, heq', hsn.trans hsn', hst.trans hR hst', hsp.trans hsp', hsq.trans hsq'⟩
  | value content =>
    rw [horigin] at ho
    obtain ⟨content', heq, hc⟩ := ho
    rw [heq] at ho'
    obtain ⟨content'', heq', hc'⟩ := ho'
    exact ⟨_, heq', hS _ _ _ hc hc'⟩
  | transformed t arguments named =>
    rw [horigin] at ho
    obtain ⟨t', heq, ht⟩ := ho
    rw [heq] at ho'
    obtain ⟨t'', heq', ht'⟩ := ho'
    exact ⟨_, heq', ht.trans hR hS ht'⟩

/-- **Nodes whose doubles and free-form values are equal are equal.** -/
theorem Node.agree_eq_iff {a b : Node} : a.Agree Eq Eq b ↔ a = b := by
  have horigin : ∀ {o u : Origin}, o.Agree Eq Eq u ↔ o = u := by
    intro o u
    cases o with
    | source uri schema =>
      simp only [Origin.Agree, Schema.Agree, Ty.agree_eq_iff]
      constructor
      · rintro ⟨schema', rfl, hn, ht, hp, hq⟩
        cases schema
        cases schema'
        simp_all
      · rintro rfl
        exact ⟨_, rfl, rfl, rfl, rfl, rfl⟩
    | value content =>
      simp only [Origin.Agree]
      exact ⟨fun ⟨_, h, h'⟩ => h' ▸ h.symm, fun h => ⟨_, h.symm, rfl⟩⟩
    | transformed t arguments named =>
      simp only [Origin.Agree, Transform.agree_eq_iff]
      exact ⟨fun ⟨_, h, h'⟩ => h' ▸ h.symm, fun h => ⟨_, h.symm, rfl⟩⟩
  obtain ⟨name, doc, kind, origin, properties⟩ := a
  obtain ⟨name', doc', kind', origin', properties'⟩ := b
  simp only [Node.Agree, horigin, Node.mk.injEq]

/-- A node agrees with itself up to relations that everything has to itself. -/
lemma Node.agree_refl (hR : ∀ x, R x x) (hS : ∀ v, S v v) (n : Node) : n.Agree R S n :=
  Node.Agree.combine (R := Eq) (T := Eq) (S := Eq) (V := Eq) (fun x _ h _ => h ▸ hR x)
    (fun v _ h _ => h ▸ hS v) (Node.agree_eq_iff.mpr rfl) (Node.agree_eq_iff.mpr rfl)

/-- **Two images of a node are related as the images of its doubles are.** -/
theorem Node.agree_mapDoubles_iff (f g : Float → Float) (n : Node) :
    (n.mapDoubles f).Agree R S (n.mapDoubles g) ↔ n.Agree (fun x _ => R (f x) (g x)) S n := by
  obtain ⟨name, doc, kind, origin, properties⟩ := n
  cases origin <;> simp [Node.Agree, Node.mapDoubles, Origin.Agree, Origin.mapDoubles,
    Schema.Agree, Schema.mapDoubles, Ty.agree_mapDoubles_iff, Transform.agree_mapDoubles_iff]

/-- Nodes that agree are made from the same nodes. -/
lemma Node.Agree.parents_eq {a b : Node} (h : a.Agree R S b) : a.parents = b.parents := by
  obtain ⟨name, doc, kind, origin, properties⟩ := a
  obtain ⟨name', doc', kind', origin', properties'⟩ := b
  obtain ⟨-, -, -, horigin, -⟩ := h
  cases origin with
  | source uri schema =>
    obtain ⟨schema', rfl, -⟩ := horigin
    rfl
  | value content =>
    obtain ⟨content', rfl, -⟩ := horigin
    rfl
  | transformed t arguments named =>
    obtain ⟨t', rfl, -⟩ := horigin
    rfl

/-- A node with its own doubles. -/
lemma Node.mapDoubles_id (n : Node) : n.mapDoubles (fun x => x) = n := by
  obtain ⟨name, doc, kind, origin, properties⟩ := n
  cases origin <;> simp [Node.mapDoubles, Origin.mapDoubles, Schema.mapDoubles,
    Transform.mapDoubles_id]

namespace Node

/-- Equality of nodes as the program compares: doubles as numbers, free-form values with objects as
maps, everything else part by part. -/
def Equal (a b : Node) : Prop := a.Agree (fun x y => (x == y) = true) Json.Equal b

/-- `P` holds of every double of a node and `Q` of every free-form value. -/
def Holds (P : Float → Prop) (Q : Json → Prop) (n : Node) : Prop :=
  n.Agree (fun x _ => P x) (fun v _ => Q v) n

/-- All doubles in the types and samples of a node are finite. -/
def DoublesFinite (n : Node) : Prop :=
  n.Holds (fun x => Binary64.isFinite x = true) fun _ => True

/-- What the types of the parts of a node promise: identifiers have sixteen bytes, and free-form
values are well formed. -/
structure WellFormed (n : Node) : Prop where
  /-- The nodes it is made from are named by sixteen bytes. -/
  full : ∀ id ∈ n.parents, id.Full
  /-- Its free-form values are well formed. -/
  values : n.Holds (fun _ => True) Json.WellFormed

/-- The text that is digested for the identifier. -/
def text (n : Node) : String := n.toJson.render

/-- The identifier comes from the digest of the text. -/
lemma id_eq (n : Node) : n.id = NodeId.ofDigest (Digest.ofText n.text) := rfl

/-- Identifiers of nodes have sixteen bytes. -/
lemma full_id (n : Node) : n.id.Full := NodeId.full_ofDigest n.text

/-- A node with other doubles is made from the same nodes. -/
@[simp]
lemma parents_mapDoubles (f : Float → Float) (n : Node) : (n.mapDoubles f).parents = n.parents := by
  obtain ⟨name, doc, kind, origin, properties⟩ := n
  cases origin <;> rfl

/-- Lists are equal where their images are, if the images of their elements tell these apart. -/
private lemma eq_of_map_idJson {as bs : List NodeId} (ha : ∀ id ∈ as, id.Full)
    (hb : ∀ id ∈ bs, id.Full) (h : as.map idJson = bs.map idJson) : as = bs := by
  induction as generalizing bs with
  | nil => exact (List.map_eq_nil_iff.mp h.symm).symm
  | cons a as ih =>
    cases bs with
    | nil => cases h
    | cons b bs =>
      obtain ⟨hfirst, hrest⟩ := List.cons.inj h
      rw [NodeId.hyphenated_injective (ha a List.mem_cons_self) (hb b List.mem_cons_self)
        (Json.string.inj hfirst), ih (fun id hid => ha id (List.mem_cons_of_mem _ hid))
        (fun id hid => hb id (List.mem_cons_of_mem _ hid)) hrest]

/-- Named identifiers are determined by how they are written. -/
private lemma eq_of_map_named {as bs : Dict NodeId} (ha : ∀ id ∈ as.values, id.Full)
    (hb : ∀ id ∈ bs.values, id.Full)
    (h : as.map (fun e => (e.1, idJson e.2)) = bs.map fun e => (e.1, idJson e.2)) : as = bs := by
  have hkeys : as.map Prod.fst = bs.map Prod.fst := by
    simpa [List.map_map, Function.comp_def] using congrArg (List.map Prod.fst) h
  have hvalues : as.values = bs.values := by
    refine eq_of_map_idJson ha hb ?_
    simpa [Dict.values, List.map_map, Function.comp_def] using congrArg (List.map Prod.snd) h
  rw [← List.zip_unzip as, ← List.zip_unzip bs]
  simp only [List.unzip_eq_map]
  exact congrArg₂ List.zip hkeys hvalues

/-- What is written of an origin determines it, up to doubles that are written alike. -/
lemma agree_of_originJson {a b : Node} (ha : ∀ id ∈ a.parents, id.Full)
    (hb : ∀ id ∈ b.parents, id.Full) (h : originJson a.origin = originJson b.origin) :
    a.origin.Agree SameText Eq b.origin := by
  obtain ⟨name, doc, kind, origin, properties⟩ := a
  obtain ⟨name', doc', kind', origin', properties'⟩ := b
  dsimp only at h
  cases origin <;> cases origin' <;> simp [originJson] at h
  case source.source uri schema uri' schema' =>
    obtain ⟨rfl, hs⟩ := h
    exact ⟨schema', rfl, Schema.toJson_eq_iff.mp hs⟩
  case value.value content content' => exact ⟨content', rfl, h⟩
  case transformed.transformed t arguments named t' arguments' named' =>
    obtain ⟨ht, harguments, hnamed⟩ := h
    simp only [parents, List.mem_append] at ha hb
    have hargs : arguments = arguments' :=
      eq_of_map_idJson (fun id hid => ha id (Or.inl hid)) (fun id hid => hb id (Or.inl hid))
        harguments
    have hnames : named = named' := by
      refine eq_of_map_named (fun id hid => ha id (Or.inr hid)) (fun id hid => hb id (Or.inr hid))
        ?_
      cases named <;> cases named' <;> simp at hnamed ⊢
      exact hnamed
    subst hargs hnames
    exact ⟨t', rfl, Transform.agree_of_toJson ht⟩

/-- Nodes that agree up to doubles that are written alike are written alike. -/
lemma toJson_of_agree {a b : Node} (h : a.Agree SameText Eq b) : a.toJson = b.toJson := by
  obtain ⟨name, doc, kind, origin, properties⟩ := a
  obtain ⟨name', doc', kind', origin', properties'⟩ := b
  obtain ⟨hname, hdoc, hkind, horigin, hproperties⟩ := h
  dsimp only at hname hdoc hkind hproperties
  subst hname hdoc hkind hproperties
  have hwritten : originJson origin = originJson origin' := by
    cases origin with
    | source uri schema =>
      obtain ⟨schema', rfl, hs⟩ := horigin
      simp only [originJson, Schema.toJson_eq_iff.mpr hs]
    | value content =>
      obtain ⟨content', rfl, hc⟩ := horigin
      rw [hc]
    | transformed t arguments named =>
      obtain ⟨t', rfl, ht⟩ := horigin
      simp only [originJson, Transform.toJson_of_agree ht]
  simp only [toJson, hwritten]

/-- **Nodes are written alike exactly when they agree up to doubles that are written alike.** -/
theorem toJson_eq_iff {a b : Node} (ha : ∀ id ∈ a.parents, id.Full)
    (hb : ∀ id ∈ b.parents, id.Full) : a.toJson = b.toJson ↔ a.Agree SameText Eq b := by
  refine ⟨fun h => ?_, toJson_of_agree⟩
  have hkeys : ∀ n : Node, ∀ m ∈ [("name", Json.string n.name)] ++
      (if n.doc = "" then [] else [("doc", Json.string n.doc)]) ++
      [("kind", n.kind.toJson), ("origin", originJson n.origin)], m.1 ≠ "properties" := by
    intro n m hm
    split at hm <;> simp only [List.cons_append, List.nil_append, List.append_nil, List.mem_cons,
      List.not_mem_nil, or_false] at hm
    · rcases hm with rfl | rfl | rfl <;> simp
    · rcases hm with rfl | rfl | rfl | rfl <;> simp
  obtain ⟨hfront, hproperties⟩ := Json.append_dictMember (hkeys a) (hkeys b) (Json.object.inj h)
  have hparts : a.name = b.name ∧ a.doc = b.doc ∧ a.kind.toJson = b.kind.toJson ∧
      originJson a.origin = originJson b.origin := by
    by_cases hd : a.doc = "" <;> by_cases hd' : b.doc = "" <;> simp [hd, hd'] at hfront ⊢ <;>
      simp [hfront]
  exact ⟨hparts.1, hparts.2.1, NodeKind.toJson_injective hparts.2.2.1,
    agree_of_originJson ha hb hparts.2.2.2, hproperties⟩

/-- A written node is finite if its free-form values are. -/
lemma isFinite_toJson {n : Node} (h : n.WellFormed) : n.toJson.isFinite = true := by
  obtain ⟨name, doc, kind, origin, properties⟩ := n
  have hkind : kind.toJson.isFinite = true := by
    cases kind <;> rfl
  have hid : ∀ id : NodeId, (idJson id).isFinite = true := fun _ => rfl
  have horigin : (originJson origin).isFinite = true := by
    obtain ⟨-, -, -, -, hvalues, -⟩ := h
    cases origin with
    | source uri schema =>
      simp [originJson, Json.isFinite, Json.areFiniteMembers, Schema.isFinite_toJson]
    | value content =>
      obtain ⟨content', heq, hcontent⟩ := hvalues
      cases heq
      simp [originJson, Json.isFinite, Json.areFiniteMembers, hcontent.finite]
    | transformed t arguments named =>
      obtain ⟨t', heq, ht⟩ := hvalues
      cases heq
      have hfinite := Transform.isFinite_toJson (R := fun _ _ => True)
        (ht.combine (T := fun _ _ => True) (V := fun v _ => v.WellFormed)
          (fun _ _ _ _ => trivial) (fun _ _ hv _ => hv.finite) ht)
      have harguments := Json.areFinite_map idJson arguments fun id _ => hid id
      have hnamed := Json.areFiniteMembers_map (fun e : String × NodeId => (e.1, idJson e.2)) named
        fun e _ => hid e.2
      cases hempty : named.isEmpty <;>
        simp [originJson, Json.isFinite, Json.areFiniteMembers, hfinite, harguments, hnamed, hempty]
  unfold toJson
  split <;> simp [Json.isFinite, Json.areFiniteMembers, hkind, horigin]

/-- **The digested texts of nodes are equal exactly when the nodes agree** up to doubles that are
written alike. -/
theorem text_eq_iff {a b : Node} (ha : a.WellFormed) (hb : b.WellFormed) :
    a.text = b.text ↔ a.Agree SameText Eq b := by
  rw [← toJson_eq_iff ha.full hb.full]
  exact ⟨Json.render_injective (isFinite_toJson ha) (isFinite_toJson hb), congrArg Json.render⟩

/-- A node of the text of one whose doubles are finite is that node. -/
theorem eq_of_text_of_finite {a b : Node} (ha : a.WellFormed) (hb : b.WellFormed)
    (hfinite : b.DoublesFinite) (h : a.text = b.text) : a = b := by
  have hself : b.Agree (fun x y => x = y ∧ Binary64.isFinite x = true) Eq b :=
    (Node.agree_eq_iff.mpr rfl).combine (fun _ _ hx hf => ⟨hx, hf⟩) (fun _ _ hv _ => hv) hfinite
  refine Node.agree_eq_iff.mp (((text_eq_iff ha hb).mp h).trans ?_ ?_ hself)
  · rintro x y z hxy ⟨rfl, hy⟩
    unfold SameText Json.ofFloat at hxy
    rw [if_pos hy] at hxy
    split at hxy
    · exact Json.float.inj hxy
    · cases hxy
  · rintro v w x rfl rfl
    rfl

/-- **Equal nodes of one text are one node.** -/
theorem eq_of_equal_of_text {a b : Node} (ha : a.WellFormed) (hb : b.WellFormed)
    (hequal : a.Equal b) (h : a.text = b.text) : a = b :=
  Node.agree_eq_iff.mp (hequal.combine (fun _ _ => Binary64.eq_of_beq_of_ofFloat)
    (fun _ _ _ hv => hv) ((text_eq_iff ha hb).mp h))

/-- Two nodes have zeros of the same signs, and their free-form values have members in the same
order. -/
def SpelledAlike (a b : Node) : Prop :=
  a.Agree (fun x y => Binary64.isNegative x = Binary64.isNegative y) Json.SpelledAlike b

/-- **Equal nodes are one node exactly when they are spelled alike.** -/
theorem eq_iff_spelledAlike_of_equal {a b : Node} (hb : b.WellFormed) (h : a.Equal b) :
    a = b ↔ a.SpelledAlike b := by
  constructor
  · rintro rfl
    exact agree_refl (R := fun x y => Binary64.isNegative x = Binary64.isNegative y)
      (fun _ => rfl) Json.spelledAlike_refl a
  · intro hspelled
    have hboth : a.Agree Eq (fun v w => w.WellFormed → v = w) b :=
      h.combine (fun _ _ => Binary64.eq_of_beq_of_isNegative)
        (fun _ _ hv hv' (hw : Json.WellFormed _) =>
          Json.eq_of_equal_of_spelledAlike hw.distinct hv hv') hspelled
    have hself : b.Agree Eq (fun v w => v = w ∧ v.WellFormed) b :=
      (Node.agree_eq_iff.mpr rfl).combine (T := fun _ _ => True) (fun _ _ hx _ => hx)
        (fun _ _ hv hw => ⟨hv, hw⟩) hb.values
    refine Node.agree_eq_iff.mp (hboth.trans ?_ ?_ hself)
    · rintro x y z rfl rfl
      rfl
    · rintro v w x hvw ⟨rfl, hw⟩
      exact hvw hw

/-- A well-formed node whose doubles are finite equals itself. -/
lemma equal_refl {n : Node} (h : n.WellFormed) (hfinite : n.DoublesFinite) : n.Equal n := by
  have hdoubles : n.Agree (fun x y => (x == y) = true) Eq n :=
    (Node.agree_eq_iff.mpr rfl).combine (fun x _ hxy hx => hxy ▸ Binary64.beq_self_of_finite hx)
      (fun _ _ hvw _ => hvw) hfinite
  exact hdoubles.combine (fun _ _ hxy _ => hxy)
    (fun v _ hvw hv => hvw ▸ Json.equal_refl hv.finite hv.distinct) h.values

/-! ### A node that is written alike and differs -/

/-- The same node with another double in place of each that is not finite. -/
def twin (n : Node) : Node := n.mapDoubles Binary64.twin

/-- A twin is written like the node. -/
lemma text_twin (n : Node) : n.twin.text = n.text := by
  have hagree : (n.mapDoubles Binary64.twin).Agree SameText Eq (n.mapDoubles (fun x => x)) :=
    (agree_mapDoubles_iff _ _ n).mpr
      (agree_refl (fun x => Binary64.ofFloat_twin x) (fun _ => rfl) n)
  rw [Node.mapDoubles_id] at hagree
  unfold twin text
  rw [toJson_of_agree hagree]

/-- A twin is as well formed as the node. -/
lemma wellFormed_twin {n : Node} (h : n.WellFormed) : n.twin.WellFormed := by
  refine ⟨?_, (agree_mapDoubles_iff _ _ n).mpr h.values⟩
  rw [twin, parents_mapDoubles]
  exact h.full

/-- **A twin differs from the node**, unless all doubles of the node are finite. -/
lemma doublesFinite_of_twin_equal {n : Node} (h : n.twin.Equal n) : n.DoublesFinite := by
  have hagree : (n.mapDoubles Binary64.twin).Agree (fun x y => (x == y) = true) Json.Equal
      (n.mapDoubles (fun x => x)) := by
    rw [Node.mapDoubles_id]
    exact h
  have hself := (agree_mapDoubles_iff _ _ n).mp hagree
  exact hself.combine (fun x _ hx _ => Binary64.isFinite_of_twin_beq hx) (fun _ _ _ _ => trivial)
    hself

end Node

end Lineage
