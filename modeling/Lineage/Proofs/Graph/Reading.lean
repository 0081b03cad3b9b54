import Lineage.Proofs.Graph.Node
import Lineage.Proofs.Transform.Reading

set_option autoImplicit false

/-!
# Nodes are read back

Every part of a node is written in a way from which it is read back, so no two of them are written
alike.

## Main definitions

* `Lineage.Node.Proper`: what the parts of a node can hold.
* `Lineage.Json.RoundTrips`: values that are read back, no two of which are written alike.

## Main results

* `Lineage.NodeId.parse?_hyphenated`: an identifier is read back from its hyphenated form.
* `Lineage.Node.ofJson?_toJson`: a proper node is read back from its value.
* `Lineage.Node.roundTrips_parts`: so are paths, types, schemas, transforms and nodes.
-/

namespace Lineage

open Json

/-! ### Identifiers -/

namespace Text

/-- A digit of a number below sixteen is read back. -/
lemma hexValue?_hexDigit : ∀ n < 16, hexValue? (hexDigit n) = some n := by
  decide

/-- Bytes are read back from their digits. -/
lemma bytesOfDigits?_flatMap (bytes : List UInt8) :
    bytesOfDigits? (bytes.flatMap hexOfByte) = some bytes := by
  induction bytes with
  | nil => rfl
  | cons b bytes ih =>
    have hlt := b.toNat_lt
    have hhigh := hexValue?_hexDigit (b.toNat / 16) (by omega)
    have hlow := hexValue?_hexDigit (b.toNat % 16) (by omega)
    have hbyte : UInt8.ofNat (16 * (b.toNat / 16) + b.toNat % 16) = b := by
      rw [Nat.div_add_mod]
      exact UInt8.ofNat_toNat
    rw [List.flatMap_cons, hexOfByte, List.cons_append, List.cons_append, List.nil_append,
      bytesOfDigits?, hhigh, hlow, ih]
    exact congrArg (fun first => some (first :: bytes)) hbyte

/-- Every byte has two digits. -/
lemma length_hexOfBytes (bytes : List UInt8) :
    (hexOfBytes bytes).toList.length = 2 * bytes.length := by
  rw [hexOfBytes, String.toList_ofList]
  induction bytes with
  | nil => rfl
  | cons b bytes ih =>
    rw [List.flatMap_cons, List.length_append, ih, List.length_cons]
    simp only [hexOfByte, List.length_cons, List.length_nil]
    omega

end Text

namespace NodeId

/-- **An identifier is read back** from its hyphenated form.

**Proof sketch.** The five groups of digits have known lengths, so that the hyphens are where
they are looked for. Without them the digits are read back byte by byte
(`Text.bytesOfDigits?_flatMap`). -/
theorem parse?_hyphenated {id : NodeId} (h : id.Full) : parse? id.hyphenated = some id := by
  have hplain : ofPlain? (id.hyphenated.toList.filter (· != '-')) = some id := by
    rw [filter_hyphenated h, hex, Text.hexOfBytes, String.toList_ofList, ofPlain?,
      Text.bytesOfDigits?_flatMap]
    exact if_pos h
  have hlength : ∀ start count, start + count ≤ 16 →
      (Text.hexOfBytes ((id.bytes.drop start).take count)).toList.length = 2 * count := by
    intro start count hle
    have hbytes : id.bytes.length = 16 := h
    rw [Text.length_hexOfBytes, List.length_take, List.length_drop]
    omega
  -- Groups of digits of known lengths have the hyphens in known places.
  have hgroups : ∀ a b c d e : List Char, a.length = 8 → b.length = 4 → c.length = 4 →
      d.length = 4 → e.length = 12 →
      let cs := a ++ ['-'] ++ (b ++ ['-'] ++ (c ++ ['-'] ++ (d ++ ['-'] ++ e)))
      cs.length = 36 ∧ cs[8]? = some '-' ∧ cs[13]? = some '-' ∧ cs[18]? = some '-' ∧
        cs[23]? = some '-' := by
    intro a b c d e ha hb hc hd he
    simp [ha, hb, hc, hd, he]
  have hform := hgroups _ _ _ _ _ (hlength 0 4 (by omega)) (hlength 4 2 (by omega))
    (hlength 6 2 (by omega)) (hlength 8 2 (by omega)) (hlength 10 6 (by omega))
  have hcs : id.hyphenated.toList.length = 36 ∧ id.hyphenated.toList[8]? = some '-' ∧
      id.hyphenated.toList[13]? = some '-' ∧ id.hyphenated.toList[18]? = some '-' ∧
        id.hyphenated.toList[23]? = some '-' := by
    simpa [hyphenated, String.intercalate_cons_cons] using hform
  rw [parse?]
  simp only [hcs.1]
  rw [if_neg (by decide), if_pos trivial, ofHyphenated?, if_pos hcs, hplain]

end NodeId

/-! ### Nodes -/

/-- What an origin can hold: a proper schema, any free-form value, or a proper transform with
identifiers of sixteen bytes, named ones in the order of their keys. -/
def Origin.Proper : Origin → Prop
  | .source _ schema => schema.Proper
  | .value _ => True
  | .transformed t arguments named =>
    t.Proper ∧ (∀ id ∈ arguments, id.Full) ∧ named.Sorted ∧ ∀ entry ∈ named, entry.2.Full

namespace Node

/-- What a node can hold. -/
structure Proper (n : Node) : Prop where
  /-- The origin. -/
  origin : n.origin.Proper
  /-- The properties are in the order of their keys. -/
  properties : n.properties.Sorted

/-- An identifier is read back from its value. -/
lemma idOfJson?_idJson {id : NodeId} (h : id.Full) : idOfJson? (idJson id) = some id := by
  rw [idOfJson?, idJson, asString?, Option.bind_some, NodeId.parse?_hyphenated h]

/-- A proper origin is read back. -/
lemma originOfJson?_originJson {o : Origin} (h : o.Proper) :
    originOfJson? (originJson o) = some o := by
  cases o with
  | source uri schema =>
    simp [originJson, originOfJson?, required?, lookup?, asString?, Schema.ofJson?_toJson h]
  | value content => simp [originJson, originOfJson?, required?, lookup?]
  | transformed t arguments named =>
    obtain ⟨ht, harguments, hsorted, hnamed⟩ := h
    have hlist := asListOf?_map fun id hid => idOfJson?_idJson (harguments id hid)
    have hdict := asDict?_map hsorted fun entry hentry => idOfJson?_idJson (hnamed entry hentry)
    cases named with
    | nil =>
      simp [originJson, originOfJson?, required?, defaulted?, lookup?, Transform.ofJson?_toJson ht,
        hlist]
    | cons entry named =>
      rw [List.map_cons] at hdict
      simp [originJson, originOfJson?, required?, defaulted?, lookup?, Transform.ofJson?_toJson ht,
        hlist, hdict]

/-- **A proper node is read back** from its value.

**Proof sketch.** Members that are left out since they are empty get their defaults when they
are read, and each other member is read back on its own. -/
theorem ofJson?_toJson {n : Node} (h : n.Proper) : ofJson? n.toJson = some n := by
  obtain ⟨name, doc, kind, origin, properties⟩ := n
  obtain ⟨horigin, hproperties⟩ := h
  have hothers : ∀ entry ∈ [("kind", kind.toJson), ("origin", originJson origin)],
      entry.1 ≠ "doc" ∧ entry.1 ≠ "properties" := by simp
  rw [toJson, ofJson?, asRecord?, Option.bind_eq_bind, Option.bind_some]
  simp only [textDict?_headed hproperties fun entry hentry => (hothers entry hentry).2,
    defaulted?_headed fun entry hentry => (hothers entry hentry).1]
  by_cases hempty : doc = "" <;>
    simp [hempty, required?, lookup?, asString?, NodeKind.ofJson?_toJson,
      originOfJson?_originJson horigin]

end Node

/-! ### All values of the repository -/

/-- Values with a property are read back from what is written of them, and no two of them are
written alike. -/
structure Json.RoundTrips {α : Type} (P : α → Prop) (write : α → Json) (read : Json → Option α) :
    Prop where
  /-- A value is read back. -/
  read_write : ∀ a, P a → read (write a) = some a
  /-- Two values that are written alike are one. -/
  injective : ∀ a b, P a → P b → write a = write b → a = b

/-- Values that are read back are told apart by what is written of them. -/
lemma Json.RoundTrips.of_read {α : Type} {P : α → Prop} {write : α → Json}
    {read : Json → Option α} (h : ∀ a, P a → read (write a) = some a) :
    RoundTrips P write read where
  read_write := h
  injective a b ha hb heq := by
    have hread : some a = some b := by rw [← h a ha, ← h b hb, heq]
    exact Option.some.inj hread

/-- **Paths, types, schemas, transforms and nodes are read back** from their values: everything that
is left out because it is empty is empty again, so two values that are written alike are one. All
they have to hold are whole numbers that fit their words, finite doubles, identifiers of sixteen
bytes and dictionaries in the order of their keys. -/
theorem Node.roundTrips_parts :
    RoundTrips (fun _ => True) Path.toJson Path.ofJson? ∧
      RoundTrips Ty.Proper Ty.toJson Ty.ofJson? ∧
      RoundTrips Schema.Proper Schema.toJson Schema.ofJson? ∧
      RoundTrips Transform.Proper Transform.toJson Transform.ofJson? ∧
      RoundTrips Node.Proper Node.toJson Node.ofJson? :=
  ⟨.of_read fun p _ => Path.ofJson?_toJson p, .of_read fun _ => Ty.ofJson?_toJson,
    .of_read fun _ => Schema.ofJson?_toJson, .of_read fun _ => Transform.ofJson?_toJson,
    .of_read fun _ => Node.ofJson?_toJson⟩

/-- Three rows drawn from a dataset, with a named parent and a property. -/
def Node.sampledRows : Node :=
  ⟨"sample", "", .dataset, .transformed (.ofStep (.sample (.size 3))) [⟨List.replicate 16 7⟩]
    [("weights", ⟨List.replicate 16 9⟩)], [("owner", "ada")]⟩

/-- The node of the three rows is read back. -/
theorem Node.roundTrips_parts_sampledRows :
    sampledRows.Proper ∧ ofJson? sampledRows.toJson = some sampledRows := by
  have hproper : sampledRows.Proper := by
    refine ⟨⟨.step List.Pairwise.nil (by decide : 3 < Number.word64), ?_, ?_, ?_⟩, ?_⟩
    · exact List.forall_mem_singleton.mpr rfl
    · exact List.pairwise_singleton _ _
    · exact List.forall_mem_singleton.mpr rfl
    · exact List.pairwise_singleton _ _
  exact ⟨hproper, Node.roundTrips_parts.2.2.2.2.read_write _ hproper⟩

end Lineage
