import Lineage.Proofs.Json.Writer

set_option autoImplicit false

/-!
# Equality of free-form values

The program compares free-form values with doubles as numbers and objects as maps. Two equal values
are one value when their zeros have the same signs and their members stand in the same order.

## Main definitions

* `Lineage.Json.Equal`: equality as the program compares.
* `Lineage.Json.SpelledAlike`: zeros of the same signs, members in the same order.
* `Lineage.Json.WellFormed`: what free-form values are made of.

## Main results

* `Lineage.Json.equal_refl`: a well-formed value equals itself.
* `Lineage.Json.eq_of_equal_of_spelledAlike`: equal values that are spelled alike are one value.
-/

namespace Lineage

namespace Json

mutual

/-- Free-form values are compared with doubles as numbers and objects as maps, whatever the order
of their members. -/
def Equal : Json → Json → Prop
  | .float x, v => ∃ y, v = .float y ∧ (x == y) = true
  | .array items, v => ∃ items', v = .array items' ∧ EqualItems items items'
  | .object members, v => ∃ members', v = .object members' ∧ members.length = members'.length ∧
    EqualMembers members members'
  | v, v' => v = v'

/-- Lists of values are compared item by item. -/
def EqualItems : List Json → List Json → Prop
  | [], items => items = []
  | item :: rest, items => ∃ item' rest', items = item' :: rest' ∧ Equal item item' ∧
    EqualItems rest rest'

/-- Each of the first members has an equal value among the second ones. -/
def EqualMembers : List (String × Json) → List (String × Json) → Prop
  | [], _ => True
  | (key, value) :: rest, members => (∃ value', lookup? key members = some value' ∧
    Equal value value') ∧ EqualMembers rest members

end

mutual

/-- No object in a value has a key twice. -/
def hasDistinctKeys : Json → Bool
  | .array items => haveDistinctKeys items
  | .object members => decide (members.map Prod.fst).Nodup && membersHaveDistinctKeys members
  | _ => true

/-- No object in a list of values has a key twice. -/
def haveDistinctKeys : List Json → Bool
  | [] => true
  | item :: rest => hasDistinctKeys item && haveDistinctKeys rest

/-- No object in the values of members has a key twice. -/
def membersHaveDistinctKeys : List (String × Json) → Bool
  | [] => true
  | (_, value) :: rest => hasDistinctKeys value && membersHaveDistinctKeys rest

end

/-- What free-form values are made of: doubles that are finite and objects with each key once. -/
structure WellFormed (v : Json) : Prop where
  /-- No double is infinite or not a number. -/
  finite : v.isFinite = true
  /-- No object has a key twice. -/
  distinct : v.hasDistinctKeys = true

/-- The value of a member whose key stands there once. -/
lemma lookup?_of_mem {key : String} {value : Json} : ∀ {members : List (String × Json)},
    (members.map Prod.fst).Nodup → (key, value) ∈ members → lookup? key members = some value
  | [], _, h => absurd h List.not_mem_nil
  | (k, v) :: rest, hnodup, h => by
    rw [List.map_cons, List.nodup_cons] at hnodup
    by_cases hk : k = key
    · subst hk
      rcases List.mem_cons.mp h with heq | hmem
      · rw [(Prod.mk.inj heq).2]
        simp [lookup?]
      · exact absurd (List.mem_map_of_mem (f := Prod.fst) hmem) hnodup.1
    · rcases List.mem_cons.mp h with heq | hmem
      · exact absurd (Prod.mk.inj heq).1.symm hk
      · have := lookup?_of_mem hnodup.2 hmem
        simpa [lookup?, List.find?_cons, hk] using this

mutual

/-- A well-formed value equals itself. -/
lemma equal_refl : ∀ {v : Json}, v.isFinite = true → v.hasDistinctKeys = true → v.Equal v
  | .null, _, _ => by simp only [Equal]
  | .bool _, _, _ => by simp only [Equal]
  | .int _, _, _ => by simp only [Equal]
  | .string _, _, _ => by simp only [Equal]
  | .float x, hf, _ => by
    simp only [Equal]
    exact ⟨x, rfl, Binary64.beq_self_of_finite hf⟩
  | .array items, hf, hd => by
    simp only [Equal]
    exact ⟨items, rfl, equalItems_refl hf hd⟩
  | .object members, hf, hd => by
    simp only [hasDistinctKeys, Bool.and_eq_true, decide_eq_true_eq] at hd
    simp only [Equal]
    exact ⟨members, rfl, rfl, equalMembers_refl hf hd.2 fun key value hmem =>
      lookup?_of_mem hd.1 hmem⟩

/-- A list of well-formed values equals itself. -/
lemma equalItems_refl : ∀ {vs : List Json}, areFinite vs = true → haveDistinctKeys vs = true →
    EqualItems vs vs
  | [], _, _ => by simp only [EqualItems]
  | v :: rest, hf, hd => by
    simp only [areFinite, haveDistinctKeys, Bool.and_eq_true] at hf hd
    simp only [EqualItems]
    exact ⟨v, rest, rfl, equal_refl hf.1 hd.1, equalItems_refl hf.2 hd.2⟩

/-- Well-formed members equal those that are found under their keys, if these are the same. -/
lemma equalMembers_refl : ∀ {ms ns : List (String × Json)}, areFiniteMembers ms = true →
    membersHaveDistinctKeys ms = true →
    (∀ key value, (key, value) ∈ ms → lookup? key ns = some value) → EqualMembers ms ns
  | [], _, _, _, _ => by simp only [EqualMembers]
  | (key, value) :: rest, ns, hf, hd, h => by
    simp only [areFiniteMembers, membersHaveDistinctKeys, Bool.and_eq_true] at hf hd
    simp only [EqualMembers]
    exact ⟨⟨value, h key value List.mem_cons_self, equal_refl hf.1 hd.1⟩,
      equalMembers_refl hf.2 hd.2 fun k v hmem => h k v (List.mem_cons_of_mem _ hmem)⟩

end

/-! ### What equality does not see -/

mutual

/-- Two values have zeros of the same signs and members in the same order. -/
def SpelledAlike : Json → Json → Prop
  | .float x, v => ∃ y, v = .float y ∧ Binary64.isNegative x = Binary64.isNegative y
  | .array items, v => ∃ items', v = .array items' ∧ ItemsSpelledAlike items items'
  | .object members, v => ∃ members', v = .object members' ∧ MembersSpelledAlike members members'
  | _, _ => True

/-- Two lists of values are spelled alike item by item. -/
def ItemsSpelledAlike : List Json → List Json → Prop
  | [], items => items = []
  | item :: rest, items => ∃ item' rest', items = item' :: rest' ∧ SpelledAlike item item' ∧
    ItemsSpelledAlike rest rest'

/-- Members have the same keys in the same order and values that are spelled alike. -/
def MembersSpelledAlike : List (String × Json) → List (String × Json) → Prop
  | [], members => members = []
  | (key, value) :: rest, members => ∃ value' rest', members = (key, value') :: rest' ∧
    SpelledAlike value value' ∧ MembersSpelledAlike rest rest'

end

mutual

/-- A value is spelled like itself. -/
lemma spelledAlike_refl : ∀ v : Json, v.SpelledAlike v
  | .null => by simp only [SpelledAlike]
  | .bool _ => by simp only [SpelledAlike]
  | .int _ => by simp only [SpelledAlike]
  | .string _ => by simp only [SpelledAlike]
  | .float x => by
    simp only [SpelledAlike]
    exact ⟨x, rfl, rfl⟩
  | .array items => by
    simp only [SpelledAlike]
    exact ⟨items, rfl, itemsSpelledAlike_refl items⟩
  | .object members => by
    simp only [SpelledAlike]
    exact ⟨members, rfl, membersSpelledAlike_refl members⟩

/-- A list of values is spelled like itself. -/
lemma itemsSpelledAlike_refl : ∀ vs : List Json, ItemsSpelledAlike vs vs
  | [] => by simp only [ItemsSpelledAlike]
  | v :: rest => by
    simp only [ItemsSpelledAlike]
    exact ⟨v, rest, rfl, spelledAlike_refl v, itemsSpelledAlike_refl rest⟩

/-- Members are spelled like themselves. -/
lemma membersSpelledAlike_refl : ∀ ms : List (String × Json), MembersSpelledAlike ms ms
  | [] => by simp only [MembersSpelledAlike]
  | (key, value) :: rest => by
    simp only [MembersSpelledAlike]
    exact ⟨value, rest, rfl, spelledAlike_refl value, membersSpelledAlike_refl rest⟩

end

mutual

/-- **Equal values that are spelled alike are one value.** -/
theorem eq_of_equal_of_spelledAlike : ∀ {v w : Json}, w.hasDistinctKeys = true → v.Equal w →
    v.SpelledAlike w → v = w
  | .null, w, _, h, _ => by simpa only [Equal] using h
  | .bool _, w, _, h, _ => by simpa only [Equal] using h
  | .int _, w, _, h, _ => by simpa only [Equal] using h
  | .string _, w, _, h, _ => by simpa only [Equal] using h
  | .float x, w, _, h, h' => by
    simp only [Equal] at h
    simp only [SpelledAlike] at h'
    obtain ⟨y, rfl, hxy⟩ := h
    obtain ⟨y', heq, hsign⟩ := h'
    cases heq
    rw [Binary64.eq_of_beq_of_isNegative hxy hsign]
  | .array items, w, hd, h, h' => by
    simp only [Equal] at h
    simp only [SpelledAlike] at h'
    obtain ⟨items', rfl, hitems⟩ := h
    obtain ⟨items'', heq, hitems'⟩ := h'
    cases heq
    rw [eq_of_equalItems hd hitems hitems']
  | .object members, w, hd, h, h' => by
    simp only [Equal] at h
    simp only [SpelledAlike] at h'
    obtain ⟨members', rfl, -, hmembers⟩ := h
    obtain ⟨members'', heq, hmembers'⟩ := h'
    cases heq
    simp only [hasDistinctKeys, Bool.and_eq_true, decide_eq_true_eq] at hd
    rw [eq_of_equalMembers hd.1 hd.2 (fun _ hm => hm) hmembers hmembers']

/-- Lists of equal values that are spelled alike are one list. -/
theorem eq_of_equalItems : ∀ {vs ws : List Json}, haveDistinctKeys ws = true →
    EqualItems vs ws → ItemsSpelledAlike vs ws → vs = ws
  | [], ws, _, h, _ => by
    simp only [EqualItems] at h
    exact h.symm
  | v :: vs, ws, hd, h, h' => by
    simp only [EqualItems] at h
    simp only [ItemsSpelledAlike] at h'
    obtain ⟨w, rest, rfl, hv, hrest⟩ := h
    obtain ⟨w', rest', heq, hv', hrest'⟩ := h'
    cases heq
    simp only [haveDistinctKeys, Bool.and_eq_true] at hd
    rw [eq_of_equal_of_spelledAlike hd.1 hv hv', eq_of_equalItems hd.2 hrest hrest']

/-- Members of equal values that are spelled alike are one list; `all` are the members among which
the equal values are found by their keys. -/
theorem eq_of_equalMembers : ∀ {ms ns all : List (String × Json)}, (all.map Prod.fst).Nodup →
    membersHaveDistinctKeys ns = true → (∀ m ∈ ns, m ∈ all) → EqualMembers ms all →
    MembersSpelledAlike ms ns → ms = ns
  | [], ns, _, _, _, _, _, h' => by
    simp only [MembersSpelledAlike] at h'
    exact h'.symm
  | (key, value) :: rest, ns, all, hall, hd, hns, h, h' => by
    simp only [EqualMembers] at h
    simp only [MembersSpelledAlike] at h'
    obtain ⟨⟨found, hfound, hvalue⟩, hrest⟩ := h
    obtain ⟨value', rest', rfl, hvalue', hrest'⟩ := h'
    simp only [membersHaveDistinctKeys, Bool.and_eq_true] at hd
    have hlookup := lookup?_of_mem hall (hns (key, value') List.mem_cons_self)
    rw [hfound, Option.some.injEq] at hlookup
    subst hlookup
    rw [eq_of_equal_of_spelledAlike hd.1 hvalue hvalue',
      eq_of_equalMembers hall hd.2 (fun m hm => hns m (List.mem_cons_of_mem _ hm)) hrest hrest']

end

end Json

end Lineage
