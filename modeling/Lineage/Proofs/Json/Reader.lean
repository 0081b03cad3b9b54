import Lineage.Json.Reader
import Lineage.Proofs.Json.Writer

set_option autoImplicit false

/-!
# Reading compact texts

A value without numbers is read back from its compact text, unless it nests too deep. What is read
at all does not nest too deep, so a value that has been read can be written and read again.

## Main definitions

* `Lineage.Json.nesting`: how deep lists and objects nest.
* `Lineage.Json.isVerbal`: a value without numbers, all of whose members are wanted.

## Main results

* `Lineage.Json.readString_escaped`: a text between quotes is read back.
* `Lineage.Json.readValue_renderChars`: a value is read back.
* `Lineage.Json.parseMembers?_render`: the same for whole texts.
* `Lineage.Json.nesting_lt_of_parseMembers?`: what is read does not nest too deep.
-/

namespace Lineage.Json

mutual

/-- How deep lists and objects nest. -/
def nesting : Json → Nat
  | .array items => nestingOfItems items + 1
  | .object members => nestingOfMembers members + 1
  | _ => 0

/-- How deep the items of a list nest. -/
def nestingOfItems : List Json → Nat
  | [] => 0
  | item :: rest => max (nesting item) (nestingOfItems rest)

/-- How deep the values of members nest. -/
def nestingOfMembers : List (String × Json) → Nat
  | [] => 0
  | (_, value) :: rest => max (nesting value) (nestingOfMembers rest)

end

section

variable (wanted : String → Bool)

mutual

/-- There are no numbers in a value, and the members of its objects are all wanted. -/
def isVerbal : Json → Bool
  | .int _ | .float _ => false
  | .array items => areVerbal items
  | .object members => areVerbalMembers members
  | _ => true

/-- There are no numbers in the items of a list. -/
def areVerbal : List Json → Bool
  | [] => true
  | item :: rest => isVerbal item && areVerbal rest

/-- There are no numbers in the values of members, and the members are wanted. -/
def areVerbalMembers : List (String × Json) → Bool
  | [] => true
  | (key, value) :: rest => wanted key && isVerbal value && areVerbalMembers rest

end

end

/-! ### Texts between quotes -/

/-- The digits of a control character are read back. -/
lemma natOfHex?_escapeDigits : ∀ n < 32,
    Text.natOfHex? ['0', '0', escapeDigit (n / 16), escapeDigit (n % 16)] = some n := by
  decide

/-- A simple escape is read. -/
lemma readQuoted_simple {e c : Char} (he : e ≠ 'u') (hc : simpleEscape? e = some c) (fuel : Nat)
    (rest : List Char) :
    readQuoted (fuel + 1) ('\\' :: e :: rest) =
      (readQuoted fuel rest).map fun r => (c :: r.1, r.2) := by
  rw [readQuoted]
  · rw [hc]
    cases readQuoted fuel rest <;> rfl
  · exact he

/-- A control character is read. -/
lemma readQuoted_control {c : Char} (hc : c.toNat < 32) (fuel : Nat) (rest : List Char) :
    readQuoted (fuel + 1) ('\\' :: 'u' :: '0' :: '0' :: escapeDigit (c.toNat / 16) ::
      escapeDigit (c.toNat % 16) :: rest) =
      (readQuoted fuel rest).map fun r => (c :: r.1, r.2) := by
  have hpoint : readEscapedPoint ('0' :: '0' :: escapeDigit (c.toNat / 16) ::
      escapeDigit (c.toNat % 16) :: rest) = some (c, rest) := by
    rw [readEscapedPoint, readHex4, natOfHex?_escapeDigits _ hc, Option.map_some,
      Option.bind_eq_bind, Option.bind_some]
    dsimp only
    rw [if_neg (by omega), if_neg (by omega), Char.ofNat_toNat]
  rw [readQuoted, hpoint, Option.bind_eq_bind, Option.bind_some]
  dsimp only
  cases readQuoted fuel rest <;> rfl

/-- A character that needs no escape is read. -/
lemma readQuoted_plain {c : Char} (hquote : c ≠ '"') (hslash : c ≠ '\\') (hc : ¬c.toNat < 32)
    (fuel : Nat) (rest : List Char) :
    readQuoted (fuel + 1) (c :: rest) = (readQuoted fuel rest).map fun r => (c :: r.1, r.2) := by
  rw [readQuoted]
  · rw [if_neg (not_or.mpr ⟨hc, hslash⟩)]
    cases readQuoted fuel rest <;> rfl
  · exact hquote
  · exact fun _ h => absurd h hslash
  · exact fun _ _ h => absurd h hslash

/-- An escaped character is read back. -/
lemma readQuoted_escapeChar (fuel : Nat) (c : Char) (rest : List Char) :
    readQuoted (fuel + 1) (escapeChar c ++ rest) =
      (readQuoted fuel rest).map fun r => (c :: r.1, r.2) := by
  have hnum : ∀ {n : ℕ}, c.toNat = n → Char.ofNat n = c := by
    rintro n rfl
    exact Char.ofNat_toNat c
  unfold escapeChar
  split_ifs with hquote hslash hn hr ht hb hf hcontrol
  · exact readQuoted_simple (by decide) (by rw [hquote]; rfl) fuel rest
  · exact readQuoted_simple (by decide) (by rw [hslash]; rfl) fuel rest
  · exact readQuoted_simple (by decide) (hn ▸ by decide) fuel rest
  · exact readQuoted_simple (by decide) (hr ▸ by decide) fuel rest
  · exact readQuoted_simple (by decide) (ht ▸ by decide) fuel rest
  · exact readQuoted_simple (by decide) (hnum hb ▸ by decide) fuel rest
  · exact readQuoted_simple (by decide) (hnum hf ▸ by decide) fuel rest
  · exact readQuoted_control hcontrol fuel rest
  · exact readQuoted_plain hquote hslash hcontrol fuel rest

/-- An escaped character is not empty. -/
lemma length_escapeChar_pos (c : Char) : 0 < (escapeChar c).length := by
  unfold escapeChar
  split_ifs <;> simp

/-- Escaped characters are read back up to the closing quote. -/
lemma readQuoted_escaped (cs : List Char) (r : List Char) : ∀ fuel, cs.length < fuel →
    readQuoted fuel (cs.flatMap escapeChar ++ '"' :: r) = some (cs, r) := by
  induction cs with
  | nil =>
    intro fuel hfuel
    obtain ⟨fuel, rfl⟩ := Nat.exists_eq_add_of_lt hfuel
    rw [List.flatMap_nil, List.nil_append, readQuoted]
  | cons c cs ih =>
    intro fuel hfuel
    obtain ⟨fuel, rfl⟩ : ∃ n, fuel = n + 1 := ⟨fuel - 1, by simp at hfuel; omega⟩
    rw [List.flatMap_cons, List.append_assoc, readQuoted_escapeChar,
      ih fuel (by simpa using hfuel)]
    rfl

/-- **A text between quotes is read back.** -/
theorem readString_escaped (s : String) (r : List Char) :
    readString (s.toList.flatMap escapeChar ++ '"' :: r) = some (s, r) := by
  have hlength : ∀ cs : List Char, cs.length ≤ (cs.flatMap escapeChar).length := by
    intro cs
    induction cs with
    | nil => exact Nat.le_refl 0
    | cons c cs ih =>
      have hc := length_escapeChar_pos c
      rw [List.flatMap_cons, List.length_append, List.length_cons]
      omega
  have hs := hlength s.toList
  rw [readString, readQuoted_escaped _ _ _ (by rw [List.length_append]; omega), Option.map_some,
    String.ofList_toList]

/-! ### Values -/

mutual

/-- A value without numbers is finite. -/
theorem isFinite_of_isVerbal {wanted : String → Bool} : ∀ {v : Json}, isVerbal wanted v = true →
    v.isFinite = true
  | .null, _ | .bool _, _ | .string _, _ => rfl
  | .array _, h => areFinite_of_areVerbal h
  | .object _, h => areFiniteMembers_of_areVerbalMembers h

/-- Items without numbers are finite. -/
theorem areFinite_of_areVerbal {wanted : String → Bool} : ∀ {vs : List Json},
    areVerbal wanted vs = true → areFinite vs = true
  | [], _ => rfl
  | _ :: _, h => by
    rw [areVerbal, Bool.and_eq_true] at h
    rw [areFinite, isFinite_of_isVerbal h.1, areFinite_of_areVerbal h.2]
    rfl

/-- Members without numbers are finite. -/
theorem areFiniteMembers_of_areVerbalMembers {wanted : String → Bool} :
    ∀ {ms : List (String × Json)}, areVerbalMembers wanted ms = true → areFiniteMembers ms = true
  | [], _ => rfl
  | (_, _) :: _, h => by
    rw [areVerbalMembers, Bool.and_eq_true, Bool.and_eq_true] at h
    rw [areFiniteMembers, isFinite_of_isVerbal h.1.2, areFiniteMembers_of_areVerbalMembers h.2]
    rfl

end

/-- No blank space is passed in front of a character that is not blank. -/
lemma skipBlank_cons {c : Char} (hc : c ≠ ' ' ∧ c ≠ '\n' ∧ c ≠ '\t' ∧ c ≠ '\r') (cs : List Char) :
    skipBlank (c :: cs) = c :: cs := by
  simp [skipBlank, hc]

/-- No value begins with blank space or a closing bracket. -/
lemma exists_first_of_isVerbal {wanted : String → Bool} {v : Json} (hv : isVerbal wanted v = true)
    (r : List Char) :
    ∃ c cs, renderChars v ++ r = c :: cs ∧ c ≠ ']' ∧ skipBlank (c :: cs) = c :: cs := by
  obtain ⟨c, cs, hcs, hlead⟩ := exists_first (isFinite_of_isVerbal hv)
  have hne : ∀ d : Char, leadOf? d = none → c ≠ d := by
    rintro d hd rfl
    cases hd.symm.trans hlead
  refine ⟨c, cs ++ r, by rw [hcs, List.cons_append], hne _ (by decide), skipBlank_cons ?_ _⟩
  exact ⟨hne _ (by decide), hne _ (by decide), hne _ (by decide), hne _ (by decide)⟩

/-- The text of a value is not empty. -/
lemma length_renderChars_pos {wanted : String → Bool} {v : Json} (hv : isVerbal wanted v = true) :
    0 < (renderChars v).length := by
  obtain ⟨c, cs, hcs, -⟩ := exists_first (isFinite_of_isVerbal hv)
  rw [hcs]
  exact Nat.succ_pos _

section

variable {wanted : String → Bool} {fuel depth : Nat}

/-- What begins with a quote is a text. -/
lemma readValue_quote (rest : List Char) : readValue wanted (fuel + 1) depth ('"' :: rest) =
    (readString rest).map fun r => (.string r.1, r.2) := by
  rw [readValue]
  rfl

/-- What begins with an opening bracket and is not closed at once is a list of items. -/
lemma readValue_bracket {c : Char} {cs : List Char} (hdepth : 1 < depth) (hc : c ≠ ']')
    (hblank : skipBlank (c :: cs) = c :: cs) :
    readValue wanted (fuel + 1) depth ('[' :: c :: cs) =
      (readItems wanted fuel (depth - 1) (c :: cs)).map fun r => (.array r.1, r.2) := by
  have hskip : skipBlank ('[' :: c :: cs) = '[' :: c :: cs := rfl
  rw [readValue, hskip]
  dsimp only
  rw [if_neg (by decide), if_neg (by decide), if_neg (by decide), if_neg (by decide), if_pos rfl,
    if_neg (by omega), hblank]
  split
  · rename_i heq
    exact absurd (List.cons.inj heq).1 hc
  · rfl

/-- What begins with an opening brace and a quote is an object of members. -/
lemma readValue_brace {cs : List Char} (hdepth : 1 < depth) :
    readValue wanted (fuel + 1) depth ('\x7b' :: '"' :: cs) =
      (readMembers wanted fuel (depth - 1) ('"' :: cs)).map fun r => (.object r.1, r.2) := by
  rw [readValue]
  show (if depth ≤ 1 then none else
    (readMembers wanted fuel (depth - 1) ('"' :: cs)).map fun r => (object r.1, r.2)) = _
  rw [if_neg (by omega)]

/-- The last item of a list is read. -/
lemma readItems_last {cs r : List Char} {item : Json}
    (hitem : readValue wanted fuel depth cs = some (item, ']' :: r)) :
    readItems wanted (fuel + 1) depth cs = some ([item], r) := by
  rw [readItems, hitem]
  rfl

/-- An item of a list is read, then the others are. -/
lemma readItems_cons {cs r rest : List Char} {item : Json} {items : List Json}
    (hitem : readValue wanted fuel depth cs = some (item, ',' :: rest))
    (hitems : readItems wanted fuel depth rest = some (items, r)) :
    readItems wanted (fuel + 1) depth cs = some (item :: items, r) := by
  rw [readItems, hitem]
  show (readItems wanted fuel depth rest >>= fun r => some (item :: r.1, r.2)) = _
  rw [hitems]
  rfl

/-- The value of a wanted member is read after its key. -/
lemma readMembers_key {rest after : List Char} {key : String} {value : Json}
    (hkey : wanted key = true) (hvalue : readValue wanted fuel depth rest = some (value, after)) :
    readMembers wanted (fuel + 1) depth (quoteChars key ++ ':' :: rest) =
      match skipBlank after with
      | ',' :: more =>
        (readMembers wanted fuel depth more).map fun r => ((key, value) :: r.1, r.2)
      | '\x7d' :: after => some ([(key, value)], after)
      | _ => none := by
  have htext : quoteChars key ++ ':' :: rest =
      '"' :: (key.toList.flatMap escapeChar ++ '"' :: ':' :: rest) := by
    simp [quoteChars]
  rw [readMembers, htext, skipBlank_cons (by decide)]
  split
  · rename_i heq
    cases heq
    rw [readString_escaped, Option.bind_eq_bind, Option.bind_some]
    dsimp only
    rw [skipBlank_cons (by decide)]
    split
    · rename_i heq
      cases heq
      rw [if_pos hkey, hvalue]
      show (match skipBlank after with
        | ',' :: more => (readMembers wanted fuel depth more >>= fun r =>
            some ([(key, value)] ++ r.1, r.2))
        | '\x7d' :: after => some ([(key, value)], after)
        | _ => none) = _
      split
      · rename_i more _
        cases readMembers wanted fuel depth more <;> rfl
      · rfl
      · rfl
    · rename_i hne
      exact absurd rfl (hne _)
  · rename_i hne
    exact absurd rfl (hne _)

/-- The last member of an object is read. -/
lemma readMembers_last {r rest : List Char} {key : String} {value : Json}
    (hkey : wanted key = true)
    (hvalue : readValue wanted fuel depth rest = some (value, '\x7d' :: r)) :
    readMembers wanted (fuel + 1) depth (quoteChars key ++ ':' :: rest) =
      some ([(key, value)], r) := by
  rw [readMembers_key hkey hvalue]
  rfl

/-- A member of an object is read, then the others are. -/
lemma readMembers_cons {r rest more : List Char} {key : String} {value : Json}
    {members : List (String × Json)} (hkey : wanted key = true)
    (hvalue : readValue wanted fuel depth rest = some (value, ',' :: more))
    (hmembers : readMembers wanted fuel depth more = some (members, r)) :
    readMembers wanted (fuel + 1) depth (quoteChars key ++ ':' :: rest) =
      some ((key, value) :: members, r) := by
  rw [readMembers_key hkey hvalue]
  show ((readMembers wanted fuel depth more).map fun r => ((key, value) :: r.1, r.2)) = _
  rw [hmembers]
  rfl

/-- A list is read if its items are. -/
lemma readValue_array {item : Json} {rest : List Json} {r : List Char} (hdepth : 1 < depth)
    (hv : areVerbal wanted (item :: rest) = true)
    (hitems : readItems wanted fuel (depth - 1) (renderItems (item :: rest) ++ ']' :: r) =
      some (item :: rest, r)) :
    readValue wanted (fuel + 1) depth (renderChars (.array (item :: rest)) ++ r) =
      some (.array (item :: rest), r) := by
  have htext : renderChars (.array (item :: rest)) ++ r =
      '[' :: (renderItems (item :: rest) ++ ']' :: r) := by
    simp [renderChars]
  rw [areVerbal, Bool.and_eq_true] at hv
  obtain ⟨c, cs, hcs, hc, hblank⟩ := exists_first_of_isVerbal hv.1 (itemsTail rest r)
  rw [renderItems_cons, hcs] at hitems
  rw [htext, renderItems_cons, hcs, readValue_bracket hdepth hc hblank, hitems]
  rfl

/-- An object is read if its members are. -/
lemma readValue_object {key : String} {value : Json} {rest : List (String × Json)} {r : List Char}
    (hdepth : 1 < depth)
    (hmembers : readMembers wanted fuel (depth - 1)
      (renderMembers ((key, value) :: rest) ++ '\x7d' :: r) = some ((key, value) :: rest, r)) :
    readValue wanted (fuel + 1) depth (renderChars (.object ((key, value) :: rest)) ++ r) =
      some (.object ((key, value) :: rest), r) := by
  have htext : renderChars (.object ((key, value) :: rest)) ++ r =
      '\x7b' :: (renderMembers ((key, value) :: rest) ++ '\x7d' :: r) := by
    simp [renderChars]
  have hquote : ∃ cs, renderMembers ((key, value) :: rest) ++ '\x7d' :: r = '"' :: cs :=
    ⟨_, (renderMembers_cons key value rest r).trans rfl⟩
  obtain ⟨cs, hcs⟩ := hquote
  rw [hcs] at hmembers
  rw [htext, hcs, readValue_brace hdepth, hmembers]
  rfl

mutual

/-- **A value is read back** from its text, with what follows it. -/
theorem readValue_renderChars : ∀ {v : Json} {fuel depth : Nat} (r : List Char),
    isVerbal wanted v = true → nesting v < depth → 2 * (renderChars v).length ≤ fuel + 1 →
    readValue wanted (fuel + 1) depth (renderChars v ++ r) = some (v, r)
  | .null, fuel, depth, r, _, _, hfuel => by
    rw [readValue]
    rfl
  | .bool b, fuel, depth, r, _, _, hfuel => by
    rw [readValue]
    cases b <;> rfl
  | .string s, fuel, depth, r, hv, _, hfuel => by
    have htext : renderChars (.string s) ++ r =
        '"' :: (s.toList.flatMap escapeChar ++ '"' :: r) := by
      simp [renderChars, quoteChars]
    rw [htext, readValue_quote, readString_escaped]
    rfl
  | .array [], fuel, depth, r, _, hdepth, _ => by
    rw [nesting, nestingOfItems] at hdepth
    rw [readValue]
    show (if depth ≤ 1 then none else some (array [], r)) = _
    rw [if_neg (by omega)]
  | .array (item :: rest), fuel, depth, r, hv, hdepth, hfuel => by
    have hlength : (renderChars (.array (item :: rest))).length =
        (renderItems (item :: rest)).length + 2 := by
      simp [renderChars]
    obtain ⟨fuel, rfl⟩ : ∃ n, fuel = n + 1 := ⟨fuel - 1, by omega⟩
    rw [nesting] at hdepth
    rw [isVerbal] at hv
    exact readValue_array (by omega) hv (readItems_renderItems r (List.cons_ne_nil _ _) hv
      (Nat.lt_sub_of_add_lt hdepth) (by omega))
  | .object [], fuel, depth, r, _, hdepth, _ => by
    rw [nesting, nestingOfMembers] at hdepth
    rw [readValue]
    show (if depth ≤ 1 then none else some (object [], r)) = _
    rw [if_neg (by omega)]
  | .object ((key, value) :: rest), fuel, depth, r, hv, hdepth, hfuel => by
    have hlength : (renderChars (.object ((key, value) :: rest))).length =
        (renderMembers ((key, value) :: rest)).length + 2 := by
      simp [renderChars]
    obtain ⟨fuel, rfl⟩ : ∃ n, fuel = n + 1 := ⟨fuel - 1, by omega⟩
    rw [nesting] at hdepth
    rw [isVerbal] at hv
    exact readValue_object (by omega) (readMembers_renderMembers r (List.cons_ne_nil _ _) hv
      (Nat.lt_sub_of_add_lt hdepth) (by omega))

/-- Items are read back from their text, with what follows them. -/
theorem readItems_renderItems : ∀ {items : List Json} {fuel depth : Nat} (r : List Char),
    items ≠ [] → areVerbal wanted items = true → nestingOfItems items < depth →
    2 * (renderItems items).length ≤ fuel →
    readItems wanted (fuel + 1) depth (renderItems items ++ ']' :: r) = some (items, r)
  | [], _, _, _, hnil, _, _, _ => absurd rfl hnil
  | [item], fuel, depth, r, _, hv, hdepth, hfuel => by
    rw [areVerbal, Bool.and_eq_true] at hv
    rw [nestingOfItems] at hdepth
    rw [renderItems] at hfuel ⊢
    have hpos := length_renderChars_pos hv.1
    obtain ⟨fuel, rfl⟩ : ∃ n, fuel = n + 1 := ⟨fuel - 1, by omega⟩
    exact readItems_last (readValue_renderChars _ hv.1 (by omega) (by omega))
  | item :: next :: rest, fuel, depth, r, _, hv, hdepth, hfuel => by
    rw [areVerbal, Bool.and_eq_true] at hv
    rw [nestingOfItems] at hdepth
    have hlength : (renderItems (item :: next :: rest)).length =
        (renderChars item).length + 1 + (renderItems (next :: rest)).length := by
      rw [renderItems, List.length_append, List.length_cons]
      · omega
      · exact nofun
    obtain ⟨fuel, rfl⟩ : ∃ n, fuel = n + 1 := ⟨fuel - 1, by omega⟩
    rw [renderItems_cons]
    refine readItems_cons (readValue_renderChars _ hv.1 (by omega) (by omega)) ?_
    exact readItems_renderItems r (List.cons_ne_nil _ _) hv.2 (by omega) (by omega)

/-- Members are read back from their text, with what follows them. -/
theorem readMembers_renderMembers : ∀ {members : List (String × Json)} {fuel depth : Nat}
    (r : List Char), members ≠ [] → areVerbalMembers wanted members = true →
    nestingOfMembers members < depth → 2 * (renderMembers members).length ≤ fuel →
    readMembers wanted (fuel + 1) depth (renderMembers members ++ '\x7d' :: r) =
      some (members, r)
  | [], _, _, _, hnil, _, _, _ => absurd rfl hnil
  | [(key, value)], fuel, depth, r, _, hv, hdepth, hfuel => by
    rw [areVerbalMembers, Bool.and_eq_true, Bool.and_eq_true] at hv
    rw [nestingOfMembers] at hdepth
    rw [renderMembers, List.length_append, List.length_cons] at hfuel
    obtain ⟨fuel, rfl⟩ : ∃ n, fuel = n + 1 := ⟨fuel - 1, by omega⟩
    rw [renderMembers_cons]
    exact readMembers_last hv.1.1 (readValue_renderChars _ hv.1.2 (by omega) (by omega))
  | (key, value) :: next :: rest, fuel, depth, r, _, hv, hdepth, hfuel => by
    rw [areVerbalMembers, Bool.and_eq_true, Bool.and_eq_true] at hv
    rw [nestingOfMembers] at hdepth
    have hlength : (renderMembers ((key, value) :: next :: rest)).length =
        (quoteChars key).length + (renderChars value).length + 2 +
          (renderMembers (next :: rest)).length := by
      rw [renderMembers]
      · simp only [List.length_append, List.length_cons]
        omega
      · exact nofun
    obtain ⟨fuel, rfl⟩ : ∃ n, fuel = n + 1 := ⟨fuel - 1, by omega⟩
    rw [renderMembers_cons]
    refine readMembers_cons hv.1.1 (readValue_renderChars _ hv.1.2 (by omega) (by omega)) ?_
    exact readMembers_renderMembers r (List.cons_ne_nil _ _) hv.2 (by omega) (by omega)

end

/-- **A value is read back** from its text. -/
theorem parseMembers?_render {v : Json} (hv : isVerbal wanted v = true)
    (hdepth : nesting v < depthLimit) : parseMembers? wanted v.render = some v := by
  have hread : readValue wanted (2 * (renderChars v).length + 2) depthLimit (renderChars v ++ []) =
      some (v, []) := readValue_renderChars [] hv hdepth (by omega)
  rw [List.append_nil] at hread
  rw [parseMembers?, render, String.toList_ofList]
  rw [hread]
  rfl

/-! ### How deep values nest that are read -/

/-- A number does not nest. -/
lemma nesting_value? {parts : NumberParts} {v : Json} (h : parts.value? = some v) :
    nesting v = 0 := by
  have hsigned : ∀ {x : Option Float} {f : Float → Float},
      x.map (fun x => Json.float (f x)) = some v → nesting v = 0 := by
    intro x f hx
    obtain ⟨y, -, rfl⟩ := Option.map_eq_some_iff.mp hx
    rfl
  unfold NumberParts.value? at h
  dsimp only at h
  split at h
  · split at h
    · split at h
      · split at h
        · cases h
          rfl
        · cases h
          rfl
      · cases h
        rfl
    · exact hsigned h
  · exact hsigned h

/-- A number that is read does not nest. -/
lemma nesting_readNumber {cs r : List Char} {v : Json} (h : readNumber cs = some (v, r)) :
    nesting v = 0 := by
  obtain ⟨parts, -, h⟩ := Option.bind_eq_some_iff.mp h
  obtain ⟨value, hvalue, h⟩ := Option.bind_eq_some_iff.mp h
  cases h
  exact nesting_value? hvalue

/-- A word that is read is the given value. -/
lemma eq_of_readWord {word cs r : List Char} {v w : Json} (h : readWord word w cs = some (v, r)) :
    v = w := by
  unfold readWord at h
  split at h
  · cases h
    rfl
  · cases h

/-- Of two lists of members the one that nests deeper counts. -/
lemma nestingOfMembers_append (ms ms' : List (String × Json)) :
    nestingOfMembers (ms ++ ms') = max (nestingOfMembers ms) (nestingOfMembers ms') := by
  induction ms with
  | nil => exact (Nat.zero_max _).symm
  | cons entry ms ih => rw [List.cons_append, nestingOfMembers, nestingOfMembers, ih, Nat.max_assoc]

/-- What is read with some fuel nests less deep than is allowed. -/
structure ReadsShallow (wanted : String → Bool) (fuel : Nat) : Prop where
  /-- A value does. -/
  value : ∀ {depth cs v r}, 0 < depth → readValue wanted fuel depth cs = some (v, r) →
    nesting v < depth
  /-- The items of a list do. -/
  items : ∀ {depth cs vs r}, 0 < depth → readItems wanted fuel depth cs = some (vs, r) →
    nestingOfItems vs < depth
  /-- The values of members do. -/
  members : ∀ {depth cs ms r}, 0 < depth → readMembers wanted fuel depth cs = some (ms, r) →
    nestingOfMembers ms < depth

/-- A value nests one level deeper than its parts. -/
lemma ReadsShallow.value_succ (h : ReadsShallow wanted fuel) {cs r : List Char} {v : Json}
    (hdepth : 0 < depth) (hread : readValue wanted (fuel + 1) depth cs = some (v, r)) :
    nesting v < depth := by
  rw [readValue] at hread
  split at hread
  · cases hread
  · split_ifs at hread
    · obtain ⟨_, -, heq⟩ := Option.map_eq_some_iff.mp hread
      cases heq
      exact hdepth
    · rw [eq_of_readWord hread]
      exact hdepth
    · rw [eq_of_readWord hread]
      exact hdepth
    · rw [eq_of_readWord hread]
      exact hdepth
    · split at hread
      · cases hread
        rw [nesting, nestingOfItems]
        omega
      · obtain ⟨⟨vs, r'⟩, hitems, heq⟩ := Option.map_eq_some_iff.mp hread
        cases heq
        have hvs := h.items (by omega) hitems
        show nestingOfItems vs + 1 < depth
        omega
    · split at hread
      · cases hread
        rw [nesting, nestingOfMembers]
        omega
      · obtain ⟨⟨ms, r'⟩, hmembers, heq⟩ := Option.map_eq_some_iff.mp hread
        cases heq
        have hms := h.members (by omega) hmembers
        show nestingOfMembers ms + 1 < depth
        omega
    · rw [nesting_readNumber hread]
      exact hdepth

/-- The items of a list nest as deep as the deepest of them. -/
lemma ReadsShallow.items_succ (h : ReadsShallow wanted fuel) {cs r : List Char} {vs : List Json}
    (hdepth : 0 < depth) (hread : readItems wanted (fuel + 1) depth cs = some (vs, r)) :
    nestingOfItems vs < depth := by
  rw [readItems] at hread
  obtain ⟨⟨item, rest⟩, hitem, hread⟩ := Option.bind_eq_some_iff.mp hread
  dsimp only at hread
  split at hread
  · obtain ⟨⟨items, after⟩, hitems, heq⟩ := Option.bind_eq_some_iff.mp hread
    cases heq
    exact max_lt (h.value hdepth hitem) (h.items hdepth hitems)
  · cases hread
    exact max_lt (h.value hdepth hitem) hdepth
  · cases hread

/-- The members of an object nest as deep as the deepest that is wanted. -/
lemma ReadsShallow.members_succ (h : ReadsShallow wanted fuel) {cs r : List Char}
    {ms : List (String × Json)} (hdepth : 0 < depth)
    (hread : readMembers wanted (fuel + 1) depth cs = some (ms, r)) :
    nestingOfMembers ms < depth := by
  rw [readMembers] at hread
  split at hread
  · obtain ⟨⟨key, rest⟩, -, hread⟩ := Option.bind_eq_some_iff.mp hread
    dsimp only at hread
    split at hread
    · obtain ⟨kept, after, hkept, hread⟩ : ∃ kept after, nestingOfMembers kept < depth ∧
          (match skipBlank after with
            | ',' :: more => readMembers wanted fuel depth more >>= fun r =>
              some (kept ++ r.1, r.2)
            | '\x7d' :: after => some (kept, after)
            | _ => none) = some (ms, r) := by
        split_ifs at hread
        · obtain ⟨_, hkept, hread⟩ := Option.bind_eq_some_iff.mp hread
          obtain ⟨⟨value, after⟩, hvalue, rfl⟩ := Option.map_eq_some_iff.mp hkept
          exact ⟨[(key, value)], after, max_lt (h.value hdepth hvalue) hdepth, hread⟩
        · obtain ⟨_, hkept, hread⟩ := Option.bind_eq_some_iff.mp hread
          obtain ⟨after, -, rfl⟩ := Option.map_eq_some_iff.mp hkept
          exact ⟨[], after, hdepth, hread⟩
      split at hread
      · obtain ⟨⟨more, r'⟩, hmembers, heq⟩ := Option.bind_eq_some_iff.mp hread
        cases heq
        rw [nestingOfMembers_append]
        exact max_lt hkept (h.members hdepth hmembers)
      · cases hread
        exact hkept
      · cases hread
    · cases hread
  · cases hread

/-- What is read nests less deep than is allowed. -/
lemma readsShallow (wanted : String → Bool) (fuel : Nat) : ReadsShallow wanted fuel := by
  induction fuel with
  | zero =>
    refine ⟨fun _ h => ?_, fun _ h => ?_, fun _ h => ?_⟩
    · rw [readValue] at h
      cases h
    · rw [readItems] at h
      cases h
    · rw [readMembers] at h
      cases h
  | succ fuel ih => exact ⟨ih.value_succ, ih.items_succ, ih.members_succ⟩

/-- **What is read does not nest too deep.** -/
theorem nesting_lt_of_parseMembers? {s : String} {v : Json}
    (h : parseMembers? wanted s = some v) : nesting v < depthLimit := by
  unfold parseMembers? at h
  dsimp only at h
  split at h
  · rename_i value rest hread
    split at h
    · cases h
      exact (readsShallow wanted _).value (by decide) hread
    · cases h
  · cases h

end

end Lineage.Json
