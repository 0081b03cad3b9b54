import Lineage.Proofs.Number.Layout
import Lineage.Text.Digit

set_option autoImplicit false

/-!
# The compact text identifies a value

No compact text is the beginning of another one, up to the comma or bracket that may follow a
number. So the text of a list or an object falls apart in one way only, and a value is determined by
its text. The one exception are doubles that are not finite: they are written like nulls.

## Main definitions

* `Lineage.Json.isFinite`: no double in a value is infinite or not a number.
* `Lineage.Json.Ends`: what may follow a value in a text.

## Main results

* `Lineage.Json.quoteChars_unique`: a text between quotes ends where its closing quote stands.
* `Lineage.Json.renderChars_unique`: a value and what follows it can be told apart.
* `Lineage.Json.render_injective`: the compact text determines the value.
-/

namespace Lineage.Json

open Shortest

mutual

/-- No double in a value is infinite or not a number. -/
def isFinite : Json → Bool
  | .float x => Binary64.isFinite x
  | .array items => areFinite items
  | .object members => areFiniteMembers members
  | _ => true

/-- No double in a list of values is infinite or not a number. -/
def areFinite : List Json → Bool
  | [] => true
  | item :: rest => isFinite item && areFinite rest

/-- No double in the values of members is infinite or not a number. -/
def areFiniteMembers : List (String × Json) → Bool
  | [] => true
  | (_, value) :: rest => isFinite value && areFiniteMembers rest

end

/-- A double is written as a finite value. -/
@[simp]
lemma isFinite_ofFloat (x : Float) : (ofFloat x).isFinite = true := by
  unfold ofFloat
  split
  · assumption
  · rfl

/-- Every list of values made one by one from other data is finite if the values are. -/
lemma areFinite_map {α : Type} (f : α → Json) (as : List α)
    (h : ∀ a ∈ as, (f a).isFinite = true) : areFinite (as.map f) = true := by
  induction as with
  | nil => rfl
  | cons a as ih =>
    rw [List.map_cons, areFinite, h a List.mem_cons_self,
      ih fun b hb => h b (List.mem_cons_of_mem a hb)]
    rfl

/-- Every list of members made one by one from other data is finite if the values are. -/
lemma areFiniteMembers_map {α : Type} (f : α → String × Json) (as : List α)
    (h : ∀ a ∈ as, (f a).2.isFinite = true) : areFiniteMembers (as.map f) = true := by
  induction as with
  | nil => rfl
  | cons a as ih =>
    rw [List.map_cons, areFiniteMembers, h a List.mem_cons_self,
      ih fun b hb => h b (List.mem_cons_of_mem a hb)]
    rfl

/-- Properties are finite. -/
@[simp]
lemma areFiniteMembers_dictMember (key : String) (entries : List (String × String)) :
    areFiniteMembers (dictMember key entries) = true := by
  unfold dictMember
  split
  · rfl
  · simp only [areFiniteMembers, isFinite, Bool.and_true]
    exact areFiniteMembers_map _ _ fun _ _ => rfl

/-! ### Texts between quotes -/

/-- The first character of an escaped text, and the rest. -/
def unescape : List Char → Option (Char × List Char)
  | '\\' :: 'n' :: rest => some ('\n', rest)
  | '\\' :: 'r' :: rest => some ('\r', rest)
  | '\\' :: 't' :: rest => some ('\t', rest)
  | '\\' :: 'b' :: rest => some (Char.ofNat 8, rest)
  | '\\' :: 'f' :: rest => some (Char.ofNat 12, rest)
  | '\\' :: 'u' :: '0' :: '0' :: high :: low :: rest => do
    some (Char.ofNat (16 * (← Text.hexValue? high) + (← Text.hexValue? low)), rest)
  | '\\' :: c :: rest => some (c, rest)
  | c :: rest => some (c, rest)
  | [] => none

/-- The digits of escapes read back. -/
lemma hexValue_escapeDigit : ∀ n < 16, Text.hexValue? (escapeDigit n) = some n := by
  decide

/-- An escaped character reads back. -/
lemma unescape_escapeChar (c : Char) (rest : List Char) :
    unescape (escapeChar c ++ rest) = some (c, rest) := by
  have hnum : ∀ {n : ℕ}, c.toNat = n → c = Char.ofNat n := by
    rintro n rfl
    exact (Char.ofNat_toNat c).symm
  unfold escapeChar
  split_ifs with hquote hslash hn hr ht hb hf hcontrol
  · rw [hquote]
    rfl
  · rw [hslash]
    rfl
  · rw [hn]
    rfl
  · rw [hr]
    rfl
  · rw [ht]
    rfl
  · rw [hnum hb]
    rfl
  · rw [hnum hf]
    rfl
  · have hhigh := hexValue_escapeDigit (c.toNat / 16) (by omega)
    have hlow := hexValue_escapeDigit (c.toNat % 16) (by omega)
    have hsum : 16 * (c.toNat / 16) + c.toNat % 16 = c.toNat := Nat.div_add_mod _ _
    simp only [List.cons_append, List.nil_append, unescape, hhigh, hlow, Option.bind_eq_bind,
      Option.bind_some, hsum, Char.ofNat_toNat]
  · simp only [List.singleton_append]
    unfold unescape
    split <;> simp_all

/-- An escaped character never begins with a quote. -/
lemma escapeChar_ne_quote (c : Char) {rest tail : List Char} :
    escapeChar c ++ rest ≠ '"' :: tail := by
  unfold escapeChar
  split_ifs with hquote
  all_goals simp_all

/-- **A text between quotes ends where its closing quote stands.** -/
theorem quoteChars_unique {s t : String} {r r' : List Char}
    (h : quoteChars s ++ r = quoteChars t ++ r') : s = t ∧ r = r' := by
  suffices hchars : ∀ cs ds : List Char,
      cs.flatMap escapeChar ++ '"' :: r = ds.flatMap escapeChar ++ '"' :: r' → cs = ds ∧ r = r' by
    have hbody : s.toList.flatMap escapeChar ++ '"' :: r =
        t.toList.flatMap escapeChar ++ '"' :: r' := by
      simpa [quoteChars] using h
    obtain ⟨hcs, hr⟩ := hchars _ _ hbody
    exact ⟨String.toList_inj.mp hcs, hr⟩
  intro cs
  induction cs with
  | nil =>
    intro ds hds
    cases ds with
    | nil => exact ⟨rfl, (List.cons.inj hds).2⟩
    | cons d ds =>
      rw [List.flatMap_cons, List.append_assoc] at hds
      exact absurd hds.symm (escapeChar_ne_quote d)
  | cons c cs ih =>
    intro ds hds
    cases ds with
    | nil =>
      rw [List.flatMap_cons, List.append_assoc] at hds
      exact absurd hds (escapeChar_ne_quote c)
    | cons d ds =>
      rw [List.flatMap_cons, List.flatMap_cons, List.append_assoc, List.append_assoc] at hds
      have hread := congrArg unescape hds
      rw [unescape_escapeChar, unescape_escapeChar, Option.some.injEq, Prod.mk.injEq] at hread
      obtain ⟨rfl, hrest⟩ := hread
      obtain ⟨rfl, hr⟩ := ih ds hrest
      exact ⟨rfl, hr⟩

/-! ### Numbers -/

/-- What may follow a value in a text: nothing, a comma or a closing bracket. -/
def Ends (r : List Char) : Prop := ∀ c rest, r = c :: rest → c = ',' ∨ c = ']' ∨ c = '\x7d'

/-- No character of a number follows a value. -/
lemma Ends.not_number {c : Char} {rest : List Char} (h : Ends (c :: rest)) : ¬IsNumberChar c := by
  rcases h c rest rfl with rfl | rfl | rfl <;> unfold IsNumberChar <;> decide

/-- A number ends where the characters of numbers end. -/
lemma number_unique : ∀ {cs ds r r' : List Char}, (∀ c ∈ cs, IsNumberChar c) →
    (∀ c ∈ ds, IsNumberChar c) → Ends r → Ends r' → cs ++ r = ds ++ r' → cs = ds ∧ r = r'
  | [], [], _, _, _, _, _, _, h => ⟨rfl, h⟩
  | [], d :: ds, r, r', _, hds, hr, _, h => by
    rw [List.nil_append, List.cons_append] at h
    exact absurd (hds d List.mem_cons_self) (h ▸ hr).not_number
  | c :: cs, [], r, r', hcs, _, _, hr', h => by
    rw [List.nil_append, List.cons_append] at h
    exact absurd (hcs c List.mem_cons_self) (h.symm ▸ hr').not_number
  | c :: cs, d :: ds, r, r', hcs, hds, hr, hr', h => by
    obtain ⟨rfl, htail⟩ := List.cons.inj h
    obtain ⟨rfl, hrest⟩ := number_unique (fun x hx => hcs x (List.mem_cons_of_mem _ hx))
      (fun x hx => hds x (List.mem_cons_of_mem _ hx)) hr hr' htail
    exact ⟨rfl, hrest⟩

/-! ### The first character -/

/-- The kinds of values that differ in the first character of their texts. -/
inductive Lead where
  /-- The null. -/
  | null
  /-- A truth value. -/
  | bool (value : Bool)
  /-- A number. -/
  | number
  /-- A text. -/
  | string
  /-- A list. -/
  | array
  /-- An object. -/
  | object
  deriving DecidableEq

/-- The kind of a value. -/
def lead : Json → Lead
  | .null => .null
  | .bool b => .bool b
  | .int _ | .float _ => .number
  | .string _ => .string
  | .array _ => .array
  | .object _ => .object

/-- The kind of value that begins with a character, if any does. -/
def leadOf? (c : Char) : Option Lead :=
  if c = 'n' then some .null
  else if c = 't' then some (.bool true)
  else if c = 'f' then some (.bool false)
  else if c = '"' then some .string
  else if c = '[' then some .array
  else if c = '\x7b' then some .object
  else if c.isDigit ∨ c = '-' then some .number
  else none

/-- A number begins with a digit or a minus. -/
lemma leadOf?_number {c : Char} (h : c.isDigit = true ∨ c = '-') : leadOf? c = some .number := by
  have hne : ∀ {d : Char}, d.isDigit = false → d ≠ '-' → c ≠ d := by
    rintro d hd hm rfl
    rcases h with h | h
    · rw [h] at hd
      cases hd
    · exact hm h
  unfold leadOf?
  rw [if_neg (hne (by decide) (by decide)), if_neg (hne (by decide) (by decide)),
    if_neg (hne (by decide) (by decide)), if_neg (hne (by decide) (by decide)),
    if_neg (hne (by decide) (by decide)), if_neg (hne (by decide) (by decide)), if_pos h]

/-- The first character of a text tells the kind of the value. -/
lemma exists_first {v : Json} (hv : v.isFinite = true) :
    ∃ c cs, renderChars v = c :: cs ∧ leadOf? c = some v.lead := by
  cases v with
  | null => exact ⟨'n', _, rfl, rfl⟩
  | bool b =>
    cases b
    · exact ⟨'f', _, rfl, rfl⟩
    · exact ⟨'t', _, rfl, rfl⟩
  | int z =>
    obtain ⟨c, cs, hcs, hc⟩ := (isNumberText_intChars z).first
    exact ⟨c, cs, by rw [renderChars, hcs], leadOf?_number hc⟩
  | float x =>
    obtain ⟨c, cs, hcs, hc⟩ := (isNumberText_floatText (x := x) hv).first
    exact ⟨c, cs, by rw [renderChars, hcs], leadOf?_number hc⟩
  | string s => exact ⟨'"', _, by rw [renderChars, quoteChars]; rfl, rfl⟩
  | array items => exact ⟨'[', _, by rw [renderChars]; rfl, rfl⟩
  | object members => exact ⟨'\x7b', _, by rw [renderChars]; rfl, rfl⟩

/-- No value begins with a closing bracket. -/
lemma renderChars_ne_cons {v : Json} (hv : v.isFinite = true) {c : Char} {rest tail : List Char}
    (hc : leadOf? c = none) : renderChars v ++ rest ≠ c :: tail := by
  obtain ⟨c', cs, hcs, hlead⟩ := exists_first hv
  rw [hcs]
  intro h
  rw [(List.cons.inj h).1, hc] at hlead
  cases hlead

/-- Values whose texts begin alike are of one kind. -/
lemma lead_eq {v w : Json} (hv : v.isFinite = true) (hw : w.isFinite = true) {r r' : List Char}
    (h : renderChars v ++ r = renderChars w ++ r') : v.lead = w.lead := by
  obtain ⟨c, cs, hcs, hc⟩ := exists_first hv
  obtain ⟨c', cs', hcs', hc'⟩ := exists_first hw
  rw [hcs, hcs'] at h
  rw [(List.cons.inj h).1, hc'] at hc
  exact (Option.some.inj hc).symm

/-! ### Lists and objects -/

/-- What follows the first item of a list. -/
def itemsTail (rest : List Json) (r : List Char) : List Char :=
  if rest.isEmpty then ']' :: r else ',' :: (renderItems rest ++ ']' :: r)

/-- The text of a list: its first item and what follows it. -/
lemma renderItems_cons (item : Json) (rest : List Json) (r : List Char) :
    renderItems (item :: rest) ++ ']' :: r = renderChars item ++ itemsTail rest r := by
  cases rest with
  | nil => simp [renderItems, itemsTail]
  | cons next rest => simp [renderItems, itemsTail]

/-- What follows an item ends it. -/
lemma ends_itemsTail (rest : List Json) (r : List Char) : Ends (itemsTail rest r) := by
  intro c tail h
  unfold itemsTail at h
  split at h
  · exact Or.inr (Or.inl (List.cons.inj h).1.symm)
  · exact Or.inl (List.cons.inj h).1.symm

/-- What follows the first member of an object. -/
def membersTail (rest : List (String × Json)) (r : List Char) : List Char :=
  if rest.isEmpty then '\x7d' :: r else ',' :: (renderMembers rest ++ '\x7d' :: r)

/-- The text of an object: its first key, its first value and what follows it. -/
lemma renderMembers_cons (key : String) (value : Json) (rest : List (String × Json))
    (r : List Char) :
    renderMembers ((key, value) :: rest) ++ '\x7d' :: r =
      quoteChars key ++ ':' :: (renderChars value ++ membersTail rest r) := by
  cases rest with
  | nil => simp [renderMembers, membersTail]
  | cons next rest => simp [renderMembers, membersTail]

/-- What follows a value ends it. -/
lemma ends_membersTail (rest : List (String × Json)) (r : List Char) :
    Ends (membersTail rest r) := by
  intro c tail h
  unfold membersTail at h
  split at h
  · exact Or.inr (Or.inr (List.cons.inj h).1.symm)
  · exact Or.inl (List.cons.inj h).1.symm

mutual

/-- **A value and what follows it can be told apart.**

**Proof sketch.** The first character tells the kind of the value. Numbers end before the first
character that is not one of numbers, texts at their closing quote, and lists and objects by
induction over their parts, each of which is followed by a comma or a closing bracket. -/
theorem renderChars_unique : ∀ {v w : Json} {r r' : List Char}, v.isFinite = true →
    w.isFinite = true → Ends r → Ends r' → renderChars v ++ r = renderChars w ++ r' →
    v = w ∧ r = r'
  | .null, w, r, r', hv, hw, hr, hr', h => by
    have hlead := lead_eq hv hw h
    cases w <;> cases hlead
    exact ⟨rfl, List.append_cancel_left h⟩
  | .bool b, w, r, r', hv, hw, hr, hr', h => by
    have hlead := lead_eq hv hw h
    cases w <;> cases hlead
    exact ⟨rfl, List.append_cancel_left h⟩
  | .int z, w, r, r', hv, hw, hr, hr', h => by
    have hlead := lead_eq hv hw h
    have hz := isNumberText_intChars z
    cases w <;> cases hlead
    · rename_i z'
      rw [renderChars, renderChars] at h
      obtain ⟨htext, hrest⟩ := number_unique hz.chars (isNumberText_intChars z').chars hr hr' h
      exact ⟨congrArg Json.int (intChars_injective htext), hrest⟩
    · rename_i x
      rw [renderChars, renderChars] at h
      have hx := isNumberText_floatText (x := x) hw
      exact absurd (number_unique hz.chars hx.chars hr hr' h).1 (intChars_ne_floatText z hw)
  | .float x, w, r, r', hv, hw, hr, hr', h => by
    have hlead := lead_eq hv hw h
    have hx := isNumberText_floatText (x := x) hv
    cases w <;> cases hlead
    · rename_i z
      rw [renderChars, renderChars] at h
      have hz := isNumberText_intChars z
      exact absurd (number_unique hx.chars hz.chars hr hr' h).1.symm (intChars_ne_floatText z hv)
    · rename_i y
      rw [renderChars, renderChars] at h
      have hy := isNumberText_floatText (x := y) hw
      obtain ⟨htext, hrest⟩ := number_unique hx.chars hy.chars hr hr' h
      exact ⟨congrArg Json.float (floatText_injective hv hw (String.toList_inj.mp htext)), hrest⟩
  | .string s, w, r, r', hv, hw, hr, hr', h => by
    have hlead := lead_eq hv hw h
    cases w <;> cases hlead
    rw [renderChars, renderChars] at h
    obtain ⟨rfl, hrest⟩ := quoteChars_unique h
    exact ⟨rfl, hrest⟩
  | .array items, w, r, r', hv, hw, hr, hr', h => by
    have hlead := lead_eq hv hw h
    cases w <;> cases hlead
    rename_i items'
    have hbody : renderItems items ++ ']' :: r = renderItems items' ++ ']' :: r' := by
      simpa [renderChars] using h
    obtain ⟨rfl, hrest⟩ := renderItems_unique hv hw hbody
    exact ⟨rfl, hrest⟩
  | .object members, w, r, r', hv, hw, hr, hr', h => by
    have hlead := lead_eq hv hw h
    cases w <;> cases hlead
    rename_i members'
    have hbody : renderMembers members ++ '\x7d' :: r = renderMembers members' ++ '\x7d' :: r' := by
      simpa [renderChars] using h
    obtain ⟨rfl, hrest⟩ := renderMembers_unique hv hw hbody
    exact ⟨rfl, hrest⟩

/-- A list and what follows it can be told apart. -/
theorem renderItems_unique : ∀ {vs ws : List Json} {r r' : List Char}, areFinite vs = true →
    areFinite ws = true → renderItems vs ++ ']' :: r = renderItems ws ++ ']' :: r' →
    vs = ws ∧ r = r'
  | [], [], _, _, _, _, h => ⟨rfl, (List.cons.inj h).2⟩
  | [], w :: ws, r, r', _, hws, h => by
    simp only [areFinite, Bool.and_eq_true] at hws
    rw [renderItems_cons] at h
    exact absurd h.symm (renderChars_ne_cons hws.1 (by decide))
  | v :: vs, [], r, r', hvs, _, h => by
    simp only [areFinite, Bool.and_eq_true] at hvs
    rw [renderItems_cons] at h
    exact absurd h (renderChars_ne_cons hvs.1 (by decide))
  | v :: vs, w :: ws, r, r', hvs, hws, h => by
    simp only [areFinite, Bool.and_eq_true] at hvs hws
    rw [renderItems_cons, renderItems_cons] at h
    obtain ⟨rfl, htail⟩ :=
      renderChars_unique hvs.1 hws.1 (ends_itemsTail vs r) (ends_itemsTail ws r') h
    unfold itemsTail at htail
    cases vs with
    | nil =>
      cases ws with
      | nil => exact ⟨rfl, (List.cons.inj htail).2⟩
      | cons w' ws => exact absurd (List.cons.inj htail).1 (by decide)
    | cons v' vs =>
      cases ws with
      | nil => exact absurd (List.cons.inj htail).1 (by decide)
      | cons w' ws =>
        obtain ⟨hrest, hr⟩ := renderItems_unique hvs.2 hws.2 (List.cons.inj htail).2
        exact ⟨by rw [hrest], hr⟩

/-- An object and what follows it can be told apart. -/
theorem renderMembers_unique : ∀ {vs ws : List (String × Json)} {r r' : List Char},
    areFiniteMembers vs = true → areFiniteMembers ws = true →
    renderMembers vs ++ '\x7d' :: r = renderMembers ws ++ '\x7d' :: r' → vs = ws ∧ r = r'
  | [], [], _, _, _, _, h => ⟨rfl, (List.cons.inj h).2⟩
  | [], (key, value) :: ws, r, r', _, _, h => by
    rw [renderMembers_cons] at h
    exact absurd (List.cons.inj h).1 (by decide)
  | (key, value) :: vs, [], r, r', _, _, h => by
    rw [renderMembers_cons] at h
    exact absurd (List.cons.inj h).1 (by decide)
  | (key, v) :: vs, (key', w) :: ws, r, r', hvs, hws, h => by
    simp only [areFiniteMembers, Bool.and_eq_true] at hvs hws
    rw [renderMembers_cons, renderMembers_cons] at h
    obtain ⟨rfl, hvalue⟩ := quoteChars_unique h
    obtain ⟨rfl, htail⟩ := renderChars_unique hvs.1 hws.1 (ends_membersTail vs r)
      (ends_membersTail ws r') (List.cons.inj hvalue).2
    unfold membersTail at htail
    cases vs with
    | nil =>
      cases ws with
      | nil => exact ⟨rfl, (List.cons.inj htail).2⟩
      | cons w' ws => exact absurd (List.cons.inj htail).1 (by decide)
    | cons v' vs =>
      cases ws with
      | nil => exact absurd (List.cons.inj htail).1 (by decide)
      | cons w' ws =>
        obtain ⟨hrest, hr⟩ := renderMembers_unique hvs.2 hws.2 (List.cons.inj htail).2
        exact ⟨by rw [hrest], hr⟩

end

/-- **The compact text determines the value**, where all its doubles are finite. -/
theorem render_injective {v w : Json} (hv : v.isFinite = true) (hw : w.isFinite = true)
    (h : v.render = w.render) : v = w := by
  have hchars : renderChars v ++ [] = renderChars w ++ [] := by
    rw [List.append_nil, List.append_nil]
    exact String.ofList_injective h
  have hends : Ends [] := by
    intro c rest hc
    cases hc
  exact (renderChars_unique hv hw hends hends hchars).1

end Lineage.Json
