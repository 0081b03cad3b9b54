import Mathlib.Data.List.TakeWhile
import Mathlib.Tactic.Ring
import Lineage.Json.Writer
import Lineage.Proofs.Number.Shortest

set_option autoImplicit false

/-!
# The text of a double identifies it

Whatever the layout puts where, the digits, the place of the point and the exponent of a text give
back the value of the decimal it was written for, and the shortest decimal gives back the double.

## Main definitions

* `Lineage.Shortest.textValue`: the value of digits with a point and an exponent.
* `Lineage.Shortest.IsNumberChar`, `Lineage.Json.IsNumberText`: the characters of numbers.

## Main results

* `Lineage.Shortest.textValue_body`: the text of a decimal has its value.
* `Lineage.Shortest.render_injective`: finite doubles of one text are one double.
* `Lineage.Json.floatText_injective`, `Lineage.Json.intChars_injective`,
  `Lineage.Json.intChars_ne_floatText`: the same for the numbers of compact texts.
-/

namespace Lineage.Shortest

open Binary64

/-- The value of digits with a point. -/
def pointValue (cs : List Char) : ℚ :=
  let whole := cs.takeWhile (· != '.')
  let places := (cs.dropWhile (· != '.')).drop 1
  (Nat.ofDigitChars 10 (whole ++ places) 0 : ℚ) / 10 ^ places.length

/-- The value of digits with a sign. -/
def signedValue : List Char → ℤ
  | '-' :: ds => -(Nat.ofDigitChars 10 ds 0 : ℤ)
  | '+' :: ds => Nat.ofDigitChars 10 ds 0
  | ds => Nat.ofDigitChars 10 ds 0

/-- The value of digits with a point and an exponent. -/
def textValue (cs : List Char) : ℚ :=
  pointValue (cs.takeWhile (· != 'e')) * 10 ^ signedValue ((cs.dropWhile (· != 'e')).drop 1)

/-- The characters of numbers: digits, signs, points and exponents. -/
def IsNumberChar (c : Char) : Prop := c.isDigit = true ∨ c = '-' ∨ c = '+' ∨ c = '.' ∨ c = 'e'

/-! ### Digits -/

/-- The characters of a whole number are digits. -/
lemma isDigit_of_mem_natChars {n : ℕ} {c : Char} (h : c ∈ natChars n) : c.isDigit = true :=
  Nat.isDigit_of_mem_toDigits (by omega) (by omega) h

/-- A character that is no digit is not among the characters of a whole number. -/
lemma ne_of_mem_natChars {n : ℕ} {c d : Char} (hd : d.isDigit = false) (h : c ∈ natChars n) :
    c ≠ d := by
  rintro rfl
  rw [isDigit_of_mem_natChars h] at hd
  cases hd

/-- The characters of a whole number read back. -/
lemma ofDigitChars_natChars (n : ℕ) : Nat.ofDigitChars 10 (natChars n) 0 = n :=
  Nat.ofDigitChars_ten_toDigits

/-- A whole number has a first digit. -/
lemma exists_natChars_eq_cons (n : ℕ) :
    ∃ c ds, natChars n = c :: ds ∧ c.isDigit = true ∧ ∀ d ∈ ds, d.isDigit = true := by
  cases h : natChars n with
  | nil => exact absurd h Nat.toDigits_ne_nil
  | cons c ds =>
    refine ⟨c, ds, rfl, isDigit_of_mem_natChars (n := n) (by simp [h]), fun d hd => ?_⟩
    exact isDigit_of_mem_natChars (n := n) (by simp [h, hd])

/-- The value of a whole number with its sign. -/
lemma signedValue_intChars (z : ℤ) : signedValue (intChars z) = z := by
  unfold intChars
  split
  · simp only [signedValue, ofDigitChars_natChars]
    omega
  · obtain ⟨c, ds, hc, hdigit, -⟩ := exists_natChars_eq_cons z.natAbs
    have hread := ofDigitChars_natChars z.natAbs
    rw [hc] at hread ⊢
    have hminus : c ≠ '-' := by
      rintro rfl
      exact absurd hdigit (by decide)
    have hplus : c ≠ '+' := by
      rintro rfl
      exact absurd hdigit (by decide)
    have hvalue : signedValue (c :: ds) = Nat.ofDigitChars 10 (c :: ds) 0 := by
      unfold signedValue
      split
      · rename_i heq
        exact absurd (List.cons.inj heq).1 hminus
      · rename_i heq
        exact absurd (List.cons.inj heq).1 hplus
      · rfl
    rw [hvalue, hread]
    omega

/-- The value of an exponent with its sign. -/
lemma signedValue_exponent (plus : Bool) (z : ℤ) :
    signedValue ((if plus ∧ z ≥ 0 then ['+'] else []) ++ intChars z) = z := by
  split
  · rename_i h
    simp only [List.cons_append, List.nil_append, signedValue, intChars,
      if_neg (not_lt.mpr h.2), ofDigitChars_natChars]
    omega
  · exact signedValue_intChars z

/-! ### The value of a text -/

/-- The value of digits without a point. -/
lemma pointValue_whole {cs : List Char} (h : ∀ c ∈ cs, c ≠ '.') :
    pointValue cs = Nat.ofDigitChars 10 cs 0 := by
  have hpass : ∀ c ∈ cs, (c != '.') = true := fun c hc => by simpa using h c hc
  unfold pointValue
  rw [List.takeWhile_eq_self_iff.mpr hpass, List.dropWhile_eq_nil_iff.mpr hpass]
  simp

/-- The value of digits on both sides of a point. -/
lemma pointValue_point {whole places : List Char} (h : ∀ c ∈ whole, c ≠ '.') :
    pointValue (whole ++ '.' :: places) =
      (Nat.ofDigitChars 10 (whole ++ places) 0 : ℚ) / 10 ^ places.length := by
  have hpass : ∀ c ∈ whole, (c != '.') = true := fun c hc => by simpa using h c hc
  unfold pointValue
  rw [List.takeWhile_append_of_pos hpass, List.dropWhile_append_of_pos hpass]
  simp

/-- The value of a text without exponent. -/
lemma textValue_plain {cs : List Char} (h : ∀ c ∈ cs, c ≠ 'e') : textValue cs = pointValue cs := by
  have hpass : ∀ c ∈ cs, (c != 'e') = true := fun c hc => by simpa using h c hc
  unfold textValue
  rw [List.takeWhile_eq_self_iff.mpr hpass, List.dropWhile_eq_nil_iff.mpr hpass]
  simp [signedValue]

/-- The value of a text with an exponent. -/
lemma textValue_exponent {lead ex : List Char} (h : ∀ c ∈ lead, c ≠ 'e') :
    textValue (lead ++ 'e' :: ex) = pointValue lead * 10 ^ signedValue ex := by
  have hpass : ∀ c ∈ lead, (c != 'e') = true := fun c hc => by simpa using h c hc
  unfold textValue
  rw [List.takeWhile_append_of_pos hpass, List.dropWhile_append_of_pos hpass]
  simp

/-- Digits and zeros behind them, with or without a point at the end. -/
lemma pointValue_natChars_zeros (digits zeros : ℕ) (point : Bool) :
    pointValue (natChars digits ++ List.replicate zeros '0' ++ if point then ['.', '0'] else []) =
      (digits : ℚ) * 10 ^ zeros := by
  have hwhole : ∀ c ∈ natChars digits ++ List.replicate zeros '0', c ≠ '.' := by
    intro c hc
    rcases List.mem_append.mp hc with hc | hc
    · exact ne_of_mem_natChars (by decide) hc
    · rw [List.eq_of_mem_replicate hc]
      decide
  have hread : Nat.ofDigitChars 10 (natChars digits ++ List.replicate zeros '0') 0 =
      10 ^ zeros * digits := by
    rw [Nat.ofDigitChars_append, ofDigitChars_natChars, Nat.ofDigitChars_replicate_zero]
  split
  · rw [pointValue_point hwhole, Nat.ofDigitChars_append, hread]
    simp only [Nat.ofDigitChars_cons, Nat.ofDigitChars_nil, List.length_cons, List.length_nil]
    push_cast
    ring
  · rw [List.append_nil, pointValue_whole hwhole, hread]
    push_cast
    ring

/-- Digits with a point among them. -/
lemma pointValue_natChars_split {digits places : ℕ} (h : places ≤ (natChars digits).length) :
    pointValue ((natChars digits).take ((natChars digits).length - places) ++
        '.' :: (natChars digits).drop ((natChars digits).length - places)) =
      (digits : ℚ) / 10 ^ places := by
  have htake : ∀ c ∈ (natChars digits).take ((natChars digits).length - places), c ≠ '.' :=
    fun c hc => ne_of_mem_natChars (by decide) (List.mem_of_mem_take hc)
  rw [pointValue_point htake, List.take_append_drop, ofDigitChars_natChars, List.length_drop,
    Nat.sub_sub_self h]

/-- Digits behind a point and zeros. -/
lemma pointValue_zeros_natChars {digits places : ℕ} (h : (natChars digits).length ≤ places) :
    pointValue ('0' :: '.' :: List.replicate (places - (natChars digits).length) '0' ++
        natChars digits) = (digits : ℚ) / 10 ^ places := by
  have hzero : ∀ c ∈ ['0'], c ≠ '.' := by simp
  have htext : '0' :: '.' :: List.replicate (places - (natChars digits).length) '0' ++
      natChars digits = ['0'] ++ '.' ::
        (List.replicate (places - (natChars digits).length) '0' ++ natChars digits) := rfl
  have hfirst : Nat.ofDigitChars 10 ['0'] 0 = 0 := rfl
  rw [htext, pointValue_point hzero, Nat.ofDigitChars_append, Nat.ofDigitChars_append,
    Nat.ofDigitChars_replicate_zero, hfirst, Nat.mul_zero, ofDigitChars_natChars,
    List.length_append, List.length_replicate, Nat.sub_add_cancel h]

/-- Digits with a point and no exponent have the value of the decimal. -/
lemma pointValue_plainChars (layout : Layout) (d : Decimal) :
    pointValue (plainChars layout d) = d.value := by
  simp only [plainChars, Decimal.value]
  split
  · rename_i hexp
    rw [pointValue_natChars_zeros, zpow_of_nonneg 10 hexp]
  · rename_i hexp
    rw [zpow_of_neg 10 (by omega), ← div_eq_mul_inv]
    split
    · rename_i hplaces
      exact pointValue_natChars_split hplaces.le
    · rename_i hplaces
      exact pointValue_zeros_natChars (not_lt.mp hplaces)

/-- Digits in front of an exponent: a point stands after the first, where others follow; where none
do, a zero may stand behind it. -/
def IsLead (c : Char) (ds lead : List Char) : Prop :=
  lead = c :: '.' :: ds ∨ (ds = [] ∧ (lead = [c] ∨ lead = [c, '.', '0']))

namespace IsLead

variable {c : Char} {ds lead : List Char}

/-- In front of an exponent the first digit stands first. -/
lemma exists_eq_cons (h : IsLead c ds lead) : ∃ rest, lead = c :: rest := by
  rcases h with rfl | ⟨-, rfl | rfl⟩ <;> exact ⟨_, rfl⟩

/-- In front of an exponent stand digits and a point. -/
lemma isDigit_or_eq (h : IsLead c ds lead) (hdigits : ∀ d ∈ c :: ds, d.isDigit = true) {x : Char}
    (hx : x ∈ lead) : x.isDigit = true ∨ x = '.' := by
  have hform : x = '0' ∨ x = '.' ∨ x ∈ c :: ds := by
    rcases h with rfl | ⟨-, rfl | rfl⟩ <;> simp only [List.mem_cons, List.not_mem_nil] at hx ⊢ <;>
      tauto
  rcases hform with rfl | rfl | hmem
  · exact Or.inl rfl
  · exact Or.inr rfl
  · exact Or.inl (hdigits x hmem)

/-- In front of an exponent is one place for every digit after the first. -/
lemma pointValue_eq (h : IsLead c ds lead) (hc : c ≠ '.') :
    pointValue lead = (Nat.ofDigitChars 10 (c :: ds) 0 : ℚ) / 10 ^ ds.length := by
  have hpoint : ∀ x ∈ [c], x ≠ '.' := List.forall_mem_singleton.mpr hc
  rcases h with rfl | ⟨rfl, rfl | rfl⟩
  · exact pointValue_point hpoint
  · rw [pointValue_whole hpoint, List.length_nil, pow_zero, div_one]
  · rw [show [c, '.', '0'] = [c] ++ '.' :: ['0'] from rfl, pointValue_point hpoint,
      Nat.ofDigitChars_append]
    simp only [Nat.ofDigitChars_cons, Nat.ofDigitChars_nil, List.length_cons, List.length_nil]
    push_cast
    ring

end IsLead

/-- The text with an exponent: the digits with a point after the first, then the exponent. -/
lemma exponentChars_eq (layout : Layout) {d : Decimal} {c : Char} {ds : List Char}
    (h : natChars d.digits = c :: ds) :
    ∃ lead, IsLead c ds lead ∧
      exponentChars layout d = lead ++ 'e' ::
        ((if layout.plus ∧ d.exponent + ds.length ≥ 0 then ['+'] else []) ++
          intChars (d.exponent + ds.length)) := by
  have hpower : d.exponent + ((c :: ds).length : ℤ) - 1 = d.exponent + ds.length := by
    simp only [List.length_cons]
    omega
  simp only [exponentChars, h, hpower]
  cases ds with
  | nil =>
    refine ⟨if layout.mantissaZero = true then [c, '.', '0'] else [c], Or.inr ⟨rfl, ?_⟩, ?_⟩
    · split
      · exact Or.inr rfl
      · exact Or.inl rfl
    · simp only [List.append_assoc, List.cons_append]
  | cons c' ds' =>
    exact ⟨c :: '.' :: c' :: ds', Or.inl rfl, by simp only [List.append_assoc, List.cons_append]⟩

/-- Digits with an exponent have the value of the decimal. -/
lemma textValue_exponentChars (layout : Layout) (d : Decimal) :
    textValue (exponentChars layout d) = d.value := by
  obtain ⟨c, ds, hcs, hc, hds⟩ := exists_natChars_eq_cons d.digits
  have hdigits : ∀ x ∈ c :: ds, x.isDigit = true := List.forall_mem_cons.mpr ⟨hc, hds⟩
  have hread : Nat.ofDigitChars 10 (c :: ds) 0 = d.digits := by rw [← hcs, ofDigitChars_natChars]
  obtain ⟨lead, hlead, htext⟩ := exponentChars_eq layout hcs
  have hpoint : c ≠ '.' := by
    rintro rfl
    cases hc
  have hmark : ∀ x ∈ lead, x ≠ 'e' := by
    rintro x hx rfl
    rcases hlead.isDigit_or_eq hdigits hx with h | h <;> exact absurd h (by decide)
  -- One more place for every digit after the first: the exponent counts them back.
  rw [htext, textValue_exponent hmark, signedValue_exponent, hlead.pointValue_eq hpoint, hread,
    Decimal.value, zpow_add₀ (by norm_num), zpow_natCast]
  field_simp

/-! ### The characters of a text -/

/-- A text without exponent consists of digits and a point. -/
lemma mem_plainChars {layout : Layout} {d : Decimal} {c : Char} (h : c ∈ plainChars layout d) :
    c.isDigit = true ∨ c = '.' := by
  have hdigit : ∀ x ∈ natChars d.digits, x.isDigit = true ∨ x = '.' :=
    fun x hx => Or.inl (isDigit_of_mem_natChars hx)
  have hzero : ∀ {n : ℕ}, ∀ x ∈ List.replicate n '0', x.isDigit = true ∨ x = '.' := by
    intro n x hx
    rw [List.eq_of_mem_replicate hx]
    exact Or.inl rfl
  simp only [plainChars] at h
  split at h
  · rcases List.mem_append.mp h with h | h
    · rcases List.mem_append.mp h with h | h
      · exact hdigit c h
      · exact hzero c h
    · split at h
      · simp only [List.mem_cons, List.not_mem_nil, or_false] at h
        rcases h with rfl | rfl
        · exact Or.inr rfl
        · exact Or.inl rfl
      · cases h
  · split at h
    · rcases List.mem_append.mp h with h | h
      · exact hdigit c (List.mem_of_mem_take h)
      · rcases List.mem_cons.mp h with rfl | h
        · exact Or.inr rfl
        · exact hdigit c (List.mem_of_mem_drop h)
    · rcases List.mem_append.mp h with h | h
      · simp only [List.mem_cons] at h
        rcases h with rfl | rfl | h
        · exact Or.inl rfl
        · exact Or.inr rfl
        · exact hzero c h
      · exact hdigit c h

/-- A whole number consists of digits and a sign. -/
lemma mem_intChars {z : ℤ} {c : Char} (h : c ∈ intChars z) : c.isDigit = true ∨ c = '-' := by
  unfold intChars at h
  split at h
  · rcases List.mem_cons.mp h with rfl | h
    · exact Or.inr rfl
    · exact Or.inl (isDigit_of_mem_natChars h)
  · exact Or.inl (isDigit_of_mem_natChars h)

/-- A text with an exponent consists of the characters of numbers. -/
lemma mem_exponentChars {layout : Layout} {d : Decimal} {c : Char}
    (h : c ∈ exponentChars layout d) : IsNumberChar c := by
  obtain ⟨c', ds, hcs, hc, hds⟩ := exists_natChars_eq_cons d.digits
  obtain ⟨lead, hlead, htext⟩ := exponentChars_eq layout hcs
  rw [htext] at h
  rcases List.mem_append.mp h with h | h
  · rcases hlead.isDigit_or_eq (List.forall_mem_cons.mpr ⟨hc, hds⟩) h with h | rfl
    · exact Or.inl h
    · exact Or.inr (Or.inr (Or.inr (Or.inl rfl)))
  · rcases List.mem_cons.mp h with rfl | h
    · exact Or.inr (Or.inr (Or.inr (Or.inr rfl)))
    · rcases List.mem_append.mp h with h | h
      · split at h
        · rw [List.mem_singleton.mp h]
          exact Or.inr (Or.inr (Or.inl rfl))
        · cases h
      · rcases mem_intChars h with h | rfl
        · exact Or.inl h
        · exact Or.inr (Or.inl rfl)

/-- A text without exponent begins with a digit. -/
lemma plainChars_eq_cons (layout : Layout) (d : Decimal) :
    ∃ c cs, plainChars layout d = c :: cs ∧ c.isDigit = true := by
  obtain ⟨c, ds, hcs, hc, -⟩ := exists_natChars_eq_cons d.digits
  simp only [plainChars, hcs]
  split
  · exact ⟨c, _, rfl, hc⟩
  · split
    · rename_i hplaces
      obtain ⟨k, hk⟩ : ∃ k, (c :: ds).length - (-d.exponent).toNat = k + 1 :=
        ⟨(c :: ds).length - (-d.exponent).toNat - 1, by omega⟩
      rw [hk]
      exact ⟨c, _, rfl, hc⟩
    · exact ⟨'0', _, rfl, rfl⟩

/-- A text with an exponent begins with a digit. -/
lemma exponentChars_eq_cons (layout : Layout) (d : Decimal) :
    ∃ c cs, exponentChars layout d = c :: cs ∧ c.isDigit = true := by
  obtain ⟨c, ds, hcs, hc, -⟩ := exists_natChars_eq_cons d.digits
  obtain ⟨lead, hlead, htext⟩ := exponentChars_eq layout hcs
  obtain ⟨rest, rfl⟩ := hlead.exists_eq_cons
  exact ⟨c, _, htext, hc⟩

/-- **The text of a decimal has its value**, with or without exponent. -/
theorem textValue_body (layout : Layout) (d : Decimal) :
    textValue (plainChars layout d) = d.value ∧ textValue (exponentChars layout d) = d.value := by
  refine ⟨?_, textValue_exponentChars layout d⟩
  rw [textValue_plain, pointValue_plainChars]
  intro c hc he
  rcases mem_plainChars hc with h | h
  · rw [he] at h
    exact absurd h (by decide)
  · rw [he] at h
    exact absurd h (by decide)

/-! ### The text of a double -/

/-- The characters of a decimal after its sign. -/
def bodyChars (layout : Layout) (d : Decimal) : List Char :=
  if d.digits = 0 ∨ layout.isPlain d then plainChars layout d else exponentChars layout d

/-- What is known of the characters after the sign: their value, the first and the others. -/
lemma bodyChars_spec (layout : Layout) (d : Decimal) :
    textValue (bodyChars layout d) = d.value ∧ (∀ c ∈ bodyChars layout d, IsNumberChar c) ∧
      ∃ c cs, bodyChars layout d = c :: cs ∧ c.isDigit = true := by
  unfold bodyChars
  split
  · refine ⟨(textValue_body layout d).1, fun c hc => ?_, plainChars_eq_cons layout d⟩
    rcases mem_plainChars hc with h | h
    · exact Or.inl h
    · exact Or.inr (Or.inr (Or.inr (Or.inl h)))
  · exact ⟨(textValue_body layout d).2, fun c hc => mem_exponentChars hc,
      exponentChars_eq_cons layout d⟩

/-- The characters of a decimal with its sign. -/
lemma toList_renderDecimal (layout : Layout) (negative : Bool) (d : Decimal) :
    (renderDecimal layout negative d).toList =
      if negative then '-' :: bodyChars layout d else bodyChars layout d := by
  simp only [renderDecimal, String.toList_ofList]
  rfl

/-- The text of a decimal determines its sign and its value. -/
lemma renderDecimal_injective {layout : Layout} {negative negative' : Bool} {d d' : Decimal}
    (h : renderDecimal layout negative d = renderDecimal layout negative' d') :
    negative = negative' ∧ d.value = d'.value := by
  have hchars := congrArg String.toList h
  rw [toList_renderDecimal, toList_renderDecimal] at hchars
  obtain ⟨hvalue, -, c, cs, hcs, hc⟩ := bodyChars_spec layout d
  obtain ⟨hvalue', -, c', cs', hcs', hc'⟩ := bodyChars_spec layout d'
  rw [← hvalue, ← hvalue']
  cases negative <;> cases negative' <;>
    simp only [Bool.false_eq_true, if_false, if_true] at hchars
  · exact ⟨rfl, congrArg textValue hchars⟩
  · rw [hcs] at hchars
    rw [(List.cons.inj hchars).1] at hc
    exact absurd hc (by decide)
  · rw [hcs'] at hchars
    rw [← (List.cons.inj hchars).1] at hc'
    exact absurd hc' (by decide)
  · exact ⟨rfl, congrArg textValue (List.cons.inj hchars).2⟩

/-- **The text of a finite double determines it**, in every layout. -/
theorem render_injective {layout : Layout} {x y : Float} (hx : isFinite x = true)
    (hy : isFinite y = true) (h : render layout x = render layout y) : x = y := by
  unfold isFinite at hx hy
  unfold render at h
  split at hx
  · rename_i d hd
    split at hy
    · rename_i d' hd'
      rw [hd, hd'] at h
      obtain ⟨hsign, hvalue⟩ := renderDecimal_injective h
      obtain ⟨hm, he⟩ :=
        ofScaled_injective (decode_canonical hd) (decode_canonical hd') hvalue
      refine decode_injective hd ?_
      rw [hd']
      cases d
      cases d'
      simp_all
    · cases hy
  · cases hx

end Lineage.Shortest

namespace Lineage.Json

open Shortest

/-- The text of a finite double: its sign and the characters of its shortest decimal. -/
lemma toList_floatText {x : Float} (hx : Binary64.isFinite x = true) :
    ∃ (negative : Bool) (d : Decimal), (floatText x).toList =
      if negative then '-' :: bodyChars floatLayout d else bodyChars floatLayout d := by
  unfold floatText
  rw [if_pos hx]
  unfold Binary64.isFinite at hx
  unfold Shortest.render
  split at hx
  · rename_i d hd
    exact ⟨d.negative, ofScaled double d, by rw [hd, ← toList_renderDecimal]⟩
  · cases hx

/-- **The compact text of a finite double determines it.** -/
theorem floatText_injective {x y : Float} (hx : Binary64.isFinite x = true)
    (hy : Binary64.isFinite y = true) (h : floatText x = floatText y) : x = y := by
  unfold floatText at h
  rw [if_pos hx, if_pos hy] at h
  exact render_injective hx hy h

/-- Numbers begin with a digit or a minus and consist of the characters of numbers. -/
structure IsNumberText (cs : List Char) : Prop where
  /-- The characters are those of numbers. -/
  chars : ∀ c ∈ cs, IsNumberChar c
  /-- The first is a digit or a minus. -/
  first : ∃ c rest, cs = c :: rest ∧ (c.isDigit = true ∨ c = '-')

/-- The text of a finite double is that of a number. -/
lemma isNumberText_floatText {x : Float} (hx : Binary64.isFinite x = true) :
    IsNumberText (floatText x).toList := by
  obtain ⟨negative, d, htext⟩ := toList_floatText hx
  obtain ⟨-, hchars, c, cs, hcs, hc⟩ := bodyChars_spec floatLayout d
  rw [htext]
  cases negative
  · exact ⟨hchars, c, cs, hcs, Or.inl hc⟩
  · refine ⟨fun x hx => ?_, '-', bodyChars floatLayout d, rfl, Or.inr rfl⟩
    rcases List.mem_cons.mp hx with rfl | hx
    · exact Or.inr (Or.inl rfl)
    · exact hchars x hx

/-- The text of a whole number is that of a number. -/
lemma isNumberText_intChars (z : ℤ) : IsNumberText (intChars z) := by
  refine ⟨fun c hc => ?_, ?_⟩
  · rcases mem_intChars hc with h | h
    · exact Or.inl h
    · exact Or.inr (Or.inl h)
  · unfold intChars
    split
    · exact ⟨'-', _, rfl, Or.inr rfl⟩
    · obtain ⟨c, ds, hcs, hc, -⟩ := exists_natChars_eq_cons z.natAbs
      exact ⟨c, ds, hcs, Or.inl hc⟩

/-- The text of a whole number determines it. -/
lemma intChars_injective {m n : ℤ} (h : intChars m = intChars n) : m = n := by
  rw [← signedValue_intChars m, h, signedValue_intChars]

/-- The text of a decimal has a point or an exponent. -/
lemma exists_mark (d : Decimal) : ∃ c ∈ bodyChars floatLayout d, c = '.' ∨ c = 'e' := by
  unfold bodyChars
  split
  · refine ⟨'.', ?_, Or.inl rfl⟩
    simp only [plainChars]
    split
    · simp [floatLayout]
    · split <;> simp
  · obtain ⟨c, ds, hcs, -, -⟩ := exists_natChars_eq_cons d.digits
    obtain ⟨lead, -, htext⟩ := exponentChars_eq floatLayout hcs
    exact ⟨'e', by simp [htext], Or.inr rfl⟩

/-- **No whole number is written like a double.** -/
theorem intChars_ne_floatText (z : ℤ) {x : Float} (hx : Binary64.isFinite x = true) :
    intChars z ≠ (floatText x).toList := by
  obtain ⟨negative, d, htext⟩ := toList_floatText hx
  obtain ⟨c, hc, hmark⟩ := exists_mark d
  intro h
  have hmem : c ∈ intChars z := by
    rw [h, htext]
    split
    · exact List.mem_cons_of_mem _ hc
    · exact hc
  rcases mem_intChars hmem with hdigit | rfl
  · rcases hmark with rfl | rfl <;> exact absurd hdigit (by decide)
  · rcases hmark with h | h <;> exact absurd h (by decide)

end Lineage.Json
