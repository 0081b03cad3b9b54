import Mathlib.Data.Char
import Mathlib.Data.String.Basic
import Mathlib.Tactic.Tauto
import Lineage.Proofs.Time.Calendar

set_option autoImplicit false

/-!
# The order of the texts of dates

Texts of the form YYYY-MM-DD are compared character by character, and so by their years, months and
days: fields of the same width compare as their numbers. Years that have no such text are written
with a sign, which comes before all digits.

## Main definitions

* `Lineage.Calendar.Written`: a text says a date in the form YYYY-MM-DD.

## Main results

* `Lineage.Calendar.Written.lt_iff`: texts of this form come in the order of their dates.
* `Lineage.Calendar.between_iff`: the ISO text of a date lies between two texts of this form if its
  count of days lies between those of their dates.
-/

namespace Lineage.Calendar

variable {cs cs' : List Char} {text text' : String} {d d' : Date} {n width : ℕ}

/-! ### Fields of digits -/

/-- A field of digits of a width. -/
def IsField (width : ℕ) (cs : List Char) : Prop := cs.length = width ∧ ∀ c ∈ cs, c.isDigit = true

instance (width : ℕ) (cs : List Char) : Decidable (IsField width cs) :=
  decidable_of_iff (cs.length = width ∧ cs.all Char.isDigit = true) (by simp [IsField])

/-- The number of a field of digits. -/
def fieldValue (cs : List Char) : ℕ := Nat.ofDigitChars 10 cs 0

/-- The number of a field by its first digit. -/
lemma fieldValue_cons (c : Char) (cs : List Char) :
    fieldValue (c :: cs) = 10 ^ cs.length * (c.toNat - 48) + fieldValue cs := by
  rw [fieldValue, Nat.ofDigitChars_cons, Nat.mul_zero, Nat.zero_add,
    Nat.ofDigitChars_eq_ofDigitChars_zero, fieldValue]
  rfl

/-- The digits are ten characters in a row. -/
lemma toNat_bounds {c : Char} (h : c.isDigit = true) : 48 ≤ c.toNat ∧ c.toNat ≤ 57 := by
  simpa [Char.isDigit, UInt32.le_iff_toNat_le] using h

/-- The number of a field is bounded by its width. -/
lemma fieldValue_lt (h : ∀ c ∈ cs, c.isDigit = true) : fieldValue cs < 10 ^ cs.length := by
  induction cs with
  | nil => exact Nat.one_pos
  | cons c cs ih =>
    obtain ⟨hc, hcs⟩ := List.forall_mem_cons.mp h
    have hbounds := toNat_bounds hc
    calc fieldValue (c :: cs)
        = 10 ^ cs.length * (c.toNat - 48) + fieldValue cs := fieldValue_cons c cs
      _ < 10 ^ cs.length * (c.toNat - 48) + 10 ^ cs.length := Nat.add_lt_add_left (ih hcs) _
      _ = 10 ^ cs.length * (c.toNat - 48 + 1) := (Nat.mul_add_one ..).symm
      _ ≤ 10 ^ cs.length * 10 := Nat.mul_le_mul_left _ (by omega)
      _ = 10 ^ (c :: cs).length := (Nat.pow_succ ..).symm

/-- Numbers compare by their quotients, and by their rests if those are equal. -/
lemma mul_add_lt_iff {base high high' low low' : ℕ} (h : low < base) (h' : low' < base) :
    base * high + low < base * high' + low' ↔ high < high' ∨ high = high' ∧ low < low' := by
  rcases Nat.lt_trichotomy high high' with hlt | rfl | hgt
  · have hstep : base * (high + 1) ≤ base * high' := Nat.mul_le_mul_left _ hlt
    rw [Nat.mul_add_one] at hstep
    omega
  · omega
  · have hstep : base * (high' + 1) ≤ base * high := Nat.mul_le_mul_left _ hgt
    rw [Nat.mul_add_one] at hstep
    omega

/-- Digits compare as their numbers. -/
lemma digit_lt_iff {c c' : Char} (h : c.isDigit = true) (h' : c'.isDigit = true) :
    c < c' ↔ c.toNat - 48 < c'.toNat - 48 := by
  have hbounds := toNat_bounds h
  have hbounds' := toNat_bounds h'
  rw [Char.lt_def, UInt32.lt_iff_toNat_lt]
  change c.toNat < c'.toNat ↔ _
  omega

/-- Digits of one number are equal. -/
lemma digit_inj_iff {c c' : Char} (h : c.isDigit = true) (h' : c'.isDigit = true) :
    c = c' ↔ c.toNat - 48 = c'.toNat - 48 := by
  have hbounds := toNat_bounds h
  have hbounds' := toNat_bounds h'
  rw [← Char.toNat_inj]
  omega

/-- **Fields of one width compare as their numbers.** -/
lemma IsField.lt_iff (h : IsField width cs) (h' : IsField width cs') :
    cs < cs' ↔ fieldValue cs < fieldValue cs' := by
  -- on the first field: its first digit decides, or else the rests do, which have one width too
  induction cs generalizing cs' width with
  | nil =>
    obtain ⟨rfl, -⟩ := h
    rw [List.length_eq_zero_iff.mp h'.1]
    simp
  | cons c cs ih =>
    obtain ⟨rfl, hdigits⟩ := h
    obtain ⟨hlength, hdigits'⟩ := h'
    obtain _ | ⟨c', cs'⟩ := cs'
    · cases hlength
    obtain ⟨hc, hcs⟩ := List.forall_mem_cons.mp hdigits
    obtain ⟨hc', hcs'⟩ := List.forall_mem_cons.mp hdigits'
    have hlength' : cs'.length = cs.length := Nat.succ.inj hlength
    have hlt := hlength' ▸ fieldValue_lt hcs'
    rw [List.cons_lt_cons_iff, ih ⟨rfl, hcs⟩ ⟨hlength', hcs'⟩, fieldValue_cons, fieldValue_cons,
      hlength', mul_add_lt_iff (fieldValue_lt hcs) hlt, digit_lt_iff hc hc', digit_inj_iff hc hc']

/-- Fields of one width and number are equal. -/
lemma IsField.inj (h : IsField width cs) (h' : IsField width cs')
    (heq : fieldValue cs = fieldValue cs') : cs = cs' := by
  rcases lt_trichotomy cs cs' with hlt | rfl | hgt
  · exact absurd heq ((h.lt_iff h').mp hlt).ne
  · rfl
  · exact absurd heq ((h'.lt_iff h).mp hgt).ne'

/-- Texts compare by their parts of one length, and by what follows if those are equal. -/
lemma append_lt_append_iff {rest rest' : List Char} (h : cs.length = cs'.length) :
    cs ++ rest < cs' ++ rest' ↔ cs < cs' ∨ cs = cs' ∧ rest < rest' := by
  induction cs generalizing cs' with
  | nil =>
    rw [List.eq_nil_of_length_eq_zero h.symm]
    simp
  | cons c cs ih =>
    obtain _ | ⟨c', cs'⟩ := cs'
    · cases h
    rw [List.cons_append, List.cons_append, List.cons_lt_cons_iff, List.cons_lt_cons_iff,
      ih (Nat.succ.inj h), List.cons.injEq]
    tauto

/-- Fields of one width compare as their numbers, and by what follows if those are equal. -/
lemma IsField.append_lt_iff (h : IsField width cs) (h' : IsField width cs')
    {rest rest' : List Char} : cs ++ rest < cs' ++ rest' ↔
      fieldValue cs < fieldValue cs' ∨ fieldValue cs = fieldValue cs' ∧ rest < rest' := by
  rw [append_lt_append_iff (h.1.trans h'.1.symm), h.lt_iff h']
  exact or_congr_right (and_congr_left fun _ => ⟨congrArg fieldValue, h.inj h'⟩)

/-! ### Texts of dates -/

/-- A text says a date in the form YYYY-MM-DD. -/
inductive Written : String → Date → Prop
  /-- Four digits for the year, two for the month and two for the day. -/
  | fields (year month day : List Char) (hyear : IsField 4 year) (hmonth : IsField 2 month)
      (hday : IsField 2 day) :
      Written (String.ofList (year ++ '-' :: (month ++ '-' :: day)))
        ⟨fieldValue year, fieldValue month, fieldValue day⟩

/-- **Texts come in the order of their dates.** -/
theorem Written.lt_iff (h : Written text d) (h' : Written text' d') :
    text < text' ↔ d.Earlier d' := by
  obtain ⟨year, month, day, hyear, hmonth, hday⟩ := h
  obtain ⟨year', month', day', hyear', hmonth', hday'⟩ := h'
  rw [String.lt_iff_toList_lt, String.toList_ofList, String.toList_ofList,
    hyear.append_lt_iff hyear', List.cons_lt_cons_self, hmonth.append_lt_iff hmonth',
    List.cons_lt_cons_self, hday.lt_iff hday']
  simp [Date.Earlier]

/-- Numbers with zeros in front are fields. -/
lemma isField_padded (hpos : 0 < width) (h : n < 10 ^ width) :
    IsField width (padded width n).toList := by
  have hlength := (Nat.length_toDigits_le_iff (by omega : 1 < 10) hpos).mpr h
  rw [padded, String.toList_ofList]
  refine ⟨by simp; omega, fun c hc => ?_⟩
  rcases List.mem_append.mp hc with hzero | hdigit
  · rw [List.eq_of_mem_replicate hzero]
    rfl
  · exact Nat.isDigit_of_mem_toDigits (by omega) (by omega) hdigit

/-- Zeros in front do not change a number. -/
@[simp]
lemma fieldValue_padded (width n : ℕ) : fieldValue (padded width n).toList = n := by
  simp [fieldValue, padded, Nat.ofDigitChars_append]

/-- Months and days have at most two digits. -/
lemma month_day_lt (h : d.isValid = true) : d.month < 10 ^ 2 ∧ d.day < 10 ^ 2 := by
  obtain ⟨-, hmonth, -, hday⟩ := isValid_iff.mp h
  have hdays : daysOfMonth d.year d.month ≤ 31 := by
    unfold daysOfMonth
    split_ifs <;> omega
  omega

/-- The ISO text of a date says it if its year has four digits. -/
lemma written_renderDate (h : d.isValid = true) (hyear : 0 ≤ d.year ∧ d.year ≤ 9999) :
    Written (renderDate d) d := by
  obtain ⟨hmonth, hday⟩ := month_day_lt h
  have hdigits : d.year.toNat < 10 ^ 4 := by omega
  have hfields := Written.fields _ _ _ (isField_padded (by omega) hdigits)
    (isField_padded (by omega) hmonth) (isField_padded (by omega) hday)
  have htext : renderDate d = String.ofList ((padded 4 d.year.toNat).toList ++
      '-' :: ((padded 2 d.month).toList ++ '-' :: (padded 2 d.day).toList)) := by
    rw [← String.toList_inj, renderDate, if_pos hyear]
    simp
  rwa [← htext, fieldValue_padded, fieldValue_padded, fieldValue_padded,
    Int.toNat_of_nonneg hyear.1] at hfields

/-- The year of a text has four digits. -/
lemma Written.year_bounds (h : Written text d) : 0 ≤ d.year ∧ d.year ≤ 9999 := by
  obtain ⟨year, month, day, ⟨hlength, hdigits⟩, -, -⟩ := h
  have hvalue := fieldValue_lt hdigits
  rw [hlength] at hvalue
  dsimp only
  omega

/-- Years without such a text have a sign, which comes before all digits. -/
lemma Written.renderDate_lt (h : Written text d') (hyear : ¬ (0 ≤ d.year ∧ d.year ≤ 9999)) :
    renderDate d < text := by
  obtain ⟨sign, rest, hsign, hchars⟩ : ∃ sign rest, sign.toNat < 48 ∧
      (renderDate d).toList = sign :: rest := by
    rw [renderDate, if_neg hyear]
    split_ifs
    · exact ⟨'-', _, by decide, by simp; rfl⟩
    · exact ⟨'+', _, by decide, by simp; rfl⟩
  obtain ⟨year, month, day, ⟨hlength, hdigits⟩, -, -⟩ := h
  obtain ⟨c, cs, rfl⟩ := List.exists_cons_of_length_eq_add_one hlength
  have hc := (toNat_bounds (hdigits c List.mem_cons_self)).1
  rw [String.lt_iff_toList_lt, hchars, String.toList_ofList, List.cons_append,
    List.cons_lt_cons_iff]
  exact Or.inl (Nat.lt_of_lt_of_le hsign hc)

/-- **The ISO text of a date lies between two texts** of the form YYYY-MM-DD if its count of days
lies between those of their dates. -/
theorem between_iff {first last : Date} {lo hi : String} (hlo : Written lo first)
    (hhi : Written hi last) (hfirst : first.isValid = true) (hlast : last.isValid = true)
    (hd : d.isValid = true) : lo ≤ renderDate d ∧ renderDate d ≤ hi ↔
      toDays first ≤ toDays d ∧ toDays d ≤ toDays last := by
  by_cases hyear : 0 ≤ d.year ∧ d.year ≤ 9999
  · have hwritten := written_renderDate hd hyear
    rw [← not_lt, ← not_lt, hwritten.lt_iff hlo, hhi.lt_iff hwritten, ← toDays_lt_iff hd hfirst,
      ← toDays_lt_iff hlast hd, not_lt, not_lt]
  · -- the text comes before both, and the year is not between those of the texts
    refine iff_of_false (fun h => absurd (hlo.renderDate_lt hyear) (not_lt.mpr h.1)) fun h => ?_
    have hmin := hlo.year_bounds.1.trans (year_le_of_toDays_le hfirst hd h.1)
    have hmax := (year_le_of_toDays_le hd hlast h.2).trans hhi.year_bounds.2
    exact hyear ⟨hmin, hmax⟩

end Lineage.Calendar
