import Mathlib.Algebra.Order.Field.Power
import Mathlib.Data.Rat.Cast.Order
import Mathlib.Tactic.FieldSimp
import Mathlib.Tactic.Linarith
import Mathlib.Tactic.NormNum
import Mathlib.Tactic.Positivity
import Mathlib.Tactic.Ring
import Lineage.Number.Shortest
import Lineage.Proofs.Number.Binary64

set_option autoImplicit false

/-!
# The fewest digits identify a double

The search for the fewest decimal digits stops at a decimal that reads back: its value lies between
the half ways to the neighbouring doubles. These intervals do not meet for different doubles, so
the decimal determines the double.

## Main definitions

* `Lineage.Shortest.Decimal.value`, `Lineage.Shortest.Interval.Within`: decimals and intervals as
  rational numbers.

## Main results

* `Lineage.Shortest.ofScaled_within`: the shortest decimal reads back.
* `Lineage.Shortest.canonical_of_within`: no rational number reads back as two mantissas.
* `Lineage.Shortest.ofScaled_injective`: the shortest decimal determines the mantissa.

## Design

Intervals keep whole numerators over one denominator. The lemmas first turn the comparisons of
whole numbers into comparisons of rational numbers, and everything after that is about these.
-/

namespace Lineage

open Binary64
open Number (pow2 pow10)

namespace Shortest

/-- The rational number that a decimal stands for. -/
def Decimal.value (d : Decimal) : ℚ := d.digits * (10 : ℚ) ^ d.exponent

/-- A rational number reads back: it lies between the ends, or on one that counts. -/
def Interval.Within (i : Interval) (q : ℚ) : Prop :=
  (i.low : ℚ) / i.den ≤ q ∧ q ≤ (i.high : ℚ) / i.den ∧
    (i.closed = false → (i.low : ℚ) / i.den < q ∧ q < (i.high : ℚ) / i.den)

/-! ### Powers as rational numbers -/

/-- A power of two as a rational number. -/
lemma cast_pow2 (n : ℕ) : (pow2 n : ℚ) = 2 ^ n := by
  simp only [pow2, Nat.pow_eq, Nat.cast_pow, Nat.cast_ofNat]

/-- A power of ten as a rational number. -/
lemma cast_pow10 (n : ℕ) : (pow10 n : ℚ) = 10 ^ n := by
  simp only [pow10, Nat.pow_eq, Nat.cast_pow, Nat.cast_ofNat]

/-- The whole power of a positive exponent. -/
lemma zpow_of_nonneg (b : ℚ) {e : ℤ} (h : 0 ≤ e) : b ^ e = b ^ e.toNat := by
  obtain ⟨n, rfl⟩ := Int.eq_ofNat_of_zero_le h
  simp only [Int.toNat_natCast, zpow_natCast]

/-- The whole power of a negative exponent. -/
lemma zpow_of_neg (b : ℚ) {e : ℤ} (h : e < 0) : b ^ e = (b ^ (-e).toNat)⁻¹ := by
  rw [← zpow_of_nonneg b (by omega : 0 ≤ -e), zpow_neg, inv_inv]

/-- A positive number is not below the power of ten of its first digit. -/
lemma pow_digitCount_sub_one_le {n : ℕ} (hn : 0 < n) : 10 ^ (digitCount n - 1) ≤ n := by
  rcases Nat.eq_zero_or_pos (digitCount n - 1) with hzero | hpos
  · rwa [hzero]
  · by_contra hlt
    have hshort := (Nat.length_toDigits_le_iff (by omega : 1 < 10) hpos).mpr (not_le.mp hlt)
    simp only [digitCount] at hshort hpos
    omega

/-- A number is below the power of ten behind its first digit. -/
lemma lt_pow_digitCount (n : ℕ) : n < 10 ^ digitCount n :=
  (Nat.length_toDigits_le_iff (b := 10) (by omega) Nat.length_toDigits_pos).mp le_rfl

/-- The first power of ten is not above the number. -/
lemma leadingPower_le {num den : ℕ} (hn : 0 < num) (hd : 0 < den) :
    (10 : ℚ) ^ leadingPower num den ≤ num / den := by
  have hdq : (0 : ℚ) < den := by exact_mod_cast hd
  have hlen : ∀ n, 0 < digitCount n := fun _ => Nat.length_toDigits_pos
  unfold leadingPower
  split
  · rename_i hle
    have hmul : 10 ^ (digitCount (num / den) - 1) * den ≤ num :=
      (Nat.mul_le_mul_right den (pow_digitCount_sub_one_le (Nat.div_pos hle hd))).trans
        (Nat.div_mul_le_self num den)
    have hpower : (digitCount (num / den) : ℤ) - 1 = (digitCount (num / den) - 1 : ℕ) := by
      have := hlen (num / den)
      omega
    rw [hpower, zpow_natCast, le_div_iff₀ hdq]
    exact_mod_cast hmul
  · have hnq : (0 : ℚ) < num := by exact_mod_cast hn
    simp only []
    split
    · rename_i heq
      have hpow : (num : ℚ) * 10 ^ (digitCount (den / num) - 1) = den := by
        rw [← cast_pow10]
        exact_mod_cast heq
      have hpower : -((digitCount (den / num) : ℤ) - 1) =
          -((digitCount (den / num) - 1 : ℕ) : ℤ) := by
        have := hlen (den / num)
        omega
      rw [hpower, zpow_neg, zpow_natCast, ← hpow]
      refine le_of_eq ?_
      field_simp
    · have hmul : den ≤ num * 10 ^ digitCount (den / num) :=
        (Nat.lt_mul_of_div_lt (lt_pow_digitCount (den / num)) hn).le.trans_eq (Nat.mul_comm _ _)
      have hmulq : (den : ℚ) ≤ num * 10 ^ digitCount (den / num) := by exact_mod_cast hmul
      rw [zpow_neg, zpow_natCast, inv_eq_one_div, div_le_div_iff₀ (by positivity) hdq]
      linarith

/-! ### The search stops at a decimal that reads back -/

variable {i : Interval} {n : ℕ} {p : ℤ}

/-- The comparison of whole numbers decides whether a decimal reads back. -/
lemma holds_iff (hden : 0 < i.den) :
    i.holds n p = true ↔ i.Within (Decimal.value ⟨n, p⟩) := by
  have hd : (0 : ℚ) < i.den := by exact_mod_cast hden
  -- Both sides of every comparison are scaled by the same positive number.
  obtain ⟨a, b, hb, hval, hiff⟩ : ∃ a b : ℕ, 0 < b ∧
      Decimal.value ⟨n, p⟩ = (a : ℚ) / (b * i.den) ∧
      (i.holds n p = true ↔ if i.closed then i.low * b ≤ a ∧ a ≤ i.high * b
        else i.low * b < a ∧ a < i.high * b) := by
    by_cases hp : 0 ≤ p
    · refine ⟨n * pow10 p.toNat * i.den, 1, Nat.one_pos, ?_, ?_⟩
      · simp only [Decimal.value, zpow_of_nonneg 10 hp]
        push_cast
        rw [cast_pow10]
        field_simp
      · simp only [Interval.holds, ge_iff_le, if_pos hp]
        split <;> simp_all
    · refine ⟨n * i.den, pow10 (-p).toNat, Nat.pow_pos (by omega), ?_, ?_⟩
      · simp only [Decimal.value, zpow_of_neg 10 (not_le.mp hp)]
        push_cast
        rw [cast_pow10]
        field_simp
      · simp only [Interval.holds, ge_iff_le, if_neg hp]
        split <;> simp_all
  have hbq : (0 : ℚ) < b := by exact_mod_cast hb
  have hlow : ∀ m : ℕ, (m : ℚ) / i.den = ((m * b : ℕ) : ℚ) / (b * i.den) := by
    intro m
    push_cast
    field_simp
  rw [hiff, Interval.Within, hval, hlow i.low, hlow i.high]
  simp only [div_le_div_iff_of_pos_right (mul_pos hbq hd),
    div_lt_div_iff_of_pos_right (mul_pos hbq hd), Nat.cast_le, Nat.cast_lt]
  cases i.closed
  · simp only [Bool.false_eq_true, if_false, forall_const]
    exact ⟨fun h => ⟨h.1.le, h.2.le, h⟩, fun h => h.2.2⟩
  · simp

/-- The multiple of `10 ^ p` that is next to the number from below. -/
def Interval.below (i : Interval) (p : ℤ) : ℕ :=
  (if p ≥ 0 then i.mid else i.mid * pow10 (-p).toNat) /
    (if p ≥ 0 then i.den * pow10 p.toNat else i.den)

/-- What a grid offers is one of the two neighbours, and it reads back. -/
lemma onGrid_cases {d : Decimal} (h : i.onGrid p = some d) :
    (d = ⟨i.below p, p⟩ ∨ d = ⟨i.below p + 1, p⟩) ∧ i.holds d.digits p = true := by
  simp only [Interval.onGrid] at h
  rw [← Interval.below] at h
  cases h₀ : i.holds (i.below p) p <;> cases h₁ : i.holds (i.below p + 1) p <;>
    rw [h₀, h₁] at h <;> simp only [] at h
  · exact absurd h (by simp)
  · obtain rfl := Option.some.inj h
    exact ⟨Or.inr rfl, h₁⟩
  · obtain rfl := Option.some.inj h
    exact ⟨Or.inl rfl, h₀⟩
  · generalize (if p ≥ 0 then i.den * _ else i.den) = den, (if p ≥ 0 then i.mid else _) = num at h
    split at h
    · obtain rfl := Option.some.inj h
      exact ⟨Or.inl rfl, h₀⟩
    · obtain rfl := Option.some.inj h
      exact ⟨Or.inr rfl, h₁⟩

/-- A grid offers something where the neighbour from below reads back. -/
lemma onGrid_isSome (h : i.holds (i.below p) p = true) : (i.onGrid p).isSome = true := by
  simp only [Interval.onGrid]
  rw [← Interval.below, h]
  cases i.holds (i.below p + 1) p
  · rfl
  · simp only []
    generalize (if p ≥ 0 then i.den * _ else i.den) = den, (if p ≥ 0 then i.mid else _) = num
    split <;> rfl

/-- The grid point below the number. -/
lemma value_below (hden : 0 < i.den) :
    Decimal.value ⟨i.below p, p⟩ ≤ (i.mid : ℚ) / i.den ∧
      (i.mid : ℚ) / i.den < Decimal.value ⟨i.below p + 1, p⟩ := by
  generalize hbelow : i.below p = below
  have hd : (0 : ℚ) < i.den := by exact_mod_cast hden
  have hten : (0 : ℚ) < 10 ^ p := by positivity
  obtain ⟨a, b, hb, hab, hval⟩ : ∃ a b : ℕ, 0 < b ∧ below = a / b ∧
      (i.mid : ℚ) / i.den = (a : ℚ) / b * 10 ^ p := by
    by_cases hp : 0 ≤ p
    · refine ⟨i.mid, i.den * pow10 p.toNat, Nat.mul_pos hden (Nat.pow_pos (by omega)), ?_, ?_⟩
      · simp only [← hbelow, Interval.below, ge_iff_le, if_pos hp]
      · rw [zpow_of_nonneg 10 hp]
        push_cast
        rw [cast_pow10]
        field_simp
    · refine ⟨i.mid * pow10 (-p).toNat, i.den, hden, ?_, ?_⟩
      · simp only [← hbelow, Interval.below, ge_iff_le, if_neg hp]
      · rw [zpow_of_neg 10 (not_le.mp hp)]
        push_cast
        rw [cast_pow10]
        field_simp
  have hbq : (0 : ℚ) < b := by exact_mod_cast hb
  have hle : below * b ≤ a := hab ▸ Nat.div_mul_le_self a b
  have hlt : a < (below + 1) * b := by
    rw [hab, Nat.add_mul, Nat.one_mul]
    have h := Nat.div_add_mod a b
    have := Nat.mod_lt a hb
    rw [Nat.mul_comm b] at h
    omega
  have hleq : (below : ℚ) * b ≤ a := by exact_mod_cast hle
  have hltq : (a : ℚ) < (below + 1) * b := by exact_mod_cast hlt
  rw [hval]
  refine ⟨?_, ?_⟩
  · exact mul_le_mul_of_nonneg_right ((le_div_iff₀ hbq).mpr hleq) hten.le
  · simp only [Decimal.value, Nat.cast_add, Nat.cast_one]
    exact mul_lt_mul_of_pos_right ((div_lt_iff₀ hbq).mpr hltq) hten

/-- On a grid finer than the distance to the lower end, the neighbour from below reads back, and it
is not zero. -/
lemma onGrid_of_fine (hden : 0 < i.den) (hhigh : i.mid < i.high)
    (hfine : (10 : ℚ) ^ p < (i.mid : ℚ) / i.den - (i.low : ℚ) / i.den) :
    i.holds (i.below p) p = true ∧ 0 < i.below p := by
  have hd : (0 : ℚ) < i.den := by exact_mod_cast hden
  have hten : (0 : ℚ) < 10 ^ p := by positivity
  have hlow : (0 : ℚ) ≤ (i.low : ℚ) / i.den := by positivity
  obtain ⟨hle, hlt⟩ := value_below (p := p) hden
  have hup : (i.mid : ℚ) / i.den < (i.high : ℚ) / i.den :=
    (div_lt_div_iff_of_pos_right hd).mpr (by exact_mod_cast hhigh)
  have hstep : Decimal.value ⟨i.below p + 1, p⟩ = Decimal.value ⟨i.below p, p⟩ + 10 ^ p := by
    simp only [Decimal.value, Nat.cast_add, Nat.cast_one]
    ring
  have habove : (i.low : ℚ) / i.den < Decimal.value ⟨i.below p, p⟩ := by linarith
  refine ⟨(holds_iff hden).mpr ⟨habove.le, by linarith, fun _ => ⟨habove, by linarith⟩⟩, ?_⟩
  by_contra hzero
  have : Decimal.value ⟨i.below p, p⟩ = 0 := by
    simp only [Decimal.value, Nat.eq_zero_of_not_pos hzero, Nat.cast_zero, zero_mul]
  linarith

/-- **The search finds a decimal** other than zero that reads back, if one of the grids that it
tries is fine enough. -/
lemma search_within (hden : 0 < i.den) (hhigh : i.mid < i.high) :
    ∀ (steps : ℕ) (p : ℤ) (k : ℕ), k < steps →
      (10 : ℚ) ^ (p - k) < (i.mid : ℚ) / i.den - (i.low : ℚ) / i.den →
      i.Within (i.search steps p).value ∧ (i.search steps p).digits ≠ 0
  | 0, _, _, hk, _ => absurd hk (Nat.not_lt_zero _)
  | steps + 1, p, k, hk, hfine => by
    -- A grid that is fine enough stops the search, so a search that goes on has `k` still ahead.
    have hnext : ∀ hmiss : ¬∃ d, i.onGrid p = some d ∧ d.digits ≠ 0,
        i.Within (i.search steps (p - 1)).value ∧ (i.search steps (p - 1)).digits ≠ 0 := by
      intro hmiss
      rcases Nat.eq_zero_or_pos k with rfl | hk0
      · obtain ⟨hholds, hpos⟩ := onGrid_of_fine hden hhigh
          (by simpa only [Nat.cast_zero, sub_zero] using hfine)
        obtain ⟨d, hd⟩ := Option.isSome_iff_exists.mp (onGrid_isSome hholds)
        refine absurd ⟨d, hd, ?_⟩ hmiss
        rcases (onGrid_cases hd).1 with rfl | rfl
        · exact hpos.ne'
        · exact Nat.succ_ne_zero _
      · refine search_within hden hhigh steps (p - 1) (k - 1) (by omega) ?_
        rwa [show p - 1 - ((k - 1 : ℕ) : ℤ) = p - k by omega]
    simp only [Interval.search]
    split
    · rename_i d hd
      split
      · rename_i hzero
        refine hnext ?_
        rintro ⟨d', hd', hne⟩
        rw [hd, Option.some.injEq] at hd'
        exact hne (hd' ▸ hzero)
      · rename_i hne
        obtain ⟨hform, hholds⟩ := onGrid_cases hd
        have hexp : d = ⟨d.digits, p⟩ := by rcases hform with rfl | rfl <;> rfl
        rw [hexp]
        exact ⟨(holds_iff hden).mp hholds, hne⟩
    · rename_i hnone
      refine hnext ?_
      rintro ⟨d', hd', -⟩
      rw [hnone] at hd'
      cases hd'

/-- Zeros at the end of the digits do not count. -/
lemma trim_value : ∀ (fuel : ℕ) (d : Decimal), (d.trim fuel).value = d.value
  | 0, _ => rfl
  | fuel + 1, d => by
    simp only [Decimal.trim]
    split
    · rename_i h
      rw [trim_value fuel]
      have hdigits : (d.digits : ℚ) = (d.digits / 10 : ℕ) * 10 := by
        exact_mod_cast (Nat.div_mul_cancel (Nat.dvd_of_mod_eq_zero h.2)).symm
      simp only [Decimal.value]
      rw [hdigits, zpow_add_one₀ (by norm_num)]
      ring
    · rfl

/-! ### The numbers that read back as one mantissa -/

/-- The distance from a mantissa to the lower end, in quarters of its last place. -/
def gap (d : Scaled) : ℕ := if d.mantissa = 2 ^ 52 ∧ d.exponent ≠ -1074 then 1 else 2

/-- The ends of the interval, in quarters of the last place of the mantissa. -/
lemma ofScaled_ends (d : Scaled) (hm : 0 < d.mantissa) :
    let i := Interval.ofScaled double d
    0 < i.den ∧ i.closed = decide (d.mantissa % 2 = 0) ∧
      (i.low : ℚ) / i.den = (4 * d.mantissa - gap d) * 2 ^ (d.exponent - 2) ∧
      (i.mid : ℚ) / i.den = 4 * d.mantissa * 2 ^ (d.exponent - 2) ∧
      (i.high : ℚ) / i.den = (4 * d.mantissa + 2) * 2 ^ (d.exponent - 2) := by
  intro i
  have hgap : gap d ≤ 4 * d.mantissa := by
    unfold gap
    split <;> omega
  have hgap' : (if d.mantissa = double.leading ∧ d.exponent ≠ double.leastExponent then 1 else 2) =
      gap d := rfl
  by_cases he : 2 ≤ d.exponent
  · have hscale : (2 : ℚ) ^ (d.exponent - 2) = pow2 (d.exponent - 2).toNat := by
      rw [zpow_of_nonneg 2 (by omega), cast_pow2]
    rw [hscale]
    simp only [i, Interval.ofScaled, ge_iff_le, if_pos he, hgap']
    refine ⟨Nat.one_pos, trivial, ?_, ?_, ?_⟩
    · push_cast [Nat.cast_sub hgap]
      rw [div_one]
    · rw [Nat.cast_one, div_one]
      push_cast
      ring
    · push_cast
      rw [div_one]
  · have hpos : (0 : ℚ) < pow2 (2 - d.exponent).toNat := by
      rw [cast_pow2]
      positivity
    have hscale : (2 : ℚ) ^ (d.exponent - 2) = (pow2 (2 - d.exponent).toNat : ℚ)⁻¹ := by
      rw [zpow_of_neg 2 (by omega), cast_pow2, neg_sub]
    rw [hscale]
    simp only [i, Interval.ofScaled, ge_iff_le, if_neg he, hgap']
    refine ⟨by exact_mod_cast hpos, trivial, ?_, ?_, ?_⟩
    · push_cast [Nat.cast_sub hgap]
      rw [mul_one, div_eq_mul_inv]
    · push_cast
      rw [mul_one, div_eq_mul_inv]
    · push_cast
      rw [mul_one, div_eq_mul_inv]

/-- Seventeen digits after the first are enough for every mantissa of 53 bits. -/
lemma fine_of_canonical {d : Scaled} (hc : d.Canonical) (hm : 0 < d.mantissa) :
    let i := Interval.ofScaled double d
    (10 : ℚ) ^ (leadingPower i.mid i.den - (17 : ℕ)) <
      (i.mid : ℚ) / i.den - (i.low : ℚ) / i.den := by
  intro i
  obtain ⟨hden, -, hlow, hmid, -⟩ := ofScaled_ends d hm
  have hu : (0 : ℚ) < 2 ^ (d.exponent - 2) := by positivity
  have hmq : (1 : ℚ) ≤ d.mantissa := by exact_mod_cast hm
  have hmidpos : 0 < i.mid := by
    by_contra hzero
    have : (i.mid : ℚ) / i.den = 0 := by
      rw [Nat.eq_zero_of_not_pos hzero, Nat.cast_zero, zero_div]
    rw [hmid] at this
    nlinarith
  have hlead := leadingPower_le hmidpos hden
  -- The gap is more than the number over `10 ^ 17`.
  have hgap : 4 * d.mantissa < gap d * 10 ^ 17 := by
    have := hc.small
    unfold gap
    split <;> omega
  have hgapq : (4 : ℚ) * d.mantissa < gap d * 10 ^ 17 := by exact_mod_cast hgap
  rw [zpow_sub₀ (by norm_num : (10 : ℚ) ≠ 0), zpow_natCast, div_lt_iff₀ (by positivity)]
  refine lt_of_le_of_lt hlead ?_
  rw [hmid, hlow]
  nlinarith

/-- **The shortest decimal reads back**, and it is not zero. -/
theorem ofScaled_within {d : Scaled} (hc : d.Canonical) (hm : 0 < d.mantissa) :
    (Interval.ofScaled double d).Within (ofScaled double d).value ∧
      0 < (ofScaled double d).value := by
  obtain ⟨hden, -, -, hmid, hhigh⟩ := ofScaled_ends d hm
  have hdenq : (0 : ℚ) < (Interval.ofScaled double d).den := by exact_mod_cast hden
  have hu : (0 : ℚ) < 2 ^ (d.exponent - 2) := by positivity
  have hmh : (Interval.ofScaled double d).mid < (Interval.ofScaled double d).high := by
    have : ((Interval.ofScaled double d).mid : ℚ) / (Interval.ofScaled double d).den <
        ((Interval.ofScaled double d).high : ℚ) / (Interval.ofScaled double d).den := by
      rw [hmid, hhigh]
      nlinarith
    exact_mod_cast (div_lt_div_iff_of_pos_right hdenq).mp this
  obtain ⟨hwithin, hne⟩ := search_within hden hmh 20
    (leadingPower (Interval.ofScaled double d).mid (Interval.ofScaled double d).den) 17
    (by omega) (fine_of_canonical hc hm)
  have hvalue : (ofScaled double d).value = ((Interval.ofScaled double d).search 20
      (leadingPower (Interval.ofScaled double d).mid (Interval.ofScaled double d).den)).value := by
    simp only [ofScaled, if_neg hm.ne', trim_value]
  rw [hvalue]
  refine ⟨hwithin, ?_⟩
  have : (0 : ℚ) < ((Interval.ofScaled double d).search 20
      (leadingPower (Interval.ofScaled double d).mid (Interval.ofScaled double d).den)).digits := by
    exact_mod_cast Nat.pos_of_ne_zero hne
  unfold Decimal.value
  positivity

/-- The interval of one mantissa ends before that of a greater one begins, counted in quarters of
the last place of the lesser mantissa; where they touch, one of the two mantissas is odd. -/
lemma whole_high_le_low {d d' : Scaled} (hc : d.Canonical) (hc' : d'.Canonical) {k : ℕ}
    (hk : d'.exponent = d.exponent + k)
    (hlt : d.exponent < d'.exponent ∨ (d.exponent = d'.exponent ∧ d.mantissa < d'.mantissa)) :
    4 * d.mantissa + 2 + gap d' * 2 ^ k ≤ 4 * d'.mantissa * 2 ^ k ∧
      (4 * d.mantissa + 2 + gap d' * 2 ^ k = 4 * d'.mantissa * 2 ^ k →
        d.mantissa % 2 = 1 ∨ d'.mantissa % 2 = 1) := by
  rcases Nat.eq_zero_or_pos k with rfl | hk0
  · have hm : d.mantissa < d'.mantissa := by
      rcases hlt with h | h
      · omega
      · exact h.2
    unfold gap
    split <;> omega
  · have hleast := hc.least
    have hfirst : 2 ^ 52 ≤ d'.mantissa := by
      by_contra hsmall
      have := hc'.leading (by omega)
      omega
    have hm := hc.small
    have htwo : 2 ≤ 2 ^ k := Nat.le_self_pow hk0.ne' 2
    obtain ⟨c, hc⟩ : ∃ c, 4 * d'.mantissa = gap d' + (2 ^ 54 - 1) + c := by
      refine ⟨4 * d'.mantissa - gap d' - (2 ^ 54 - 1), ?_⟩
      have hgap : gap d' + (2 ^ 54 - 1) ≤ 4 * d'.mantissa := by
        unfold gap
        split <;> omega
      omega
    generalize 2 ^ k = scale at htwo ⊢
    have hbound : (2 ^ 54 - 1) * 2 ≤ (2 ^ 54 - 1) * scale := Nat.mul_le_mul_left _ htwo
    have hsplit : 4 * d'.mantissa * scale =
        gap d' * scale + (2 ^ 54 - 1) * scale + c * scale := by
      rw [hc, Nat.add_mul, Nat.add_mul]
    rw [hsplit]
    refine ⟨by omega, fun h => Or.inl ?_⟩
    omega

/-- The interval of one mantissa ends before that of a greater one begins; where they touch, one
of the two mantissas is odd. -/
lemma high_le_low {d d' : Scaled} (hc : d.Canonical) (hc' : d'.Canonical)
    (hlt : d.exponent < d'.exponent ∨ (d.exponent = d'.exponent ∧ d.mantissa < d'.mantissa)) :
    (4 * d.mantissa + 2 : ℚ) * 2 ^ (d.exponent - 2) ≤
        (4 * d'.mantissa - gap d') * 2 ^ (d'.exponent - 2) ∧
      ((4 * d.mantissa + 2 : ℚ) * 2 ^ (d.exponent - 2) =
        (4 * d'.mantissa - gap d') * 2 ^ (d'.exponent - 2) →
          d.mantissa % 2 = 1 ∨ d'.mantissa % 2 = 1) := by
  obtain ⟨k, hk⟩ : ∃ k : ℕ, d'.exponent = d.exponent + k :=
    ⟨(d'.exponent - d.exponent).toNat, by omega⟩
  have hu : (0 : ℚ) < 2 ^ (d.exponent - 2) := by positivity
  have hscale : (2 : ℚ) ^ (d'.exponent - 2) = 2 ^ k * 2 ^ (d.exponent - 2) := by
    rw [hk, ← zpow_natCast, ← zpow_add₀ (by norm_num : (2 : ℚ) ≠ 0)]
    congr 1
    ring
  obtain ⟨hle, heq⟩ := whole_high_le_low hc hc' hk hlt
  have hleq : (4 * d.mantissa + 2 + gap d' * 2 ^ k : ℚ) ≤ 4 * d'.mantissa * 2 ^ k := by
    exact_mod_cast hle
  rw [hscale, ← mul_assoc]
  refine ⟨mul_le_mul_of_nonneg_right (by linarith) hu.le, fun h => heq ?_⟩
  have hcancel := mul_right_cancel₀ hu.ne' h
  have : (4 * d.mantissa + 2 + gap d' * 2 ^ k : ℚ) = 4 * d'.mantissa * 2 ^ k := by linarith
  exact_mod_cast this

/-- No rational number reads back as a mantissa and as a greater one. -/
lemma not_within_both {d d' : Scaled} (hc : d.Canonical) (hc' : d'.Canonical)
    (hm : 0 < d.mantissa) (hm' : 0 < d'.mantissa)
    (hlt : d.exponent < d'.exponent ∨ (d.exponent = d'.exponent ∧ d.mantissa < d'.mantissa))
    {q : ℚ} (h : (Interval.ofScaled double d).Within q)
    (h' : (Interval.ofScaled double d').Within q) : False := by
  obtain ⟨-, hclosed, -, -, hhigh⟩ := ofScaled_ends d hm
  obtain ⟨-, hclosed', hlow, -, -⟩ := ofScaled_ends d' hm'
  obtain ⟨-, hle, hopen⟩ := h
  obtain ⟨hge, -, hopen'⟩ := h'
  obtain ⟨hends, htouch⟩ := high_le_low hc hc' hlt
  rw [hhigh] at hle hopen
  rw [hlow] at hge hopen'
  rcases htouch (le_antisymm hends (le_trans hge hle)) with hodd | hodd
  · have := (hopen (by rw [hclosed, decide_eq_false_iff_not]; omega)).2
    linarith
  · have := (hopen' (by rw [hclosed', decide_eq_false_iff_not]; omega)).1
    linarith

/-- **No rational number reads back as two mantissas.** -/
theorem canonical_of_within {d d' : Scaled} (hc : d.Canonical) (hc' : d'.Canonical)
    (hm : 0 < d.mantissa) (hm' : 0 < d'.mantissa) {q : ℚ}
    (h : (Interval.ofScaled double d).Within q) (h' : (Interval.ofScaled double d').Within q) :
    d.mantissa = d'.mantissa ∧ d.exponent = d'.exponent := by
  rcases lt_trichotomy d.exponent d'.exponent with he | he | he
  · exact (not_within_both hc hc' hm hm' (Or.inl he) h h').elim
  · rcases lt_trichotomy d.mantissa d'.mantissa with hlt | heq | hlt
    · exact (not_within_both hc hc' hm hm' (Or.inr ⟨he, hlt⟩) h h').elim
    · exact ⟨heq, he⟩
    · exact (not_within_both hc' hc hm' hm (Or.inr ⟨he.symm, hlt⟩) h' h).elim
  · exact (not_within_both hc' hc hm' hm (Or.inl he) h' h).elim

/-- **The shortest decimal determines the mantissa**: decimals of one value come from one scaled
mantissa. -/
theorem ofScaled_injective {d d' : Scaled} (hc : d.Canonical) (hc' : d'.Canonical)
    (h : (ofScaled double d).value = (ofScaled double d').value) :
    d.mantissa = d'.mantissa ∧ d.exponent = d'.exponent := by
  have hzero : ∀ e : Scaled, ¬0 < e.mantissa → (ofScaled double e).value = 0 := by
    intro e he
    simp only [ofScaled, if_pos (Nat.eq_zero_of_not_pos he), Decimal.value, Nat.cast_zero, zero_mul]
  by_cases hm : 0 < d.mantissa <;> by_cases hm' : 0 < d'.mantissa
  · obtain ⟨hwithin, -⟩ := ofScaled_within hc hm
    obtain ⟨hwithin', -⟩ := ofScaled_within hc' hm'
    rw [← h] at hwithin'
    exact canonical_of_within hc hc' hm hm' hwithin hwithin'
  · have hpos := (ofScaled_within hc hm).2
    rw [h, hzero d' hm'] at hpos
    exact absurd hpos (lt_irrefl 0)
  · have hpos := (ofScaled_within hc' hm').2
    rw [← h, hzero d hm] at hpos
    exact absurd hpos (lt_irrefl 0)
  · have hleast := hc.leading (by omega)
    have hleast' := hc'.leading (by omega)
    exact ⟨by omega, by omega⟩

end Shortest

end Lineage
