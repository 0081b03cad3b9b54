import Mathlib.Algebra.Order.Ring.Int
import Mathlib.Tactic.SplitIfs
import Lineage.Number.Binary64

set_option autoImplicit false

/-!
# Rounding whole numbers to doubles

A double keeps the first 53 bits of a whole number, rounded to the nearest multiple of the last
place that is kept. Rounding keeps the order of numbers but not their differences: neighbours may
fall together, though only from `2 ^ 53` on.

## Main definitions

* `Lineage.Binary64.nearestNat`, `Lineage.Binary64.nearestInt`: the whole number that the nearest
  double stands for.

## Main results

* `Lineage.Binary64.divRoundEven_mono`: rounding quotients keeps their order.
* `Lineage.Binary64.nearestInt_mono`: rounding whole numbers keeps their order.
* `Lineage.Binary64.nearestInt_of_natAbs_le`: numbers up to `2 ^ 53` are their own nearest ones.
-/

namespace Lineage.Binary64

variable {a b c d n m k : ℕ}

/-! ### Quotients -/

/-- A common factor does not count. -/
lemma divRoundEven_mul_right (a b : ℕ) (hc : 0 < c) :
    divRoundEven (a * c) (b * c) = divRoundEven a b := by
  have hlt : ∀ x y : ℕ, x * c < y * c ↔ x < y := fun x y => Nat.mul_lt_mul_right hc
  simp only [divRoundEven, Nat.mul_div_mul_right _ _ hc, Nat.mul_mod_mul_right, ← Nat.mul_assoc,
    gt_iff_lt, hlt]

/-- Multiples are not rounded. -/
lemma divRoundEven_mul_self (a : ℕ) (hb : 0 < b) : divRoundEven (a * b) b = a := by
  simp [divRoundEven, Nat.mul_div_cancel _ hb, hb]

/-- A rounded quotient is one of the two next to the quotient. -/
lemma divRoundEven_bounds (a b : ℕ) :
    a / b ≤ divRoundEven a b ∧ divRoundEven a b ≤ a / b + 1 := by
  unfold divRoundEven
  dsimp only
  split_ifs <;> omega

/-- **Rounding quotients keeps their order.** -/
theorem divRoundEven_mono (b : ℕ) (h : a ≤ c) : divRoundEven a b ≤ divRoundEven c b := by
  have hquotients : a / b ≤ c / b := Nat.div_le_div_right h
  rcases hquotients.lt_or_eq with hlt | heq
  · have hlow := (divRoundEven_bounds a b).2
    have hhigh := (divRoundEven_bounds c b).1
    omega
  · -- The quotients are the same, so the greater number has the greater remainder.
    have hremainders : a % b ≤ c % b := by
      have ha := Nat.div_add_mod a b
      have hc := Nat.div_add_mod c b
      rw [heq] at ha
      omega
    unfold divRoundEven
    dsimp only
    rw [heq]
    split_ifs <;> omega

/-! ### Nearest doubles -/

/-- The whole number that the double nearest to a natural number stands for. -/
def nearestNat (n : ℕ) : ℕ := divRoundEven n (2 ^ (n.log2 - 52)) * 2 ^ (n.log2 - 52)

/-- The whole number that the double nearest to a whole number stands for. -/
def nearestInt : ℤ → ℤ
  | .ofNat n => nearestNat n
  | .negSucc n => -nearestNat (n + 1)

/-- A power of two in units of the last place. -/
lemma two_pow_eq_mul (k : ℕ) : 2 ^ k = 2 ^ min k 52 * 2 ^ (k - 52) := by
  rw [← Nat.pow_add]
  congr 1
  omega

/-- The first bit of a number is kept, or carried. -/
lemma nearestNat_bounds (hn : n ≠ 0) :
    2 ^ n.log2 ≤ nearestNat n ∧ nearestNat n ≤ 2 ^ (n.log2 + 1) := by
  have hpos : 0 < 2 ^ (n.log2 - 52) := Nat.two_pow_pos _
  have hpower := two_pow_eq_mul n.log2
  have hself : ∀ x, divRoundEven (x * 2 ^ (n.log2 - 52)) (2 ^ (n.log2 - 52)) = x := fun x =>
    divRoundEven_mul_self x hpos
  have hlow := divRoundEven_mono (2 ^ (n.log2 - 52)) (Nat.log2_self_le hn)
  have hhigh := divRoundEven_mono (2 ^ (n.log2 - 52)) (Nat.lt_log2_self (n := n)).le
  rw [Nat.pow_succ, hpower, Nat.mul_right_comm, hself] at hhigh
  rw [hpower, hself] at hlow
  refine ⟨?_, ?_⟩
  · rw [hpower]
    exact Nat.mul_le_mul_right _ hlow
  · rw [Nat.pow_succ, hpower, Nat.mul_right_comm]
    exact Nat.mul_le_mul_right _ hhigh

/-- Rounding natural numbers keeps their order. -/
lemma nearestNat_mono (h : n ≤ m) : nearestNat n ≤ nearestNat m := by
  rcases Nat.eq_zero_or_pos n with rfl | hn
  · exact Nat.zero_le _
  have hm : m ≠ 0 := by omega
  have hlogs : n.log2 ≤ m.log2 := (Nat.le_log2 hm).mpr ((Nat.log2_self_le hn.ne').trans h)
  rcases hlogs.lt_or_eq with hlt | heq
  · calc nearestNat n ≤ 2 ^ (n.log2 + 1) := (nearestNat_bounds hn.ne').2
      _ ≤ 2 ^ m.log2 := Nat.pow_le_pow_right Nat.zero_lt_two hlt
      _ ≤ nearestNat m := (nearestNat_bounds hm).1
  · rw [nearestNat, nearestNat, heq]
    exact Nat.mul_le_mul_right _ (divRoundEven_mono _ h)

/-- Numbers of at most 53 bits are their own nearest ones. -/
lemma nearestNat_of_lt (h : n < 2 ^ 53) : nearestNat n = n := by
  rcases Nat.eq_zero_or_pos n with rfl | hn
  · rfl
  have hlog : n.log2 - 52 = 0 := by
    have := (Nat.log2_lt hn.ne').mpr h
    omega
  have hone := divRoundEven_mul_self n Nat.one_pos
  rw [Nat.mul_one] at hone
  rw [nearestNat, hlog, Nat.pow_zero, Nat.mul_one, hone]

/-- Numbers of both signs are rounded alike. -/
lemma nearestInt_neg (n : ℕ) : nearestInt (-n) = -nearestNat n := by
  cases n with
  | zero => rfl
  | succ n => rfl

/-- **Rounding whole numbers keeps their order.** -/
theorem nearestInt_mono {x y : ℤ} (h : x ≤ y) : nearestInt x ≤ nearestInt y := by
  match x, y with
  | .ofNat n, .ofNat m => exact Int.ofNat_le.mpr (nearestNat_mono (Int.ofNat_le.mp h))
  | .ofNat n, .negSucc m =>
    exact absurd ((Int.natCast_nonneg n).trans h) (Int.negSucc_lt_zero m).not_ge
  | .negSucc n, .ofNat m =>
    exact (neg_nonpos.mpr (Int.natCast_nonneg _)).trans (Int.natCast_nonneg _)
  | .negSucc n, .negSucc m =>
    have hle : m + 1 ≤ n + 1 := by omega
    exact neg_le_neg (Int.ofNat_le.mpr (nearestNat_mono hle))

/-- **Numbers up to `2 ^ 53`** are their own nearest ones. -/
theorem nearestInt_of_natAbs_le {x : ℤ} (h : x.natAbs ≤ 2 ^ 53) : nearestInt x = x := by
  have hnat : ∀ n, n ≤ 2 ^ 53 → nearestNat n = n := fun n hn => by
    rcases hn.lt_or_eq with hlt | rfl
    · exact nearestNat_of_lt hlt
    · rfl
  match x with
  | .ofNat n => exact congrArg Int.ofNat (hnat n h)
  | .negSucc n => exact congrArg (fun n : ℕ => -(n : ℤ)) (hnat (n + 1) h)

end Lineage.Binary64
