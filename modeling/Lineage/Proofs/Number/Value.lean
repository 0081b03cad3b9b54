import Mathlib.Algebra.Order.Floor.Ring
import Mathlib.Data.EReal.Basic
import Mathlib.Data.Rat.Floor
import Lineage.Proofs.Number.Shortest
import Lineage.Proofs.Number.Whole

set_option autoImplicit false

/-!
# Doubles as real numbers

A finite double stands for a rational number, the others for an infinity or for nothing. Comparing
doubles compares these numbers, and cutting, raising or lowering a double to a whole number is done
to its number.

## Main definitions

* `Lineage.Binary64.Scaled.value`: the rational number of a finite double.
* `Lineage.Binary64.real`: the real number or infinity that a double stands for.

## Main results

* `Lineage.Binary64.floor_eq`, `Lineage.Binary64.ceil_eq`, `Lineage.Binary64.truncate_eq`: the whole
  numbers next to a double are those next to its number.
* `Lineage.Binary64.le_iff_real_le`: doubles are compared as their numbers.
* `Lineage.Binary64.greater_le_iff`, `Lineage.Binary64.le_lesser_iff`: the greater and the lesser of
  two limits.
* `Lineage.Binary64.Stands.exists_value`: doubles that stand for whole numbers.
-/

namespace Lineage.Binary64

open Number (pow2)
open Float.Model (UnpackedFloat)
open Float.Model.UnpackedFloat

variable {d e : Scaled} {x y z : Float} {lo hi : ℤ}

/-! ### Scaled mantissas -/

/-- The size of the number that a scaled mantissa stands for. -/
def Scaled.size (d : Scaled) : ℚ := d.mantissa * 2 ^ d.exponent

/-- The number that a scaled mantissa stands for. -/
def Scaled.value (d : Scaled) : ℚ := if d.negative then -d.size else d.size

/-- Sizes are not negative. -/
lemma Scaled.size_nonneg (d : Scaled) : 0 ≤ d.size := by
  unfold size
  positivity

/-- A mantissa that is scaled up has a whole size, one that is scaled down a quotient. -/
lemma Scaled.size_cases (d : Scaled) :
    (0 ≤ d.exponent ∧ d.size = (d.mantissa * pow2 d.exponent.toNat : ℕ)) ∨
      (d.exponent < 0 ∧ d.size = (d.mantissa : ℚ) / (pow2 (-d.exponent).toNat : ℕ)) := by
  rcases le_or_gt 0 d.exponent with h | h
  · refine Or.inl ⟨h, ?_⟩
    rw [size, Shortest.zpow_of_nonneg 2 h, Nat.cast_mul, Shortest.cast_pow2]
  · refine Or.inr ⟨h, ?_⟩
    rw [size, Shortest.zpow_of_neg 2 h, Shortest.cast_pow2, div_eq_mul_inv]

/-- The size is rounded down to a whole number. -/
lemma Scaled.floorAbs_eq (d : Scaled) : (d.floorAbs : ℤ) = ⌊d.size⌋ := by
  unfold floorAbs
  rcases d.size_cases with ⟨h, hsize⟩ | ⟨h, hsize⟩
  · rw [if_pos h, hsize, Int.floor_natCast]
  · rw [if_neg (not_le.mpr h), hsize, Rat.floor_natCast_div_natCast, Int.natCast_div]

/-- The size is rounded up to a whole number. -/
lemma Scaled.ceilAbs_eq (d : Scaled) : (d.ceilAbs : ℤ) = ⌈d.size⌉ := by
  unfold ceilAbs
  rcases d.size_cases with ⟨h, hsize⟩ | ⟨h, hsize⟩
  · rw [if_pos h, hsize, Int.ceil_natCast]
  · have hpos : 0 < pow2 (-d.exponent).toNat := Nat.two_pow_pos _
    rw [if_neg (not_le.mpr h), hsize, eq_comm, Int.ceil_eq_iff]
    generalize pow2 (-d.exponent).toNat = p at hpos
    have hposq : (0 : ℚ) < p := Nat.cast_pos.mpr hpos
    rw [lt_div_iff₀ hposq, div_le_iff₀ hposq]
    have hlow : (d.mantissa + (p - 1)) / p * p ≤ d.mantissa + (p - 1) := Nat.div_mul_le_self _ _
    have hhigh := Nat.lt_div_mul_add (a := d.mantissa + (p - 1)) hpos
    generalize (d.mantissa + (p - 1)) / p = q at hlow hhigh
    have hbelow : q * p < d.mantissa + p := by omega
    have habove : d.mantissa ≤ q * p := by omega
    have hbelowq : (q : ℚ) * p < d.mantissa + p := by exact_mod_cast hbelow
    have haboveq : (d.mantissa : ℚ) ≤ q * p := by exact_mod_cast habove
    refine ⟨?_, haboveq⟩
    rw [Int.cast_natCast, sub_mul, one_mul]
    linarith

/-- The whole number next to the value, down. -/
lemma Scaled.signed_floor (d : Scaled) :
    signed d.negative (if d.negative then d.ceilAbs else d.floorAbs) = ⌊d.value⌋ := by
  unfold signed value
  cases d.negative with
  | true => simp only [if_true, ceilAbs_eq, Int.floor_neg]
  | false => simp only [Bool.false_eq_true, if_false, floorAbs_eq]

/-- The whole number next to the value, up. -/
lemma Scaled.signed_ceil (d : Scaled) :
    signed d.negative (if d.negative then d.floorAbs else d.ceilAbs) = ⌈d.value⌉ := by
  unfold signed value
  cases d.negative with
  | true => simp only [if_true, floorAbs_eq, Int.ceil_neg]
  | false => simp only [Bool.false_eq_true, if_false, ceilAbs_eq]

/-- The greatest whole number up to a double is that up to its number. -/
theorem floor_eq (h : decode x = .finite d) : floor lo hi x = max lo (min hi ⌊d.value⌋) := by
  rw [floor, h, ← d.signed_floor]

/-- The least whole number from a double on is that from its number on. -/
theorem ceil_eq (h : decode x = .finite d) : ceil lo hi x = max lo (min hi ⌈d.value⌉) := by
  rw [ceil, h, ← d.signed_ceil]

/-- The whole part of a double is that of its number: numbers below zero are rounded up. -/
theorem truncate_eq (h : decode x = .finite d) :
    truncate lo hi x = max lo (min hi (if d.value < 0 then ⌈d.value⌉ else ⌊d.value⌋)) := by
  have hpart : signed d.negative d.floorAbs = if d.value < 0 then ⌈d.value⌉ else ⌊d.value⌋ := by
    have hsize := d.size_nonneg
    unfold signed Scaled.value
    cases d.negative with
    | false =>
      simp only [Bool.false_eq_true, if_false, Scaled.floorAbs_eq, if_neg (not_lt.mpr hsize)]
    | true =>
      simp only [if_true, Scaled.floorAbs_eq, Int.ceil_neg, Int.floor_neg, neg_lt_zero]
      split
      · rfl
      · rename_i hzero
        have : d.size = 0 := le_antisymm (not_lt.mp hzero) hsize
        simp [this]
  rw [truncate, h, ← hpart]

/-- **A number that is not whole is below `2 ^ 52` in size.** -/
theorem Scaled.Canonical.whole_or_small (h : d.Canonical) :
    (∃ n : ℤ, d.value = n) ∨ |d.value| < 2 ^ 52 := by
  have habs : |d.value| = d.size := by
    unfold value
    split
    · rw [abs_neg, abs_of_nonneg d.size_nonneg]
    · rw [abs_of_nonneg d.size_nonneg]
  rcases d.size_cases with ⟨_, hsize⟩ | ⟨hneg, _⟩
  · refine Or.inl ?_
    unfold value
    rw [hsize]
    split
    · exact ⟨-(d.mantissa * pow2 d.exponent.toNat : ℕ), by push_cast; rfl⟩
    · exact ⟨(d.mantissa * pow2 d.exponent.toNat : ℕ), by push_cast; rfl⟩
  · refine Or.inr ?_
    have hpower : (2 : ℚ) ^ d.exponent ≤ 2 ^ (-1 : ℤ) := zpow_le_zpow_right₀ one_le_two (by omega)
    have hmantissa : (d.mantissa : ℚ) < 2 ^ 53 := by exact_mod_cast h.small
    rw [habs, size]
    calc (d.mantissa : ℚ) * 2 ^ d.exponent ≤ d.mantissa * 2 ^ (-1 : ℤ) :=
          mul_le_mul_of_nonneg_left hpower (Nat.cast_nonneg _)
      _ < 2 ^ 53 * 2 ^ (-1 : ℤ) := mul_lt_mul_of_pos_right hmantissa (by norm_num)
      _ = 2 ^ 52 := by norm_num

/-! ### Order -/

/-- A greater exponent makes up for any two mantissas. -/
lemma size_lt_of_exponent_lt (hd : d.Canonical) (he : e.Canonical)
    (h : d.exponent < e.exponent) : d.size < e.size := by
  have hleading : 2 ^ 52 ≤ e.mantissa := by
    by_contra hsmall
    have hexponent := he.leading (not_le.mp hsmall)
    have hleast := hd.least
    omega
  have hsmall : (d.mantissa : ℚ) < 2 ^ 53 := by exact_mod_cast hd.small
  have hleadingq : (2 : ℚ) ^ 52 ≤ e.mantissa := by exact_mod_cast hleading
  have hstep : (2 : ℚ) ^ (d.exponent + 1) ≤ 2 ^ e.exponent := zpow_le_zpow_right₀ one_le_two h
  have hpower : (0 : ℚ) < 2 ^ d.exponent := by positivity
  calc d.size < 2 ^ 53 * 2 ^ d.exponent := mul_lt_mul_of_pos_right hsmall hpower
    _ = 2 ^ 52 * 2 ^ (d.exponent + 1) := by rw [zpow_add_one₀ two_ne_zero]; ring
    _ ≤ 2 ^ 52 * 2 ^ e.exponent := mul_le_mul_of_nonneg_left hstep (by positivity)
    _ ≤ e.size := mul_le_mul_of_nonneg_right hleadingq (by positivity)

/-- Canonical mantissas are compared behind their exponents. -/
lemma compare_size (hd : d.Canonical) (he : e.Canonical) :
    (compare d.exponent e.exponent).then (compare d.mantissa e.mantissa) =
      compare d.size e.size := by
  rcases lt_trichotomy d.exponent e.exponent with h | h | h
  · rw [compare_lt_iff_lt.mpr h, compare_lt_iff_lt.mpr (size_lt_of_exponent_lt hd he h)]
    rfl
  · have hpower : (0 : ℚ) < 2 ^ e.exponent := by positivity
    have hscale : ∀ m n : ℕ, m < n → (m : ℚ) * 2 ^ e.exponent < n * 2 ^ e.exponent := fun m n hlt =>
      mul_lt_mul_of_pos_right (Nat.cast_lt.mpr hlt) hpower
    rw [compare_eq_iff_eq.mpr h, Scaled.size, Scaled.size, h]
    show compare d.mantissa e.mantissa = _
    rcases lt_trichotomy d.mantissa e.mantissa with hm | hm | hm
    · rw [compare_lt_iff_lt.mpr hm, compare_lt_iff_lt.mpr (hscale _ _ hm)]
    · rw [hm, compare_eq_iff_eq.mpr rfl, compare_eq_iff_eq.mpr rfl]
    · rw [compare_gt_iff_gt.mpr hm, compare_gt_iff_gt.mpr (hscale _ _ hm)]
  · rw [compare_gt_iff_gt.mpr h, compare_gt_iff_gt.mpr (size_lt_of_exponent_lt he hd h)]
    rfl

/-- The real number that a double stands for, or an infinity; not a number stands for nothing, and
gets zero. -/
noncomputable def real (x : Float) : EReal :=
  match decode x with
  | .nan => 0
  | .infinite negative => if negative then ⊥ else ⊤
  | .finite d => ((d.value : ℝ) : EReal)

/-- The number of a finite double. -/
lemma real_of_finite (h : decode x = .finite d) : real x = ((d.value : ℝ) : EReal) := by
  rw [real, h]

/-- A double is not a number exactly if it decodes to none. -/
lemma isNaN_eq_true : isNaN x = true ↔ decode x = .nan := decide_eq_true_iff

/-- The value of a mantissa with the sign bit. -/
lemma Scaled.value_of_negative (h : d.negative = true) : d.value = -d.size := if_pos h

/-- The value of a mantissa without the sign bit. -/
lemma Scaled.value_of_positive (h : d.negative = false) : d.value = d.size := by
  rw [value, h, if_neg Bool.false_ne_true]

/-- The value of a mantissa without bits. -/
lemma Scaled.value_of_zero (h : d.mantissa = 0) : d.value = 0 := by
  simp [value, size, h]

/-- A mantissa with the sign bit and others stands for a number below zero. -/
lemma Scaled.value_neg (h : d.mantissa ≠ 0) (hneg : d.negative = true) : d.value < 0 := by
  have : (0 : ℚ) < d.mantissa := by positivity
  rw [value_of_negative hneg, size, neg_lt_zero]
  positivity

/-- A mantissa with other bits than the sign bit stands for a number above zero. -/
lemma Scaled.value_pos (h : d.mantissa ≠ 0) (hpos : d.negative = false) : 0 < d.value := by
  have : (0 : ℚ) < d.mantissa := by positivity
  rw [value_of_positive hpos, size]
  positivity

/-- Opposite numbers are compared the other way around. -/
lemma compare_neg (p q : ℚ) : compare (-p) (-q) = (compare p q).swap := by
  rcases lt_trichotomy p q with h | rfl | h
  · rw [compare_lt_iff_lt.mpr h, compare_gt_iff_gt.mpr (neg_lt_neg h)]
    rfl
  · rw [compare_eq_iff_eq.mpr rfl, compare_eq_iff_eq.mpr rfl]
    rfl
  · rw [compare_gt_iff_gt.mpr h, compare_lt_iff_lt.mpr (neg_lt_neg h)]
    rfl

/-- A finite double, unpacked. -/
lemma unpack_finite (h : decode x = .finite d) : x.toModel.unpack =
    if h : d.mantissa = 0 then .zero (signOf d.negative)
    else .finite (signOf d.negative) d.mantissa d.exponent (Nat.pos_of_ne_zero h) := by
  rw [unpack_eq, h]

/-- **Finite doubles are compared as their numbers.** -/
theorem compare_of_finite (hx : decode x = .finite d) (hy : decode y = .finite e) :
    x.toModel.unpack.compare y.toModel.unpack = some (compare d.value e.value) := by
  have hsize := compare_size (decode_canonical hx) (decode_canonical hy)
  rw [unpack_finite hx, unpack_finite hy]
  -- zeros have no sign, other numbers are told apart by it, and by their sizes where it is the same
  by_cases hd : d.mantissa = 0 <;> by_cases he : e.mantissa = 0
  · rw [dif_pos hd, dif_pos he, Scaled.value_of_zero hd, Scaled.value_of_zero he,
      compare_eq_iff_eq.mpr rfl]
    rfl
  · rw [dif_pos hd, dif_neg he, Scaled.value_of_zero hd]
    cases hneg : e.negative with
    | true => exact congrArg some (compare_gt_iff_gt.mpr (Scaled.value_neg he hneg)).symm
    | false => exact congrArg some (compare_lt_iff_lt.mpr (Scaled.value_pos he hneg)).symm
  · rw [dif_neg hd, dif_pos he, Scaled.value_of_zero he]
    cases hneg : d.negative with
    | true => exact congrArg some (compare_lt_iff_lt.mpr (Scaled.value_neg hd hneg)).symm
    | false => exact congrArg some (compare_gt_iff_gt.mpr (Scaled.value_pos hd hneg)).symm
  · rw [dif_neg hd, dif_neg he]
    cases hneg : d.negative <;> cases hneg' : e.negative
    · rw [Scaled.value_of_positive hneg, Scaled.value_of_positive hneg', ← hsize]
      rfl
    · have hless := (Scaled.value_neg he hneg').trans (Scaled.value_pos hd hneg)
      exact congrArg some (compare_gt_iff_gt.mpr hless).symm
    · have hless := (Scaled.value_neg hd hneg).trans (Scaled.value_pos he hneg')
      exact congrArg some (compare_lt_iff_lt.mpr hless).symm
    · rw [Scaled.value_of_negative hneg, Scaled.value_of_negative hneg', compare_neg, ← hsize]
      rfl

/-- The real numbers of finite doubles are compared as the rational ones. -/
lemma compare_real (p q : ℚ) :
    compare (((p : ℝ) : EReal)) ((q : ℝ) : EReal) = compare p q := by
  have hless : ∀ {p q : ℚ}, p < q → ((p : ℝ) : EReal) < ((q : ℝ) : EReal) := fun h =>
    EReal.coe_lt_coe_iff.mpr (Rat.cast_lt.mpr h)
  rcases lt_trichotomy p q with h | rfl | h
  · rw [compare_lt_iff_lt.mpr h, compare_lt_iff_lt.mpr (hless h)]
  · rw [compare_eq_iff_eq.mpr rfl, compare_eq_iff_eq.mpr rfl]
  · rw [compare_gt_iff_gt.mpr h, compare_gt_iff_gt.mpr (hless h)]

/-- An infinity, unpacked. -/
lemma unpack_infinite {negative : Bool} (h : decode x = .infinite negative) :
    x.toModel.unpack = .infinity (signOf negative) := by
  rw [unpack_eq, h]

/-- An infinity is compared with a finite double as with its number. -/
lemma compare_infinite {negative : Bool} (hx : decode x = .infinite negative)
    (hy : decode y = .finite e) :
    x.toModel.unpack.compare y.toModel.unpack = some (compare (real x) (real y)) ∧
      y.toModel.unpack.compare x.toModel.unpack = some (compare (real y) (real x)) := by
  have hxreal : real x = if negative then ⊥ else ⊤ := by rw [real, hx]
  rw [unpack_infinite hx, unpack_finite hy, hxreal, real_of_finite hy]
  have hbot := EReal.bot_lt_coe (e.value : ℝ)
  have htop := EReal.coe_lt_top (e.value : ℝ)
  cases negative with
  | true =>
    rw [if_pos rfl, compare_lt_iff_lt.mpr hbot, compare_gt_iff_gt.mpr hbot]
    split <;> cases e.negative <;> exact ⟨rfl, rfl⟩
  | false =>
    rw [if_neg Bool.false_ne_true, compare_gt_iff_gt.mpr htop, compare_lt_iff_lt.mpr htop]
    split <;> cases e.negative <;> exact ⟨rfl, rfl⟩

/-- **Doubles are compared as the numbers or infinities that they stand for.** -/
theorem compare_unpack (hx : isNaN x = false) (hy : isNaN y = false) :
    x.toModel.unpack.compare y.toModel.unpack = some (compare (real x) (real y)) := by
  cases hdx : decode x with
  | nan => simp [isNaN, hdx] at hx
  | infinite s =>
    cases hdy : decode y with
    | nan => simp [isNaN, hdy] at hy
    | infinite t =>
      have hxreal : real x = if s then ⊥ else ⊤ := by rw [real, hdx]
      have hyreal : real y = if t then ⊥ else ⊤ := by rw [real, hdy]
      rw [unpack_infinite hdx, unpack_infinite hdy, hxreal, hyreal]
      cases s <;> cases t
      · exact congrArg some (compare_eq_iff_eq.mpr rfl).symm
      · exact congrArg some (compare_gt_iff_gt.mpr bot_lt_top).symm
      · exact congrArg some (compare_lt_iff_lt.mpr bot_lt_top).symm
      · exact congrArg some (compare_eq_iff_eq.mpr rfl).symm
    | finite e => exact (compare_infinite hdx hdy).1
  | finite d =>
    cases hdy : decode y with
    | nan => simp [isNaN, hdy] at hy
    | infinite t => exact (compare_infinite hdy hdx).2
    | finite e =>
      rw [compare_of_finite hdx hdy, real_of_finite hdx, real_of_finite hdy, compare_real]

/-- **A double is at most** another exactly if its number is. -/
theorem le_iff_real_le (hx : isNaN x = false) (hy : isNaN y = false) :
    x ≤ y ↔ real x ≤ real y := by
  have hle : x ≤ y ↔ x.toModel.unpack.le y.toModel.unpack = true := decide_eq_true_iff
  rw [hle, UnpackedFloat.le, compare_unpack hx hy, Option.any_some, ← compare_le_iff_le]
  cases compare (real x) (real y) <;> decide

/-- **A double is less** than another exactly if its number is. -/
theorem lt_iff_real_lt (hx : isNaN x = false) (hy : isNaN y = false) :
    x < y ↔ real x < real y := by
  have hlt : x < y ↔ x.toModel.unpack.lt y.toModel.unpack = true := decide_eq_true_iff
  rw [hlt, UnpackedFloat.lt, compare_unpack hx hy, beq_iff_eq, Option.some.injEq, compare_lt_iff_lt]

/-- Not a number is compared with nothing. -/
lemma not_nan_of_le (h : x ≤ y) : isNaN x = false ∧ isNaN y = false := by
  have hle : x.toModel.unpack.le y.toModel.unpack = true := of_decide_eq_true h
  have hnone : ∀ z : Float, isNaN z = true → z.toModel.unpack = .notANumber := fun z hz => by
    rw [unpack_eq, isNaN_eq_true.mp hz]
  refine ⟨Bool.eq_false_iff.mpr fun hx => ?_, Bool.eq_false_iff.mpr fun hy => ?_⟩
  · rw [hnone x hx] at hle
    cases hle
  · rw [hnone y hy] at hle
    cases hu : x.toModel.unpack with
    | infinity s => cases s <;> rw [hu] at hle <;> cases hle
    | notANumber | zero | finite => rw [hu] at hle; cases hle

/-- A number is at least the greater of two limits exactly if it is at least both. -/
theorem greater_le_iff (hx : isNaN x = false) (hy : isNaN y = false) :
    greater x y ≤ z ↔ x ≤ z ∧ y ≤ z := by
  rw [greater, hx, hy, if_neg Bool.false_ne_true, if_neg Bool.false_ne_true]
  split
  · rename_i h
    refine ⟨fun hz => ⟨?_, hz⟩, And.right⟩
    have hnumber := (not_nan_of_le hz).2
    rw [le_iff_real_le hx hnumber]
    exact ((lt_iff_real_lt hx hy).mp h).le.trans ((le_iff_real_le hy hnumber).mp hz)
  · rename_i h
    refine ⟨fun hz => ⟨hz, ?_⟩, And.left⟩
    have hnumber := (not_nan_of_le hz).2
    rw [le_iff_real_le hy hnumber]
    exact (not_lt.mp (mt (lt_iff_real_lt hx hy).mpr h)).trans ((le_iff_real_le hx hnumber).mp hz)

/-- A number is at most the lesser of two limits exactly if it is at most both. -/
theorem le_lesser_iff (hx : isNaN x = false) (hy : isNaN y = false) :
    z ≤ lesser x y ↔ z ≤ x ∧ z ≤ y := by
  rw [lesser, hx, hy, if_neg Bool.false_ne_true, if_neg Bool.false_ne_true]
  split
  · rename_i h
    refine ⟨fun hz => ⟨?_, hz⟩, And.right⟩
    have hnumber := (not_nan_of_le hz).1
    rw [le_iff_real_le hnumber hx]
    exact ((le_iff_real_le hnumber hy).mp hz).trans ((lt_iff_real_lt hy hx).mp h).le
  · rename_i h
    refine ⟨fun hz => ⟨hz, ?_⟩, And.left⟩
    have hnumber := (not_nan_of_le hz).1
    rw [le_iff_real_le hnumber hy]
    exact ((le_iff_real_le hnumber hx).mp hz).trans (not_lt.mp (mt (lt_iff_real_lt hy hx).mpr h))

/-! ### Finite doubles -/

/-- A finite double decodes to a scaled mantissa. -/
lemma isFinite_eq_true : isFinite x = true ↔ ∃ d, decode x = .finite d := by
  unfold isFinite
  cases decode x <;> simp

/-- A finite double is a number. -/
lemma isNaN_of_finite (h : isFinite x = true) : isNaN x = false := by
  obtain ⟨d, hd⟩ := isFinite_eq_true.mp h
  simp [isNaN, hd]

/-- A double that stands for a whole number has this value. -/
theorem Stands.exists_value {a : ℤ} (h : Stands x a) : ∃ d, decode x = .finite d ∧ d.value = a := by
  rw [Stands, unpack_eq] at h
  cases hd : decode x with
  | nan | infinite s => rw [hd] at h; cases h
  | finite d =>
    refine ⟨d, rfl, ?_⟩
    rw [hd] at h
    dsimp only at h
    split at h
    · rename_i hzero
      cases h
      exact_mod_cast Scaled.value_of_zero hzero
    · rename_i hne
      generalize hu : UnpackedFloat.finite (signOf d.negative) d.mantissa d.exponent _ = u at h
      cases h with
      | zero sign => cases hu
      | @finite sign n m k hm hlow hhigh hk hvalue =>
        obtain ⟨hsign, rfl, hexponent⟩ := UnpackedFloat.finite.inj hu
        have hsize : d.size = n := by
          have hscaled : (d.mantissa : ℚ) * 2 ^ k = n * 2 ^ 52 := by exact_mod_cast hvalue
          rw [Scaled.size, hexponent, zpow_sub₀ two_ne_zero, zpow_natCast, mul_div_assoc', hscaled]
          norm_num
        rw [← hsign]
        cases hneg : d.negative with
        | true => rw [Scaled.value_of_negative hneg, hsize]; exact (Int.cast_neg (n : ℤ)).symm
        | false => rw [Scaled.value_of_positive hneg, hsize]; rfl

/-- The exponent of a finite double is at most that of the largest one. -/
lemma exponent_le (h : decode x = .finite d) : d.exponent ≤ 971 := by
  rw [decode_eq] at h
  split at h
  · split at h <;> cases h
  · split at h <;> obtain rfl := Decoded.finite.inj h
    · exact (by decide : (-1074 : ℤ) ≤ 971)
    · dsimp only
      omega

/-- The largest finite double, decoded. -/
lemma decode_largest : decode largest = .finite ⟨false, 2 ^ 53 - 1, 971⟩ := by decide +kernel

/-- The smallest finite double, decoded. -/
lemma decode_smallest : decode smallest = .finite ⟨true, 2 ^ 53 - 1, 971⟩ := by decide +kernel

/-- The size of a finite double is at most that of the largest one. -/
lemma size_le (h : decode x = .finite d) : d.size ≤ Scaled.size ⟨false, 2 ^ 53 - 1, 971⟩ := by
  have hmantissa : d.mantissa ≤ 2 ^ 53 - 1 := Nat.le_sub_one_of_lt (decode_canonical h).small
  have hpower : (2 : ℚ) ^ d.exponent ≤ 2 ^ (971 : ℤ) :=
    zpow_le_zpow_right₀ one_le_two (exponent_le h)
  exact mul_le_mul (Nat.cast_le.mpr hmantissa) hpower (by positivity) (Nat.cast_nonneg _)

/-- **Finite doubles** lie between the smallest and the largest of them. -/
theorem finite_bounds (h : isFinite x = true) : smallest ≤ x ∧ x ≤ largest := by
  obtain ⟨d, hd⟩ := isFinite_eq_true.mp h
  have hsize := size_le hd
  have hnonneg := d.size_nonneg
  have hnumber := isNaN_of_finite h
  have hvalue : -d.size ≤ d.value ∧ d.value ≤ d.size := by
    unfold Scaled.value
    split <;> constructor <;> linarith
  rw [le_iff_real_le (by decide +kernel) hnumber, le_iff_real_le hnumber (by decide +kernel),
    real_of_finite hd, real_of_finite decode_largest, real_of_finite decode_smallest,
    EReal.coe_le_coe_iff, EReal.coe_le_coe_iff, Rat.cast_le, Rat.cast_le]
  exact ⟨(neg_le_neg hsize).trans hvalue.1, hvalue.2.trans hsize⟩

end Lineage.Binary64
