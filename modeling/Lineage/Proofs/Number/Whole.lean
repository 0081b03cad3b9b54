import Lineage.Number.Reader
import Lineage.Proofs.Number.Binary64
import Lineage.Proofs.Number.Rounding

set_option autoImplicit false

/-!
# Doubles of whole numbers

A whole number of 64 bits becomes the double nearest to it, both as a value and as a decimal that is
read. Doubles that stand for whole numbers are compared as these numbers are.

## Main definitions

* `Lineage.Binary64.StandsFor`: a double stands for a whole number.

## Main results

* `Lineage.Binary64.compare_of_standsFor`: doubles are compared as the whole numbers.
* `Lineage.Binary64.standsFor_ofInt`: a value becomes the nearest double.
* `Lineage.Binary64.exists_floatOfText?`: a decimal without point is read as the nearest double.
-/

namespace Lineage.Binary64

open Float.Model (UnpackedFloat Format totalExponent)
open Float.Model.UnpackedFloat

variable {n m k s j : ℕ} {x y : Float} {a b : ℤ}

/-! ### Shifting mantissas -/

/-- A mantissa with its two bits is a quotient by a power of two: the first bit tells whether the
remainder is at least a half, the second whether it is neither nothing nor a half. -/
structure Shifted (n s : ℕ) (em : ExtendedMantissa) : Prop where
  /-- The mantissa is the quotient, rounded down. -/
  mantissa : em.mantissa = n / 2 ^ s
  /-- The first bit. -/
  round : em.roundBit = decide (2 ^ s ≤ 2 * (n % 2 ^ s))
  /-- The second bit. -/
  sticky : em.stickyBit = decide (2 * (n % 2 ^ s) ≠ 0 ∧ 2 * (n % 2 ^ s) ≠ 2 ^ s)

/-- The quotient by the next power of two. -/
lemma Shifted.shiftRightOne {em : ExtendedMantissa} (h : Shifted n s em) :
    Shifted n (s + 1) em.shiftRightOne := by
  have hpos : 0 < 2 ^ s := Nat.two_pow_pos s
  have hsmall : n % 2 ^ s < 2 ^ s := Nat.mod_lt n hpos
  have hremainder : n % 2 ^ (s + 1) = n % 2 ^ s + 2 ^ s * (n / 2 ^ s % 2) := by
    rw [Nat.pow_succ, Nat.mod_mul]
  have hparity : n / 2 ^ s % 2 = 0 ∨ n / 2 ^ s % 2 = 1 := Nat.mod_two_eq_zero_or_one _
  refine ⟨?_, ?_, ?_⟩
  · rw [ExtendedMantissa.shiftRightOne, h.mantissa, Nat.div_div_eq_div_mul, Nat.pow_succ]
  · rw [ExtendedMantissa.shiftRightOne, h.mantissa, hremainder, Nat.pow_succ]
    rcases hparity with heven | hodd
    · rw [heven]
      exact (decide_eq_false (by omega)).symm
    · rw [hodd]
      exact (decide_eq_true (by omega)).symm
  · rw [ExtendedMantissa.shiftRightOne, h.round, h.sticky, hremainder, Nat.pow_succ,
      ← Bool.decide_or, decide_eq_decide]
    rcases hparity with heven | hodd
    · rw [heven]
      omega
    · rw [hodd]
      omega

/-- A shifted whole number is its quotient. -/
lemma shifted_shiftRight (n s : ℕ) :
    Shifted n s (ExtendedMantissa.ofMantissaAndAccuracy n .exact >>> s) := by
  change Shifted n s (s.repeat ExtendedMantissa.shiftRightOne _)
  induction s with
  | zero =>
    refine ⟨?_, ?_, ?_⟩ <;> simp [Nat.repeat, ExtendedMantissa.ofMantissaAndAccuracy, Nat.mod_one]
  | succ s ih => exact ih.shiftRightOne

/-- **The bits of a shifted mantissa round it** to the nearest whole number, a half to the even
one. -/
theorem Shifted.roundedMantissa {em : ExtendedMantissa} (h : Shifted n s em) :
    em.roundedMantissa = divRoundEven n (2 ^ s) := by
  obtain ⟨mantissa, round, sticky⟩ := em
  obtain ⟨rfl, rfl, rfl⟩ := h
  have hpos : 0 < 2 ^ s := Nat.two_pow_pos s
  unfold divRoundEven
  dsimp only
  split_ifs with hless hmore heven
  · have hround : decide (2 ^ s ≤ 2 * (n % 2 ^ s)) = false := decide_eq_false (by omega)
    rw [hround]
    cases decide (2 * (n % 2 ^ s) ≠ 0 ∧ 2 * (n % 2 ^ s) ≠ 2 ^ s) <;> rfl
  · have hround : decide (2 ^ s ≤ 2 * (n % 2 ^ s)) = true := decide_eq_true (by omega)
    have hsticky : decide (2 * (n % 2 ^ s) ≠ 0 ∧ 2 * (n % 2 ^ s) ≠ 2 ^ s) = true :=
      decide_eq_true (by omega)
    rw [hround, hsticky]
    rfl
  all_goals
    have hround : decide (2 ^ s ≤ 2 * (n % 2 ^ s)) = true := decide_eq_true (by omega)
    have hsticky : decide (2 * (n % 2 ^ s) ≠ 0 ∧ 2 * (n % 2 ^ s) ≠ 2 ^ s) = false :=
      decide_eq_false (by omega)
    rw [hround, hsticky]
    change n / 2 ^ s + n / 2 ^ s % 2 = _
    omega

/-! ### Doubles that stand for whole numbers -/

/-- An unpacked double stands for a whole number: it is a zero, or its mantissa has 53 bits, and its
exponent is the one of the number. -/
inductive StandsFor : UnpackedFloat → ℤ → Prop
  /-- Zeros of both signs. -/
  | zero (sign : Sign) : StandsFor (.zero sign) 0
  /-- The number is the mantissa times a power of two. -/
  | finite (sign : Sign) {n m k : ℕ} (hm : 0 < m) (hlow : 2 ^ 52 ≤ m) (hhigh : m < 2 ^ 53)
      (hk : k ≤ 1023) (hvalue : m * 2 ^ k = n * 2 ^ 52) :
      StandsFor (.finite sign m (k - 52) hm) (sign.apply n)

/-- A greater exponent makes up for any two mantissas of 53 bits. -/
lemma lt_of_scaled {m m' k k' n n' : ℕ} (hhigh : m < 2 ^ 53) (hlow' : 2 ^ 52 ≤ m')
    (hvalue : m * 2 ^ k = n * 2 ^ 52) (hvalue' : m' * 2 ^ k' = n' * 2 ^ 52) (hk : k < k') :
    n < n' := by
  refine Nat.lt_of_mul_lt_mul_right (a := 2 ^ 52) ?_
  calc n * 2 ^ 52 = m * 2 ^ k := hvalue.symm
    _ < 2 ^ 53 * 2 ^ k := Nat.mul_lt_mul_of_pos_right hhigh (Nat.two_pow_pos k)
    _ = 2 ^ 52 * 2 ^ (k + 1) := by rw [Nat.pow_succ]; omega
    _ ≤ 2 ^ 52 * 2 ^ k' := Nat.mul_le_mul_left _ (Nat.pow_le_pow_right Nat.zero_lt_two hk)
    _ ≤ m' * 2 ^ k' := Nat.mul_le_mul_right _ hlow'
    _ = n' * 2 ^ 52 := hvalue'

/-- Mantissas of 53 bits are compared behind their exponents. -/
lemma compare_scaled {m m' k k' n n' : ℕ} (hlow : 2 ^ 52 ≤ m) (hhigh : m < 2 ^ 53)
    (hlow' : 2 ^ 52 ≤ m') (hhigh' : m' < 2 ^ 53) (hvalue : m * 2 ^ k = n * 2 ^ 52)
    (hvalue' : m' * 2 ^ k' = n' * 2 ^ 52) :
    (compare ((k : ℤ) - 52) ((k' : ℤ) - 52)).then (compare m m') = compare n n' := by
  rcases lt_trichotomy k k' with hk | rfl | hk
  · rw [compare_lt_iff_lt.mpr (show (k : ℤ) - 52 < k' - 52 by omega),
      compare_lt_iff_lt.mpr (lt_of_scaled hhigh hlow' hvalue hvalue' hk)]
    rfl
  · have hscale : ∀ a b : ℕ, a < b ↔ a * 2 ^ k < b * 2 ^ k := fun a b =>
      (Nat.mul_lt_mul_right (Nat.two_pow_pos k)).symm
    have hsame : compare m m' = compare n n' := by
      rcases lt_trichotomy m m' with hm | rfl | hm
      · have hn : n < n' := by
          have := (hscale m m').mp hm
          omega
        rw [compare_lt_iff_lt.mpr hm, compare_lt_iff_lt.mpr hn]
      · have hn : n = n' := by omega
        rw [hn, compare_eq_iff_eq.mpr rfl, compare_eq_iff_eq.mpr rfl]
      · have hn : n' < n := by
          have := (hscale m' m).mp hm
          omega
        rw [compare_gt_iff_gt.mpr hm, compare_gt_iff_gt.mpr hn]
    rw [compare_eq_iff_eq.mpr rfl, hsame]
    rfl
  · rw [compare_gt_iff_gt.mpr (show (k' : ℤ) - 52 < k - 52 by omega),
      compare_gt_iff_gt.mpr (lt_of_scaled hhigh' hlow hvalue' hvalue hk)]
    rfl

/-- Whole numbers of one sign are compared by their sizes. -/
lemma compare_apply (sign : Sign) (n n' : ℕ) : compare (sign.apply n) (sign.apply n') =
    match sign with
    | .positive => compare n n'
    | .negative => (compare n n').swap := by
  have hlt : ∀ {n n' : ℕ}, n < n' → (n : ℤ) < n' ∧ -(n' : ℤ) < -n := fun h => ⟨by omega, by omega⟩
  rcases lt_trichotomy n n' with h | rfl | h
  · cases sign with
    | positive => exact (compare_lt_iff_lt.mpr (hlt h).1).trans (compare_lt_iff_lt.mpr h).symm
    | negative =>
      exact (compare_gt_iff_gt.mpr (hlt h).2).trans
        (congrArg Ordering.swap (compare_lt_iff_lt.mpr h)).symm
  · rw [compare_eq_iff_eq.mpr rfl, compare_eq_iff_eq.mpr rfl]
    cases sign <;> rfl
  · cases sign with
    | positive => exact (compare_gt_iff_gt.mpr (hlt h).1).trans (compare_gt_iff_gt.mpr h).symm
    | negative =>
      exact (compare_lt_iff_lt.mpr (hlt h).2).trans
        (congrArg Ordering.swap (compare_gt_iff_gt.mpr h)).symm

/-- A number that a finite double stands for is not zero. -/
lemma pos_of_scaled (hm : 0 < m) (hvalue : m * 2 ^ k = n * 2 ^ 52) : 0 < n := by
  have hpos : 0 < m * 2 ^ k := Nat.mul_pos hm (Nat.two_pow_pos k)
  omega

/-- Signs of numbers that are not zero. -/
lemma apply_sign (hn : 0 < n) : Sign.negative.apply n < 0 ∧ 0 < Sign.positive.apply n := by
  simp only [Sign.apply]
  omega

/-- **Doubles are compared as the whole numbers** that they stand for. -/
theorem compare_of_standsFor {u v : UnpackedFloat} (hu : StandsFor u a) (hv : StandsFor v b) :
    u.compare v = some (compare a b) := by
  cases hu with
  | zero sign =>
    cases hv with
    | zero sign' => rfl
    | finite sign' hm hlow hhigh hk hvalue =>
      obtain ⟨hnegative, hpositive⟩ := apply_sign (pos_of_scaled hm hvalue)
      cases sign' with
      | positive => exact congrArg some (compare_lt_iff_lt.mpr hpositive).symm
      | negative => exact congrArg some (compare_gt_iff_gt.mpr hnegative).symm
  | finite sign hm hlow hhigh hk hvalue =>
    obtain ⟨hnegative, hpositive⟩ := apply_sign (pos_of_scaled hm hvalue)
    cases hv with
    | zero sign' =>
      cases sign with
      | positive => exact congrArg some (compare_gt_iff_gt.mpr hpositive).symm
      | negative => exact congrArg some (compare_lt_iff_lt.mpr hnegative).symm
    | finite sign' hm' hlow' hhigh' hk' hvalue' =>
      obtain ⟨hnegative', hpositive'⟩ := apply_sign (pos_of_scaled hm' hvalue')
      have hscaled := compare_scaled hlow hhigh hlow' hhigh' hvalue hvalue'
      cases sign with
      | positive =>
        cases sign' with
        | positive =>
          rw [compare_apply]
          exact congrArg some hscaled
        | negative =>
          exact congrArg some (compare_gt_iff_gt.mpr (hnegative'.trans hpositive)).symm
      | negative =>
        cases sign' with
        | positive =>
          exact congrArg some (compare_lt_iff_lt.mpr (hnegative.trans hpositive')).symm
        | negative =>
          rw [compare_apply]
          exact congrArg (fun order => some order.swap) hscaled

/-! ### Packed doubles -/

/-- A double stands for a whole number if it does unpacked. -/
def Stands (x : Float) (a : ℤ) : Prop := StandsFor x.toModel.unpack a

/-- The bits of a mantissa with a set first bit. -/
lemma pack_finite (sign : Sign) (hm : 0 < m) (hlow : 2 ^ 52 ≤ m) (hhigh : m < 2 ^ 53)
    (hk : k ≤ 1023) : UnpackedFloat.pack .binary64 (.finite sign m (k - 52) hm) =
      packComponents .binary64 sign (BitVec.ofNat 11 (k + 1023)) (BitVec.ofNat 52 m) := by
  have hbits : m.log2 + 1 = Format.binary64.mantissaBits := by
    rw [(Nat.log2_eq_iff hm.ne').mpr ⟨hlow, hhigh⟩]
    rfl
  have hbias : (Format.exponentBias .binary64 : ℤ) = 1023 := rfl
  have hbiased : ((k : ℤ) - 52 + (Format.exponentBias .binary64 : ℕ) + (52 : ℕ)).toNat =
      k + 1023 := by omega
  have hfits : ¬2 ^ 11 ≤ k + 1023 + 1 := by omega
  unfold UnpackedFloat.pack
  dsimp only
  rw [hbiased, if_neg hfits, if_pos hbits]

/-- **Packing keeps what a double stands for.** -/
theorem unpack_pack {u : UnpackedFloat} (h : StandsFor u a) :
    (Float.Model.pack u).unpack = u := by
  cases h with
  | zero sign => cases sign <;> rfl
  | @finite sign n m k hm hlow hhigh hk hvalue =>
    have hexponent : (BitVec.ofNat 11 (k + 1023)).toNat = k + 1023 := by
      rw [BitVec.toNat_ofNat, Nat.mod_eq_of_lt (by omega)]
    have hne : ∀ e : BitVec 11, k + 1023 ≠ e.toNat → BitVec.ofNat 11 (k + 1023) ≠ e :=
      fun e hne heq => hne (by rw [← heq, hexponent])
    have hfraction : (1#1 ++ BitVec.ofNat 52 m).toNat = m := by
      rw [BitVec.toNat_append, ← Nat.shiftLeft_add_eq_or_of_lt (BitVec.isLt _),
        BitVec.toNat_ofNat, Nat.shiftLeft_eq]
      change 1 * 2 ^ 52 + m % 2 ^ 52 = m
      omega
    have hbias : (Format.exponentBias .binary64 : ℤ) = 1023 := rfl
    have hset : k + 1023 ≠ (-1#11).toNat := by
      change k + 1023 ≠ 2047
      omega
    have hclear : k + 1023 ≠ (0#11).toNat := Nat.succ_ne_zero _
    change UnpackedFloat.unpack .binary64 (UnpackedFloat.pack .binary64 _) = _
    rw [pack_finite sign hm hlow hhigh hk, UnpackedFloat.unpack]
    simp only [unpackExponent_packComponents, unpackMantissa_packComponents,
      unpackSign_packComponents, Sign.ofBitVec_toBitVec, if_neg (hne _ hset), if_neg (hne _ hclear),
      hexponent, hfraction, UnpackedFloat.finite.injEq, true_and]
    omega

/-- The bits of an unpacked double stand for its number. -/
lemma stands_pack {u : UnpackedFloat} (h : StandsFor u a) : Stands ⟨Float.Model.pack u⟩ a := by
  rw [Stands, unpack_pack h]
  exact h

/-- The opposite of a double stands for the opposite number. -/
lemma Stands.neg (h : Stands x a) : Stands (-x) (-a) := by
  refine stands_pack ?_
  rw [Stands] at h
  generalize x.toModel.unpack = u at h
  cases h with
  | zero sign => exact .zero _
  | finite sign hm hlow hhigh hk hvalue =>
    have hopposite := StandsFor.finite (-sign) hm hlow hhigh hk hvalue
    cases sign with
    | positive => exact hopposite
    | negative =>
      rw [Sign.apply, neg_neg]
      exact hopposite

/-- **Doubles are equal** if their numbers are. -/
theorem Stands.beq_iff (hx : Stands x a) (hy : Stands y b) : (x == y) = true ↔ a = b := by
  have hbeq : (x == y) = x.toModel.unpack.beq y.toModel.unpack := rfl
  rw [hbeq, UnpackedFloat.beq, compare_of_standsFor hx hy, beq_iff_eq, Option.some.injEq,
    compare_eq_iff_eq]

/-- **A double is less** than another if its number is. -/
theorem Stands.lt_iff (hx : Stands x a) (hy : Stands y b) : x < y ↔ a < b := by
  have hlt : x < y ↔ x.toModel.unpack.lt y.toModel.unpack = true := decide_eq_true_iff
  rw [hlt, UnpackedFloat.lt, compare_of_standsFor hx hy, beq_iff_eq, Option.some.injEq,
    compare_lt_iff_lt]

/-- **A double is at most** another if its number is. -/
theorem Stands.le_iff (hx : Stands x a) (hy : Stands y b) : x ≤ y ↔ a ≤ b := by
  have hle : x ≤ y ↔ x.toModel.unpack.le y.toModel.unpack = true := decide_eq_true_iff
  rw [hle, UnpackedFloat.le, compare_of_standsFor hx hy, Option.any_some, ← compare_le_iff_le]
  cases compare a b <;> decide

/-! ### Rounding -/

/-- A mantissa is shifted until it has 53 bits. -/
lemma shiftToTargetExponent_eq {e : ℤ} (hlog : m.log2 = 52 + s) (he : -1074 ≤ e + s) :
    shiftToTargetExponent .binary64 m e .exact =
      (ExtendedMantissa.ofMantissaAndAccuracy m .exact >>> s, e + s) := by
  have hbits : (Format.mantissaBits .binary64 : ℤ) = 53 := rfl
  have hleast : Format.minExponent .binary64 = -1074 := rfl
  have hshift : (Format.targetExponent .binary64 (totalExponent m e) - e).toNat = s := by
    rw [Format.targetExponent, totalExponent, hlog, hbits, hleast]
    omega
  rw [shiftToTargetExponent, shiftToExponent, hshift]

/-- The rounded mantissa of a whole number, in units of its last place. -/
lemma divRoundEven_mul_two_pow (hn : 0 < n) (hlog : n.log2 + j = 52 + s) :
    divRoundEven (n * 2 ^ j) (2 ^ s) * 2 ^ n.log2 = nearestNat n * 2 ^ 52 := by
  rcases Nat.le_total 52 n.log2 with hlarge | hsmall
  · obtain ⟨d, hd⟩ := Nat.exists_eq_add_of_le hlarge
    have hs : s = d + j := by omega
    have hplace : n.log2 - 52 = d := by omega
    rw [hs, Nat.pow_add, divRoundEven_mul_right _ _ (Nat.two_pow_pos j), nearestNat, hplace, hd,
      Nat.add_comm 52, Nat.pow_add, Nat.mul_assoc]
  · obtain ⟨d, hd⟩ := Nat.exists_eq_add_of_le hsmall
    have hj : j = d + s := by omega
    have hbelow : n < 2 ^ 53 := (Nat.log2_lt hn.ne').mp (by omega)
    rw [hj, Nat.pow_add, ← Nat.mul_assoc, divRoundEven_mul_self _ (Nat.two_pow_pos s),
      nearestNat_of_lt hbelow, Nat.mul_assoc, ← Nat.pow_add, Nat.add_comm d, ← hd]

/-- A rounded mantissa has 53 bits, or it is the next power of two. -/
lemma divRoundEven_mem_mantissas (hn : 0 < n) (hlog : n.log2 + j = 52 + s) :
    2 ^ 52 ≤ divRoundEven (n * 2 ^ j) (2 ^ s) ∧ divRoundEven (n * 2 ^ j) (2 ^ s) ≤ 2 ^ 53 := by
  have hvalue := divRoundEven_mul_two_pow hn hlog
  obtain ⟨hlow, hhigh⟩ := nearestNat_bounds hn.ne'
  have hpos : 0 < 2 ^ n.log2 := Nat.two_pow_pos _
  constructor
  · refine Nat.le_of_mul_le_mul_right ?_ hpos
    rw [hvalue, Nat.mul_comm]
    exact Nat.mul_le_mul_right _ hlow
  · refine Nat.le_of_mul_le_mul_right ?_ hpos
    rw [hvalue]
    rw [Nat.pow_succ] at hhigh
    omega

/-- Only a mantissa that was rounded up to the next power of two is shifted again. -/
lemma exists_carry (hlow : 2 ^ 52 ≤ m) (hhigh : m ≤ 2 ^ 53) :
    ∃ t ≤ 1, m.log2 = 52 + t ∧ m / 2 ^ t * 2 ^ t = m ∧ 2 ^ 52 ≤ m / 2 ^ t ∧ m / 2 ^ t < 2 ^ 53 := by
  have hne : m ≠ 0 := by omega
  rcases hhigh.lt_or_eq with hless | rfl
  · exact ⟨0, Nat.zero_le 1, (Nat.log2_eq_iff hne).mpr ⟨hlow, hless⟩, by simp, by simpa, by simpa⟩
  · exact ⟨1, le_rfl, Nat.log2_two_pow, by decide, by decide, by decide⟩

/-- **A whole number is rounded to the nearest one.** It may be written with zeros behind the point,
and has to be if it has fewer than 53 bits. -/
theorem standsFor_roundWithAccuracy (sign : Sign) (hn : 0 < n) (hfits : n < 2 ^ 64)
    (hj : 52 ≤ n.log2 + j) :
    StandsFor (roundWithAccuracy .binary64 sign (n * 2 ^ j) (-j) .exact)
      (sign.apply (nearestNat n)) := by
  obtain ⟨s, hs⟩ := Nat.exists_eq_add_of_le hj
  have hlog : (n * 2 ^ j).log2 = 52 + s := by
    have hpos : n * 2 ^ j ≠ 0 := (Nat.mul_pos hn (Nat.two_pow_pos j)).ne'
    rw [← hs, Nat.log2_eq_iff hpos, Nat.add_right_comm, Nat.pow_add, Nat.pow_add]
    exact ⟨Nat.mul_le_mul_right _ (Nat.log2_self_le hn.ne'),
      Nat.mul_lt_mul_of_pos_right Nat.lt_log2_self (Nat.two_pow_pos j)⟩
  have hfirst := shiftToTargetExponent_eq hlog (e := -j) (by omega)
  have hexponent : (-j : ℤ) + s = n.log2 - 52 := by omega
  have hrounded := (shifted_shiftRight (n * 2 ^ j) s).roundedMantissa
  rw [hexponent] at hfirst
  have hvalue := divRoundEven_mul_two_pow hn hs
  obtain ⟨hleast, hmost⟩ := divRoundEven_mem_mantissas hn hs
  rw [roundWithAccuracy, hfirst]
  dsimp only
  rw [hrounded]
  generalize divRoundEven (n * 2 ^ j) (2 ^ s) = r at hvalue hleast hmost
  have hk : n.log2 < 64 := (Nat.log2_lt hn.ne').mpr hfits
  obtain ⟨t, ht, hshift, hwhole, hlow, hhigh⟩ := exists_carry hleast hmost
  have hmantissa := (shifted_shiftRight r t).mantissa
  rw [shiftToTargetExponent_eq hshift (by omega)]
  dsimp only
  rw [dif_neg (by omega)]
  have hstands := StandsFor.finite sign (n := nearestNat n) (m := r / 2 ^ t) (k := n.log2 + t)
    (by omega) hlow hhigh (by omega) (by
      rw [← hvalue, Nat.add_comm, Nat.pow_add, ← Nat.mul_assoc, hwhole])
  convert hstands using 2
  push_cast
  ring

/-! ### Numbers and their texts -/

/-- A word becomes the nearest double. -/
lemma standsFor_ofNat (hn : 0 < n) (hfits : n < 2 ^ 64) :
    StandsFor (UnpackedFloat.ofNat .binary64 n) (nearestNat n) := by
  have hbits : (Format.mantissaBits .binary64 : ℤ) = 53 := rfl
  have hleast : Format.minExponent .binary64 = -1074 := rfl
  have htarget : Format.targetExponent .binary64 (totalExponent n 0) = n.log2 - 52 := by
    rw [Format.targetExponent, totalExponent, hbits, hleast]
    omega
  have hshift : (0 - ((n.log2 : ℤ) - 52)).toNat = 52 - n.log2 := by omega
  have hpositive : compare (n : ℤ) 0 = .gt := compare_gt_iff_gt.mpr (by omega)
  rw [UnpackedFloat.ofNat, UnpackedFloat.ofInt, UnpackedFloat.normalize, hpositive]
  dsimp only
  rw [Int.toNat_natCast, UnpackedFloat.round, htarget, decreaseExponent, hshift,
    Nat.shiftLeft_eq, zero_sub]
  exact standsFor_roundWithAccuracy .positive hn hfits (by omega)

/-- A natural number that an unpacked double stands for. -/
lemma StandsFor.exists_eq {u : UnpackedFloat} (h : StandsFor u n) (hn : 0 < n) :
    ∃ (m k : ℕ) (hm : 0 < m), u = .finite .positive m (k - 52) hm ∧ 2 ^ 52 ≤ m ∧
      m * 2 ^ k = n * 2 ^ 52 := by
  generalize ha : (n : ℤ) = a at h
  cases h with
  | zero sign => omega
  | @finite sign n' m k hm hlow hhigh hk hvalue =>
    cases sign with
    | positive =>
      obtain rfl : n = n' := Int.ofNat_inj.mp ha
      exact ⟨m, k, hm, rfl, hlow, hvalue⟩
    | negative =>
      rw [Sign.apply] at ha
      omega

/-- A decimal without power becomes the nearest double. -/
lemma standsFor_ofScientific (hn : 0 < n) (hfits : n < 2 ^ 64) :
    StandsFor (UnpackedFloat.ofScientific .binary64 n 0) (nearestNat n) := by
  have hmost : ¬(0 : ℤ) > 2 ^ Format.exponentBits .binary64 := not_lt.mpr (by positivity)
  have hleast : ¬(0 : ℤ) < -(2 ^ Format.exponentBits .binary64 + n.log2) :=
    not_lt.mpr (neg_nonpos.mpr (by positivity))
  have hlog : 52 ≤ n.log2 + 53 := by omega
  have hmantissa : n <<< Format.mantissaBits .binary64 * 10 ^ (0 : ℤ).toNat = n * 2 ^ 53 := by
    rw [Nat.shiftLeft_eq]
    exact Nat.mul_one _
  have hrounded := standsFor_roundWithAccuracy .positive hn hfits hlog
  rw [← hmantissa] at hrounded
  rw [UnpackedFloat.ofScientific, dif_neg hn.ne', if_neg hmost, if_neg hleast, if_pos le_rfl]
  exact hrounded

/-- A word of at most 53 bits is kept. -/
lemma stands_toFloat (hn : 0 < n) (hsmall : n < 2 ^ 53) : Stands n.toUInt64.toFloat n := by
  have hword : (UInt64.toNat n.toUInt64) = n := Nat.mod_eq_of_lt (by omega)
  have hunpacked := standsFor_ofNat hn (by omega)
  rw [nearestNat_of_lt hsmall] at hunpacked
  refine stands_pack ?_
  rw [UnpackedFloat.ofUInt64, hword]
  exact hunpacked

/-- A product with one is not rounded again. -/
lemma standsFor_mul_one (hx : Stands x n) (hn : 0 < n) (hsmall : n < 2 ^ 53) :
    StandsFor (UnpackedFloat.mul .binary64 x.toModel.unpack
      (Float.ofBits 0x3FF0000000000000).toModel.unpack) (nearestNat n) := by
  obtain ⟨m, k, hm, hunpack, hlow, hvalue⟩ := StandsFor.exists_eq hx hn
  have hk : k ≤ 52 := by
    by_contra hmore
    have hpower : 2 ^ 53 ≤ 2 ^ k := Nat.pow_le_pow_right Nat.zero_lt_two (by omega)
    have hproduct : 2 ^ 52 * 2 ^ 53 ≤ m * 2 ^ k := Nat.mul_le_mul hlow hpower
    omega
  have hmantissa : m * 2 ^ 52 = n * 2 ^ (104 - k) := by
    have hsplit : 104 - k = 52 + (52 - k) := by omega
    have hpowers : 2 ^ k * 2 ^ (52 - k) = 2 ^ 52 := by
      rw [← Nat.pow_add, Nat.add_sub_cancel' hk]
    rw [hsplit, Nat.pow_add, ← Nat.mul_assoc, ← hvalue, Nat.mul_assoc, hpowers]
  have hexponent : (k : ℤ) - 52 + -52 = -(104 - k : ℕ) := by omega
  have hone : (Float.ofBits 0x3FF0000000000000).toModel.unpack =
      .finite .positive (2 ^ 52) (-52) (Nat.two_pow_pos 52) := rfl
  rw [hunpack, hone, UnpackedFloat.mul, hmantissa, hexponent]
  exact standsFor_roundWithAccuracy .positive hn (by omega) (by omega)

/-- **A natural number of 64 bits** becomes the nearest double. -/
theorem stands_ofScientific (hfits : n < 2 ^ 64) :
    Stands (Float.ofScientific n false 0) (nearestNat n) := by
  rcases Nat.eq_zero_or_pos n with rfl | hn
  · exact .zero .positive
  unfold Float.ofScientific
  split
  · rename_i hsmall
    exact stands_pack (standsFor_mul_one (stands_toFloat hn hsmall.1) hn hsmall.1)
  · exact stands_pack (standsFor_ofScientific hn hfits)

/-- **A whole number of 64 bits** becomes the nearest double. -/
theorem stands_ofInt (hfits : a.natAbs < 2 ^ 64) : Stands (Float.ofInt a) (nearestInt a) := by
  cases a with
  | ofNat n => exact stands_ofScientific hfits
  | negSucc n => exact (stands_ofScientific (n := n + 1) hfits).neg

/-- Digits without power are read as the nearest double. -/
lemma stands_nearest (negative : Bool) (hfits : n < 2 ^ 64) :
    Stands (Number.nearest negative n 0) (if negative then -nearestNat n else nearestNat n) := by
  have hsize : Stands (if n = 0 then 0.0 else
      let count := ((Nat.toDigits 10 n).length : ℤ)
      if 0 + count > 400 then infinity
      else if 0 + count < -400 then 0.0
      else Float.ofScientific n (decide ((0 : ℤ) < 0)) (0 : ℤ).natAbs) (nearestNat n) := by
    split
    · rename_i hzero
      rw [hzero]
      exact .zero .positive
    · have hcount : (Nat.toDigits 10 n).length ≤ 20 :=
        Nat.toDigits_length 10 n 20 (by decide) (by omega)
      dsimp only
      rw [if_neg (by omega), if_neg (by omega)]
      exact stands_ofScientific hfits
  cases negative with
  | false => exact hsize
  | true => exact hsize.neg

/-- Digits are a decimal without point and power. -/
lemma partsOfChars?_eq {cs digits : List Char} {negative : Bool}
    (hsign : Number.splitSign cs = (negative, digits)) (hne : digits ≠ [])
    (hdigits : ∀ c ∈ digits, Number.isDigit c = true) :
    Number.partsOfChars? cs = some ⟨negative, digits, [], false, none⟩ := by
  have hwhole : digits.takeWhile Number.isDigit = digits := List.takeWhile_eq_self_iff.mpr hdigits
  have hrest : digits.dropWhile Number.isDigit = [] := List.dropWhile_eq_nil_iff.mpr hdigits
  rw [Number.partsOfChars?, hsign]
  simp [hwhole, hrest, hne]

/-- A row of digits with its number. -/
lemma natOfDigits?_eq_some_iff {digits : List Char} : Number.natOfDigits? digits = some n ↔
    digits ≠ [] ∧ (∀ c ∈ digits, Number.isDigit c = true) ∧ Number.natOfDigits digits = n := by
  unfold Number.natOfDigits?
  cases digits with
  | nil => simp
  | cons c digits =>
    simp

/-- **A decimal without point** is read as the nearest double. -/
theorem exists_floatOfText? {text : String} (htext : Number.intOfChars? text.toList = some a)
    (hfits : a.natAbs < 2 ^ 64) :
    ∃ x, Number.floatOfText? text = some x ∧ Stands x (nearestInt a) := by
  have hread : ∀ (negative : Bool) (digits : List Char) (n : ℕ),
      Number.splitSign text.toList = (negative, digits) → Number.natOfDigits? digits = some n →
        n < 2 ^ 64 → ∃ x, Number.floatOfText? text = some x ∧
          Stands x (if negative then -nearestNat n else nearestNat n) := by
    intro negative digits n hsign hnumber hfits
    obtain ⟨hne, hdigits, rfl⟩ := natOfDigits?_eq_some_iff.mp hnumber
    refine ⟨_, by rw [Number.floatOfText?, partsOfChars?_eq hsign hne hdigits], ?_⟩
    rw [Number.Parts.toFloat, List.append_nil]
    exact stands_nearest negative hfits
  unfold Number.intOfChars? at htext
  split at htext
  · rename_i digits hdigits
    obtain ⟨_, hcast, rfl⟩ := Option.map_eq_some_iff.mp htext
    obtain ⟨n, hn, heq⟩ := Option.bind_eq_some_iff.mp hcast
    obtain rfl := Option.some.inj heq
    rw [nearestInt_neg]
    exact hread true digits n (by rw [hdigits]; rfl) hn (by omega)
  · rename_i digits hdigits
    obtain ⟨n, hn, rfl⟩ := Option.map_eq_some_iff.mp htext
    exact hread false digits n (by rw [hdigits]; rfl) hn hfits
  · rename_i hminus hplus
    obtain ⟨n, hn, rfl⟩ := Option.map_eq_some_iff.mp htext
    refine hread false text.toList n ?_ hn hfits
    unfold Number.splitSign
    split
    · rename_i rest hrest
      exact absurd hrest (hminus rest)
    · rename_i rest hrest
      exact absurd hrest (hplus rest)
    · rfl

end Lineage.Binary64
