import Mathlib
import Lineage.Json.Basic

set_option autoImplicit false

/-!
# Doubles and their bits

The bits of a double are its sign, its exponent and its fraction, and only one pattern stands for
not a number. So a finite double is determined by what it decodes to, and there are three doubles
that are not finite.

## Main definitions

* `Lineage.Binary64.Scaled.Canonical`: the scaled mantissas that the bits of a double decode to.

## Main results

* `Lineage.Binary64.decode_canonical`, `Lineage.Binary64.decode_injective`: finite doubles.
* `Lineage.Binary64.eq_of_not_finite`: the doubles that are not finite.
* `Lineage.Binary64.eq_of_beq_of_ofFloat`: equal doubles that are written alike are one double.
-/

namespace Lineage.Binary64

open Number (pow2)

/-- The mantissas and exponents that the bits of a double decode to: 53 bits, of which the first
is set unless the exponent is the least one. -/
structure Scaled.Canonical (d : Scaled) : Prop where
  /-- The mantissa has at most 53 bits. -/
  small : d.mantissa < 2 ^ 53
  /-- The exponent is not below the least one. -/
  least : -1074 ≤ d.exponent
  /-- The first bit is set unless the exponent is the least one. -/
  leading : d.mantissa < 2 ^ 52 → d.exponent = -1074

/-- A double is determined by its bits. -/
lemma eq_of_toBits {x y : Float} (h : x.toBits.toNat = y.toBits.toNat) : x = y := by
  obtain ⟨⟨bits, valid⟩⟩ := x
  obtain ⟨⟨bits', valid'⟩⟩ := y
  obtain rfl : bits = bits' := UInt64.toNat_inj.mp h
  rfl

/-- What a double decodes to, in terms of its bits. -/
lemma decode_eq (x : Float) :
    decode x =
      if x.toBits.toNat / 2 ^ 52 % 2048 = 2047 then
        if x.toBits.toNat % 2 ^ 52 = 0 then .infinite (decide (2 ^ 63 ≤ x.toBits.toNat)) else .nan
      else if x.toBits.toNat / 2 ^ 52 % 2048 = 0 then
        .finite ⟨decide (2 ^ 63 ≤ x.toBits.toNat), x.toBits.toNat % 2 ^ 52, -1074⟩
      else
        .finite ⟨decide (2 ^ 63 ≤ x.toBits.toNat), x.toBits.toNat % 2 ^ 52 + 2 ^ 52,
          (x.toBits.toNat / 2 ^ 52 % 2048 : ℕ) - 1075⟩ := rfl

/-- A finite double decodes to a canonical mantissa. -/
theorem decode_canonical {x : Float} {d : Scaled} (h : decode x = .finite d) : d.Canonical := by
  rw [decode_eq] at h
  split at h
  · split at h <;> cases h
  · split at h <;> obtain rfl := Decoded.finite.inj h
    · refine ⟨?_, le_rfl, fun _ => rfl⟩
      dsimp only
      omega
    · refine ⟨?_, ?_, ?_⟩ <;> dsimp only <;> omega

/-- **A finite double is determined by its sign, mantissa and exponent.** -/
theorem decode_injective {x y : Float} {d : Scaled} (hx : decode x = .finite d)
    (hy : decode y = .finite d) : x = y := by
  have hbits := x.toBits.toNat_lt
  have hbits' := y.toBits.toNat_lt
  refine eq_of_toBits ?_
  rw [decode_eq] at hx hy
  split at hx
  · split at hx <;> cases hx
  · split at hy
    · split at hy <;> cases hy
    · split at hx <;> split at hy <;> obtain rfl := Decoded.finite.inj hx <;>
        simp only [Decoded.finite.injEq, Scaled.mk.injEq, decide_eq_decide] at hy <;> omega

/-- A double is finite unless all its exponent bits are set. -/
lemma isFinite_iff (x : Float) : isFinite x = true ↔ x.toBits.toNat / 2 ^ 52 % 2048 ≠ 2047 := by
  unfold isFinite
  rw [decode_eq]
  by_cases hexp : x.toBits.toNat / 2 ^ 52 % 2048 = 2047
  · rw [if_pos hexp]
    split_ifs <;> exact iff_of_false (by simp) (not_not_intro hexp)
  · rw [if_neg hexp]
    split_ifs <;> exact iff_of_true rfl hexp

/-! ### Doubles that are not finite -/

/-- The exponent bits of an unpacked double. -/
lemma unpackExponent_toNat (x : Float) :
    (@Float.Model.UnpackedFloat.unpackExponent .binary64 x.toModel.toBits.toBitVec).toNat =
      x.toBits.toNat / 2 ^ 52 % 2048 := by
  simp [Float.Model.UnpackedFloat.unpackExponent, Nat.shiftRight_eq_div_pow]
  rfl

/-- The fraction bits of an unpacked double. -/
lemma unpackMantissa_toNat (x : Float) :
    (@Float.Model.UnpackedFloat.unpackMantissa .binary64 x.toModel.toBits.toBitVec).toNat =
      x.toBits.toNat % 2 ^ 52 := by
  simp [Float.Model.UnpackedFloat.unpackMantissa]
  rfl

/-- Only one pattern of bits stands for not a number. -/
lemma toBits_of_nan {x : Float} (hexp : x.toBits.toNat / 2 ^ 52 % 2048 = 2047)
    (hfrac : x.toBits.toNat % 2 ^ 52 ≠ 0) : x.toBits.toNat = 0x7FF8000000000000 := by
  have hvalid := x.toModel.valid.eq_packedNaN
  have hbits := hvalid ?_ ?_
  · exact congrArg BitVec.toNat hbits
  · refine BitVec.eq_of_toNat_eq ?_
    exact (unpackExponent_toNat x).trans hexp
  · intro hzero
    exact hfrac ((unpackMantissa_toNat x).symm.trans (congrArg BitVec.toNat hzero))

/-- **The doubles that are not finite** are the infinities and not a number. -/
theorem eq_of_not_finite {x : Float} (h : isFinite x = false) :
    x = infinity ∨ x = negInfinity ∨ x = notANumber := by
  have hbits := x.toBits.toNat_lt
  have hexp : x.toBits.toNat / 2 ^ 52 % 2048 = 2047 := by
    by_contra hne
    rw [(isFinite_iff x).mpr hne] at h
    cases h
  by_cases hfrac : x.toBits.toNat % 2 ^ 52 = 0
  · by_cases hsign : x.toBits.toNat < 2 ^ 63
    · refine Or.inl (eq_of_toBits ?_)
      rw [show infinity.toBits.toNat = 0x7FF0000000000000 from rfl]
      omega
    · refine Or.inr (Or.inl (eq_of_toBits ?_))
      rw [show negInfinity.toBits.toNat = 0xFFF0000000000000 from rfl]
      omega
  · exact Or.inr (Or.inr (eq_of_toBits (toBits_of_nan hexp hfrac)))

/-- A double that is not finite equals itself and nothing else, unless it is not a number. -/
lemma eq_of_beq_of_not_finite {x y : Float} (h : (x == y) = true) (hx : isFinite x = false)
    (hy : isFinite y = false) : x = y := by
  rcases eq_of_not_finite hx with rfl | rfl | rfl <;>
    rcases eq_of_not_finite hy with rfl | rfl | rfl <;>
    first
      | rfl
      | exact absurd h (by decide)

/-- **Equal doubles that are written alike are one double.** -/
theorem eq_of_beq_of_ofFloat {x y : Float} (h : (x == y) = true)
    (hw : Json.ofFloat x = Json.ofFloat y) : x = y := by
  unfold Json.ofFloat at hw
  split at hw <;> split at hw
  · exact Json.float.inj hw
  · cases hw
  · cases hw
  · rename_i hx hy
    exact eq_of_beq_of_not_finite h (by simpa using hx) (by simpa using hy)

/-! ### Equality of doubles -/

open Float.Model (UnpackedFloat)

/-- The sign of an unpacked double. -/
def signOf (negative : Bool) : UnpackedFloat.Sign := if negative then .negative else .positive

/-- The sign bit of an unpacked double. -/
lemma unpackSign_toNat (x : Float) :
    (@UnpackedFloat.unpackSign .binary64 x.toModel.toBits.toBitVec).toNat =
      x.toBits.toNat / 2 ^ 63 % 2 := by
  simp [UnpackedFloat.unpackSign, Nat.shiftRight_eq_div_pow]
  rfl

/-- The sign of an unpacked double tells whether its first bit is set. -/
lemma ofBitVec_unpackSign (x : Float) :
    UnpackedFloat.Sign.ofBitVec
      (@UnpackedFloat.unpackSign .binary64 x.toModel.toBits.toBitVec) =
        signOf (decide (2 ^ 63 ≤ x.toBits.toNat)) := by
  have hbits : x.toBits.toNat < 2 ^ 64 := x.toBits.toNat_lt
  have hsign := unpackSign_toNat x
  unfold UnpackedFloat.Sign.ofBitVec signOf
  by_cases hneg : 2 ^ 63 ≤ x.toBits.toNat
  · rw [if_neg, if_pos (decide_eq_true hneg)]
    intro hzero
    rw [hzero] at hsign
    change 0 = _ at hsign
    omega
  · rw [if_pos, if_neg (by simpa using hneg)]
    refine BitVec.eq_of_toNat_eq ?_
    rw [hsign]
    change _ = 0
    omega

/-- The fraction bits of an unpacked double behind a leading one. -/
lemma leading_unpackMantissa_toNat (x : Float) :
    (1#1 ++ @UnpackedFloat.unpackMantissa .binary64 x.toModel.toBits.toBitVec).toNat =
      x.toBits.toNat % 2 ^ 52 + 2 ^ 52 := by
  rw [BitVec.toNat_append, unpackMantissa_toNat, Nat.shiftLeft_eq, Nat.or_comm]
  change _ ||| 1 * 2 ^ 52 = _
  have hor := Nat.two_pow_add_eq_or_of_lt
    (Nat.mod_lt x.toBits.toNat (by norm_num : 0 < 2 ^ 52)) 1
  rw [Nat.mul_one] at hor
  rw [Nat.one_mul, Nat.or_comm, ← hor, Nat.add_comm]

/-- The exponent of an unpacked double has all bits set. -/
lemma unpackExponent_eq_neg_one_iff {x : Float} :
    @UnpackedFloat.unpackExponent .binary64 x.toModel.toBits.toBitVec = -1#11 ↔
      x.toBits.toNat / 2 ^ 52 % 2048 = 2047 := by
  rw [← unpackExponent_toNat, ← BitVec.toNat_inj]
  rfl

/-- The exponent of an unpacked double has no bit set. -/
lemma unpackExponent_eq_zero_iff {x : Float} :
    @UnpackedFloat.unpackExponent .binary64 x.toModel.toBits.toBitVec = 0#11 ↔
      x.toBits.toNat / 2 ^ 52 % 2048 = 0 := by
  rw [← unpackExponent_toNat, ← BitVec.toNat_inj]
  rfl

/-- The fraction of an unpacked double has no bit set. -/
lemma unpackMantissa_eq_zero_iff {x : Float} :
    @UnpackedFloat.unpackMantissa .binary64 x.toModel.toBits.toBitVec = 0#52 ↔
      x.toBits.toNat % 2 ^ 52 = 0 := by
  rw [← unpackMantissa_toNat, ← BitVec.toNat_inj]
  rfl

/-- Unpacking a double gives what it decodes to, with zeros apart. -/
lemma unpack_eq (x : Float) :
    x.toModel.unpack = match decode x with
      | .nan => .notANumber
      | .infinite negative => .infinity (signOf negative)
      | .finite d =>
        if h : d.mantissa = 0 then .zero (signOf d.negative)
        else .finite (signOf d.negative) d.mantissa d.exponent (Nat.pos_of_ne_zero h) := by
  have hbias : (Float.Model.Format.exponentBias .binary64 : ℤ) = 1023 := rfl
  unfold Float.Model.unpack UnpackedFloat.unpack
  simp only [ofBitVec_unpackSign]
  rw [decode_eq]
  split
  · rename_i h
    rw [if_pos (unpackExponent_eq_neg_one_iff.mp h)]
    split
    · rename_i h'
      rw [if_pos (unpackMantissa_eq_zero_iff.mp h')]
    · rename_i h'
      rw [if_neg (mt unpackMantissa_eq_zero_iff.mpr h')]
  · rename_i h
    rw [if_neg (mt unpackExponent_eq_neg_one_iff.mpr h)]
    split
    · rename_i h'
      rw [if_pos (unpackExponent_eq_zero_iff.mp h')]
      dsimp only
      split
      · rename_i hm
        rw [dif_pos (unpackMantissa_eq_zero_iff.mp hm)]
      · rename_i hm
        rw [dif_neg (mt unpackMantissa_eq_zero_iff.mpr hm)]
        simp only [UnpackedFloat.finite.injEq, true_and]
        refine ⟨unpackMantissa_toNat x, ?_⟩
        rw [hbias, unpackExponent_toNat, unpackExponent_eq_zero_iff.mp h']
        rfl
    · rename_i h'
      rw [if_neg (mt unpackExponent_eq_zero_iff.mpr h')]
      dsimp only
      rw [dif_neg (by omega)]
      simp only [UnpackedFloat.finite.injEq, true_and]
      refine ⟨leading_unpackMantissa_toNat x, ?_⟩
      rw [hbias, unpackExponent_toNat]
      push_cast
      ring

/-- A finite double equals itself. -/
lemma beq_self_of_finite {x : Float} (h : isFinite x = true) : (x == x) = true := by
  have hunpack : ∀ u : UnpackedFloat, u ≠ .notANumber → u.beq u = true := by
    intro u hu
    cases u with
    | notANumber => exact absurd rfl hu
    | infinity s => cases s <;> rfl
    | zero s => rfl
    | finite s m e hm => cases s <;> simp [UnpackedFloat.beq, UnpackedFloat.compare]
  refine hunpack x.toModel.unpack ?_
  unfold isFinite at h
  rw [unpack_eq]
  split at h
  · rename_i d hd
    rw [hd]
    dsimp only
    split <;> simp
  · cases h

/-- Equal unpacked doubles of one sign are one. -/
lemma unpacked_eq_of_beq {u v : UnpackedFloat} (h : u.beq v = true)
    (hzero : ∀ s t, u = .zero s → v = .zero t → s = t) : u = v := by
  cases u with
  | notANumber => cases h
  | infinity s => cases v <;> cases s <;> first
      | (rename_i t; cases t <;> first | rfl | cases h)
      | cases h
  | zero s => cases v with
    | zero t => rw [hzero s t rfl rfl]
    | notANumber => cases h
    | infinity t => cases t <;> cases h
    | finite t m e hm => cases t <;> cases h
  | finite s m e hm => cases v with
    | zero t => cases s <;> cases h
    | notANumber => cases s <;> cases h
    | infinity t => cases s <;> cases t <;> cases h
    | finite t m' e' hm' =>
      cases s <;> cases t <;> first
        | (simp [UnpackedFloat.beq, UnpackedFloat.compare, Ordering.then_eq_eq] at h
           obtain ⟨rfl, rfl⟩ := h
           rfl)
        | cases h

/-- The sign of a finite double is its sign bit. -/
lemma negative_of_decode {x : Float} {d : Scaled} (h : decode x = .finite d) :
    d.negative = isNegative x := by
  rw [decode_eq] at h
  split at h
  · split at h <;> cases h
  · split at h <;> obtain rfl := Decoded.finite.inj h <;> rfl

/-- A double that equals a finite one is finite. -/
lemma isFinite_of_beq {x y : Float} (h : (x == y) = true) :
    isFinite x = isFinite y := by
  have hbeq : x.toModel.unpack.beq y.toModel.unpack = true := h
  rw [unpack_eq, unpack_eq] at hbeq
  unfold isFinite
  have hne : ∀ s : UnpackedFloat.Sign, ∀ u : UnpackedFloat, (∀ t, u ≠ .infinity t) →
      (UnpackedFloat.infinity s).beq u = false ∧ u.beq (UnpackedFloat.infinity s) = false := by
    intro s u hu
    cases u with
    | infinity t => exact absurd rfl (hu t)
    | notANumber => cases s <;> exact ⟨rfl, rfl⟩
    | zero t => cases s <;> exact ⟨rfl, rfl⟩
    | finite t m e hm => cases s <;> cases t <;> exact ⟨rfl, rfl⟩
  revert hbeq
  cases decode x <;> cases decode y <;> intro hbeq <;> try rfl
  · cases hbeq
  · rw [(hne _ _ (by intro t; dsimp only; split <;> simp)).1] at hbeq
    cases hbeq
  · dsimp only at hbeq
    split at hbeq
    · cases hbeq
    · rename_i m hm
      cases hs : signOf m.negative <;> rw [hs] at hbeq <;> cases hbeq
  · rw [(hne _ _ (by intro t; dsimp only; split <;> simp)).2] at hbeq
    cases hbeq

/-- Scaled mantissas of doubles that unpack alike and have one sign are one. -/
lemma Scaled.Canonical.eq_of_unpacked {d d' : Scaled} (hc : d.Canonical) (hc' : d'.Canonical)
    (hnegative : d.negative = d'.negative)
    (hsame : (if h : d.mantissa = 0 then UnpackedFloat.zero (signOf d.negative)
        else .finite (signOf d.negative) d.mantissa d.exponent (Nat.pos_of_ne_zero h)) =
      if h : d'.mantissa = 0 then .zero (signOf d'.negative)
        else .finite (signOf d'.negative) d'.mantissa d'.exponent (Nat.pos_of_ne_zero h)) :
    d = d' := by
  obtain ⟨negative, mantissa, exponent⟩ := d
  obtain ⟨negative', mantissa', exponent'⟩ := d'
  dsimp only at hnegative hsame
  rw [Scaled.mk.injEq]
  split at hsame <;> split at hsame
  · -- Zero has the least exponent, as all scaled mantissas without a leading bit.
    rename_i hm hm'
    have hleast := hc.leading (by dsimp only; omega)
    have hleast' := hc'.leading (by dsimp only; omega)
    dsimp only at hleast hleast'
    exact ⟨hnegative, by omega, by omega⟩
  · cases hsame
  · cases hsame
  · simp only [UnpackedFloat.finite.injEq] at hsame
    exact ⟨hnegative, hsame.2.1, hsame.2.2⟩

/-- **Equal doubles of one sign are one double.** -/
theorem eq_of_beq_of_isNegative {x y : Float} (h : (x == y) = true)
    (hsign : isNegative x = isNegative y) : x = y := by
  have hbeq : x.toModel.unpack.beq y.toModel.unpack = true := h
  cases hx : isFinite x with
  | false => exact eq_of_beq_of_not_finite h hx (isFinite_of_beq h ▸ hx)
  | true =>
    have hy : isFinite y = true := isFinite_of_beq h ▸ hx
    unfold isFinite at hx hy
    split at hx
    · rename_i d hd
      split at hy
      · rename_i d' hd'
        have hnegative : d.negative = d'.negative := by
          rw [negative_of_decode hd, negative_of_decode hd', hsign]
        rw [unpack_eq, unpack_eq, hd, hd'] at hbeq
        dsimp only at hbeq
        have hsame := unpacked_eq_of_beq hbeq (by
          intro s t hs ht
          split at hs <;> cases hs
          split at ht <;> cases ht
          rw [hnegative])
        have hscaled : d = d' :=
          (decode_canonical hd).eq_of_unpacked (decode_canonical hd') hnegative hsame
        exact decode_injective hd (hscaled ▸ hd')
      · cases hy
    · cases hx

/-- A double that is finite, or another double that is written like it. -/
def twin (x : Float) : Float :=
  if isFinite x then x else if isNaN x then infinity else notANumber

/-- A twin is written like the double. -/
lemma ofFloat_twin (x : Float) : Json.ofFloat (twin x) = Json.ofFloat x := by
  unfold twin
  cases hx : isFinite x
  · rcases eq_of_not_finite hx with rfl | rfl | rfl <;> rfl
  · rfl

/-- A double that equals its twin is finite. -/
lemma isFinite_of_twin_beq {x : Float} (h : (twin x == x) = true) : isFinite x = true := by
  cases hx : isFinite x
  · rcases eq_of_not_finite hx with rfl | rfl | rfl <;> exact absurd h (by decide)
  · rfl

end Lineage.Binary64
