import Lineage.Document.Types
import Lineage.Proofs.Number.Value
import Lineage.Proofs.Outcome

set_option autoImplicit false

/-!
# Limits of declared fields and limits of filters

The limits of a field are in its type from the start, those of a filter are put there later. For
doubles this comes to the same. Limits of whole numbers are rounded: a field cuts them toward zero,
a filter moves them inward. So a field whose least number is a fraction above zero, or whose
greatest one is a fraction below zero, admits one number more than a filter does.

## Main definitions

* `Lineage.Document.FieldType.IsInteger`, `Lineage.Document.FieldType.IsFloat`: fields of numbers.
* `Lineage.Document.FieldType.CutInward`: limits that cutting toward zero moves inward.

## Main results

* `Lineage.Binary64.truncate_eq_ceil_iff`, `Lineage.Binary64.truncate_eq_floor_iff`: when cutting a
  double toward zero raises it, and when it lowers it.
* `Lineage.Document.FieldType.toTy_eq_narrow_iff`: when a declared type is a narrowed one.
-/

namespace Lineage

open Number (least64 greatest64)

/-! ### Cutting toward zero -/

namespace Binary64

variable {d : Scaled} {x y : Float}

/-- A double stands for a whole number. -/
def IsWhole (x : Float) : Prop := ∃ n : ℤ, real x = ((n : ℝ) : EReal)

/-- A finite double stands for a whole number if its value is one. -/
lemma isWhole_iff (h : decode x = .finite d) : IsWhole x ↔ ∃ n : ℤ, d.value = n := by
  unfold IsWhole
  rw [real_of_finite h]
  refine exists_congr fun n => ?_
  rw [EReal.coe_eq_coe_iff, ← Rat.cast_intCast, Rat.cast_inj]

/-- A finite double is below zero if its value is. -/
lemma real_neg_iff (h : decode x = .finite d) : real x < 0 ↔ d.value < 0 := by
  rw [real_of_finite h, ← EReal.coe_zero, EReal.coe_lt_coe_iff, Rat.cast_lt_zero]

/-- A finite double is above zero if its value is. -/
lemma real_pos_iff (h : decode x = .finite d) : 0 < real x ↔ 0 < d.value := by
  rw [real_of_finite h, ← EReal.coe_zero, EReal.coe_lt_coe_iff, Rat.cast_pos]

/-- The whole numbers on both sides of a number that is none differ, also where they are moved into
64 bits. -/
lemma Scaled.Canonical.ceil_of_fraction (h : d.Canonical) (hfraction : ¬∃ n : ℤ, d.value = n) :
    ⌈d.value⌉ = ⌊d.value⌋ + 1 ∧ least64 ≤ ⌊d.value⌋ ∧ ⌈d.value⌉ ≤ greatest64 := by
  have hsmall := abs_lt.mp (h.whole_or_small.resolve_left hfraction)
  refine ⟨?_, ?_, ?_⟩
  · refine (Int.ceil_eq_floor_add_one_iff_notMem d.value).mpr ?_
    rintro ⟨n, hn⟩
    exact hfraction ⟨n, hn.symm⟩
  · rw [Int.le_floor]
    exact le_trans (by norm_num [least64]) hsmall.1.le
  · rw [Int.ceil_le]
    exact hsmall.2.le.trans (by norm_num [greatest64])

/-- The whole numbers on both sides of a whole number are the same. -/
lemma ceil_eq_floor_of_whole {q : ℚ} (h : ∃ n : ℤ, q = n) : ⌈q⌉ = ⌊q⌋ := by
  obtain ⟨n, rfl⟩ := h
  rw [Int.ceil_intCast, Int.floor_intCast]

/-- **Cutting a double toward zero raises it** to the next whole number exactly if it is whole or
below zero.

**Proof sketch.** Below zero, cutting takes the next whole number above, and else the one
below. These are one number if the double is whole, and otherwise two, also after they are
moved into 64 bits (`Scaled.Canonical.ceil_of_fraction`). -/
theorem truncate_eq_ceil_iff (hx : isFinite x = true) :
    truncate least64 greatest64 x = ceil least64 greatest64 x ↔ IsWhole x ∨ real x < 0 := by
  obtain ⟨d, hd⟩ := isFinite_eq_true.mp hx
  rw [truncate_eq hd, ceil_eq hd, isWhole_iff hd, real_neg_iff hd]
  by_cases hneg : d.value < 0
  · simp [hneg]
  · rw [if_neg hneg]
    by_cases hwhole : ∃ n : ℤ, d.value = n
    · simp [hwhole, ceil_eq_floor_of_whole hwhole]
    · obtain ⟨hstep, hlow, hhigh⟩ := (decode_canonical hd).ceil_of_fraction hwhole
      refine iff_of_false ?_ (not_or.mpr ⟨hwhole, hneg⟩)
      omega

/-- **Cutting a double toward zero lowers it** to the next whole number exactly if it is whole or
above zero. -/
theorem truncate_eq_floor_iff (hx : isFinite x = true) :
    truncate least64 greatest64 x = floor least64 greatest64 x ↔ IsWhole x ∨ 0 < real x := by
  obtain ⟨d, hd⟩ := isFinite_eq_true.mp hx
  rw [truncate_eq hd, floor_eq hd, isWhole_iff hd, real_pos_iff hd]
  by_cases hwhole : ∃ n : ℤ, d.value = n
  · simp [hwhole, ceil_eq_floor_of_whole hwhole]
  · by_cases hneg : d.value < 0
    · obtain ⟨hstep, hlow, hhigh⟩ := (decode_canonical hd).ceil_of_fraction hwhole
      rw [if_pos hneg]
      refine iff_of_false ?_ (not_or.mpr ⟨hwhole, hneg.le.not_gt⟩)
      omega
    · have hpos : 0 < d.value := (not_lt.mp hneg).lt_of_ne fun hzero =>
        hwhole ⟨0, hzero.symm.trans Int.cast_zero.symm⟩
      simp [hneg, hpos]

/-- The greatest number of finite doubles is at least each of them. -/
lemma greater_smallest (hx : isFinite x = true) : greater x smallest = x := by
  have hnumber := isNaN_of_finite hx
  have hsmallest : isNaN smallest = false := by decide +kernel
  have hbound := (le_iff_real_le hsmallest hnumber).mp (finite_bounds hx).1
  rw [greater, hnumber, hsmallest, if_neg Bool.false_ne_true, if_neg Bool.false_ne_true,
    if_neg (mt (lt_iff_real_lt hnumber hsmallest).mp (not_lt.mpr hbound))]

/-- The least number of finite doubles is at most each of them. -/
lemma lesser_largest (hx : isFinite x = true) : lesser x largest = x := by
  have hnumber := isNaN_of_finite hx
  have hlargest : isNaN largest = false := by decide +kernel
  have hbound := (le_iff_real_le hnumber hlargest).mp (finite_bounds hx).2
  rw [lesser, hnumber, hlargest, if_neg Bool.false_ne_true, if_neg Bool.false_ne_true,
    if_neg (mt (lt_iff_real_lt hlargest hnumber).mp (not_lt.mpr hbound))]

end Binary64

/-! ### Fields of numbers -/

namespace Document

open Binary64

namespace FieldType

variable {f : FieldType}

/-- The words for whole numbers. -/
def integerWords : List String := ["integer", "int", "int64", "i64"]

/-- The words for doubles. -/
def floatWords : List String := ["float", "float64", "f64"]

/-- A field of whole numbers. -/
def IsInteger (f : FieldType) : Prop := Text.lowerAscii f.type ∈ integerWords

/-- A field of doubles. -/
def IsFloat (f : FieldType) : Prop := Text.lowerAscii f.type ∈ floatWords

instance : Decidable f.IsInteger := inferInstanceAs (Decidable (_ ∈ _))

instance : Decidable f.IsFloat := inferInstanceAs (Decidable (_ ∈ _))

/-- The type of values that may be absent. -/
def marked (f : FieldType) (t : Ty) : Ty := if f.nullable then .optional t else t

/-- The field without its limits. -/
def withoutLimits (f : FieldType) : FieldType := { f with least := none, greatest := none }

/-- The limits of a field are finite numbers. -/
structure FiniteLimits (f : FieldType) : Prop where
  /-- The least number is finite. -/
  least : ∀ v, f.least = some v → isFinite v = true
  /-- The greatest number is finite. -/
  greatest : ∀ v, f.greatest = some v → isFinite v = true

/-- Cutting the limits of a field toward zero moves them inward. -/
structure CutInward (f : FieldType) : Prop where
  /-- The least number is whole, or below zero. -/
  least : ∀ v, f.least = some v → IsWhole v ∨ real v < 0
  /-- The greatest number is whole, or above zero. -/
  greatest : ∀ v, f.greatest = some v → IsWhole v ∨ 0 < real v

/-- The type of a field of whole numbers. -/
lemma toTy_of_isInteger (h : f.IsInteger) : f.toTy = .ok (f.marked f.integers) := by
  have hpresent : f.present = .ok f.integers := by
    unfold present
    simp only [IsInteger, integerWords, List.mem_cons, List.not_mem_nil, or_false] at h
    rcases h with h | h | h | h <;> simp [h]
  rw [toTy, hpresent]
  rfl

/-- The type of a field of doubles. -/
lemma toTy_of_isFloat (h : f.IsFloat) :
    f.toTy = .ok (f.marked (.float (f.least.getD smallest) (f.greatest.getD largest))) := by
  have hpresent :
      f.present = .ok (.float (f.least.getD smallest) (f.greatest.getD largest)) := by
    unfold present
    simp only [IsFloat, floatWords, List.mem_cons, List.not_mem_nil, or_false] at h
    rcases h with h | h | h <;> simp [h]
  rw [toTy, hpresent]
  rfl

/-- No field is one of whole numbers and one of doubles. -/
lemma not_isInteger (h : f.IsFloat) : ¬f.IsInteger := by
  simp only [IsFloat, floatWords, IsInteger, integerWords, List.mem_cons, List.not_mem_nil,
    or_false] at h ⊢
  rcases h with h | h | h <;> simp [h]

/-- Values that may be absent are narrowed like those that are there. -/
lemma narrow_marked (b : Bound) (full : String) (f : FieldType) (t : Ty) :
    narrow b full (f.marked t) [] = (narrow b full t []).map f.marked := by
  unfold marked
  cases f.nullable with
  | true => rfl
  | false =>
    simp only [Bool.false_eq_true, if_false]
    cases narrow b full t [] <;> rfl

/-- The type of all whole numbers within limits. -/
lemma narrow_integers (b : Bound) (full : String) (f : FieldType) :
    narrow b full (f.marked (.integer least64 greatest64)) [] =
      .ok (f.marked (.integer ((b.least.map fun v => max (Bound.wholeLeast v) least64).getD least64)
        ((b.greatest.map fun v => min (Bound.wholeGreatest v) greatest64).getD greatest64))) := by
  rw [narrow_marked]
  rfl

/-- The type of all finite doubles within limits. -/
lemma narrow_floats (b : Bound) (full : String) (f : FieldType) :
    narrow b full (f.marked (.float smallest largest)) [] =
      .ok (f.marked (.float ((b.least.map fun v => greater v smallest).getD smallest)
        ((b.greatest.map fun v => lesser v largest).getD largest))) := by
  rw [narrow_marked]
  rfl

/-- Types of values that may be absent are the same if those of the values are. -/
lemma marked_inj {t u : Ty} : f.marked t = f.marked u ↔ t = u := by
  unfold marked
  cases f.nullable <;> simp [Ty.optional, Ty.wrap]

/-- The least whole number of a field, and the least one after narrowing to its limits. -/
lemma least_eq_iff (hfinite : f.FiniteLimits) :
    (f.least.map (truncate least64 greatest64)).getD least64 =
        (f.least.map fun v => max (Bound.wholeLeast v) least64).getD least64 ↔
      ∀ v, f.least = some v → IsWhole v ∨ real v < 0 := by
  cases h : f.least with
  | none => simp
  | some v =>
    have hbelow : least64 ≤ Bound.wholeLeast v := by
      obtain ⟨d, hd⟩ := isFinite_eq_true.mp (hfinite.least v h)
      rw [Bound.wholeLeast, ceil_eq hd]
      exact le_max_left _ _
    simp only [Option.map_some, Option.getD_some, max_eq_left hbelow, Option.some.injEq,
      forall_eq']
    exact truncate_eq_ceil_iff (hfinite.least v h)

/-- The greatest whole number of a field, and the greatest one after narrowing to its limits. -/
lemma greatest_eq_iff (hfinite : f.FiniteLimits) :
    (f.greatest.map (truncate least64 greatest64)).getD greatest64 =
        (f.greatest.map fun v => min (Bound.wholeGreatest v) greatest64).getD greatest64 ↔
      ∀ v, f.greatest = some v → IsWhole v ∨ 0 < real v := by
  cases h : f.greatest with
  | none => simp
  | some v =>
    have habove : Bound.wholeGreatest v ≤ greatest64 := by
      obtain ⟨d, hd⟩ := isFinite_eq_true.mp (hfinite.greatest v h)
      rw [Bound.wholeGreatest, floor_eq hd]
      exact max_le (by decide) (min_le_left _ _)
    simp only [Option.map_some, Option.getD_some, min_eq_left habove, Option.some.injEq,
      forall_eq']
    exact truncate_eq_floor_iff (hfinite.greatest v h)

/-- The whole numbers of a field, and all of them narrowed to its limits. -/
lemma integers_eq_iff (hfinite : f.FiniteLimits) :
    f.integers = .integer
        ((f.least.map fun v => max (Bound.wholeLeast v) least64).getD least64)
        ((f.greatest.map fun v => min (Bound.wholeGreatest v) greatest64).getD greatest64) ↔
      f.CutInward := by
  simp only [integers, Ty.integer, Ty.ofLeaf, Ty.leaf.injEq, Leaf.integer.injEq, true_and,
    and_true, least_eq_iff hfinite, greatest_eq_iff hfinite]
  exact ⟨fun h => ⟨h.1, h.2⟩, fun h => ⟨h.least, h.greatest⟩⟩

/-- All finite doubles narrowed to the limits of a field. -/
lemma floats_eq (hfinite : f.FiniteLimits) :
    Ty.float ((f.least.map fun v => greater v smallest).getD smallest)
        ((f.greatest.map fun v => lesser v largest).getD largest) =
      .float (f.least.getD smallest) (f.greatest.getD largest) := by
  have hleast : (f.least.map fun v => greater v smallest).getD smallest =
      f.least.getD smallest := by
    cases h : f.least with
    | none => rfl
    | some v => exact greater_smallest (hfinite.least v h)
  have hgreatest : (f.greatest.map fun v => lesser v largest).getD largest =
      f.greatest.getD largest := by
    cases h : f.greatest with
    | none => rfl
    | some v => exact lesser_largest (hfinite.greatest v h)
  rw [hleast, hgreatest]

/-- **Declared limits and limits of filters.** A field of numbers with finite limits has a type, and
so it has without them; narrowing the latter to the same limits gives a type as well. The two types
are the same for doubles, and for whole numbers exactly if cutting the limits toward zero moves them
inward.

**Proof sketch.** For whole numbers the declared limits are cut toward zero and those of the
filter are moved inward (`integers_eq_iff`). For doubles narrowing takes the limits as they
are, since the limits of all finite doubles lie outside of them (`floats_eq`). -/
theorem toTy_eq_narrow_iff (hnumbers : f.IsInteger ∨ f.IsFloat) (hfinite : f.FiniteLimits)
    (names : Option (List String)) (full : String) :
    ∃ declared bare narrowed, f.toTy = .ok declared ∧ f.withoutLimits.toTy = .ok bare ∧
      narrow ⟨f.least, f.greatest, names⟩ full bare [] = .ok narrowed ∧
      (declared = narrowed ↔ (f.IsInteger → f.CutInward)) := by
  rcases hnumbers with hinteger | hfloat
  · refine ⟨_, _, _, toTy_of_isInteger hinteger,
      toTy_of_isInteger (f := f.withoutLimits) hinteger, narrow_integers _ full f, ?_⟩
    rw [marked_inj, forall_prop_of_true hinteger]
    exact integers_eq_iff hfinite
  · refine ⟨_, _, _, toTy_of_isFloat hfloat, toTy_of_isFloat (f := f.withoutLimits) hfloat,
      narrow_floats _ full f, ?_⟩
    exact iff_of_true (floats_eq hfinite ▸ rfl) fun hinteger =>
      absurd hinteger (not_isInteger hfloat)

/-- A field of whole numbers that may be absent, whose limits are cut inward. -/
theorem toTy_eq_narrow_iff_around_zero :
    let f : FieldType := ⟨"balance", "Int64", true, some (-2.5), some 2.5, [], false, none⟩
    ∃ declared bare narrowed, f.toTy = .ok declared ∧ f.withoutLimits.toTy = .ok bare ∧
      narrow ⟨f.least, f.greatest, none⟩ "balance" bare [] = .ok narrowed ∧
      (declared = narrowed ↔ (f.IsInteger → f.CutInward)) := by
  intro f
  refine toTy_eq_narrow_iff (.inl (by decide)) ⟨?_, ?_⟩ none "balance"
  · rintro _ ⟨⟩
    decide +kernel
  · rintro _ ⟨⟩
    decide +kernel

/-- A declared least number of one half is cut to zero, that of a filter is moved to one. -/
theorem toTy_ne_narrow_of_half :
    let f : FieldType := ⟨"units", "integer", false, some 0.5, none, [], false, none⟩
    f.toTy = .ok (.integer 0 greatest64) ∧
      (f.withoutLimits.toTy.bind fun bare => narrow ⟨f.least, f.greatest, none⟩ "units" bare []) =
        .ok (.integer 1 greatest64) ∧
      Ty.integer 0 greatest64 ≠ .integer 1 greatest64 := by
  intro f
  have hinteger : f.IsInteger := by decide
  have hcut : truncate least64 greatest64 0.5 = 0 := by decide +kernel
  have hmoved : Bound.wholeLeast 0.5 = 1 := by decide +kernel
  refine ⟨?_, ?_, ?_⟩
  · rw [toTy_of_isInteger hinteger]
    simp [f, marked, integers, hcut]
  · rw [toTy_of_isInteger (f := f.withoutLimits) hinteger]
    refine (narrow_integers _ "units" f).trans ?_
    simp [f, marked, hmoved, least64]
  · simp [Ty.integer, Ty.ofLeaf]

end FieldType

end Document

end Lineage
