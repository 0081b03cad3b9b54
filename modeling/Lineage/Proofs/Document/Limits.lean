import Lineage.Document.Types
import Lineage.Proofs.Number.Value
import Lineage.Proofs.Ty.Marks

set_option autoImplicit false

/-!
# Values within limits

The limits of a filter are doubles. A leaf that is narrowed to them admits the values that it
admitted before and that are within the limits as real numbers, although the limits of whole numbers
are moved inward to whole numbers of 64 bits.

## Main definitions

* `Lineage.Document.Bound.Admits`: the value of a leaf is within limits.
* `Lineage.Document.Bound.InRange`: limits that are numbers of 64 bits.

## Main results

* `Lineage.Document.Bound.wholeLeast_le_iff`, `Lineage.Document.Bound.le_wholeGreatest_iff`: whole
  numbers and limits that were moved inward.
* `Lineage.Document.Bound.leafAdmits_iff`: what a narrowed leaf admits.
-/

namespace Lineage.Document.Bound

open Number (least64 greatest64)
open Binary64 (real isFinite isNaN decode)

variable {b : Bound} {full : String} {x y : Float} {n : ℤ}

/-- A number lies between limits. -/
structure Spans (b : Bound) (v : EReal) : Prop where
  /-- It is not below the least number. -/
  least : ∀ lo, b.least = some lo → real lo ≤ v
  /-- It is not above the greatest number. -/
  greatest : ∀ hi, b.greatest = some hi → v ≤ real hi

/-- A name is listed, or none are. -/
def Lists (b : Bound) (name : String) : Prop := ∀ names, b.names = some names → name ∈ names

/-- The value of a leaf is within limits: a number lies between them, a name is listed. -/
def Admits (b : Bound) (cell : Cell) : Leaf → Prop
  | .integer .. => ∃ n : ℤ, cell = .int n ∧ b.Spans ((n : ℝ) : EReal)
  | .float .. => ∃ x, cell = .float x ∧ isNaN x = false ∧ b.Spans (real x)
  | .enum .. => ∃ name, cell = .text name ∧ b.Lists name
  | _ => False

/-- A limit is finite and in the range of whole numbers of 64 bits. -/
def InRange (x : Float) : Prop :=
  isFinite x = true ∧ ((-2 ^ 63 : ℝ) : EReal) ≤ real x ∧ real x < ((2 ^ 63 : ℝ) : EReal)

/-- The value of a limit in range. -/
lemma InRange.exists_value (h : InRange x) : ∃ d, decode x = .finite d ∧
    real x = ((d.value : ℝ) : EReal) ∧ (-2 ^ 63 : ℚ) ≤ d.value ∧ d.value < 2 ^ 63 := by
  obtain ⟨hfinite, hleast, hgreatest⟩ := h
  obtain ⟨d, hd⟩ := Binary64.isFinite_eq_true.mp hfinite
  rw [Binary64.real_of_finite hd, EReal.coe_le_coe_iff] at hleast
  rw [Binary64.real_of_finite hd, EReal.coe_lt_coe_iff] at hgreatest
  exact ⟨d, hd, Binary64.real_of_finite hd, by exact_mod_cast hleast, by exact_mod_cast hgreatest⟩

/-- A double is in range if its value is. -/
lemma inRange_of_value {d : Binary64.Scaled} (h : decode x = .finite d)
    (hleast : (-2 ^ 63 : ℚ) ≤ d.value) (hgreatest : d.value < 2 ^ 63) : InRange x := by
  refine ⟨Binary64.isFinite_eq_true.mpr ⟨d, h⟩, ?_, ?_⟩
  · rw [Binary64.real_of_finite h, EReal.coe_le_coe_iff]
    exact_mod_cast hleast
  · rw [Binary64.real_of_finite h, EReal.coe_lt_coe_iff]
    exact_mod_cast hgreatest

/-- **A whole number is not below a limit** exactly if it is not below the limit moved inward. -/
lemma wholeLeast_le_iff (h : InRange x) : wholeLeast x ≤ n ↔ real x ≤ ((n : ℝ) : EReal) := by
  obtain ⟨d, hd, hreal, hleast, hgreatest⟩ := h.exists_value
  have hlow : least64 ≤ ⌈d.value⌉ := by
    have hle : ((-2 ^ 63 : ℤ) : ℚ) ≤ (⌈d.value⌉ : ℚ) := by
      push_cast
      exact hleast.trans (Int.le_ceil _)
    exact Int.cast_le.mp hle
  have hhigh : ⌈d.value⌉ ≤ greatest64 := by
    rcases (Binary64.decode_canonical hd).whole_or_small with ⟨m, hm⟩ | hsmall
    · rw [hm, Int.ceil_intCast]
      rw [hm] at hgreatest
      have hlt : m < 2 ^ 63 := by exact_mod_cast hgreatest
      unfold greatest64
      omega
    · rw [Int.ceil_le]
      exact (abs_lt.mp hsmall).2.le.trans (by norm_num [greatest64])
  rw [wholeLeast, Binary64.ceil_eq hd, min_eq_right hhigh, max_eq_right hlow, Int.ceil_le, hreal,
    EReal.coe_le_coe_iff]
  exact_mod_cast Iff.rfl

/-- **A whole number is not above a limit** exactly if it is not above the limit moved inward. -/
lemma le_wholeGreatest_iff (h : InRange x) : n ≤ wholeGreatest x ↔ ((n : ℝ) : EReal) ≤ real x := by
  obtain ⟨d, hd, hreal, hleast, hgreatest⟩ := h.exists_value
  have hlow : least64 ≤ ⌊d.value⌋ := by
    rw [Int.le_floor]
    exact_mod_cast hleast
  have hhigh : ⌊d.value⌋ ≤ greatest64 := by
    have hlt : ⌊d.value⌋ < 2 ^ 63 := by
      rw [Int.floor_lt]
      exact_mod_cast hgreatest
    unfold greatest64
    omega
  rw [wholeGreatest, Binary64.floor_eq hd, min_eq_right hhigh, max_eq_right hlow, Int.le_floor,
    hreal, EReal.coe_le_coe_iff]
  exact_mod_cast Iff.rfl

/-- Whole numbers between limits that were narrowed. -/
lemma integer_bounds_iff {lo hi : ℤ} (hleast : ∀ v, b.least = some v → InRange v)
    (hgreatest : ∀ v, b.greatest = some v → InRange v) :
    (b.least.map fun v => max (wholeLeast v) lo).getD lo ≤ n ∧
        n ≤ (b.greatest.map fun v => min (wholeGreatest v) hi).getD hi ↔
      (lo ≤ n ∧ n ≤ hi) ∧ b.Spans ((n : ℝ) : EReal) := by
  have hlow : (b.least.map fun v => max (wholeLeast v) lo).getD lo ≤ n ↔
      lo ≤ n ∧ ∀ v, b.least = some v → real v ≤ ((n : ℝ) : EReal) := by
    cases h : b.least with
    | none => simp
    | some v => simp [wholeLeast_le_iff (hleast v h), and_comm]
  have hhigh : n ≤ (b.greatest.map fun v => min (wholeGreatest v) hi).getD hi ↔
      n ≤ hi ∧ ∀ v, b.greatest = some v → ((n : ℝ) : EReal) ≤ real v := by
    cases h : b.greatest with
    | none => simp
    | some v => simp [le_wholeGreatest_iff (hgreatest v h), and_comm]
  rw [hlow, hhigh]
  exact ⟨fun ⟨⟨h₁, h₂⟩, h₃, h₄⟩ => ⟨⟨h₁, h₃⟩, h₂, h₄⟩, fun ⟨⟨h₁, h₃⟩, h₂, h₄⟩ => ⟨⟨h₁, h₂⟩, h₃, h₄⟩⟩

/-- Doubles between limits that were narrowed. -/
lemma float_bounds_iff {lo hi : Float} (hlo : isNaN lo = false) (hhi : isNaN hi = false)
    (hleast : ∀ v, b.least = some v → InRange v)
    (hgreatest : ∀ v, b.greatest = some v → InRange v) :
    (b.least.map fun v => Binary64.greater v lo).getD lo ≤ x ∧
        x ≤ (b.greatest.map fun v => Binary64.lesser v hi).getD hi ↔
      (lo ≤ x ∧ x ≤ hi) ∧ isNaN x = false ∧ b.Spans (real x) := by
  have hlow : (b.least.map fun v => Binary64.greater v lo).getD lo ≤ x ↔
      lo ≤ x ∧ ∀ v, b.least = some v → v ≤ x := by
    cases h : b.least with
    | none => simp
    | some v =>
      have hnumber := Binary64.isNaN_of_finite (hleast v h).1
      simp [Binary64.greater_le_iff hnumber hlo, and_comm]
  have hhigh : x ≤ (b.greatest.map fun v => Binary64.lesser v hi).getD hi ↔
      x ≤ hi ∧ ∀ v, b.greatest = some v → x ≤ v := by
    cases h : b.greatest with
    | none => simp
    | some v =>
      have hnumber := Binary64.isNaN_of_finite (hgreatest v h).1
      simp [Binary64.le_lesser_iff hnumber hhi, and_comm]
  rw [hlow, hhigh]
  constructor
  · rintro ⟨⟨h₁, h₂⟩, h₃, h₄⟩
    have hx := (Binary64.not_nan_of_le h₁).2
    refine ⟨⟨h₁, h₃⟩, hx, fun v hv => ?_, fun v hv => ?_⟩
    · exact (Binary64.le_iff_real_le (Binary64.isNaN_of_finite (hleast v hv).1) hx).mp (h₂ v hv)
    · exact (Binary64.le_iff_real_le hx (Binary64.isNaN_of_finite (hgreatest v hv).1)).mp (h₄ v hv)
  · rintro ⟨⟨h₁, h₃⟩, hx, h₂, h₄⟩
    refine ⟨⟨h₁, fun v hv => ?_⟩, h₃, fun v hv => ?_⟩
    · exact (Binary64.le_iff_real_le (Binary64.isNaN_of_finite (hleast v hv).1) hx).mpr (h₂ v hv)
    · exact (Binary64.le_iff_real_le hx (Binary64.isNaN_of_finite (hgreatest v hv).1)).mpr (h₄ v hv)

/-- A name stays exactly if it is listed. -/
lemma keeps_iff {name : String} : b.keeps name = true ↔ b.Lists name := by
  unfold keeps Lists
  cases b.names <;> simp

/-- The values of a leaf that has numbers or names. -/
lemma exists_value_of_narrowLeaf {content content' : Leaf} {cell : Cell}
    (h : b.narrowLeaf full content = .ok content')
    (hfits : Cell.Fits (Ty.leafColumn content).1 cell) (hpresent : cell.isNull = false) :
    (∃ lo hi base n, content = .integer lo hi base ∧ cell = .int n) ∨
      (∃ lo hi base x, content = .float lo hi base ∧ cell = .float x) ∨
      ∃ nameValues ordered name, content = .enum nameValues ordered ∧ cell = .text name := by
  cases content with
  | integer lo hi base =>
    obtain ⟨width, hwidth, -⟩ := Ty.leafColumn_integer lo hi base
    rw [hwidth] at hfits
    have hvalue := hfits.of_scalar hpresent
    cases cell with
    | int n => exact .inl ⟨lo, hi, base, n, rfl, rfl⟩
    | _ => exact hvalue.elim
  | float lo hi base =>
    cases base <;>
    · have hvalue := hfits.of_scalar hpresent
      cases cell with
      | float x => exact .inr (.inl ⟨lo, hi, _, x, rfl, rfl⟩)
      | _ => exact hvalue.elim
  | enum nameValues ordered =>
    have hvalue := hfits.of_scalar hpresent
    cases cell with
    | text name => exact .inr (.inr ⟨nameValues, ordered, name, rfl, rfl⟩)
    | _ => exact hvalue.elim
  | _ => cases h

/-- **What a narrowed leaf admits**: what the leaf admits and is within the limits. -/
theorem leafAdmits_iff {content content' : Leaf} {cell : Cell}
    (hleast : ∀ v, b.least = some v → InRange v)
    (hgreatest : ∀ v, b.greatest = some v → InRange v)
    (hnumbers : ∀ lo hi base, content = .float lo hi base → isNaN lo = false ∧ isNaN hi = false)
    (h : b.narrowLeaf full content = .ok content')
    (hfits : Cell.Fits (Ty.leafColumn content).1 cell) (hpresent : cell.isNull = false) :
    Ty.LeafAdmits content' cell ↔ Ty.LeafAdmits content cell ∧ b.Admits cell content := by
  rcases exists_value_of_narrowLeaf h hfits hpresent with
    ⟨lo, hi, base, n, rfl, rfl⟩ | ⟨lo, hi, base, x, rfl, rfl⟩ | ⟨entries, ordered, name, rfl, rfl⟩
  · cases h
    refine (integer_bounds_iff hleast hgreatest).trans (and_congr_right fun _ => ?_)
    simp [Admits]
  · cases h
    obtain ⟨hlo, hhi⟩ := hnumbers lo hi base rfl
    refine (float_bounds_iff hlo hhi hleast hgreatest).trans (and_congr_right fun _ => ?_)
    simp [Admits]
  · cases h
    simp [Ty.LeafAdmits, Admits, keeps_iff]

end Lineage.Document.Bound
