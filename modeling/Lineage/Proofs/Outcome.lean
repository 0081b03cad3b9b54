import Mathlib.Data.List.Forall2
import Lineage.Fault

set_option autoImplicit false

/-!
# Outcomes of computations

## Main results

* `Lineage.Outcome.bind_eq_ok`, `Lineage.Outcome.map_eq_ok`, `Lineage.Outcome.ofOption_eq_ok`: when
  a computation put together from others succeeds.
* `Lineage.Outcome.mapM_eq_ok`, `Lineage.Outcome.forM_eq_ok`: the same for lists of computations.
* `Lineage.Outcome.foldlM_induction`: invariants of loops.
-/

namespace Lineage.Outcome

variable {α β : Type}

/-- After a value the computation goes on. -/
@[simp]
lemma ok_bind (a : α) (f : α → Outcome β) : ((.ok a : Outcome α) >>= f) = f a := rfl

/-- After a fault nothing is computed. -/
@[simp]
lemma error_bind (fault : Fault) (f : α → Outcome β) :
    ((.error fault : Outcome α) >>= f) = .error fault := rfl

/-- One computation after another succeeds if both do. -/
lemma bind_eq_ok {x : Outcome α} {f : α → Outcome β} {b : β} :
    (x >>= f) = .ok b ↔ ∃ a, x = .ok a ∧ f a = .ok b := by
  cases x with
  | error fault => simp [bind, Except.bind]
  | ok a => simp [bind, Except.bind]

/-- A computation that only changes the value of another. -/
lemma bind_ok (x : Outcome α) (f : α → β) : (x >>= fun a => .ok (f a)) = x.map f := by
  cases x <;> rfl

/-- A changed outcome is a value if the outcome is. -/
lemma map_eq_ok {x : Outcome α} {f : α → β} {b : β} :
    x.map f = .ok b ↔ ∃ a, x = .ok a ∧ f a = b := by
  cases x with
  | error fault => simp [Except.map]
  | ok a => simp [Except.map]

/-- A value that was looked for is the outcome if it was found. -/
lemma ofOption_eq_ok {fault : Fault} {x : Option α} {a : α} :
    ofOption fault x = .ok a ↔ x = some a := by
  cases x <;> simp [ofOption]

/-- Computations on the items of a list succeed if the first and the others do. -/
lemma mapM_cons_eq_ok {f : α → Outcome β} {a : α} {as : List α} {bs : List β} :
    (a :: as).mapM f = .ok bs ↔
      ∃ b bs', f a = .ok b ∧ as.mapM f = .ok bs' ∧ bs = b :: bs' := by
  rw [List.mapM_cons, bind_eq_ok]
  constructor
  · rintro ⟨b, hb, hrest⟩
    obtain ⟨bs', hbs, heq⟩ := bind_eq_ok.mp hrest
    exact ⟨b, bs', hb, hbs, (Except.ok.inj heq).symm⟩
  · rintro ⟨b, bs', hb, hbs, rfl⟩
    exact ⟨b, hb, bind_eq_ok.mpr ⟨bs', hbs, rfl⟩⟩

/-- Computations on the items of a list succeed with results that belong to the items. -/
lemma mapM_eq_ok {f : α → Outcome β} {as : List α} {bs : List β} :
    as.mapM f = .ok bs ↔ List.Forall₂ (fun a b => f a = .ok b) as bs := by
  induction as generalizing bs with
  | nil =>
    rw [List.mapM_nil]
    constructor
    · rintro ⟨⟩
      exact .nil
    · rintro ⟨⟩
      rfl
  | cons a as ih =>
    rw [mapM_cons_eq_ok]
    constructor
    · rintro ⟨b, bs', hb, hbs, rfl⟩
      exact .cons hb (ih.mp hbs)
    · rintro (_ | ⟨hb, hbs⟩)
      exact ⟨_, _, hb, ih.mpr hbs, rfl⟩

/-- Computations on the items of a list succeed with given results if each of them does. -/
lemma mapM_eq_map {f : α → Outcome β} {g : α → β} {as : List α} (h : ∀ a ∈ as, f a = .ok (g a)) :
    as.mapM f = .ok (as.map g) := by
  rw [mapM_eq_ok, List.forall₂_map_right_iff]
  exact List.forall₂_same.mpr h

/-- Computations on the items of a list succeed only if each of them does. -/
lemma exists_of_mapM_eq_ok {f : α → Outcome β} {as : List α} {bs : List β}
    (h : as.mapM f = .ok bs) {a : α} (ha : a ∈ as) : ∃ b, f a = .ok b := by
  induction as generalizing bs with
  | nil => cases ha
  | cons a' as ih =>
    obtain ⟨b, bs', hb, hbs, -⟩ := mapM_cons_eq_ok.mp h
    rcases List.mem_cons.mp ha with rfl | ha
    · exact ⟨b, hb⟩
    · exact ih hbs ha

/-- Computations on the items of a list succeed if and only if each of them does. -/
lemma exists_mapM_eq_ok_iff {f : α → Outcome β} {as : List α} :
    (∃ bs, as.mapM f = .ok bs) ↔ ∀ a ∈ as, ∃ b, f a = .ok b := by
  refine ⟨fun ⟨bs, h⟩ a ha => exists_of_mapM_eq_ok h ha, fun h => ?_⟩
  induction as with
  | nil => exact ⟨[], rfl⟩
  | cons a as ih =>
    obtain ⟨⟨b, hb⟩, hrest⟩ := List.forall_mem_cons.mp h
    obtain ⟨bs, hbs⟩ := ih hrest
    exact ⟨b :: bs, mapM_cons_eq_ok.mpr ⟨b, bs, hb, hbs, rfl⟩⟩

/-- Computations on the items of a list that can only fail with one fault succeed, or fail with this
fault because one of them does. -/
lemma mapM_eq_ok_or_eq_error {f : α → Outcome β} {fault : Fault} {as : List α}
    (h : ∀ a ∈ as, (∃ b, f a = .ok b) ∨ f a = .error fault) :
    (∃ bs, as.mapM f = .ok bs) ∨ (as.mapM f = .error fault ∧ ∃ a ∈ as, f a = .error fault) := by
  induction as with
  | nil => exact Or.inl ⟨[], rfl⟩
  | cons a as ih =>
    obtain ⟨hfirst, hrest⟩ := List.forall_mem_cons.mp h
    rw [List.mapM_cons]
    rcases hfirst with ⟨b, hb⟩ | hfault
    · rw [hb, ok_bind]
      rcases ih hrest with ⟨bs, hbs⟩ | ⟨hfault, a', ha', herror⟩
      · rw [hbs]
        exact Or.inl ⟨b :: bs, rfl⟩
      · rw [hfault]
        exact Or.inr ⟨rfl, a', List.mem_cons_of_mem a ha', herror⟩
    · rw [hfault]
      exact Or.inr ⟨rfl, a, List.mem_cons_self, hfault⟩

/-- An item of one of two lists that are related item by item is related to one of the other. -/
lemma exists_mem_of_forall₂ {R : α → β → Prop} {as : List α} {bs : List β}
    (h : List.Forall₂ R as bs) {a : α} (ha : a ∈ as) : ∃ b ∈ bs, R a b := by
  induction h with
  | nil => cases ha
  | cons hfirst _ ih =>
    rcases List.mem_cons.mp ha with rfl | ha
    · exact ⟨_, List.mem_cons_self, hfirst⟩
    · obtain ⟨b, hb, hab⟩ := ih ha
      exact ⟨b, List.mem_cons_of_mem _ hb, hab⟩

/-- Checks of the items of a list succeed if each of them does. -/
lemma forM_eq_ok {f : α → Outcome Unit} {as : List α} :
    as.forM f = .ok () ↔ ∀ a ∈ as, f a = .ok () := by
  induction as with
  | nil => exact iff_of_true rfl (by simp)
  | cons a as ih =>
    rw [List.forall_mem_cons, ← ih]
    exact bind_eq_ok.trans ⟨fun ⟨_, ha, has⟩ => ⟨ha, has⟩, fun ⟨ha, has⟩ => ⟨(), ha, has⟩⟩

/-- **An invariant of a loop**: what every step keeps holds in the end. -/
theorem foldlM_induction {P : β → Prop} {f : β → α → Outcome β}
    (hstep : ∀ b a b', P b → f b a = .ok b' → P b') {as : List α} {b b' : β} (hb : P b)
    (h : as.foldlM f b = .ok b') : P b' := by
  induction as generalizing b with
  | nil =>
    cases h
    exact hb
  | cons a as ih =>
    rw [List.foldlM_cons] at h
    obtain ⟨next, hnext, hrest⟩ := bind_eq_ok.mp h
    exact ih (hstep b a next hb hnext) hrest

end Lineage.Outcome
