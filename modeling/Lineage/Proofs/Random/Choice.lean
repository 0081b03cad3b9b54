import Mathlib.Data.List.Perm.Subperm
import Mathlib.Data.List.Sort
import Lineage.Random.Choice

set_option autoImplicit false

/-!
# Distinct random places

However a sample is taken, and whatever is drawn, its places are distinct and below the bound, as
long as every draw is below its own bound. Random orders are orders of all places.

## Main definitions

* `Lineage.Draws.InRange`: every draw is below its bound.
* `Lineage.Draws.Distinct`: numbers that have been taken below a bound, each once.

## Main results

* `Lineage.Draws.distinct_inPlace`, `Lineage.Draws.distinct_floydFrom`,
  `Lineage.Draws.distinct_rejectionFrom`: the three ways of taking a sample.
* `Lineage.Draws.distinct_sample`, `Lineage.Draws.pairwise_sample`: samples.
* `Lineage.Draws.perm_shuffle`: random orders.
* `Lineage.Draws.inRange_ofWords`: the draws from the words of a generator.
-/

namespace Lineage

namespace Draws

variable {σ : Type} {draws : Draws σ} {bound length amount : ℕ} {taken : List ℕ}

/-- Every draw is below its bound. -/
structure InRange (draws : Draws σ) : Prop where
  /-- Single draws are. -/
  single : ∀ {bound : ℕ} (s : σ), 0 < bound → (draws.single bound s).1 < bound
  /-- Repeated draws are. -/
  repeated : ∀ {bound : ℕ} (s : σ), 0 < bound → (draws.repeated bound s).1 < bound

/-- As many numbers below a bound as are asked for, each taken once. -/
structure Distinct (bound amount : ℕ) (taken : List ℕ) : Prop where
  /-- No number is taken twice. -/
  nodup : taken.Nodup
  /-- All numbers are below the bound. -/
  lt : ∀ t ∈ taken, t < bound
  /-- So many numbers are taken. -/
  length_eq : taken.length = amount

/-- Before the first draw nothing is taken. -/
lemma distinct_nil (bound : ℕ) : Distinct bound 0 [] :=
  ⟨List.nodup_nil, List.forall_mem_nil _, rfl⟩

/-- One more number is taken, which is new. -/
lemma Distinct.cons (h : Distinct bound amount taken) {t : ℕ} (hnew : t ∉ taken) (ht : t < bound) :
    Distinct bound (amount + 1) (t :: taken) :=
  ⟨List.nodup_cons.mpr ⟨hnew, h.nodup⟩, List.forall_mem_cons.mpr ⟨ht, h.lt⟩,
    congrArg (· + 1) h.length_eq⟩

/-- The same numbers in another order. -/
lemma Distinct.perm (h : Distinct bound amount taken) {taken' : List ℕ}
    (hperm : taken'.Perm taken) : Distinct bound amount taken' :=
  ⟨hperm.nodup_iff.mpr h.nodup, fun t ht => h.lt t (hperm.subset ht),
    hperm.length_eq.trans h.length_eq⟩

/-- As long as fewer numbers are taken than there are below the bound, one of these is free. -/
lemma Distinct.exists_free (h : Distinct bound amount taken) (hlt : amount < bound) :
    ∃ t < bound, t ∉ taken := by
  by_contra hfull
  push Not at hfull
  have hsubset : List.range bound ⊆ taken := fun t ht => hfull t (List.mem_range.mp ht)
  have hle := (List.subperm_of_subset List.nodup_range hsubset).length_le
  rw [List.length_range, h.length_eq] at hle
  omega

/-! ### Exchanges -/

/-- Two items change places. -/
lemma perm_swapIfInBounds (places : Array ℕ) (i j : ℕ) :
    (places.swapIfInBounds i j).toList.Perm places.toList := by
  rw [Array.swapIfInBounds_def]
  split
  · split
    · exact (Array.swap_perm _ _).toList
    · exact .refl _
  · exact .refl _

/-- Exchanges with later items leave the same items. -/
lemma perm_exchangeFrom (draws : Draws σ) (length count i : ℕ) (places : Array ℕ) (s : σ) :
    (exchangeFrom draws length count i places s).1.toList.Perm places.toList := by
  induction count generalizing i places s with
  | zero => exact .refl _
  | succ count ih => exact (ih _ _ _).trans (perm_swapIfInBounds _ _ _)

/-- Exchanges with earlier items leave the same items. -/
lemma perm_exchangeDown (draws : Draws σ) (i : ℕ) (places : Array ℕ) (s : σ) :
    (exchangeDown draws i places s).toList.Perm places.toList := by
  induction i generalizing places s with
  | zero => exact .refl _
  | succ i ih => exact (ih _ _).trans (perm_swapIfInBounds _ _ _)

/-- **A random order** is an order of all numbers below the bound. -/
theorem perm_shuffle (draws : Draws σ) (length : ℕ) (s : σ) :
    (draws.shuffle length s).Perm (List.range length) := by
  have hperm := perm_exchangeDown draws (length - 1) (Array.range length) s
  rwa [Array.toList_range] at hperm

/-! ### Three ways of taking a sample -/

/-- **Exchanges among all numbers** leave distinct ones in front.

**Proof sketch.** Exchanges leave all the numbers there are, in some order. The first ones of
these are distinct. -/
theorem distinct_inPlace (draws : Draws σ) (hle : amount ≤ length) (s : σ) :
    Distinct length amount (inPlace draws length amount s) := by
  have hperm := perm_exchangeFrom draws length amount 0 (Array.range length) s
  rw [Array.toList_range] at hperm
  refine ⟨(hperm.nodup_iff.mpr List.nodup_range).sublist (List.take_sublist _ _),
    fun t ht => ?_, ?_⟩
  · exact List.mem_range.mp (hperm.subset (List.mem_of_mem_take ht))
  · rw [inPlace, List.length_take, hperm.length_eq, List.length_range]
    exact Nat.min_eq_left hle

/-- **One draw for each of the last numbers** gives distinct numbers: so far all are below `j`, and
the next is new or `j` itself. -/
theorem distinct_floydFrom (hdraws : draws.InRange) {j count : ℕ}
    (h : Distinct j amount taken) (s : σ) :
    Distinct (j + count) (amount + count) (floydFrom draws count j taken s) := by
  induction count generalizing j amount taken s with
  | zero => exact h
  | succ count ih =>
    rcases hdraw : draws.single (j + 1) s with ⟨t, s'⟩
    have ht : t < j + 1 := by simpa [hdraw] using hdraws.single s j.succ_pos
    have hwider : Distinct (j + 1) amount taken :=
      ⟨h.nodup, fun t ht => (h.lt t ht).trans j.lt_succ_self, h.length_eq⟩
    have hnext : Distinct (j + 1) (amount + 1) ((if taken.contains t then j else t) :: taken) := by
      split
      · exact hwider.cons (fun hj => (h.lt j hj).false) j.lt_succ_self
      · rename_i hnew
        exact hwider.cons (by simpa using hnew) ht
    rw [floydFrom, hdraw, ← Nat.succ_add_eq_add_succ j, ← Nat.succ_add_eq_add_succ amount]
    exact ih hnext s'

/-- The first free number is free and below the bound. -/
lemma firstFree_spec (hfree : ∃ t < bound, t ∉ taken) :
    firstFree bound taken < bound ∧ firstFree bound taken ∉ taken := by
  unfold firstFree
  cases hfind : (List.range bound).find? fun i => !taken.contains i with
  | none =>
    obtain ⟨t, ht, hnew⟩ := hfree
    have hall := List.find?_eq_none.mp hfind t (List.mem_range.mpr ht)
    simp [hnew] at hall
  | some t =>
    refine ⟨List.mem_range.mp (List.mem_of_find?_eq_some hfind), ?_⟩
    simpa using List.find?_some hfind

/-- What is drawn until it is new is new. -/
lemma untilFree_spec (hdraws : draws.InRange) (hfree : ∃ t < bound, t ∉ taken) (fuel : ℕ) (s : σ) :
    (untilFree draws bound taken fuel s).1 < bound ∧
      (untilFree draws bound taken fuel s).1 ∉ taken := by
  induction fuel generalizing s with
  | zero => exact firstFree_spec hfree
  | succ fuel ih =>
    rw [untilFree]
    rcases hdraw : draws.repeated bound s with ⟨t, s'⟩
    dsimp only
    split
    · exact ih s'
    · rename_i hnew
      obtain ⟨other, hother, -⟩ := hfree
      have ht := hdraws.repeated s (Nat.zero_lt_of_lt hother)
      rw [hdraw] at ht
      exact ⟨ht, by simpa using hnew⟩

/-- **Draws until each is new** give distinct numbers.

**Proof sketch.** One draw after another: as fewer numbers are taken than there are, one is
free, so that what is drawn until it is new is new and below the bound. -/
theorem distinct_rejectionFrom (hdraws : draws.InRange) {count : ℕ} (hle : amount + count ≤ length)
    (h : Distinct length amount taken) (s : σ) :
    Distinct length (amount + count) (rejectionFrom draws length count taken s) := by
  induction count generalizing amount taken s with
  | zero => exact h
  | succ count ih =>
    have hnew := untilFree_spec hdraws (h.exists_free (by omega)) 4096 s
    rcases hdraw : untilFree draws length taken 4096 s with ⟨t, s'⟩
    rw [hdraw] at hnew
    rw [rejectionFrom, hdraw, ← Nat.succ_add_eq_add_succ amount]
    exact ih (by omega) (h.cons hnew.2 hnew.1) s'

/-! ### Samples -/

/-- **The numbers of a sample are distinct**, whichever way it is taken. -/
theorem distinct_sample (hdraws : draws.InRange) (hle : amount ≤ length) (s : σ) :
    Distinct length amount (draws.sample length amount s) := by
  rw [sample]
  refine Distinct.perm ?_ (List.mergeSort_perm _ _)
  split
  · exact distinct_inPlace draws hle s
  · have hdistinct : Distinct (length - amount + amount) (0 + amount) _ :=
      distinct_floydFrom hdraws (distinct_nil (length - amount)) s
    rwa [Nat.sub_add_cancel hle, Nat.zero_add] at hdistinct
  · have hdistinct : Distinct length (0 + amount) _ :=
      distinct_rejectionFrom hdraws (by omega) (distinct_nil length) s
    rwa [Nat.zero_add] at hdistinct

/-- **The numbers of a sample increase.** -/
theorem pairwise_sample (hdraws : draws.InRange) (hle : amount ≤ length) (s : σ) :
    (draws.sample length amount s).Pairwise (· < ·) := by
  have hsorted : (draws.sample length amount s).Pairwise (· ≤ ·) := List.pairwise_mergeSort' _ _
  exact (hsorted.and (distinct_sample hdraws hle s).nodup).imp fun h => lt_of_le_of_ne h.1 h.2

/-! ### Draws from words -/

/-- A draw from the words of a generator is below its bound. -/
lemma accept_lt (zone : ℕ) (hpos : 0 < bound) (fuel : ℕ) (g : Generator) :
    (accept zone bound fuel g).1 < bound := by
  induction fuel generalizing g with
  | zero => exact hpos
  | succ fuel ih =>
    rw [accept]
    obtain ⟨word, g'⟩ := g.next
    dsimp only
    split
    · exact Nat.div_lt_of_lt_mul (Nat.mul_lt_mul_of_pos_right word.toNat_lt hpos)
    · exact ih g'

/-- **Draws from the words of a generator are in range.** -/
theorem inRange_ofWords : ofWords.InRange :=
  ⟨fun s hpos => accept_lt _ hpos _ s, fun s hpos => accept_lt _ hpos _ s⟩

end Draws

end Lineage
