import Lineage.Proofs.Outcome
import Lineage.Proofs.Random.Choice
import Lineage.Stream.Operation

set_option autoImplicit false

/-!
# Rows drawn at random

Samples and shuffles move rows: a sample has rows at increasing places of the table, and a shuffle
has all rows of the table in another order. A table without columns has rows that cannot be taken,
though other operations keep and count them.

## Main definitions

* `Lineage.Batch.TakenAt`: a batch has the rows at given places of another one.

## Main results

* `Lineage.Batch.takenAt_gather`: the rows at places of a batch.
* `Lineage.TableOperation.sample_eq_error_iff`, `Lineage.TableOperation.of_sample`: samples.
* `Lineage.TableOperation.shuffle_eq_error_iff`, `Lineage.TableOperation.of_shuffle`: shuffles.
* `Lineage.TableOperation.rows_drawn`: both.
-/

namespace Lineage

namespace Batch

variable {b b' : Batch} {places : List ℕ}

/-- A batch has the rows at given places of another one, under the same columns. -/
structure TakenAt (places : List ℕ) (b b' : Batch) : Prop where
  /-- The columns are the same. -/
  fields : b'.fields = b.fields
  /-- The rows are those at the places, which there are. -/
  rows : b'.rows.map some = places.map fun i => b.rows[i]?

/-- Rows of batches with columns are taken. -/
lemma take_eq_ok : b.take places = .ok b' ↔ b.fields ≠ [] ∧ b.gather places = b' := by
  unfold take
  split
  · rename_i hnone
    simp [List.isEmpty_iff.mp hnone]
  · rename_i hsome
    simp [mt List.isEmpty_iff.mpr hsome]

/-- No rows are taken from a batch without columns. -/
lemma take_eq_error {fault : Fault} :
    b.take places = .error fault ↔ b.fields = [] ∧ fault = .columns := by
  unfold take
  split
  · rename_i hnone
    simp [List.isEmpty_iff.mp hnone, eq_comm]
  · rename_i hsome
    simp [mt List.isEmpty_iff.mpr hsome]

/-- **The rows at places of a batch**, if there are such places.

**Proof sketch.** Induction on the places: a row that is there is found. -/
theorem takenAt_gather (h : ∀ i ∈ places, i < b.size) : TakenAt places b (b.gather places) := by
  refine ⟨rfl, ?_⟩
  unfold gather
  dsimp only
  induction places with
  | nil => rfl
  | cons i places ih =>
    obtain ⟨hi, hrest⟩ := List.forall_mem_cons.mp h
    have hrow : b.rows[i]? = some b.rows[i] := List.getElem?_eq_getElem hi
    rw [List.filterMap_cons, List.getElem?_toArray, hrow]
    simp only [List.map_cons, hrow, ih hrest]

/-- A batch that has rows at places has so many. -/
lemma TakenAt.size (h : TakenAt places b b') : b'.size = places.length := by
  have hlength := congrArg List.length h.rows
  rwa [List.length_map, List.length_map] at hlength

/-- The rows at all places are all rows. -/
lemma gather_range (b : Batch) : b.gather (List.range b.size) = b := by
  have hrows := (takenAt_gather (b := b) fun i => List.mem_range.mp).rows
  have hall : ((List.range b.size).map fun i => b.rows[i]?) = b.rows.map some := by
    refine List.ext_getElem (by simp [Batch.size]) fun i hi hi' => ?_
    rw [List.length_map] at hi'
    simp [hi']
  rw [hall] at hrows
  exact congrArg (Batch.mk b.fields) (List.map_injective_iff.mpr (Option.some_injective _) hrows)

/-- The rows at all places in another order are all rows in another order. -/
lemma perm_rows_gather (h : places.Perm (List.range b.size)) :
    (b.gather places).rows.Perm b.rows := by
  have hperm : (b.gather places).rows.Perm (b.gather (List.range b.size)).rows := h.filterMap _
  rwa [gather_range] at hperm

end Batch

namespace TableOperation

variable {σ : Type} {draws : Draws σ} {s : σ} {b b' : Batch} {size : SampleSize}

/-! ### Samples -/

/-- A sample of a possible size takes the rows at the places that are drawn. -/
lemma sample_of_le (hpos : size.rows b.size ≠ 0) (hle : size.rows b.size ≤ b.size) :
    evaluate draws s b (.sample size) = b.take (draws.sample b.size (size.rows b.size) s) := by
  have htotal : b.size ≠ 0 := by omega
  have hsize : ¬(size.rows b.size < 1 ∨ b.size < size.rows b.size) := by omega
  rw [evaluate, sampleRows]
  dsimp only
  rw [if_neg htotal, if_neg hsize]

/-- A sample of an impossible size fails. -/
lemma exists_sample_eq_error (h : size.rows b.size = 0 ∨ b.size < size.rows b.size) :
    ∃ fault, evaluate draws s b (.sample size) = .error fault := by
  have hsize : size.rows b.size < 1 ∨ b.size < size.rows b.size := by omega
  rw [evaluate, sampleRows]
  dsimp only
  rw [if_pos hsize]
  split
  · exact ⟨_, rfl⟩
  · exact ⟨_, rfl⟩

/-- **When a sample fails**: no row is asked for, or more than there are, or no column is there. -/
theorem sample_eq_error_iff : (∃ fault, evaluate draws s b (.sample size) = .error fault) ↔
    size.rows b.size = 0 ∨ b.size < size.rows b.size ∨ b.fields = [] := by
  by_cases hsize : size.rows b.size = 0 ∨ b.size < size.rows b.size
  · exact iff_of_true (exists_sample_eq_error hsize) (or_assoc.mp (Or.inl hsize))
  · obtain ⟨hpos, hlt⟩ := not_or.mp hsize
    rw [sample_of_le hpos (Nat.le_of_not_lt hlt)]
    simp [Batch.take_eq_error, hpos, hlt]

/-- **The rows of a sample** stand at increasing places of the table. -/
theorem of_sample (hdraws : draws.InRange) (h : evaluate draws s b (.sample size) = .ok b') :
    ∃ places : List ℕ, places.length = size.rows b.size ∧ places.Pairwise (· < ·) ∧
      Batch.TakenAt places b b' := by
  by_cases hsize : size.rows b.size = 0 ∨ b.size < size.rows b.size
  · obtain ⟨fault, hfault⟩ : ∃ fault, evaluate draws s b (.sample size) = .error fault :=
      exists_sample_eq_error hsize
    cases hfault.symm.trans h
  · obtain ⟨hpos, hlt⟩ := not_or.mp hsize
    have hle := Nat.le_of_not_lt hlt
    rw [sample_of_le hpos hle] at h
    obtain ⟨-, rfl⟩ := Batch.take_eq_ok.mp h
    have hdistinct := Draws.distinct_sample hdraws hle s
    exact ⟨_, hdistinct.length_eq, Draws.pairwise_sample hdraws hle s,
      Batch.takenAt_gather hdistinct.lt⟩

/-! ### Shuffles -/

/-- **When a shuffle fails**: there are rows to exchange and no columns. -/
theorem shuffle_eq_error_iff : (∃ fault, evaluate draws s b .shuffle = .error fault) ↔
    1 < b.size ∧ b.fields = [] := by
  rw [evaluate, shuffleRows]
  split
  · rename_i hfew
    simp [hfew]
  · rename_i hmany
    simp [Batch.take_eq_error, Nat.lt_of_not_le hmany]

/-- **The rows of a shuffle** are those of the table in another order. -/
theorem of_shuffle (h : evaluate draws s b .shuffle = .ok b') :
    b'.fields = b.fields ∧ b'.rows.Perm b.rows := by
  rw [evaluate, shuffleRows] at h
  split at h
  · cases h
    exact ⟨rfl, .refl _⟩
  · obtain ⟨-, rfl⟩ := Batch.take_eq_ok.mp h
    exact ⟨rfl, Batch.perm_rows_gather (Draws.perm_shuffle draws b.size s)⟩

/-- **Samples and shuffles only move rows**, whatever is drawn as long as it is in range. A sample
fails exactly if no row is asked for, or more than there are, or if there are no columns; if not,
its rows stand at increasing places, as many as are asked for. A shuffle has all rows, in another
order, unless there are rows to exchange and no columns.

**Proof sketch.** When samples and shuffles fail is read off their checks. What they take are
the rows at the places that are drawn, which are distinct and below the number of rows
(`Draws.distinct_sample`), sorted for a sample and all of them for a shuffle
(`Draws.perm_shuffle`). -/
theorem rows_drawn (hdraws : draws.InRange) (s : σ) (b : Batch) :
    (∀ size : SampleSize, ((∃ fault, evaluate draws s b (.sample size) = .error fault) ↔
        size.rows b.size = 0 ∨ b.size < size.rows b.size ∨ b.fields = []) ∧
      ∀ b', evaluate draws s b (.sample size) = .ok b' → b'.size = size.rows b.size ∧
        ∃ places : List ℕ, places.Pairwise (· < ·) ∧ Batch.TakenAt places b b') ∧
    ((∃ fault, evaluate draws s b .shuffle = .error fault) ↔ 1 < b.size ∧ b.fields = []) ∧
    ∀ b', evaluate draws s b .shuffle = .ok b' → b'.fields = b.fields ∧ b'.rows.Perm b.rows := by
  refine ⟨fun size => ⟨sample_eq_error_iff, fun b' h => ?_⟩, shuffle_eq_error_iff,
    fun b' => of_shuffle⟩
  obtain ⟨places, hlength, hincreasing, htaken⟩ := of_sample hdraws h
  exact ⟨htaken.size.trans hlength, places, hincreasing, htaken⟩

/-- The numbers from zero to nine. -/
def digits : Batch := ⟨[⟨"v", .int64, false⟩], (List.range 10).map fun i => [.int i]⟩

/-- Three of the numbers. -/
def threeDigits : Batch := ⟨[⟨"v", .int64, false⟩], [[.int 1], [.int 2], [.int 5]]⟩

/-- Three of the numbers are drawn from a seed. -/
lemma evaluate_sample_digits :
    evaluate .ofWords (.ofSeed 42) digits (.sample (.size 3)) = .ok threeDigits := by
  have hmethod : Draws.method 10 3 = .floyd := by decide +kernel
  have htaken : Draws.ofWords.floydFrom 3 7 [] (.ofSeed 42) = [5, 2, 1] := by decide +kernel
  have hplaces : Draws.ofWords.sample 10 3 (.ofSeed 42) = [1, 2, 5] := by
    rw [Draws.sample, hmethod]
    dsimp only
    rw [htaken]
    simp [List.mergeSort]
  have hsize : digits.size = 10 := rfl
  rw [sample_of_le (by decide) (by decide), hsize, SampleSize.rows, hplaces]
  rfl

/-- Three numbers of ten stand at increasing places, and a shuffle has all ten. -/
theorem rows_drawn_digits :
    Draws.ofWords.InRange ∧ validate (.sample (.size 3)) = .ok () ∧
      evaluate .ofWords (.ofSeed 42) digits (.sample (.size 3)) = .ok threeDigits ∧
      (∃ places : List ℕ, places.Pairwise (· < ·) ∧ Batch.TakenAt places digits threeDigits) ∧
      ∃ b', evaluate .ofWords (.ofSeed 42) digits .shuffle = .ok b' ∧
        b'.rows.Perm digits.rows := by
  obtain ⟨hsample, hfails, hshuffle⟩ := rows_drawn Draws.inRange_ofWords (.ofSeed 42) digits
  obtain ⟨-, hplaces⟩ := (hsample (.size 3)).2 threeDigits evaluate_sample_digits
  refine ⟨Draws.inRange_ofWords, rfl, evaluate_sample_digits, hplaces, ?_⟩
  cases hresult : evaluate .ofWords (.ofSeed 42) digits .shuffle with
  | error fault => cases (hfails.mp ⟨fault, hresult⟩).2
  | ok b' => exact ⟨b', rfl, (hshuffle b' hresult).2⟩

/-- Three rows of which no column is left. -/
def bareRows : Batch := ⟨[], [[], [], []]⟩

/-- **Rows without columns cannot be drawn.** They are what is left of rows that are cut down to a
struct without members, and a slice has some of them. A sample of two, which are there, fails, and
so does a shuffle. -/
theorem not_rows_drawn_bareRows :
    Ty.projectBatch ⟨[⟨"v", .int64, false⟩], [[.int 1], [.int 2], [.int 3]]⟩ (.struct []) false =
      .ok bareRows ∧
    evaluate .ofWords (.ofSeed 7) bareRows (.slice 0 2) = .ok ⟨[], [[], []]⟩ ∧
    validate (.sample (.size 2)) = .ok () ∧ SampleSize.rows bareRows.size (.size 2) = 2 ∧
    evaluate .ofWords (.ofSeed 7) bareRows (.sample (.size 2)) = .error .columns ∧
    evaluate .ofWords (.ofSeed 7) bareRows .shuffle = .error .columns :=
  ⟨rfl, rfl, rfl, rfl, rfl, rfl⟩

end TableOperation

end Lineage
