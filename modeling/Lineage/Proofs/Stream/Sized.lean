import Lineage.Proofs.Stream.Merge

set_option autoImplicit false

/-!
# Sizes of streams

How many rows are seen of a stream: never more after batches are changed to smaller ones or
regrouped, and after regrouping the same if the batches have the size already.

## Main results

* `Lineage.BatchStream.totalSize_mapFrom_le`, `Lineage.BatchStream.totalSize_regroup_le`: no rows
  are added.
* `Lineage.BatchStream.size_eq_of_totalSize_eq`: if none are lost in total, none are in any batch.
* `Lineage.BatchStream.regroup_of_sized`: a stream in batches of one size is not changed.
-/

namespace Lineage.BatchStream

open Batch (chunks totalSize SizedBy)

variable {n : ℕ}

/-! ### Rows that are seen -/

/-- A batch under no other stays as it is. -/
lemma concat_singleton {b : Batch} (hb : b.FormedOf b.fields) :
    Batch.concat b.fields [b] = .ok b := by
  have hjoins : ∀ b' ∈ [b], b'.Joins b.fields := by simpa using hb.joins
  rw [Batch.concat_of_joins hjoins (by simpa using hb.length_row), List.flatMap_singleton]

/-- The rows of some batches and of others. -/
lemma totalSize_append (front back : List Batch) :
    totalSize (front ++ back) = totalSize front + totalSize back := by
  simp only [totalSize_eq, List.flatMap_append, List.length_append]

/-- Batches under one another have all their rows. -/
lemma size_of_concat {fields : List Field} {batches : List Batch} {b : Batch}
    (h : Batch.concat fields batches = .ok b) : b.size = totalSize batches := by
  obtain ⟨-, hmake⟩ := Batch.concat_eq_ok.mp h
  obtain ⟨rfl, -⟩ := Batch.make_eq_ok.mp hmake
  rw [totalSize_eq, Batch.size, ← List.map_flatMap, List.length_map]

/-- The batches that a table is cut into have all its rows. -/
lemma totalSize_chunks (hn : 0 < n) (b : Batch) : totalSize (b.chunks n) = b.size := by
  rw [totalSize_eq, Batch.flatMap_rows_chunks hn, Batch.size]

/-- No rows are added when pending batches are drained. -/
lemma totalSize_drain_le (hn : 0 < n) {pending full left : List Batch}
    (h : drain n pending = .ok (full, left)) :
    totalSize full + totalSize left ≤ totalSize pending := by
  cases pending with
  | nil =>
    cases h
    exact Nat.le_refl 0
  | cons first rest =>
    obtain ⟨merged, hmerged, hcut⟩ := Outcome.bind_eq_ok.mp h
    rw [← size_of_concat hmerged, ← totalSize_chunks hn merged]
    dsimp only at hcut
    split at hcut
    · rename_i last hlast
      split at hcut
      · cases hcut
        exact Nat.le_refl _
      · cases hcut
        refine Nat.le_of_eq ?_
        rw [← totalSize_append, List.dropLast_append_getLast? last hlast]
    · cases hcut
      exact Nat.zero_le _

/-- At the end of a stream no rows are added to the pending ones. -/
lemma totalSize_flush_le (hn : 0 < n) (pending : List Batch) :
    totalSize (ofOutcome (flush n pending)).batches ≤ totalSize pending := by
  cases pending with
  | nil => exact Nat.zero_le _
  | cons first later =>
    rw [flush]
    cases hmerged : Batch.concat first.fields (first :: later) with
    | error fault => exact Nat.zero_le _
    | ok merged => exact Nat.le_of_eq ((totalSize_chunks hn merged).trans (size_of_concat hmerged))

/-- No rows are added when pending and further batches are regrouped. -/
lemma totalSize_regroupFrom_le (hn : 0 < n) (failure : Option Fault) (pending rest : List Batch) :
    totalSize (regroupFrom n failure pending rest).batches ≤
      totalSize pending + totalSize rest := by
  fun_induction regroupFrom n failure pending rest with
  | case1 pending fault hfailure => exact Nat.zero_le _
  | case2 pending hfailure =>
    exact Nat.le_trans (totalSize_flush_le hn pending) (Nat.le_add_right _ _)
  | case3 pending b rest hzero ih =>
    rw [totalSize]
    omega
  | case4 pending b rest hrows all hless ih =>
    have hone : totalSize all = totalSize pending + b.size := totalSize_append pending [b]
    rw [totalSize]
    omega
  | case5 pending b rest hrows all hmany fault hfault => exact Nat.zero_le _
  | case6 pending b rest hrows all hmany full left hfull ih =>
    have hone : totalSize all = totalSize pending + b.size := totalSize_append pending [b]
    have hdrained := totalSize_drain_le hn hfull
    rw [append, totalSize_append, totalSize]
    omega

/-- **No rows are added when a stream is regrouped.** -/
theorem totalSize_regroup_le (hn : 0 < n) (s : BatchStream) :
    totalSize (s.regroup n).batches ≤ totalSize s.batches := by
  rw [regroup, if_neg (Nat.ne_of_gt hn)]
  simpa [totalSize] using totalSize_regroupFrom_le hn s.failure [] s.batches

/-! ### Batches that are changed -/

section Changed

variable {f : Batch → Outcome (Option Batch)} {failure : Option Fault} {batches : List Batch}
  (hle : ∀ b ∈ batches, ∀ out, f b = .ok (some out) → out.size ≤ b.size)

include hle

/-- No rows are added when all batches are changed to smaller ones. -/
lemma totalSize_mapFrom_le : totalSize (mapFrom f failure batches).batches ≤ totalSize batches := by
  induction batches with
  | nil => exact Nat.le_refl 0
  | cons b rest ih =>
    obtain ⟨hfirst, hrest⟩ := List.forall_mem_cons.mp hle
    have hlater := ih hrest
    rw [mapFrom, totalSize]
    split
    · exact Nat.zero_le _
    · exact Nat.le_trans hlater (Nat.le_add_left _ _)
    · rename_i out hout
      exact Nat.add_le_add (hfirst out hout) hlater

/-- If as many rows are left in total, as many are left in every batch.

**Proof sketch.** No batch has more rows than before, and a fault loses those behind it. So
the sum can be the same only if every summand is. -/
lemma size_eq_of_totalSize_eq
    (heq : totalSize (mapFrom f failure batches).batches = totalSize batches) :
    ∀ b ∈ batches, b.size = 0 ∨ ∃ out, f b = .ok (some out) ∧ out.size = b.size := by
  induction batches with
  | nil => exact List.forall_mem_nil _
  | cons b rest ih =>
    obtain ⟨hfirst, hrest⟩ := List.forall_mem_cons.mp hle
    have hlater : totalSize (mapFrom f failure rest).batches ≤ totalSize rest :=
      totalSize_mapFrom_le hrest
    rw [mapFrom, totalSize] at heq
    split at heq
    · have hnone : b.size + totalSize rest = 0 := heq.symm
      exact List.forall_mem_cons.mpr ⟨Or.inl (by omega), ih hrest (by omega)⟩
    · exact List.forall_mem_cons.mpr ⟨Or.inl (by omega), ih hrest (by omega)⟩
    · rename_i out hout
      have hout' := hfirst out hout
      rw [cons, totalSize] at heq
      exact List.forall_mem_cons.mpr ⟨Or.inr ⟨out, hout, by omega⟩, ih hrest (by omega)⟩

omit hle in
/-- Batches that all stay as they are. -/
lemma mapFrom_of_eq (h : ∀ b ∈ batches, f b = .ok (some b)) :
    mapFrom f failure batches = ⟨batches, failure⟩ := by
  induction batches with
  | nil => rfl
  | cons b rest ih =>
    obtain ⟨hfirst, hrest⟩ := List.forall_mem_cons.mp h
    rw [mapFrom, hfirst, ih hrest]
    rfl

end Changed

/-! ### Streams in batches of one size -/

/-- Batches without rows do not count when a stream is regrouped. -/
lemma regroupFrom_filter (failure : Option Fault) (pending rest : List Batch) :
    regroupFrom n failure pending (rest.filter fun b => b.size ≠ 0) =
      regroupFrom n failure pending rest := by
  induction rest generalizing pending with
  | nil => rfl
  | cons b rest ih =>
    by_cases hsize : b.size = 0
    · rw [List.filter_cons_of_neg (by simpa using hsize), ih, regroupFrom, if_pos hsize]
    · rw [List.filter_cons_of_pos (by simpa using hsize)]
      simp only [regroupFrom, if_neg hsize, ih]

/-- Every batch has rows if only the last may not be full. -/
lemma size_pos_of_sizedBy (hn : 0 < n) {batches : List Batch} (h : SizedBy n batches) :
    ∀ b ∈ batches, 0 < b.size := by
  induction batches with
  | nil => exact List.forall_mem_nil _
  | cons b rest ih => cases rest with
    | nil => simpa using h.1
    | cons c rest => exact List.forall_mem_cons.mpr ⟨h.1 ▸ hn, ih h.2⟩

/-- A full batch is seen as it is. -/
lemma regroupFrom_full (hn : 0 < n) (failure : Option Fault) {b : Batch}
    (hb : b.FormedOf b.fields) (hsize : b.size = n) (rest : List Batch) :
    regroupFrom n failure [] (b :: rest) = cons b (regroupFrom n failure [] rest) := by
  have hchunks : b.chunks n = [b] :=
    Batch.chunks_of_le (Nat.lt_of_lt_of_eq hn hsize.symm) (Nat.le_of_eq hsize)
  have hdrain : drain n [b] = .ok ([b], []) := by
    simp [drain, concat_singleton hb, hchunks, hsize]
  have hmany : ¬totalSize [b] < n := Nat.not_lt_of_le (Nat.le_of_eq hsize.symm)
  rw [regroupFrom, if_neg (by omega)]
  dsimp only
  rw [List.nil_append, if_neg hmany, hdrain]
  rfl

/-- The last batch is seen as it is. -/
lemma regroupFrom_last {b : Batch} (hb : b.FormedOf b.fields) (hpos : 0 < b.size)
    (hsize : b.size < n) : regroupFrom n none [] [b] = ofList [b] := by
  have hchunks : b.chunks n = [b] := Batch.chunks_of_le hpos (Nat.le_of_lt hsize)
  have hfew : totalSize [b] < n := hsize
  rw [regroupFrom_cons (Nat.ne_of_gt hpos), advance, List.nil_append, if_pos hfew, regroupFrom]
  simp only [flush, concat_singleton hb, Except.map, hchunks, ofOutcome]

/-- Batches of one size, of which only the last may have fewer rows, are not changed when they are
regrouped. If the stream fails then, the last is full, too. -/
lemma regroupFrom_of_sized (hn : 0 < n) (failure : Option Fault) {batches : List Batch}
    (hformed : ∀ b ∈ batches, b.FormedOf b.fields) (hsized : SizedBy n batches)
    (hfull : failure ≠ none → ∀ b ∈ batches, b.size = n) :
    regroupFrom n failure [] batches = ⟨batches, failure⟩ := by
  induction batches with
  | nil => cases failure <;> rfl
  | cons b rest ih =>
    obtain ⟨hb, hrest⟩ := List.forall_mem_cons.mp hformed
    by_cases hsize : b.size = n
    · have hlater : SizedBy n rest := by
        cases rest with
        | nil => trivial
        | cons c rest => exact hsized.2
      rw [regroupFrom_full hn failure hb hsize,
        ih hrest hlater fun hfails => fun b' hb' => hfull hfails b' (List.mem_cons_of_mem _ hb')]
      rfl
    -- a batch that is not full is the last one, and nothing fails behind it
    · cases rest with
      | cons c rest => exact absurd hsized.1 hsize
      | nil =>
        cases failure with
        | some fault => exact absurd (hfull nofun b List.mem_cons_self) hsize
        | none => exact regroupFrom_last hb hsized.1 (Nat.lt_of_le_of_ne hsized.2 hsize)

/-- **A stream in batches of `n` is not changed when it is regrouped** in batches of `n`. Only the
last of its batches may have fewer rows, and not if the stream fails behind it.

**Proof sketch.** One batch after another: a full one is drained at once and by itself, and
the last one, which may have fewer rows, is what is left at the end. -/
theorem regroup_of_sized (hn : 0 < n) {s : BatchStream}
    (hformed : ∀ b ∈ s.batches, b.FormedOf b.fields) (hsized : SizedBy n s.batches)
    (hfull : s.failure ≠ none → ∀ b ∈ s.batches, b.size = n) : s.regroup n = s := by
  rw [regroup, if_neg (Nat.ne_of_gt hn)]
  exact regroupFrom_of_sized hn s.failure hformed hsized hfull

end Lineage.BatchStream
