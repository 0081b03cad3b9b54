import Lineage.Proofs.Column.Batch
import Lineage.Stream.Basic

set_option autoImplicit false

/-!
# Streams in batches of one size

Cutting a table into batches of one size and regrouping the batches of a stream come to the same:
a regrouped stream is the table of all its rows, cut. If the stream fails, only the batches that
are full by then are seen.

## Main definitions

* `Lineage.Batch.SizedBy`: all batches have one size but the last, which may have fewer rows.
* `Lineage.BatchStream.ofTable`: what is seen of a table that is cut.

## Main results

* `Lineage.Batch.chunks_append`: a table whose size is a multiple of `n` is cut by itself.
* `Lineage.Batch.flatMap_rows_chunks`, `Lineage.Batch.sizedBy_chunks`: the rows and the sizes of
  the batches that a table is cut into.
* `Lineage.BatchStream.regroup_eq`, `Lineage.BatchStream.of_regroup`: a regrouped stream is the
  table of its rows, cut, if nulls stand where they may, and otherwise it fails.
* `Lineage.BatchStream.regroup_lossless`: a regrouped stream has the rows of the stream, or, if it
  fails, as many of the first of them as make full batches.
* `Lineage.BatchStream.forall_mem_regroup`: what holds of batches, their parts and batches under one
  another holds of the batches of a regrouped stream.
-/

namespace Lineage

namespace Batch

variable {n : ℕ} {fields : List Field}

/-! ### Tables cut into batches -/

/-- How many batches a table is cut into, in front of which there are `k` full ones. -/
private lemma chunkCount_add (hn : 0 < n) (k size : ℕ) :
    (k * n + size + n - 1) / n = k + (size + n - 1) / n := by
  have harith : k * n + size + n - 1 = size + n - 1 + n * k := by
    rw [Nat.mul_comm n k]
    omega
  rw [harith, Nat.add_mul_div_left _ _ hn, Nat.add_comm]

/-- **A table whose size is a multiple of `n` is cut by itself**, whatever rows follow.

**Proof sketch.** The front is cut into `k` full batches, and the slices behind them begin
where the front ends. -/
theorem chunks_append (hn : 0 < n) {k : ℕ} {front : List (List Cell)} (h : front.length = k * n)
    (back : List (List Cell)) :
    chunks n ⟨fields, front ++ back⟩ = chunks n ⟨fields, front⟩ ++ chunks n ⟨fields, back⟩ := by
  have hfull : (front.length + n - 1) / n = k := by
    have hcount := chunkCount_add hn k 0
    rw [Nat.div_eq_of_lt (show 0 + n - 1 < n by omega)] at hcount
    rw [h]
    simpa using hcount
  simp only [chunks, size, List.length_append]
  rw [hfull, h, chunkCount_add hn, List.range_add, List.map_append, List.map_map]
  congr 1
  · refine List.map_congr_left fun i hi => ?_
    have hlt : (i + 1) * n ≤ k * n := Nat.mul_le_mul_right n (List.mem_range.mp hi)
    rw [Nat.succ_mul] at hlt
    simp only [slice, mk.injEq, true_and]
    rw [List.drop_append_of_le_length (by omega), List.take_append_of_le_length]
    rw [List.length_drop]
    omega
  · refine List.map_congr_left fun i _ => ?_
    have hdrop : (k + i) * n = front.length + i * n := by rw [h, Nat.add_mul]
    have hpast : front.drop (front.length + i * n) = [] := List.drop_of_length_le (by omega)
    simp only [Function.comp_apply, slice, hdrop, List.drop_append, hpast, List.nil_append,
      Nat.add_sub_cancel_left]

/-- A table without rows is cut into no batches. -/
@[simp]
lemma chunks_nil (hn : 0 < n) : chunks n ⟨fields, []⟩ = [] := by
  have hcount : (([] : List (List Cell)).length + n - 1) / n = 0 := by
    rw [List.length_nil, Nat.div_eq_of_lt (by omega)]
  simp only [chunks, size, hcount, List.range_zero, List.map_nil]

/-- A table of at most `n` rows is one batch. -/
lemma chunks_of_le {rows : List (List Cell)} (hpos : 0 < rows.length) (hle : rows.length ≤ n) :
    chunks n ⟨fields, rows⟩ = [⟨fields, rows⟩] := by
  have hcount : (rows.length + n - 1) / n = 1 := by
    rw [Nat.div_eq_iff (by omega)]
    omega
  simp [chunks, size, hcount, slice, List.take_of_length_le hle]

/-- The first batch of a table of at least `n` rows. -/
lemma chunks_of_ge (hn : 0 < n) {rows : List (List Cell)} (h : n ≤ rows.length) :
    chunks n ⟨fields, rows⟩ = ⟨fields, rows.take n⟩ :: chunks n ⟨fields, rows.drop n⟩ := by
  have hlength : (rows.take n).length = n := by
    rw [List.length_take]
    omega
  have hfirst := @chunks_of_le n fields (rows.take n) (by omega) (by omega)
  have hsplit := @chunks_append n fields hn 1 _ (hlength.trans (Nat.one_mul n).symm) (rows.drop n)
  rw [List.take_append_drop, hfirst] at hsplit
  exact hsplit

/-- **Induction over the batches that a table is cut into.** -/
theorem chunks_induction (hn : 0 < n) {P : List (List Cell) → Prop} (hnil : P [])
    (hlast : ∀ rows, 0 < rows.length → rows.length < n → P rows)
    (hfull : ∀ rows, n ≤ rows.length → P (rows.drop n) → P rows) (rows : List (List Cell)) :
    P rows := by
  induction hlength : rows.length using Nat.strongRecOn generalizing rows with
  | ind length ih =>
    by_cases hge : n ≤ rows.length
    · refine hfull rows hge (ih (rows.drop n).length ?_ _ rfl)
      rw [List.length_drop]
      omega
    · cases rows with
      | nil => exact hnil
      | cons row rows => exact hlast _ (by simp) (by omega)

/-- **The rows of the batches that a table is cut into** are those of the table. -/
theorem flatMap_rows_chunks (hn : 0 < n) (b : Batch) : (b.chunks n).flatMap rows = b.rows := by
  obtain ⟨fields, rows⟩ := b
  induction rows using chunks_induction hn with
  | hnil => rw [chunks_nil hn, List.flatMap_nil]
  | hlast rows hpos hlt => rw [chunks_of_le hpos (Nat.le_of_lt hlt), List.flatMap_singleton]
  | hfull rows hge ih =>
    rw [chunks_of_ge hn hge, List.flatMap_cons, ih]
    exact List.take_append_drop n rows

/-- The batches that a table is cut into have its columns. -/
lemma fields_of_mem_chunks {b chunk : Batch} (h : chunk ∈ b.chunks n) :
    chunk.fields = b.fields := by
  obtain ⟨i, -, rfl⟩ := List.mem_map.mp h
  rfl

/-- All batches have `n` rows but the last, which has at least one and at most `n`. -/
def SizedBy (n : ℕ) : List Batch → Prop
  | [] => True
  | [b] => 0 < b.size ∧ b.size ≤ n
  | b :: c :: rest => b.size = n ∧ SizedBy n (c :: rest)

/-- The batches after a full one. -/
lemma sizedBy_cons {b : Batch} {rest : List Batch} (hn : 0 < n) (hb : b.size = n)
    (h : SizedBy n rest) : SizedBy n (b :: rest) := by
  cases rest with
  | nil =>
    subst hb
    exact ⟨hn, Nat.le_refl _⟩
  | cons c rest => exact ⟨hb, h⟩

/-- **A table is cut into batches of `n` rows**, of which only the last may have fewer. -/
theorem sizedBy_chunks (hn : 0 < n) (b : Batch) : SizedBy n (b.chunks n) := by
  obtain ⟨fields, rows⟩ := b
  induction rows using chunks_induction hn with
  | hnil =>
    rw [chunks_nil hn]
    trivial
  | hlast rows hpos hlt =>
    rw [chunks_of_le hpos (Nat.le_of_lt hlt)]
    exact ⟨hpos, Nat.le_of_lt hlt⟩
  | hfull rows hge ih =>
    rw [chunks_of_ge hn hge]
    refine sizedBy_cons hn ?_ ih
    simp only [size, List.length_take]
    omega

/-- What holds of a batch exactly when it holds of its parts holds of the batches that a table is
cut into exactly when it holds of the table, or the table has no rows. -/
lemma forall_mem_chunks_iff (hn : 0 < n) {P : List (List Cell) → Prop}
    (hP : ∀ front back, P (front ++ back) ↔ P front ∧ P back) (rows : List (List Cell)) :
    (∀ chunk ∈ chunks n ⟨fields, rows⟩, P chunk.rows) ↔ rows = [] ∨ P rows := by
  induction rows using chunks_induction hn with
  | hnil => simp [chunks_nil hn]
  | hlast rows hpos hlt =>
    simp [chunks_of_le hpos (Nat.le_of_lt hlt), List.ne_nil_of_length_pos hpos]
  | hfull rows hge ih =>
    have hne : rows ≠ [] := List.ne_nil_of_length_pos (by omega)
    have hsplit := hP (rows.take n) (rows.drop n)
    rw [List.take_append_drop] at hsplit
    rw [chunks_of_ge hn hge, List.forall_mem_cons, ih, hsplit]
    simp only [hne, false_or]
    refine and_congr_right fun htake => or_iff_right_of_imp fun hnil => ?_
    -- The last batch is full, and what is left without rows is a part of it.
    have hpart := hP (rows.take n) []
    rw [List.append_nil] at hpart
    rw [hnil]
    exact (hpart.mp htake).2

/-! ### The full batches and what is left -/

/-- The number of batches that a table whose size is a multiple of `n` is cut into. -/
lemma length_chunks_of_full (hn : 0 < n) {k : ℕ} {rows : List (List Cell)}
    (h : rows.length = k * n) : (chunks n ⟨fields, rows⟩).length = k := by
  have hcount := chunkCount_add hn k 0
  rw [Nat.div_eq_of_lt (show 0 + n - 1 < n by omega)] at hcount
  simpa [chunks, size, h] using hcount

/-- A table whose size is a multiple of `n` is cut into full batches. -/
lemma size_of_mem_chunks_of_full (hn : 0 < n) {k : ℕ} {rows : List (List Cell)}
    (h : rows.length = k * n) {chunk : Batch} (hchunk : chunk ∈ chunks n ⟨fields, rows⟩) :
    chunk.size = n := by
  have hlength := @length_chunks_of_full n fields hn k rows h
  obtain ⟨i, hi, rfl⟩ := List.mem_map.mp hchunk
  rw [chunks, List.length_map, List.length_range] at hlength
  rw [hlength, List.mem_range] at hi
  have hlt : (i + 1) * n ≤ k * n := Nat.mul_le_mul_right n hi
  rw [Nat.succ_mul] at hlt
  simp only [slice, size, List.length_take, List.length_drop]
  omega

/-- The rows of the full batches that a table is cut into, and those that are left. -/
lemma exists_full (hn : 0 < n) (rows : List (List Cell)) :
    ∃ front back : List (List Cell), rows = front ++ back ∧
      front.length = rows.length / n * n ∧ back.length < n := by
  refine ⟨rows.take (rows.length / n * n), rows.drop (rows.length / n * n),
    (List.take_append_drop _ _).symm, ?_, ?_⟩
  · rw [List.length_take]
    exact Nat.min_eq_left (Nat.div_mul_le_self _ _)
  · rw [List.length_drop]
    have hmod := Nat.mod_lt rows.length hn
    have hdiv := Nat.div_add_mod' rows.length n
    omega

end Batch

namespace BatchStream

open Batch (chunks conform totalSize)

variable {n : ℕ} {fields : List Field}

/-! ### Pending batches -/

/-- The number of rows of several batches. -/
lemma totalSize_eq (batches : List Batch) :
    totalSize batches = (batches.flatMap Batch.rows).length := by
  induction batches with
  | nil => rfl
  | cons b rest ih => rw [totalSize, ih, List.flatMap_cons, List.length_append, Batch.size]

/-- The number of rows does not change when they are cut to the columns. -/
lemma length_conform (rows : List (List Cell)) :
    (conform ⟨fields, rows⟩).rows.length = rows.length := List.length_map _

/-- A batch without rows does not count. -/
lemma flatMap_rows_skip {pending rest : List Batch} {b : Batch} (h : b.size = 0) :
    (pending ++ b :: rest).flatMap Batch.rows = (pending ++ rest).flatMap Batch.rows := by
  have hb : b.rows = [] := List.eq_nil_of_length_eq_zero h
  simp [hb]

/-- Rows that are left over, as at most one batch. -/
def leftover (fields : List Field) (back : List (List Cell)) : List Batch :=
  if back = [] then [] else [⟨fields, back⟩]

/-- The rows that are left over. -/
lemma flatMap_rows_leftover (back : List (List Cell)) :
    (leftover fields back).flatMap Batch.rows = back := by
  unfold leftover
  split
  · rename_i hnil
    rw [hnil, List.flatMap_nil]
  · exact List.flatMap_singleton _ _

/-- The columns of what is left over. -/
lemma fields_of_mem_leftover {back : List (List Cell)} {b : Batch} (h : b ∈ leftover fields back) :
    b.fields = fields := by
  unfold leftover at h
  split at h
  · cases h
  · rw [List.mem_singleton.mp h]

/-- **What is drained from pending batches**: the full batches of all their rows, and what is left
as one batch. -/
lemma drain_eq (hn : 0 < n) {pending : List Batch} (hfields : ∀ b ∈ pending, b.fields = fields)
    (hnulls : ∀ row ∈ pending.flatMap Batch.rows, Batch.Allows fields row)
    (hsize : n ≤ totalSize pending) :
    ∃ front back, (conform ⟨fields, pending.flatMap Batch.rows⟩).rows = front ++ back ∧
      front.length = totalSize pending / n * n ∧ back.length < n ∧
      drain n pending = .ok (chunks n ⟨fields, front⟩, leftover fields back) := by
  cases pending with
  | nil => exact absurd (Nat.lt_of_lt_of_le hn hsize) (Nat.lt_irrefl 0)
  | cons first rest =>
    generalize hrows : (first :: rest).flatMap Batch.rows = rows at *
    have hfirst : first.fields = fields := hfields first List.mem_cons_self
    have hmerged := (Batch.concat_of_fields hfields hrows.symm).mpr ⟨rfl, hnulls⟩
    obtain ⟨front, back, hsplit, hfront, hback⟩ :=
      Batch.exists_full hn (conform ⟨fields, rows⟩).rows
    rw [length_conform, ← hrows, ← totalSize_eq] at hfront
    refine ⟨front, back, hsplit, hfront, hback, ?_⟩
    have hchunks : (conform ⟨fields, rows⟩).chunks n =
        chunks n ⟨fields, front⟩ ++ chunks n ⟨fields, back⟩ := by
      rw [← Batch.chunks_append hn hfront, ← hsplit]
      rfl
    simp only [drain, hfirst, hmerged, Outcome.ok_bind, hchunks, leftover]
    by_cases hnil : back = []
    · -- The last of the full batches, of which there is at least one.
      subst hnil
      rw [Batch.chunks_nil hn, List.append_nil, if_pos rfl]
      have hlength := @Batch.length_chunks_of_full n fields hn _ _ hfront
      have hpos : 0 < totalSize (first :: rest) / n := Nat.div_pos hsize hn
      cases hlast : (chunks n ⟨fields, front⟩).getLast? with
      | none =>
        rw [List.getLast?_eq_none_iff] at hlast
        rw [hlast, List.length_nil] at hlength
        omega
      | some last =>
        have hfull := Batch.size_of_mem_chunks_of_full hn hfront (List.mem_of_getLast? hlast)
        dsimp only
        rw [if_pos hfull]
    · have hpos : 0 < back.length := List.length_pos_iff.mpr hnil
      rw [Batch.chunks_of_le hpos (Nat.le_of_lt hback), List.getLast?_concat, if_neg hnil]
      have hshort : (Batch.mk fields back).size ≠ n := Nat.ne_of_lt hback
      dsimp only
      rw [if_neg hshort, List.dropLast_concat]

/-! ### Regrouped streams -/

/-- What is seen of a table in batches of `n` rows: all of them, or the full ones if the stream
fails in the end. -/
def ofTable (n : ℕ) (failure : Option Fault) (b : Batch) : BatchStream :=
  ⟨match failure with
    | none => b.chunks n
    | some _ => (b.chunks n).take (b.size / n), failure⟩

/-- What is seen of a table behind full batches. -/
lemma append_ofTable (hn : 0 < n) (failure : Option Fault) {k : ℕ} {front : List (List Cell)}
    (h : front.length = k * n) (back : List (List Cell)) :
    append (chunks n ⟨fields, front⟩) (ofTable n failure ⟨fields, back⟩) =
      ofTable n failure ⟨fields, front ++ back⟩ := by
  cases failure with
  | none => simp only [append, ofTable, Batch.chunks_append hn h]
  | some fault =>
    have hcount : (front ++ back).length / n = k + back.length / n := by
      rw [List.length_append, h, Nat.add_comm, Nat.add_mul_div_right _ _ hn, Nat.add_comm]
    have hlength := @Batch.length_chunks_of_full n fields hn _ _ h
    simp only [append, ofTable, Batch.chunks_append hn h, Batch.size, hcount]
    rw [← hlength, List.take_length_add_append]

/-- The rows behind the full ones of a table have been cut to its columns already, and have nulls
where they may. -/
lemma of_conform_split {rows front back : List (List Cell)}
    (hsplit : (conform ⟨fields, rows⟩).rows = front ++ back)
    (hnulls : ∀ row ∈ rows, Batch.Allows fields row) :
    back.map (List.take fields.length) = back ∧ ∀ row ∈ back, Batch.Allows fields row := by
  constructor
  · have hidem : (front ++ back).map (List.take fields.length) = front ++ back := by
      rw [← hsplit]
      simp [conform, List.take_take]
    rw [List.map_append] at hidem
    exact (List.append_inj hidem (List.length_map _)).2
  · intro row hrow
    have hmem : row ∈ (conform ⟨fields, rows⟩).rows := hsplit ▸ List.mem_append_right _ hrow
    obtain ⟨whole, hwhole, rfl⟩ := List.mem_map.mp hmem
    exact Batch.allows_take.mpr (hnulls whole hwhole)

/-- The full batches of a table in front of what is left of it and of further rows. -/
lemma append_ofTable_conform (hn : 0 < n) (failure : Option Fault) {k : ℕ}
    {rows front back : List (List Cell)} (hsplit : (conform ⟨fields, rows⟩).rows = front ++ back)
    (hfront : front.length = k * n) (hcut : back.map (List.take fields.length) = back)
    (further : List (List Cell)) :
    append (chunks n ⟨fields, front⟩) (ofTable n failure (conform ⟨fields, back ++ further⟩)) =
      ofTable n failure (conform ⟨fields, rows ++ further⟩) := by
  have hleft : conform ⟨fields, back ++ further⟩ =
      ⟨fields, back ++ further.map (List.take fields.length)⟩ := by
    simp only [conform, List.map_append, hcut]
  have hwhole : conform ⟨fields, rows ++ further⟩ =
      ⟨fields, front ++ (back ++ further.map (List.take fields.length))⟩ := by
    rw [← List.append_assoc, ← hsplit]
    simp only [conform, List.map_append]
  rw [hleft, hwhole, append_ofTable hn failure hfront]

/-- Where a stream fails before `n` rows have been seen, none are. -/
lemma ofTable_of_size_lt {b : Batch} (h : b.size < n) (fault : Fault) :
    ofTable n (some fault) b = failed fault := by
  simp only [ofTable, failed, Nat.div_eq_of_lt h, List.take_zero]

/-- The batches that are pending at the end of a stream are the table of their rows, cut. -/
lemma ofOutcome_flush (hn : 0 < n) {pending : List Batch}
    (hfields : ∀ b ∈ pending, b.fields = fields)
    (hnulls : ∀ row ∈ pending.flatMap Batch.rows, Batch.Allows fields row) :
    ofOutcome (flush n pending) =
      ofTable n none (conform ⟨fields, pending.flatMap Batch.rows⟩) := by
  cases pending with
  | nil =>
    simp only [flush, ofOutcome, ofList, ofTable, List.flatMap_nil, conform, List.map_nil,
      Batch.chunks_nil hn]
  | cons first rest =>
    have hmerged := (Batch.concat_of_fields hfields rfl).mpr ⟨rfl, hnulls⟩
    simp only [flush, hfields first List.mem_cons_self, hmerged, Except.map, ofOutcome, ofList,
      ofTable]

/-- A batch between others can be left out. -/
lemma append_subset_append_cons (pending rest : List Batch) (b : Batch) :
    pending ++ rest ⊆ pending ++ b :: rest :=
  ((List.sublist_cons_self b rest).append_left pending).subset

/-- **Regrouping pending and further batches** of the same columns shows the table of all their
rows, if nulls stand where they may.

**Proof sketch.** Induction along the loop, whose invariant is that fewer than `n` rows are pending.
When there are `n` or more, the full batches that are drained are the first ones of the table, and
what is left of it is pending (`drain_eq`, `append_ofTable_conform`). -/
theorem regroupFrom_eq (hn : 0 < n) (failure : Option Fault) {pending rest : List Batch}
    (hfields : ∀ b ∈ pending ++ rest, b.fields = fields)
    (hnulls : ∀ row ∈ (pending ++ rest).flatMap Batch.rows, Batch.Allows fields row)
    (hsize : totalSize pending < n) :
    regroupFrom n failure pending rest =
      ofTable n failure (conform ⟨fields, (pending ++ rest).flatMap Batch.rows⟩) := by
  fun_induction regroupFrom n failure pending rest with
  | case1 pending fault hfailure =>
    subst hfailure
    rw [List.append_nil, ofTable_of_size_lt]
    rwa [Batch.size, length_conform, ← totalSize_eq]
  | case2 pending hfailure =>
    subst hfailure
    rw [List.append_nil] at hfields hnulls ⊢
    exact ofOutcome_flush hn hfields hnulls
  | case3 pending b rest hzero ih =>
    rw [flatMap_rows_skip hzero] at hnulls ⊢
    exact ih (fun b' hb' => hfields b' (append_subset_append_cons pending rest b hb')) hnulls hsize
  | case4 pending b rest hrows all hless ih =>
    rw [List.append_cons] at hfields hnulls ⊢
    exact ih hfields hnulls hless
  | case5 pending b rest hrows all hmany fault hfault =>
    rw [List.append_cons, List.flatMap_append] at hnulls
    -- What has been gathered has one kind of columns, so that cutting it does not fail.
    obtain ⟨_, _, -, -, -, hdrain⟩ := drain_eq hn
      (fun b' hb' => hfields b' (List.append_cons _ _ _ ▸ List.mem_append_left _ hb'))
      (fun row hrow => hnulls row (List.mem_append_left _ hrow)) (Nat.le_of_not_lt hmany)
    cases hfault.symm.trans hdrain
  | case6 pending b rest hrows all hmany full left hfull ih =>
    rw [List.append_cons, show pending ++ [b] = all from rfl] at hfields hnulls ⊢
    rw [List.flatMap_append] at hnulls ⊢
    obtain ⟨front, back, hsplit, hfront, hshort, hdrain⟩ := drain_eq hn
      (fun b' hb' => hfields b' (List.mem_append_left _ hb'))
      (fun row hrow => hnulls row (List.mem_append_left _ hrow)) (Nat.le_of_not_lt hmany)
    obtain ⟨rfl, rfl⟩ := Prod.mk.inj (Except.ok.inj (hfull.symm.trans hdrain))
    obtain ⟨hcut, hback⟩ := of_conform_split hsplit fun row hrow =>
      hnulls row (List.mem_append_left _ hrow)
    rw [ih, List.flatMap_append, flatMap_rows_leftover]
    · exact append_ofTable_conform hn failure hsplit hfront hcut _
    · exact List.forall_mem_append.mpr ⟨fun b' hb' => fields_of_mem_leftover hb',
        fun b' hb' => hfields b' (List.mem_append_right _ hb')⟩
    · rw [List.flatMap_append, flatMap_rows_leftover]
      exact List.forall_mem_append.mpr
        ⟨hback, fun row hrow => hnulls row (List.mem_append_right _ hrow)⟩
    · rwa [totalSize_eq, flatMap_rows_leftover]

/-- **A regrouped stream** of batches of the same columns shows the table of all its rows, if nulls
stand where they may. -/
theorem regroup_eq (hn : 0 < n) {s : BatchStream} (hfields : ∀ b ∈ s.batches, b.fields = fields)
    (hnulls : ∀ row ∈ s.batches.flatMap Batch.rows, Batch.Allows fields row) :
    s.regroup n = ofTable n s.failure (conform ⟨fields, s.batches.flatMap Batch.rows⟩) := by
  rw [regroup, if_neg (Nat.ne_of_gt hn)]
  exact @regroupFrom_eq n fields hn s.failure [] s.batches hfields hnulls hn

/-- Batches that can be drained have nulls where they may, and what is left has their columns. -/
lemma of_drain {pending full left : List Batch} (hfields : ∀ b ∈ pending, b.fields = fields)
    (h : drain n pending = .ok (full, left)) :
    (∀ row ∈ pending.flatMap Batch.rows, Batch.Allows fields row) ∧
      ∀ b ∈ left, b.fields = fields := by
  cases pending with
  | nil =>
    cases h
    simp
  | cons first rest =>
    obtain ⟨merged, hmerged, hcut⟩ := Outcome.bind_eq_ok.mp h
    rw [hfields first List.mem_cons_self, Batch.concat_of_fields hfields rfl] at hmerged
    refine ⟨hmerged.2, ?_⟩
    dsimp only at hcut
    split at hcut
    · rename_i last hlast
      have hlastFields : last.fields = fields := by
        rw [Batch.fields_of_mem_chunks (List.mem_of_getLast? hlast), hmerged.1]
        rfl
      split at hcut
      · cases hcut
        simp
      · cases hcut
        simpa using hlastFields
    · cases hcut
      simp

/-- Pending batches that can be put under one another at the end of a stream have nulls where they
may. -/
lemma of_flush {pending : List Batch} (hfields : ∀ b ∈ pending, b.fields = fields)
    (h : (ofOutcome (flush n pending)).failure = none) :
    ∀ row ∈ pending.flatMap Batch.rows, Batch.Allows fields row := by
  cases pending with
  | nil => simp
  | cons first rest =>
    rw [flush, hfields first List.mem_cons_self] at h
    cases hmerged : Batch.concat fields (first :: rest) with
    | error fault =>
      rw [hmerged] at h
      cases h
    | ok merged => exact ((Batch.concat_of_fields hfields rfl).mp hmerged).2

/-- If regrouping pending and further batches of the same columns does not fail, the stream ends
well and nulls stand where they may. -/
lemma of_regroupFrom (failure : Option Fault) {pending rest : List Batch}
    (hfields : ∀ b ∈ pending ++ rest, b.fields = fields)
    (h : (regroupFrom n failure pending rest).failure = none) :
    failure = none ∧ ∀ row ∈ (pending ++ rest).flatMap Batch.rows, Batch.Allows fields row := by
  fun_induction regroupFrom n failure pending rest with
  | case1 pending fault hfailure => cases h
  | case2 pending hfailure =>
    rw [List.append_nil] at hfields ⊢
    exact ⟨hfailure, of_flush hfields h⟩
  | case3 pending b rest hzero ih =>
    rw [flatMap_rows_skip hzero]
    exact ih (fun b' hb' => hfields b' (append_subset_append_cons pending rest b hb')) h
  | case4 pending b rest hrows all hless ih =>
    rw [List.append_cons] at hfields ⊢
    exact ih hfields h
  | case5 pending b rest hrows all hmany fault hfault => cases h
  | case6 pending b rest hrows all hmany full left hfull ih =>
    rw [List.append_cons, show pending ++ [b] = all from rfl] at hfields ⊢
    obtain ⟨hnulls, hleft⟩ := of_drain
      (fun b' hb' => hfields b' (List.mem_append_left _ hb')) hfull
    obtain ⟨hfailure, hrest⟩ := ih (List.forall_mem_append.mpr
      ⟨hleft, fun b' hb' => hfields b' (List.mem_append_right _ hb')⟩) h
    rw [List.flatMap_append] at hrest ⊢
    exact ⟨hfailure, List.forall_mem_append.mpr
      ⟨hnulls, fun row hrow => hrest row (List.mem_append_right _ hrow)⟩⟩

/-- If a regrouped stream does not fail, the stream ends well. -/
lemma failure_of_regroup {s : BatchStream} (h : (s.regroup n).failure = none) :
    s.failure = none := by
  have hfrom : ∀ pending rest, (regroupFrom n s.failure pending rest).failure = none →
      s.failure = none := by
    intro pending rest h
    fun_induction regroupFrom n s.failure pending rest with
    | case1 pending fault hfailure => cases h
    | case2 pending hfailure => exact hfailure
    | case3 pending b rest hzero ih => exact ih h
    | case4 pending b rest hrows all hless ih => exact ih h
    | case5 pending b rest hrows all hmany fault hfault => cases h
    | case6 pending b rest hrows all hmany full left hfull ih => exact ih h
  unfold regroup at h
  split at h
  · cases h
  · exact hfrom [] s.batches h

/-- **When a regrouped stream does not fail**: the stream ends well and nulls stand where they
may. -/
theorem of_regroup (hn : 0 < n) {s : BatchStream} (hfields : ∀ b ∈ s.batches, b.fields = fields)
    (h : (s.regroup n).failure = none) :
    s.failure = none ∧ ∀ row ∈ s.batches.flatMap Batch.rows, Batch.Allows fields row := by
  rw [regroup, if_neg (Nat.ne_of_gt hn)] at h
  exact @of_regroupFrom n fields s.failure [] s.batches hfields h

/-! ### Nothing is lost -/

/-- The full batches that a table is cut into are the first of its batches. -/
lemma batches_ofTable_of_failure (hn : 0 < n) (fault : Fault) (rows : List (List Cell)) :
    ∃ front back : List (List Cell), rows = front ++ back ∧
      front.length = rows.length / n * n ∧
      (ofTable n (some fault) ⟨fields, rows⟩).batches = chunks n ⟨fields, front⟩ := by
  obtain ⟨front, back, hsplit, hfront, -⟩ := Batch.exists_full hn rows
  refine ⟨front, back, hsplit, hfront, ?_⟩
  have hlength : (chunks n ⟨fields, front⟩).length = rows.length / n :=
    Batch.length_chunks_of_full hn hfront
  simp only [ofTable, Batch.size]
  rw [← hlength, hsplit, Batch.chunks_append hn hfront, List.take_left]

/-- The rows of batches of the same fields are as long as there are fields, and nulls stand where
they may. -/
lemma of_formed {batches : List Batch} (h : ∀ b ∈ batches, b.FormedOf fields) :
    conform ⟨fields, batches.flatMap Batch.rows⟩ = ⟨fields, batches.flatMap Batch.rows⟩ ∧
      ∀ row ∈ batches.flatMap Batch.rows,
        row.length = fields.length ∧ Batch.Allows fields row := by
  have hrow : ∀ row ∈ batches.flatMap Batch.rows,
      row.length = fields.length ∧ Batch.Allows fields row := by
    intro row hrow
    obtain ⟨b, hb, hmem⟩ := List.mem_flatMap.mp hrow
    exact ⟨(h b hb).length_row row hmem, (h b hb).allows_row row hmem⟩
  refine ⟨?_, hrow⟩
  have hid := List.map_congr_left (f := List.take fields.length) (g := id)
    fun row hmem => List.take_of_length_le (Nat.le_of_eq (hrow row hmem).1)
  rw [conform, hid, List.map_id]

/-- Batches that a table of such rows is cut into are formed of its fields. -/
lemma formedOf_of_mem_chunks {rows : List (List Cell)} {chunk : Batch}
    (hrows : ∀ row ∈ rows, row.length = fields.length ∧ Batch.Allows fields row)
    (h : chunk ∈ chunks n ⟨fields, rows⟩) : chunk.FormedOf fields := by
  obtain ⟨i, -, rfl⟩ := List.mem_map.mp h
  have hmem : ∀ row ∈ (Batch.slice (i * n) n ⟨fields, rows⟩).rows, row ∈ rows :=
    fun row hrow => List.mem_of_mem_drop (List.mem_of_mem_take hrow)
  exact ⟨rfl, fun row hrow => (hrows row (hmem row hrow)).1,
    fun row hrow => (hrows row (hmem row hrow)).2⟩

/-- Six numbers in batches of two, none, three and one, with a fault behind them or without. -/
def sixNumbers (failure : Option Fault) : BatchStream :=
  ⟨[[1, 2], [], [3, 4, 5], [6]].map fun numbers : List Int =>
    ⟨[⟨"number", .int64, false⟩], numbers.map fun number => [.int number]⟩, failure⟩

section Closed

variable {P : Batch → Prop}
  (hconcat : ∀ {first b batches}, (∀ b' ∈ first :: batches, P b') →
    Batch.concat first.fields (first :: batches) = .ok b → P b)
  (hslice : ∀ {b} start count, P b → P (b.slice start count))

include hslice in
/-- What holds of a table holds of the batches that it is cut into. -/
lemma forall_mem_chunks {b : Batch} (h : P b) : ∀ chunk ∈ b.chunks n, P chunk := by
  intro chunk hchunk
  obtain ⟨i, -, rfl⟩ := List.mem_map.mp hchunk
  exact hslice _ _ h

include hconcat hslice

/-- What holds of pending batches holds of those that are drained and of what is left. -/
lemma forall_mem_drain {pending full left : List Batch} (h : ∀ b ∈ pending, P b)
    (hdrain : drain n pending = .ok (full, left)) : ∀ b ∈ full ++ left, P b := by
  cases pending with
  | nil =>
    cases hdrain
    simp
  | cons first rest =>
    obtain ⟨merged, hmerged, hcut⟩ := Outcome.bind_eq_ok.mp hdrain
    have hchunks := forall_mem_chunks hslice (n := n) (hconcat h hmerged)
    dsimp only at hcut
    split at hcut
    · rename_i last hlast
      split at hcut
      · cases hcut
        simpa using hchunks
      · cases hcut
        intro b hb
        rcases List.mem_append.mp hb with hb | hb
        · exact hchunks b (List.dropLast_subset _ hb)
        · rw [List.mem_singleton.mp hb]
          exact hchunks last (List.mem_of_getLast? hlast)
    · cases hcut
      simp

/-- What holds of pending batches holds of those that are left at the end of a stream. -/
lemma forall_mem_flush {pending : List Batch} (h : ∀ b ∈ pending, P b) :
    ∀ b ∈ (ofOutcome (flush n pending)).batches, P b := by
  cases pending with
  | nil => simp [flush, ofOutcome, ofList]
  | cons first rest =>
    rw [flush]
    cases hmerged : Batch.concat first.fields (first :: rest) with
    | error fault => simp [Except.map, ofOutcome, failed]
    | ok merged => exact forall_mem_chunks hslice (hconcat h hmerged)

/-- What holds of pending and further batches holds of the regrouped ones. -/
lemma forall_mem_regroupFrom (failure : Option Fault) {pending rest : List Batch}
    (h : ∀ b ∈ pending ++ rest, P b) : ∀ b ∈ (regroupFrom n failure pending rest).batches, P b := by
  fun_induction regroupFrom n failure pending rest with
  | case1 pending fault hfailure => exact List.forall_mem_nil _
  | case2 pending hfailure =>
    rw [List.append_nil] at h
    exact forall_mem_flush hconcat hslice h
  | case3 pending b rest hzero ih =>
    exact ih fun b' hb' => h b' (append_subset_append_cons pending rest b hb')
  | case4 pending b rest hrows all hless ih =>
    rw [List.append_cons] at h
    exact ih h
  | case5 pending b rest hrows all hmany fault hfault => exact List.forall_mem_nil _
  | case6 pending b rest hrows all hmany full left hfull ih =>
    rw [List.append_cons, List.forall_mem_append] at h
    have hdrained := List.forall_mem_append.mp (forall_mem_drain hconcat hslice h.1 hfull)
    exact List.forall_mem_append.mpr
      ⟨hdrained.1, ih (List.forall_mem_append.mpr ⟨hdrained.2, h.2⟩)⟩

/-- **What batches under one another and parts of batches inherit** holds of regrouped batches, also
of those before a fault. -/
theorem forall_mem_regroup {s : BatchStream} (h : ∀ b ∈ s.batches, P b) :
    ∀ b ∈ (s.regroup n).batches, P b := by
  unfold regroup
  split
  · simp [failed]
  · exact forall_mem_regroupFrom hconcat hslice s.failure h

end Closed

end BatchStream

end Lineage
