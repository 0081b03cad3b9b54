import Lineage.Proofs.Stream.Regroup

set_option autoImplicit false

/-!
# Regrouping batches of different columns

Batches that are put under one another take the columns of the first of them. Regrouping puts
batches under one another until a whole number of batches is full, so whether a batch has to take
the columns of another one depends on the size of the batches and on how many rows come before. If
all batches can take the columns they have to, nothing is lost; otherwise the stream fails.

## Main definitions

* `Lineage.Batch.Joins`: a batch can take given columns.
* `Lineage.BatchStream.LedBy`: a batch is put under another one, which leads.
* `Lineage.BatchStream.JoinedFrom`: all batches can take the columns of those that lead.
* `Lineage.BatchStream.Delivers`: what is seen of rows, and when it is all of them.

## Main results

* `Lineage.Batch.concat_of_joins`, `Lineage.Batch.concat_of_not_joins`: batches under one another.
* `Lineage.BatchStream.delivers_regroupFrom`, `Lineage.BatchStream.delivers_regroup`: what is seen
  of regrouped batches.
* `Lineage.BatchStream.joinedFrom_iff`: the recursion that follows the loop says the same as the
  description by leading batches.
-/

namespace Lineage

namespace Batch

variable {fields : List Field} {batches : List Batch}

/-- A batch can take given columns: it stores them in the same way, and has nulls only where these
allow them. -/
structure Joins (fields : List Field) (b : Batch) : Prop where
  /-- The columns are stored in the same way. -/
  stores : b.Stores fields
  /-- Nulls stand where they may. -/
  allows : ∀ row ∈ b.rows, Allows fields row

/-- A batch as batches are built can take its own columns. -/
lemma FormedOf.joins {b : Batch} (h : b.FormedOf fields) : b.Joins fields :=
  ⟨fun _ f hf => ⟨f, h.fields_eq ▸ hf, rfl⟩, h.allows_row⟩

/-- **Batches under one another** that can take the columns: all rows as they are. -/
theorem concat_of_joins (h : ∀ b ∈ batches, b.Joins fields)
    (hlength : ∀ b ∈ batches, ∀ row ∈ b.rows, row.length = fields.length) :
    concat fields batches = .ok ⟨fields, batches.flatMap rows⟩ := by
  have hcut : (batches.flatMap fun b => b.rows.map (List.take fields.length)) =
      batches.flatMap rows := by
    refine List.flatMap_congr fun b hb => ?_
    refine (List.map_congr_left fun row hrow => ?_).trans (List.map_id _)
    exact List.take_of_length_le (Nat.le_of_eq (hlength b hb row hrow))
  refine concat_eq_ok.mpr ⟨fun b hb => (h b hb).stores, ?_⟩
  rw [hcut]
  refine make_eq_ok.mpr ⟨rfl, fun row hrow => ?_⟩
  obtain ⟨b, hb, hrow⟩ := List.mem_flatMap.mp hrow
  exact (h b hb).allows row hrow

/-- Nothing is put under one another if a batch cannot take the columns. No batch lacks a column. -/
theorem concat_of_not_joins (hwidth : ∀ b ∈ batches, fields.length ≤ b.fields.length)
    (h : ¬∀ b ∈ batches, b.Joins fields) : concat fields batches = .error .columns := by
  have hfault : ∀ fault, (fields.zipIdx.findSome? fun entry => concatFault? batches entry.2 entry.1)
      = some fault → fault = .columns := by
    intro fault hfault
    obtain ⟨⟨f, i⟩, hmem, hfault⟩ := List.exists_of_findSome?_eq_some hfault
    have hi := (List.getElem?_eq_some_iff.mp (List.mem_zipIdx_iff_getElem?.mp hmem)).1
    have hpresent : (batches.any fun b => (b.fields[i]?).isNone) = false := by
      refine List.any_eq_false.mpr fun b hb => ?_
      simp [List.getElem?_eq_getElem (Nat.lt_of_lt_of_le hi (hwidth b hb))]
    rw [concatFault?, hpresent, if_neg Bool.false_ne_true] at hfault
    split at hfault
    · cases hfault
    · exact (Option.some.inj hfault).symm
  cases hmerged : concat fields batches with
  | ok merged =>
    obtain ⟨hstores, hmake⟩ := concat_eq_ok.mp hmerged
    refine absurd (fun b hb => ⟨hstores b hb, fun row hrow => ?_⟩) h
    refine allows_take.mp ((make_eq_ok.mp hmake).2 _ ?_)
    exact List.mem_flatMap.mpr ⟨b, hb, List.mem_map_of_mem hrow⟩
  | error fault =>
    unfold concat at hmerged
    split at hmerged
    · rename_i fault' hsome
      rw [hfault fault' hsome] at hmerged
      rw [Except.error.inj hmerged]
    · unfold make at hmerged
      dsimp only at hmerged
      split at hmerged
      · cases hmerged
      · rw [Except.error.inj hmerged]

/-- Full batches in front of batches of one size. -/
lemma sizedBy_append {n : ℕ} (hn : 0 < n) {full rest : List Batch} (hfull : ∀ b ∈ full, b.size = n)
    (h : SizedBy n rest) : SizedBy n (full ++ rest) := by
  induction full with
  | nil => exact h
  | cons b full ih =>
    exact sizedBy_cons hn (hfull b List.mem_cons_self)
      (ih fun b' hb' => hfull b' (List.mem_cons_of_mem _ hb'))

end Batch

namespace BatchStream

open Batch (chunks totalSize)

variable {n width : ℕ} {fields : List Field} {rows : List (List Cell)} {joined : Prop}

/-! ### What is seen of rows -/

/-- What is seen of rows in batches of `n`: all of them if `joined` holds. Otherwise the stream
fails after some full batches of the first rows. -/
structure Delivers (n : ℕ) (rows : List (List Cell)) (joined : Prop) (s : BatchStream) : Prop where
  /-- When the stream ends well. -/
  ends_iff : s.failure = none ↔ joined
  /-- What is seen if it does. -/
  of_end : s.failure = none → s.batches.flatMap Batch.rows = rows ∧ Batch.SizedBy n s.batches
  /-- What is seen if it does not. -/
  of_fault : s.failure ≠ none → s.failure = some .columns ∧ (∀ b ∈ s.batches, b.size = n) ∧
    s.batches.flatMap Batch.rows <+: rows

/-- Rows that are cut are all seen. -/
lemma delivers_chunks (hn : 0 < n) (hjoined : joined) :
    Delivers n rows joined (ofList (chunks n ⟨fields, rows⟩)) :=
  ⟨iff_of_true rfl hjoined,
    fun _ => ⟨Batch.flatMap_rows_chunks hn ⟨fields, rows⟩, Batch.sizedBy_chunks hn _⟩, nofun⟩

/-- Nothing is seen of a stream that fails at once. -/
lemma delivers_failed (hjoined : ¬joined) : Delivers n rows joined (failed .columns) :=
  ⟨iff_of_false nofun hjoined, nofun, fun _ => ⟨rfl, nofun, List.nil_prefix⟩⟩

/-- Full batches are seen in front of what is seen of further rows. -/
lemma Delivers.append (hn : 0 < n) {s : BatchStream} (h : Delivers n rows joined s) {k : ℕ}
    {front : List (List Cell)} (hfront : front.length = k * n) :
    Delivers n (front ++ rows) joined (append (chunks n ⟨fields, front⟩) s) := by
  have hfull : ∀ b ∈ chunks n ⟨fields, front⟩, b.size = n :=
    fun b hb => Batch.size_of_mem_chunks_of_full hn hfront hb
  have hrows : (chunks n ⟨fields, front⟩).flatMap Batch.rows = front :=
    Batch.flatMap_rows_chunks hn ⟨fields, front⟩
  refine ⟨h.ends_iff, fun hend => ?_, fun hfault => ?_⟩
  · obtain ⟨hall, hsized⟩ := h.of_end hend
    refine ⟨?_, Batch.sizedBy_append hn hfull hsized⟩
    rw [BatchStream.append, List.flatMap_append, hrows, hall]
  · obtain ⟨hcolumns, hsize, hprefix⟩ := h.of_fault hfault
    refine ⟨hcolumns, fun b hb => (List.mem_append.mp hb).elim (hfull b) (hsize b), ?_⟩
    rw [BatchStream.append, List.flatMap_append, hrows]
    exact (List.prefix_append_right_inj _).mpr hprefix

/-! ### Pending batches -/

/-- Batches that wait to be put under one another: all of them have rows and can take the columns of
the first. -/
structure Pending (width : ℕ) (fields : List Field) (pending : List Batch) : Prop where
  /-- There are as many columns as in all batches. -/
  length_fields : fields.length = width
  /-- The columns are those of the first batch. -/
  head : ∀ b ∈ pending.head?, b.fields = fields
  /-- All batches have rows. -/
  size_pos : ∀ b ∈ pending, 0 < b.size
  /-- All batches can take the columns. -/
  joins : ∀ b ∈ pending, b.Joins fields
  /-- The rows have a cell for each column. -/
  length_row : ∀ b ∈ pending, ∀ row ∈ b.rows, row.length = width

/-- No batches wait. -/
lemma pending_nil (h : fields.length = width) : Pending width fields [] :=
  ⟨h, nofun, nofun, nofun, nofun⟩

/-- One batch waits. -/
lemma pending_singleton {b : Batch} (hb : b.FormedOf b.fields) (hwidth : b.fields.length = width)
    (hsize : 0 < b.size) : Pending width b.fields [b] := by
  refine ⟨hwidth, ?_, ?_, ?_, ?_⟩
  · rintro _ ⟨⟩
    rfl
  · simpa using hsize
  · simpa using hb.joins
  · simpa [← hwidth] using hb.length_row

/-- One more batch waits. -/
lemma Pending.concat {pending : List Batch} (h : Pending width fields pending) (hne : pending ≠ [])
    {b : Batch} (hjoins : b.Joins fields) (hlength : ∀ row ∈ b.rows, row.length = width)
    (hsize : 0 < b.size) : Pending width fields (pending ++ [b]) := by
  obtain ⟨first, rest, rfl⟩ := List.exists_cons_of_ne_nil hne
  refine ⟨h.length_fields, h.head, ?_, ?_, ?_⟩ <;>
    simp only [List.forall_mem_append, List.forall_mem_singleton]
  · exact ⟨h.size_pos, hsize⟩
  · exact ⟨h.joins, hjoins⟩
  · exact ⟨h.length_row, hlength⟩

/-- Batches that wait have rows, so there are none if there are no rows. -/
lemma Pending.eq_nil {pending : List Batch} (h : Pending width fields pending)
    (hsize : totalSize pending = 0) : pending = [] := by
  cases pending with
  | nil => rfl
  | cons b rest =>
    have hpos := h.size_pos b List.mem_cons_self
    rw [totalSize] at hsize
    omega

/-- All rows of waiting batches can stand in one batch. -/
lemma Pending.formed {pending : List Batch} (h : Pending width fields pending) :
    Batch.FormedOf fields ⟨fields, pending.flatMap Batch.rows⟩ := by
  refine ⟨rfl, fun row hrow => ?_, fun row hrow => ?_⟩
  · obtain ⟨b, hb, hrow⟩ := List.mem_flatMap.mp hrow
    exact (h.length_row b hb row hrow).trans h.length_fields.symm
  · obtain ⟨b, hb, hrow⟩ := List.mem_flatMap.mp hrow
    exact (h.joins b hb).allows row hrow

/-- Waiting batches are put under one another. -/
lemma Pending.concat_eq {first : Batch} {rest : List Batch}
    (h : Pending width fields (first :: rest)) : Batch.concat first.fields (first :: rest) =
      .ok ⟨fields, (first :: rest).flatMap Batch.rows⟩ := by
  rw [h.head first rfl]
  refine Batch.concat_of_joins h.joins fun b hb row hrow => ?_
  rw [h.length_fields]
  exact h.length_row b hb row hrow

/-- Rows that are left over from a batch wait. -/
lemma pending_leftover {front back : List (List Cell)} (hwidth : fields.length = width)
    (h : Batch.FormedOf fields ⟨fields, front ++ back⟩) :
    Pending width fields (leftover fields back) := by
  unfold leftover
  split
  · exact pending_nil hwidth
  · rename_i hne
    have hback : Batch.FormedOf fields ⟨fields, back⟩ :=
      ⟨rfl, fun row hrow => h.length_row row (List.mem_append_right _ hrow),
        fun row hrow => h.allows_row row (List.mem_append_right _ hrow)⟩
    have hpos : 0 < back.length := List.length_pos_iff.mpr hne
    exact pending_singleton (b := ⟨fields, back⟩) hback hwidth hpos

/-- **What is drained from waiting batches**: full batches of the first rows, and what is left waits
as one batch. -/
lemma Pending.drain_eq (hn : 0 < n) {pending : List Batch} (h : Pending width fields pending)
    (hsize : n ≤ totalSize pending) :
    ∃ front back, pending.flatMap Batch.rows = front ++ back ∧
      front.length = totalSize pending / n * n ∧ back.length < n ∧
      drain n pending = .ok (chunks n ⟨fields, front⟩, leftover fields back) ∧
      Pending width fields (leftover fields back) := by
  cases pending with
  | nil => exact absurd (Nat.lt_of_lt_of_le hn hsize) (Nat.lt_irrefl 0)
  | cons first rest =>
    have hmerged := h.concat_eq
    have hformed := h.formed
    have htotal := totalSize_eq (first :: rest)
    generalize (first :: rest).flatMap Batch.rows = rows at *
    obtain ⟨hconform, hrows⟩ : Batch.conform ⟨fields, rows⟩ = ⟨fields, rows⟩ ∧
        ∀ row ∈ rows, row.length = fields.length ∧ Batch.Allows fields row := by
      have hone : ∀ b ∈ [(⟨fields, rows⟩ : Batch)], b.FormedOf fields := by simpa using hformed
      simpa using of_formed hone
    -- One batch of all rows is drained as the waiting batches are.
    have hwhole : Batch.concat fields [⟨fields, rows⟩] = .ok ⟨fields, rows⟩ := by
      refine (Batch.concat_of_fields (by simp) (List.flatMap_singleton _ _).symm).mpr
        ⟨hconform.symm, fun row hrow => (hrows row hrow).2⟩
    have hdrain : drain n (first :: rest) = drain n [⟨fields, rows⟩] := by
      simp only [drain, hmerged, hwhole]
    have hsame : totalSize [⟨fields, rows⟩] = totalSize (first :: rest) := by
      rw [htotal]
      rfl
    obtain ⟨front, back, hsplit, hfront, hback, heq⟩ := @BatchStream.drain_eq n fields hn
      [⟨fields, rows⟩] (by simp) (by simpa using fun row hrow => (hrows row hrow).2)
      (by rwa [hsame])
    rw [List.flatMap_singleton, hconform] at hsplit
    obtain rfl : rows = front ++ back := hsplit
    exact ⟨front, back, rfl, hsame ▸ hfront, hback, hdrain.trans heq,
      pending_leftover h.length_fields hformed⟩

/-- Go on with waiting batches: more are waited for, or full ones are drained. -/
def advance (n : ℕ) (waiting rest : List Batch) : BatchStream :=
  if totalSize waiting < n then regroupFrom n none waiting rest
  else
    match drain n waiting with
    | .error fault => failed fault
    | .ok (full, left) => append full (regroupFrom n none left rest)

/-- A batch with rows waits, too, and then it is seen whether the next one is full. -/
lemma regroupFrom_cons {pending rest : List Batch} {b : Batch} (h : b.size ≠ 0) :
    regroupFrom n none pending (b :: rest) = advance n (pending ++ [b]) rest := by
  rw [regroupFrom, if_neg h]
  rfl

/-- A batch without rows does not count. -/
lemma regroupFrom_skip {pending rest : List Batch} {b : Batch} (h : b.size = 0) :
    regroupFrom n none pending (b :: rest) = regroupFrom n none pending rest := by
  rw [regroupFrom, if_pos h]

/-- Nothing more is seen if a batch cannot take the columns of the first one that waits, and nothing
would be after further batches. -/
lemma advance_of_not_joins {first : Batch} {pending rest : List Batch}
    (hwidth : ∀ b ∈ first :: pending, first.fields.length ≤ b.fields.length)
    (h : ¬∀ b ∈ first :: pending, b.Joins first.fields)
    (hlater : regroupFrom n none (first :: pending) rest = failed .columns) :
    advance n (first :: pending) rest = failed .columns := by
  have hdrain : drain n (first :: pending) = .error .columns := by
    rw [drain, Batch.concat_of_not_joins hwidth h]
    rfl
  rw [advance, hlater, hdrain, ite_self]

/-- A batch that cannot take the columns of the first one that waits makes the stream fail, whatever
comes then. -/
lemma regroupFrom_of_not_joins {first : Batch} {pending : List Batch} (rest : List Batch)
    (hwidth : ∀ b ∈ first :: pending ++ rest, first.fields.length ≤ b.fields.length)
    (h : ¬∀ b ∈ first :: pending, b.Joins first.fields) :
    regroupFrom n none (first :: pending) rest = failed .columns := by
  induction rest generalizing pending with
  | nil =>
    rw [List.append_nil] at hwidth
    simp only [regroupFrom, flush, Batch.concat_of_not_joins hwidth h]
    rfl
  | cons b rest ih =>
    by_cases hzero : b.size = 0
    · rw [regroupFrom_skip hzero]
      exact ih (fun b' hb' => hwidth b' (append_subset_append_cons _ rest b hb')) h
    · have hmore : ¬∀ b' ∈ first :: (pending ++ [b]), b'.Joins first.fields :=
        fun hall => h fun b' hb' => hall b' (List.mem_append_left [b] hb')
      rw [show first :: pending ++ b :: rest = first :: (pending ++ [b]) ++ rest by simp] at hwidth
      rw [regroupFrom_cons hzero]
      exact advance_of_not_joins (fun b' hb' => hwidth b' (List.mem_append_left _ hb')) hmore
        (ih hwidth hmore)

/-- Nothing is seen of waiting batches if the next one cannot take their columns. -/
lemma Pending.advance_eq_failed {first b : Batch} {more rest : List Batch}
    (h : Pending width fields (first :: more)) (hwidth : ∀ b' ∈ b :: rest, b'.fields.length = width)
    (hjoins : ¬b.Joins fields) : advance n (first :: more ++ [b]) rest = failed .columns := by
  have hfirst : first.fields = fields := h.head first rfl
  have hspoilt : ¬∀ b' ∈ first :: (more ++ [b]), b'.Joins first.fields :=
    fun hall => hjoins (hfirst ▸ hall b (by simp))
  have hlength : ∀ b' ∈ first :: (more ++ [b]) ++ rest,
      first.fields.length ≤ b'.fields.length := by
    intro b' hb'
    have hmem : b' ∈ first :: more ++ b :: rest := by simpa using hb'
    rw [hfirst]
    rcases List.mem_append.mp hmem with hold | hnew
    · exact (h.joins b' hold).stores.length_le
    · exact Nat.le_of_eq (h.length_fields.trans (hwidth b' hnew).symm)
  rw [List.cons_append]
  exact advance_of_not_joins (fun b' hb' => hlength b' (List.mem_append_left _ hb')) hspoilt
    (regroupFrom_of_not_joins rest hlength hspoilt)

/-! ### Which batch leads -/

/-- All batches can take the columns that they have to, where `seen` rows come before and `fields`
are the columns of the batch that leads. A batch after full ones leads itself. -/
def JoinedFrom (n : ℕ) : (fields : List Field) → (seen : ℕ) → List Batch → Prop
  | _, _, [] => True
  | fields, seen, b :: rest =>
    if b.size = 0 then JoinedFrom n fields seen rest
    else if n ∣ seen then JoinedFrom n b.fields (seen + b.size) rest
    else b.Joins fields ∧ JoinedFrom n fields (seen + b.size) rest

/-- What is seen of waiting batches, however many rows they have, and of further ones, if it is
known what is seen when fewer than `n` rows wait. -/
lemma delivers_advance (hn : 0 < n) {waiting rest : List Batch} {seen : ℕ}
    (hwaiting : Pending width fields waiting) (hseen : totalSize waiting % n = seen % n)
    (h : ∀ {pending}, Pending width fields pending → totalSize pending = seen % n →
      Delivers n ((pending ++ rest).flatMap Batch.rows) joined (regroupFrom n none pending rest)) :
    Delivers n ((waiting ++ rest).flatMap Batch.rows) joined (advance n waiting rest) := by
  unfold advance
  split
  · rename_i hless
    rw [Nat.mod_eq_of_lt hless] at hseen
    exact h hwaiting hseen
  · rename_i hmany
    obtain ⟨front, back, hsplit, hfront, hback, hdrain, hleft⟩ :=
      hwaiting.drain_eq hn (Nat.le_of_not_lt hmany)
    have hcount : totalSize (leftover fields back) = seen % n := by
      have hlength : totalSize waiting = totalSize waiting / n * n + back.length := by
        rw [← hfront, totalSize_eq, hsplit, List.length_append]
      rw [totalSize_eq, flatMap_rows_leftover, ← hseen, hlength, Nat.mul_comm, Nat.mul_add_mod,
        Nat.mod_eq_of_lt hback]
    have hdelivers : Delivers n _ joined (append (chunks n ⟨fields, front⟩) _) :=
      (h hleft hcount).append hn hfront
    rw [List.flatMap_append, flatMap_rows_leftover, ← List.append_assoc, ← hsplit,
      ← List.flatMap_append] at hdelivers
    rwa [hdrain]

/-- **Regrouping waiting and further batches** shows all their rows if the further batches can take
the columns that they have to.

**Proof sketch.** Induction on the further batches. A batch behind full ones waits alone,
under its own columns. Any other one has to take the columns of those that wait; if it cannot,
nothing more is seen. When enough rows wait, full batches are drained (`delivers_advance`). -/
theorem delivers_regroupFrom (hn : 0 < n) {pending rest : List Batch} {seen : ℕ}
    (hrest : ∀ b ∈ rest, b.FormedOf b.fields ∧ b.fields.length = width)
    (hpending : Pending width fields pending) (hseen : totalSize pending = seen % n) :
    Delivers n ((pending ++ rest).flatMap Batch.rows) (JoinedFrom n fields seen rest)
      (regroupFrom n none pending rest) := by
  -- The invariant of the loop: as many rows wait as are seen behind the last full batch.
  induction rest generalizing pending fields seen with
  | nil =>
    rw [List.append_nil]
    cases pending with
    | nil => exact ⟨iff_of_true rfl trivial, fun _ => ⟨rfl, trivial⟩, nofun⟩
    | cons first later =>
      simp only [regroupFrom, flush, hpending.concat_eq, Except.map, ofOutcome]
      exact delivers_chunks hn trivial
  | cons b rest ih =>
    obtain ⟨hb, hlater⟩ := List.forall_mem_cons.mp hrest
    have hassoc : pending ++ b :: rest = (pending ++ [b]) ++ rest := by simp
    have htotal : totalSize (pending ++ [b]) % n = (seen + b.size) % n := by
      rw [totalSize_eq, List.flatMap_append, List.length_append, ← totalSize_eq, ← totalSize_eq,
        hseen, totalSize, totalSize, Nat.add_zero, Nat.mod_add_mod]
    unfold JoinedFrom
    split
    · rename_i hzero
      rw [regroupFrom_skip hzero, flatMap_rows_skip hzero]
      exact ih hlater hpending hseen
    rename_i hsize
    have hpos : 0 < b.size := Nat.pos_of_ne_zero hsize
    rw [regroupFrom_cons hsize, hassoc]
    split
    · rename_i hfull
      obtain rfl := hpending.eq_nil (hseen.trans (Nat.mod_eq_zero_of_dvd hfull))
      exact delivers_advance hn (pending_singleton hb.1 hb.2 hpos) htotal (ih hlater)
    · rename_i hpart
      obtain ⟨first, more, rfl⟩ : ∃ first more, pending = first :: more := by
        refine List.exists_cons_of_ne_nil fun hnil => hpart (Nat.dvd_of_mod_eq_zero ?_)
        rw [← hseen, hnil]
        rfl
      by_cases hjoins : b.Joins fields
      · simp only [hjoins, true_and]
        exact delivers_advance hn (hpending.concat (List.cons_ne_nil _ _) hjoins
          (fun row hrow => (hb.1.length_row row hrow).trans hb.2) hpos) htotal (ih hlater)
      · rw [hpending.advance_eq_failed (fun b hb => (hrest b hb).2) hjoins]
        exact delivers_failed fun hall => hjoins hall.1

/-- A batch comes before the next batch is full, where `seen` rows come before all batches. -/
def Waits (n seen : ℕ) (batches : List Batch) (b : Batch) : Prop :=
  ∃ front back, batches = front ++ b :: back ∧ 0 < b.size ∧
    ∀ between, between <+: front → ¬n ∣ seen + totalSize between

/-- A batch is put under another one, which leads: it comes after full batches, and the other one
before the next batch is full. -/
def LedBy (n seen : ℕ) (batches : List Batch) (lead b : Batch) : Prop :=
  ∃ front back, batches = front ++ lead :: back ∧ 0 < lead.size ∧ n ∣ seen + totalSize front ∧
    Waits n (seen + totalSize front + lead.size) back b

/-- A batch that is put under another one, and this one, are among the batches. -/
lemma LedBy.mem {seen : ℕ} {batches : List Batch} {lead b : Batch}
    (h : LedBy n seen batches lead b) : lead ∈ batches ∧ b ∈ batches := by
  obtain ⟨front, back, rfl, -, -, between, later, rfl, -, -⟩ := h
  simp

/-- Which batches come before the next one is full: the first, and those that do behind it. -/
lemma waits_cons {seen : ℕ} {c b : Batch} {rest : List Batch} :
    Waits n seen (c :: rest) b ↔
      ¬n ∣ seen ∧ (0 < c.size ∧ b = c ∨ Waits n (seen + c.size) rest b) := by
  constructor
  · rintro ⟨front, back, heq, hsize, hpart⟩
    refine ⟨hpart [] List.nil_prefix, ?_⟩
    rcases List.cons_eq_append_iff.mp heq with ⟨rfl, hb⟩ | ⟨front, rfl, hrest⟩
    · cases hb
      exact Or.inl ⟨hsize, rfl⟩
    · refine Or.inr ⟨front, back, hrest, hsize, fun between hbetween => ?_⟩
      have hnot := hpart (c :: between) (List.prefix_cons_inj _ |>.mpr hbetween)
      rwa [totalSize, ← Nat.add_assoc] at hnot
  · rintro ⟨hpart, ⟨hsize, rfl⟩ | ⟨front, back, rfl, hsize, hlater⟩⟩
    · refine ⟨[], rest, rfl, hsize, fun between hbetween => ?_⟩
      rwa [List.prefix_nil.mp hbetween]
    · refine ⟨c :: front, back, rfl, hsize, fun between hbetween => ?_⟩
      rcases List.prefix_cons_iff.mp hbetween with rfl | ⟨tail, rfl, htail⟩
      · exact hpart
      · rw [totalSize, ← Nat.add_assoc]
        exact hlater tail htail

/-- No batch waits behind full ones. -/
lemma Waits.not_dvd {seen : ℕ} {batches : List Batch} {b : Batch} (h : Waits n seen batches b) :
    ¬n ∣ seen := by
  obtain ⟨front, back, -, -, hpart⟩ := h
  exact hpart [] List.nil_prefix

/-- Which batches are put under which: those that come soon behind the first if this one leads, and
those that are led behind it. -/
lemma ledBy_cons {seen : ℕ} {c lead b : Batch} {rest : List Batch} :
    LedBy n seen (c :: rest) lead b ↔
      (0 < c.size ∧ n ∣ seen ∧ lead = c ∧ Waits n (seen + c.size) rest b) ∨
        LedBy n (seen + c.size) rest lead b := by
  constructor
  · rintro ⟨front, back, heq, hsize, hfull, hwaits⟩
    rcases List.cons_eq_append_iff.mp heq with ⟨rfl, hlead⟩ | ⟨front, rfl, hrest⟩
    · cases hlead
      exact Or.inl ⟨hsize, hfull, rfl, hwaits⟩
    · rw [totalSize, ← Nat.add_assoc] at hfull hwaits
      exact Or.inr ⟨front, back, hrest, hsize, hfull, hwaits⟩
  · rintro (⟨hsize, hfull, rfl, hwaits⟩ | ⟨front, back, rfl, hsize, hfull, hwaits⟩)
    · exact ⟨[], rest, rfl, hsize, hfull, hwaits⟩
    · refine ⟨c :: front, back, rfl, hsize, ?_⟩
      rw [totalSize, ← Nat.add_assoc]
      exact ⟨hfull, hwaits⟩

/-- **All batches can take the columns that they have to** exactly if those that wait can take the
columns of the batch that leads at first, and any other one can take those of the batch that it is
put under.

**Proof sketch.** Induction on the batches. A batch without rows changes nothing. Behind full
batches the first one leads those that wait behind it; otherwise it waits itself for the one
that leads. -/
theorem joinedFrom_iff {seen : ℕ} {batches : List Batch} : JoinedFrom n fields seen batches ↔
    (∀ b, Waits n seen batches b → b.Joins fields) ∧
      ∀ lead b, LedBy n seen batches lead b → b.Joins lead.fields := by
  induction batches generalizing fields seen with
  | nil => simp [JoinedFrom, Waits, LedBy]
  | cons c rest ih =>
    unfold JoinedFrom
    simp only [waits_cons, ledBy_cons]
    split
    · rename_i hzero
      simp only [hzero, Nat.lt_irrefl, false_and, false_or, Nat.add_zero, ih]
      refine and_congr_left' (forall_congr' fun b => imp_congr_left ?_)
      exact (and_iff_right_of_imp Waits.not_dvd).symm
    · rename_i hsize
      have hpos : 0 < c.size := Nat.pos_of_ne_zero hsize
      split
      · rename_i hfull
        simp only [hpos, hfull, not_true_eq_false, false_and, false_implies, implies_true, true_and,
          or_imp, forall_and, and_imp, ih]
        refine and_congr_left' ⟨?_, fun h b hb => h c b rfl hb⟩
        rintro h lead b rfl hb
        exact h b hb
      · rename_i hpart
        simp only [hpos, hpart, not_false_eq_true, false_and, and_false, false_or, true_and,
          or_imp, forall_and, forall_eq, ih, and_assoc]

/-- **What is seen of regrouped batches**: all their rows if they can take the columns that they
have to.

**Proof sketch.** The loop says when all batches can take the columns that they have to
(`delivers_regroupFrom`), and `joinedFrom_iff` turns this into a statement about the batches
that lead. At first nothing waits. -/
theorem delivers_regroup (hn : 0 < n) {batches : List Batch}
    (h : ∀ b ∈ batches, b.FormedOf b.fields ∧ b.fields.length = width) :
    Delivers n (batches.flatMap Batch.rows)
      (∀ lead b, LedBy n 0 batches lead b → b.Joins lead.fields) ((ofList batches).regroup n) := by
  -- Nothing waits at first, so it does not matter under which columns.
  obtain ⟨fields, hfields⟩ : ∃ fields : List Field, fields.length = width :=
    ⟨List.replicate width ⟨"", .null, true⟩, List.length_replicate⟩
  have hjoined : JoinedFrom n fields 0 batches ↔
      ∀ lead b, LedBy n 0 batches lead b → b.Joins lead.fields :=
    joinedFrom_iff.trans (and_iff_right fun b hb => absurd (Nat.dvd_zero n) hb.not_dvd)
  rw [← hjoined, regroup, if_neg (Nat.ne_of_gt hn)]
  exact delivers_regroupFrom hn h (pending_nil hfields) (Nat.zero_mod n).symm

end BatchStream

end Lineage
