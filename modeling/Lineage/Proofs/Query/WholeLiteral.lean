import Lineage.Proofs.Number.Whole
import Lineage.Proofs.Query.Literal

set_option autoImplicit false

/-!
# Comparing whole numbers

A predicate compares the numbers of a column with a literal as doubles. Neighbours that share their
nearest double are equal for it. All other whole numbers are compared as they are, so that a query
selects the right rows unless the literal shares its double with a number of the column for which
the comparison comes out differently.

## Main definitions

* `Lineage.Comparison.onInts`: the exact comparison of whole numbers.
* `Lineage.Comparison.onNearest`: the comparison in which numbers with one nearest double are equal.
* `Lineage.Query.recordsWhere`: the records of the rows whose number passes a test.

## Main results

* `Lineage.Predicate.holds_int`: what a predicate says about a whole number.
* `Lineage.Query.run_whole_iff`: which rows a query selects, and when these are the right ones.
* `Lineage.Query.run_whole_of_small`: literals below `2 ^ 53` are compared exactly.
-/

namespace Lineage

open Binary64 (Stands nearestInt)

/-! ### Comparisons -/

/-- Compare whole numbers. -/
def Comparison.onInts (c : Comparison) (a b : ℤ) : Bool :=
  match c with
  | .eq => decide (a = b)
  | .ne => decide (a ≠ b)
  | .le => decide (a ≤ b)
  | .ge => decide (b ≤ a)
  | .lt => decide (a < b)
  | .gt => decide (b < a)

/-- Compare whole numbers that share their nearest double as equal ones, and others as they are. -/
def Comparison.onNearest (c : Comparison) (a b : ℤ) : Bool :=
  if nearestInt a = nearestInt b then c.onInts b b else c.onInts a b

variable {a b k v : ℤ}

/-- Doubles are compared as the whole numbers that they stand for. -/
lemma Comparison.onFloats_eq {x y : Float} (c : Comparison) (hx : Stands x a) (hy : Stands y b) :
    c.onFloats x y = c.onInts a b := by
  have hbeq : (x == y) = decide (a = b) := by
    rw [Bool.eq_iff_iff, hx.beq_iff hy, decide_eq_true_iff]
  cases c with
  | eq => exact hbeq
  | ne =>
    change (!(x == y)) = decide (a ≠ b)
    rw [hbeq, decide_not]
  | le => exact decide_eq_decide.mpr (hx.le_iff hy)
  | ge => exact decide_eq_decide.mpr (hy.le_iff hx)
  | lt => exact decide_eq_decide.mpr (hx.lt_iff hy)
  | gt => exact decide_eq_decide.mpr (hy.lt_iff hx)

/-- **Nearest numbers** are compared as the numbers are, unless they are one. -/
theorem Comparison.onInts_nearestInt (c : Comparison) (a b : ℤ) :
    c.onInts (nearestInt a) (nearestInt b) = c.onNearest a b := by
  unfold Comparison.onNearest
  have hself : ∀ z : ℤ, c.onInts z z = c.onInts b b := fun z => by
    cases c <;> simp [Comparison.onInts]
  split
  · rename_i heq
    rw [heq, hself]
  · rename_i hne
    -- Rounding keeps the order, so different nearest numbers are in the order of the numbers.
    have hab : a ≠ b := fun heq => hne (heq ▸ rfl)
    have hlt : nearestInt a < nearestInt b ↔ a < b := by
      constructor
      · exact fun h => not_le.mp fun hle => h.not_ge (Binary64.nearestInt_mono hle)
      · exact fun h => lt_of_le_of_ne (Binary64.nearestInt_mono h.le) hne
    have hle : nearestInt a ≤ nearestInt b ↔ a ≤ b := by
      rw [le_iff_lt_or_eq, le_iff_lt_or_eq, hlt, or_iff_left hne, or_iff_left hab]
    cases c with
    | eq => simp [Comparison.onInts, hne, hab]
    | ne => simp [Comparison.onInts, hne, hab]
    | le => exact decide_eq_decide.mpr hle
    | ge => exact decide_eq_decide.mpr (by rw [← not_lt, hlt, not_lt])
    | lt => exact decide_eq_decide.mpr hlt
    | gt => exact decide_eq_decide.mpr (by rw [← not_le, hle, not_le])

/-- A number of 64 bits. -/
lemma natAbs_lt_of_bounds (h : Number.least64 ≤ a ∧ a ≤ Number.greatest64) :
    a.natAbs < 2 ^ 64 := by
  obtain ⟨hleast, hgreatest⟩ := h
  unfold Number.least64 at hleast
  unfold Number.greatest64 at hgreatest
  omega

/-- **What a predicate says about a whole number**: it is compared with the literal, and is equal to
it if both have one nearest double.

**Proof sketch.** The literal is read as the double nearest to its number, and the value is
moved to the double nearest to it. Doubles are compared as the numbers that they stand for
(`Comparison.onFloats_eq`). -/
theorem Predicate.holds_int {p : Predicate}
    (hliteral : Number.intOfChars? p.literal.toList = some k)
    (hk : Number.least64 ≤ k ∧ k ≤ Number.greatest64)
    (hv : Number.least64 ≤ v ∧ v ≤ Number.greatest64) :
    p.holds (.int v) = .ok (p.comparison.onNearest v k) := by
  obtain ⟨y, hy, hstands⟩ := Binary64.exists_floatOfText? hliteral (natAbs_lt_of_bounds hk)
  have hvalue : Stands (Float.ofInt v) (nearestInt v) :=
    Binary64.stands_ofInt (natAbs_lt_of_bounds hv)
  have hnumber : p.number = .ok y := by rw [Predicate.number, hy, Outcome.ofOption]
  rw [Predicate.holds, hnumber, ← Comparison.onInts_nearestInt,
    ← p.comparison.onFloats_eq hvalue hstands]
  rfl

/-- A literal below `2 ^ 53` shares its double with no other number. -/
lemma eq_of_nearestInt_eq (hk : k.natAbs < 2 ^ 53) (h : nearestInt v = nearestInt k) : v = k := by
  have hself : ∀ z : ℤ, z.natAbs ≤ 2 ^ 53 → nearestInt z = z := fun _ =>
    Binary64.nearestInt_of_natAbs_le
  have hnearest : nearestInt k = k := hself k hk.le
  rcases lt_trichotomy v k with hlt | heq | hgt
  · have hbelow := Binary64.nearestInt_mono (Int.le_sub_one_of_lt hlt)
    rw [hself (k - 1) (by omega)] at hbelow
    omega
  · exact heq
  · have habove := Binary64.nearestInt_mono (Int.add_one_le_of_lt hgt)
    rw [hself (k + 1) (by omega)] at habove
    omega

namespace Query

variable {name literal text source : String} {c : Comparison} {table : Batch}
  {records : List Record} {names : List String} {i : ℕ}

/-! ### Tables -/

/-- A column of whole numbers at an index, whose name no other column has, in a table that can be
held by its columns. -/
structure WholeColumn (table : Batch) (name : String) (i : ℕ) : Prop where
  /-- There are whole numbers in the column. -/
  field : ∃ nullable, table.fields[i]? = some ⟨name, .int64, nullable⟩
  /-- No other column has the name. -/
  unique : (table.fields.map FieldOf.name).count name = 1
  /-- The columns can hold the rows. -/
  fits : table.Fits

/-- The number of a cell passes a test; a null does not. -/
def passes (test : ℤ → Bool) : Cell → Bool
  | .int v => test v
  | _ => false

/-- The number of a value in a record passes a test; a null does not. -/
def passesIn (test : ℤ → Bool) : Json → Bool
  | .int v => test v
  | _ => false

/-- The records of the rows whose number in a column passes a test. -/
def recordsWhere (i : ℕ) (test : ℤ → Bool) (table : Batch) (records : List Record) :
    List Record :=
  ((table.rows.zip records).filter fun e => passes test (Batch.cellAt i e.1)).map Prod.snd

/-- The record of a row has the number of the column, or a null. -/
lemma WholeColumn.valueAt_eq (h : WholeColumn table name i) {row : List Cell}
    (hrow : row ∈ table.rows) {record : Record}
    (hrecord : Batch.recordOfRow table.fields row = .ok record) :
    (Batch.cellAt i row = .null ∧ valueAt record name = .null) ∨
      ∃ v, Batch.cellAt i row = .int v ∧ valueAt record name = .int v ∧
        Number.least64 ≤ v ∧ v ≤ Number.greatest64 := by
  obtain ⟨nullable, hfield⟩ := h.field
  obtain ⟨hvalue, hheld⟩ := valueAt_eq_valueOf hfield h.unique h.fits hrow hrecord
  rw [hvalue]
  generalize Batch.cellAt i row = cell at hheld
  rcases hheld with rfl | hscalar
  · exact .inl ⟨rfl, rfl⟩
  · cases cell with
    | int v => exact .inr ⟨v, rfl, rfl, hscalar⟩
    | _ => exact hscalar.elim

/-- The predicate is evaluated on the record of a row by the number of the row. -/
lemma WholeColumn.holds_eq (h : WholeColumn table name i)
    (hliteral : Number.intOfChars? literal.toList = some k)
    (hk : Number.least64 ≤ k ∧ k ≤ Number.greatest64) {row : List Cell} (hrow : row ∈ table.rows)
    {record : Record} (hrecord : Batch.recordOfRow table.fields row = .ok record) :
    (⟨name, c, literal⟩ : Predicate).holds (valueAt record name) =
      .ok (passes (c.onNearest · k) (Batch.cellAt i row)) := by
  rcases h.valueAt_eq hrow hrecord with ⟨hcell, hvalue⟩ | ⟨v, hcell, hvalue, hv⟩
  · rw [hcell, hvalue]
    rfl
  · rw [hcell, hvalue]
    exact Predicate.holds_int hliteral hk hv

/-- Two tests select the same rows exactly if they agree on all numbers of the column.

**Proof sketch.** The number of a row is also in its record, so that the records that pass a
test can be told without the rows. A row on which the tests differ then makes the difference.
-/
lemma WholeColumn.recordsWhere_eq_iff (h : WholeColumn table name i)
    (hrecords : table.toRecords = .ok records) (test test' : ℤ → Bool) :
    recordsWhere i test table records = recordsWhere i test' table records ↔
      ∀ row ∈ table.rows, ∀ v, Batch.cellAt i row = .int v → test v = test' v := by
  have hpairs : List.Forall₂ (fun row record => row ∈ table.rows ∧
      Batch.recordOfRow table.fields row = .ok record) table.rows records :=
    (List.forall₂_and_left _ _).mpr ⟨fun _ hrow => hrow, Outcome.mapM_eq_ok.mp hrecords⟩
  -- A record has the number of its row, so that it passes a test or not wherever it occurs.
  have hfilter : ∀ test : ℤ → Bool, recordsWhere i test table records =
      records.filter fun record => passesIn test (valueAt record name) := by
    intro test
    have hmarks : List.Forall₂ (fun row record => passesIn test (valueAt record name) =
        passes test (Batch.cellAt i row)) table.rows records := by
      refine hpairs.imp fun row record hpair => ?_
      rcases h.valueAt_eq hpair.1 hpair.2 with ⟨hcell, hvalue⟩ | ⟨v, hcell, hvalue, -⟩ <;>
        rw [hcell, hvalue] <;> rfl
    exact (filter_eq_of_forall₂ hmarks).symm
  constructor
  · intro heq row hrow v hcell
    obtain ⟨record, hrecord, -, hof⟩ := Outcome.exists_mem_of_forall₂ hpairs hrow
    have hvalue : valueAt record name = .int v := by
      rcases h.valueAt_eq hrow hof with ⟨hnull, -⟩ | ⟨w, hcell', hvalue, -⟩
      · cases hcell.symm.trans hnull
      · cases hcell.symm.trans hcell'
        exact hvalue
    rw [hfilter, hfilter] at heq
    have hmem := congrArg (record ∈ ·) heq
    have hsame : passesIn test (.int v) = passesIn test' (.int v) := by
      simpa [List.mem_filter, hrecord, hvalue, ← Bool.eq_iff_iff] using hmem
    exact hsame
  · intro hagree
    refine congrArg (List.map Prod.snd) (List.filter_congr fun e he => ?_)
    have hrow : e.1 ∈ table.rows := (List.of_mem_zip he).1
    cases hcell : Batch.cellAt i e.1 with
    | int v => exact hagree e.1 hrow v hcell
    | _ => rfl

section Run

variable (hparse : parse text = .ok ⟨none, source, [⟨name, c, literal⟩], none⟩)
  (hliteral : Number.intOfChars? literal.toList = some k)
  (hk : Number.least64 ≤ k ∧ k ≤ Number.greatest64) (hsource : source ∈ names)
  (hcolumn : WholeColumn table name i) (hrecords : table.toRecords = .ok records)

include hparse hliteral hk hsource hcolumn hrecords

/-- A query with one predicate about whole numbers selects the rows whose number compares with the
literal, where numbers with one nearest double are equal. -/
lemma run_whole_eq :
    run names (some table) text = .ok (recordsWhere i (c.onNearest · k) table records) := by
  have hname : name ∈ table.fields.map FieldOf.name :=
    List.count_pos_iff.mp (by rw [hcolumn.unique]; exact Nat.one_pos)
  exact run_eq_of_holds hparse hsource hname hrecords
    fun _ hrow _ hrecord => hcolumn.holds_eq hliteral hk hrow hrecord

/-- **Which rows a comparison with a whole number selects**: those whose number compares with the
literal, except that numbers with the nearest double of the literal count as equal to it, in every
query in which the comparison stands. So a query with this predicate selects exactly the right rows
if it makes no difference for any number of the column.

**Proof sketch.** The predicate holds of a row by the nearest doubles
(`WholeColumn.holds_eq`), which is what the query selects. This selects the rows that compare
with the literal itself exactly if both tests agree on all numbers of the column
(`WholeColumn.recordsWhere_eq_iff`), and they can differ only where the nearest double is that
of the literal. -/
theorem run_whole_iff :
    (∀ row ∈ table.rows, ∀ record, Batch.recordOfRow table.fields row = .ok record →
      (⟨name, c, literal⟩ : Predicate).holds (valueAt record name) =
        .ok (passes (c.onNearest · k) (Batch.cellAt i row))) ∧
    run names (some table) text = .ok (recordsWhere i (c.onNearest · k) table records) ∧
    (run names (some table) text = .ok (recordsWhere i (c.onInts · k) table records) ↔
      ∀ row ∈ table.rows, ∀ v, Batch.cellAt i row = .int v → nearestInt v = nearestInt k →
        c.onInts v k = c.onInts k k) := by
  have hrun := run_whole_eq hparse hliteral hk hsource hcolumn hrecords
  refine ⟨fun row hrow record hrecord => hcolumn.holds_eq hliteral hk hrow hrecord, hrun, ?_⟩
  rw [hrun, Except.ok.injEq, hcolumn.recordsWhere_eq_iff hrecords]
  refine forall₄_congr fun row hrow v hcell => ?_
  unfold Comparison.onNearest
  by_cases hsame : nearestInt v = nearestInt k
  · rw [if_pos hsame]
    exact ⟨fun h _ => h.symm, fun h => (h hsame).symm⟩
  · rw [if_neg hsame]
    exact iff_of_true rfl fun h => absurd h hsame

/-- **Literals below `2 ^ 53`** select exactly the right rows. -/
theorem run_whole_of_small (hsmall : k.natAbs < 2 ^ 53) :
    run names (some table) text = .ok (recordsWhere i (c.onInts · k) table records) := by
  rw [run_whole_eq hparse hliteral hk hsource hcolumn hrecords, Except.ok.injEq,
    hcolumn.recordsWhere_eq_iff hrecords]
  intro row hrow v hcell
  unfold Comparison.onNearest
  split
  · rename_i hsame
    rw [eq_of_nearestInt_eq hsmall hsame]
  · rfl

omit hparse hliteral hk hsource hcolumn hrecords

end Run

/-- Large numbers, some of which have doubles of their own, and a missing number. -/
def largeNumbers : Batch where
  fields := [⟨"n", .int64, true⟩]
  rows := [[.int 9007199254740993], [.null], [.int 9007199254740996],
    [.int (-9223372036854775808)]]

/-- The only column of the large numbers. -/
lemma wholeColumn_largeNumbers : WholeColumn largeNumbers "n" 0 where
  field := ⟨true, rfl⟩
  unique := by simp [largeNumbers]
  fits := fun row hrow => by
    have hnumber : ∀ v : ℤ, Number.least64 ≤ v ∧ v ≤ Number.greatest64 →
        Cell.FitsParts true largeNumbers.fields [.int v] := fun v hv =>
      ⟨Or.inr hv, Or.inl rfl, trivial⟩
    simp only [largeNumbers, List.mem_cons, List.not_mem_nil, or_false] at hrow
    rcases hrow with rfl | rfl | rfl | rfl
    · exact hnumber _ (by decide)
    · exact ⟨Or.inl rfl, Or.inl rfl, trivial⟩
    · exact hnumber _ (by decide)
    · exact hnumber _ (by decide)

/-- A large number that no number of the column shares its double with is compared exactly. -/
theorem run_whole_iff_largeNumbers :
    run ["self"] (some largeNumbers) "SELECT * FROM self WHERE n >= 9007199254740996" =
      .ok [[("n", .int 9007199254740996)]] := by
  have hparse : parse "SELECT * FROM self WHERE n >= 9007199254740996" =
      .ok ⟨none, "self", [⟨"n", .ge, "9007199254740996"⟩], none⟩ := by rfl
  have hliteral : Number.intOfChars? "9007199254740996".toList = some 9007199254740996 := by decide
  have hrange : Number.least64 ≤ 9007199254740996 ∧ 9007199254740996 ≤ Number.greatest64 := by
    decide
  have hself : "self" ∈ ["self"] := List.mem_cons_self
  refine (run_whole_iff hparse hliteral hrange hself wholeColumn_largeNumbers rfl).2.2.mpr
    fun row hrow v hcell => ?_
  simp only [largeNumbers, List.mem_cons, List.not_mem_nil, or_false] at hrow
  rcases hrow with rfl | rfl | rfl | rfl <;> cases hcell <;> decide

/-- A number whose neighbour has no double of its own is taken for equal to it. -/
theorem not_selected_neighbour :
    run ["self"] (some largeNumbers) "SELECT * FROM self WHERE n == 9007199254740992" =
        .ok [[("n", .int 9007199254740993)]] ∧
      Comparison.eq.onInts 9007199254740993 9007199254740992 = false := by
  have hparse : parse "SELECT * FROM self WHERE n == 9007199254740992" =
      .ok ⟨none, "self", [⟨"n", .eq, "9007199254740992"⟩], none⟩ := by rfl
  have hliteral : Number.intOfChars? "9007199254740992".toList = some 9007199254740992 := by decide
  have hrange : Number.least64 ≤ 9007199254740992 ∧ 9007199254740992 ≤ Number.greatest64 := by
    decide
  have hself : "self" ∈ ["self"] := List.mem_cons_self
  exact ⟨run_whole_eq hparse hliteral hrange hself wholeColumn_largeNumbers rfl, by decide⟩

end Query

end Lineage
