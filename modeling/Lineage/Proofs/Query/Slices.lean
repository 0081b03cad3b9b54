import Lineage.Proofs.Query.Bytes
import Lineage.Proofs.Query.Clauses

set_option autoImplicit false

/-!
# Queries read by their bytes

Reading a query by the bytes of its text gives the same query as reading it by characters: places
between bytes keep their order, and whatever is cut out starts and ends with a character. A part is
missing in one case only, where the keyword FROM stands in place of the columns.

## Main definitions

* `Lineage.Query.sliceQuery`: the query of a text, from the bytes where its keywords stand.
* `Lineage.Query.Answered`: there is a value or a reason why the query has none.

## Main results

* `Lineage.Query.slicePredicates_eq`: all predicates behind a byte are read.
* `Lineage.Query.sliceQuery_eq`: reading by bytes and by characters is the same.
* `Lineage.Query.sliceQuery_answered_iff`: which texts have an answer.
-/

namespace Lineage.Query

variable {pattern cs : List Char} {i j n start stop : ℕ}

/-! ### Reading by bytes -/

/-- Split at the first comparison, trying them in order. -/
def sliceComparison (cs : List Char) :
    List (List Char × Comparison) → Outcome (Option (List Char × Comparison × List Char))
  | [] => .ok none
  | (spelling, comparison) :: rest =>
    match findByte spelling cs with
    | some place => do
      let column ← slice 0 place cs
      let literal ← slice (place + byteLength spelling) (byteLength cs) cs
      .ok (some (column, comparison, literal))
    | none => sliceComparison cs rest

/-- A predicate from its text. -/
def slicePredicate (cs : List Char) : Outcome Predicate := do
  match ← sliceComparison cs Comparison.spellings with
  | some (column, comparison, literal) =>
    .ok ⟨String.ofList (Text.stripChars column), comparison,
      String.ofList (unquote (Text.stripChars literal))⟩
  | none => .error (.query ("unparseable predicate: " ++ String.ofList cs))

/-- The predicates of a clause from a byte on, each up to the next AND in its capitals; `fuel`
bounds their number, and there is no answer where they are more. -/
def slicePredicates : ℕ → ℕ → List Char → Outcome (List Predicate)
  | 0, _, _ => .error .abort
  | fuel + 1, offset, clause => do
    let upper ← slice offset (byteLength (capitals clause)) (capitals clause)
    match findByte " AND ".toList upper with
    | some place => do
      let first ← slicePredicate (← slice offset (offset + place) clause)
      let others ← slicePredicates fuel (offset + place + byteLength " AND ".toList) clause
      .ok (first :: others)
    | none => do
      let last ← slicePredicate (← slice offset (byteLength clause) clause)
      .ok [last]

/-- The predicates of the clause at a byte, up to another byte. -/
def sliceConditions (place : Option ℕ) (stop : ℕ) (cs : List Char) : Outcome (List Predicate) :=
  match place with
  | none => .ok []
  | some place => do
    let start := place + byteLength " WHERE ".toList
    let clause ← slice start (max stop start) cs
    slicePredicates (clause.length + 1) 0 clause

/-- The limit of the clause at a byte, up to the end. -/
def sliceLimit (place : Option ℕ) (cs : List Char) : Outcome (Option ℕ) :=
  match place with
  | none => .ok none
  | some place => do
    let number ← slice (place + byteLength " LIMIT ".toList) (byteLength cs) cs
    (parseLimit (Text.stripChars number)).map some

/-- The query of a text, from the bytes where its keywords stand. -/
def sliceQuery (text : String) : Outcome Query := do
  let q := trimmed text
  let upper := capitals q
  if !"SELECT ".toList.isPrefixOf upper then
    .error (.query ("only SELECT is supported: " ++ String.ofList q))
  else
    match findByte " FROM ".toList upper with
    | none => .error (.query ("missing FROM: " ++ String.ofList q))
    | some source => do
      let columns := parseColumns (← slice (byteLength "SELECT ".toList) source q)
      let afterFrom := source + byteLength " FROM ".toList
      let after (place : Option ℕ) : Option ℕ := place.filter fun p => source < p
      let condition := after (findByte " WHERE ".toList upper)
      let bound := after (findByte " LIMIT ".toList upper)
      let tableEnd := (condition <|> bound).getD (byteLength q)
      let table := Text.stripChars (← slice afterFrom (max tableEnd afterFrom) q)
      if table.isEmpty || table.any Text.isBlank then
        .error (.query ("malformed FROM clause: " ++ String.ofList q))
      else do
        let predicates ← sliceConditions condition (bound.getD (byteLength q)) q
        let limit ← sliceLimit bound q
        .ok ⟨columns, String.ofList table, predicates, limit⟩

/-- What stands around an occurrence, by its bytes. -/
lemma slice_of_findText (h : findText pattern cs = some i) :
    slice 0 (byteAt cs i) cs = .ok (cs.take i) ∧
      slice (byteAt cs i + byteLength pattern) (byteLength cs) cs =
        .ok (cs.drop (i + pattern.length)) := by
  obtain ⟨before, after, rfl, rfl⟩ := exists_of_findText h
  rw [byteAt_append, List.take_left, ← List.append_assoc, ← List.length_append, List.drop_left]
  constructor
  · exact slice_eq_ok_iff.mpr ⟨[], pattern ++ after, by simp, rfl, rfl⟩
  · exact slice_eq_ok_iff.mpr ⟨before ++ pattern, [], by simp, byteLength_append _ _, rfl⟩

/-- The first comparison is split at by bytes as by characters. -/
lemma sliceComparison_eq (cs : List Char) (spellings : List (List Char × Comparison)) :
    sliceComparison cs spellings = .ok (splitComparison cs spellings) := by
  induction spellings with
  | nil => rfl
  | cons entry rest ih =>
    obtain ⟨spelling, comparison⟩ := entry
    rw [sliceComparison, splitComparison, findByte_eq]
    cases hplace : findText spelling cs with
    | none => exact ih
    | some i =>
      obtain ⟨hcolumn, hliteral⟩ := slice_of_findText hplace
      simp only [Option.map_some, hcolumn, hliteral, Outcome.ok_bind]

/-- A predicate is read by bytes as by characters. -/
lemma slicePredicate_eq (cs : List Char) : slicePredicate cs = parsePredicate cs := by
  cases hsplit : splitComparison cs Comparison.spellings <;>
    simp only [slicePredicate, parsePredicate, sliceComparison_eq, hsplit, Outcome.ok_bind]

/-- The predicates from a byte on, by the next AND behind it. -/
lemma slicePredicates_succ (n : ℕ) (done rest : List Char) :
    slicePredicates (n + 1) (byteLength done) (done ++ rest) =
      (match findKeyword ['A', 'N', 'D'] (capitals rest) with
      | some i => do
        let first ← parsePredicate (rest.take i)
        let others ← slicePredicates n (byteLength (done ++ rest.take (i + 5))) (done ++ rest)
        .ok (first :: others)
      | none => do
        let last ← parsePredicate rest
        .ok [last]) := by
  have hupper : slice (byteLength done) (byteLength (capitals (done ++ rest)))
      (capitals (done ++ rest)) = .ok (capitals rest) :=
    slice_eq_ok_iff.mpr ⟨capitals done, [], by simp, by simp, by simp⟩
  have hrest : slice (byteLength done) (byteLength (done ++ rest)) (done ++ rest) = .ok rest :=
    slice_eq_ok_iff.mpr ⟨done, [], by simp, rfl, rfl⟩
  have hkeyword : findByte " AND ".toList (capitals rest) =
      (findKeyword ['A', 'N', 'D'] (capitals rest)).map (byteAt rest) := by
    rw [findByte_eq, byteAt_capitals]
    rfl
  rw [slicePredicates, hupper, Outcome.ok_bind, hkeyword]
  cases hplace : findKeyword ['A', 'N', 'D'] (capitals rest) with
  | none => simp only [Option.map_none, hrest, Outcome.ok_bind, slicePredicate_eq]
  | some i =>
    have hpiece : slice (byteLength done) (byteLength done + byteAt rest i) (done ++ rest) =
        .ok (rest.take i) :=
      slice_eq_ok_iff.mpr ⟨done, rest.drop i, by simp, rfl, byteLength_append _ _⟩
    have hnext : byteLength done + byteAt rest i + byteLength " AND ".toList =
        byteLength (done ++ rest.take (i + 5)) := by
      rw [byteLength_append, Nat.add_assoc]
      exact congrArg (byteLength done + ·) (byteAt_of_findText_capitals hplace).2.symm
    simp only [Option.map_some, hpiece, hnext, Outcome.ok_bind, slicePredicate_eq]

/-- **The predicates from a byte on** are those of the pieces behind it, and all pieces are read.

**Proof sketch.** By induction on the number of pieces, which is bounded by the characters
that are left: one step cuts off the piece in front of the next keyword and leaves a shorter
rest (`slicePredicates_succ`). -/
theorem slicePredicates_eq (done rest : List Char) (hfuel : rest.length ≤ n) :
    slicePredicates (n + 1) (byteLength done) (done ++ rest) =
      (splitAnd n rest).mapM parsePredicate := by
  induction n generalizing done rest with
  | zero =>
    obtain rfl := List.length_eq_zero_iff.mp (Nat.le_zero.mp hfuel)
    rw [slicePredicates_succ, splitAnd, List.mapM_cons, List.mapM_nil]
    rfl
  | succ n ih =>
    rw [slicePredicates_succ, splitAnd]
    cases hplace : findKeyword ['A', 'N', 'D'] (capitals rest) with
    | none =>
      rw [List.mapM_cons, List.mapM_nil]
      rfl
    | some i =>
      have hlater : slicePredicates (n + 1) (byteLength (done ++ rest.take (i + 5)))
          (done ++ rest) = (splitAnd n (rest.drop (i + 5))).mapM parsePredicate := by
        have hsplit : done ++ rest = (done ++ rest.take (i + 5)) ++ rest.drop (i + 5) := by
          rw [List.append_assoc, List.take_append_drop]
        rw [hsplit]
        refine ih _ _ ?_
        rw [List.length_drop]
        omega
      simp only [hlater, List.mapM_cons]
      rfl

/-! ### The whole query -/

/-- A keyword between blanks is found where its first character starts. -/
lemma findByte_keyword (word cs : List Char) : findByte (' ' :: word ++ [' ']) (capitals cs) =
    (findKeyword word (capitals cs)).map (byteAt cs) := by
  rw [findByte_eq, byteAt_capitals]
  rfl

/-- The columns start behind the first keyword. -/
lemma slice_selection (hselect : "SELECT ".toList <+: capitals cs) (hi : i ≤ cs.length) :
    slice (byteLength "SELECT ".toList) (byteAt cs i) cs = cut "SELECT ".toList.length i cs := by
  obtain ⟨rest, hrest⟩ := hselect
  have hbyte : byteAt cs "SELECT ".toList.length = byteLength "SELECT ".toList := by
    rw [← byteAt_capitals, ← hrest, byteAt_append]
  have hlength : "SELECT ".toList.length ≤ cs.length := by
    rw [← length_capitals cs, ← hrest, List.length_append]
    exact Nat.le_add_right _ _
  rw [← hbyte, slice_byteAt hlength hi]

/-- What follows an occurrence starts and ends at the bytes of characters. -/
lemma slice_clause (h : findText pattern (capitals cs) = some i) (hj : j ≤ cs.length) :
    slice (byteAt cs i + byteLength pattern)
        (max (byteAt cs j) (byteAt cs i + byteLength pattern)) cs =
      cut (i + pattern.length) (max j (i + pattern.length)) cs := by
  obtain ⟨hplace, hbyte⟩ := byteAt_of_findText_capitals h
  rw [← hbyte, ← byteAt_max hj hplace, slice_byteAt hplace (max_le hj hplace)]

/-- The predicates of a clause are read by bytes as by characters. -/
lemma sliceConditions_eq {place : Option ℕ}
    (h : ∀ i ∈ place, findKeyword "WHERE".toList (capitals cs) = some i) (hj : j ≤ cs.length) :
    sliceConditions (place.map (byteAt cs)) (byteAt cs j) cs = clausePredicates place j cs := by
  cases place with
  | none => rfl
  | some i =>
    have hclause : slice (byteAt cs i + byteLength " WHERE ".toList)
        (max (byteAt cs j) (byteAt cs i + byteLength " WHERE ".toList)) cs =
          cut (i + 7) (max j (i + 7)) cs := slice_clause (h i rfl) hj
    have hpieces : ∀ clause : List Char, slicePredicates (clause.length + 1) 0 clause =
        (splitAnd clause.length clause).mapM parsePredicate :=
      fun clause => slicePredicates_eq [] clause le_rfl
    simp only [Option.map_some, sliceConditions, clausePredicates, hclause, hpieces]

/-- The limit of a clause is read by bytes as by characters. -/
lemma sliceLimit_eq {place : Option ℕ}
    (h : ∀ i ∈ place, findKeyword "LIMIT".toList (capitals cs) = some i) :
    sliceLimit (place.map (byteAt cs)) cs = clauseLimit place cs := by
  cases place with
  | none => rfl
  | some i =>
    have hnumber : slice (byteAt cs i + byteLength " LIMIT ".toList) (byteLength cs) cs =
        cut (i + 7) (max cs.length (i + 7)) cs := by
      obtain ⟨hplace, hbyte⟩ := byteAt_of_findText_capitals (h i rfl)
      have hnumber := slice_byteAt hplace le_rfl
      rw [hbyte, byteAt_length] at hnumber
      rw [max_eq_left (show i + 7 ≤ cs.length from hplace)]
      exact hnumber
    simp only [Option.map_some, sliceLimit, clauseLimit, hnumber]

/-- A place in a text, or its end. -/
lemma getD_le {place : Option ℕ} (h : ∀ i ∈ place, i ≤ n) : place.getD n ≤ n := by
  cases place with
  | none => exact le_rfl
  | some i => exact h i rfl

/-- The first one of two places in a text, or its end. -/
lemma orElse_getD_le {place other : Option ℕ} (h : ∀ i ∈ place, i ≤ n)
    (hother : ∀ i ∈ other, i ≤ n) : (place <|> other).getD n ≤ n := by
  cases place with
  | none => exact getD_le hother
  | some i => exact h i rfl

/-- **Reading by bytes and by characters is the same.**

**Proof sketch.** Every place of a keyword is the byte of its character (`findByte_keyword`),
and bytes keep the order of the characters, so the same places count as behind the table. Each
part that is cut out lies between such places (`slice_selection`, `slice_clause`), and the
clauses are read alike (`sliceConditions_eq`, `sliceLimit_eq`). -/
theorem sliceQuery_eq (text : String) : sliceQuery text = parse text := by
  unfold sliceQuery parse
  generalize trimmed text = q
  dsimp only
  split
  · rfl
  rename_i hselect
  have hplace : ∀ {word i}, findKeyword word (capitals q) = some i → i ≤ q.length := fun h =>
    (Nat.le_add_right _ _).trans (byteAt_of_findText_capitals h).1
  have hfrom : findByte " FROM ".toList (capitals q) = _ := findByte_keyword "FROM".toList q
  have hwhere : findByte " WHERE ".toList (capitals q) = _ := findByte_keyword "WHERE".toList q
  have hlimit : findByte " LIMIT ".toList (capitals q) = _ := findByte_keyword "LIMIT".toList q
  rw [hfrom, hwhere, hlimit]
  cases hsource : findKeyword "FROM".toList (capitals q) with
  | none => rfl
  | some source =>
    have hselection : slice (byteLength "SELECT ".toList) (byteAt q source) q =
        cut "SELECT ".toList.length source q :=
      slice_selection (by simpa using hselect) (hplace hsource)
    -- The clauses behind the table, at places that keep their order.
    have hafter : ∀ word, ((findKeyword word (capitals q)).map (byteAt q)).filter
        (fun p => byteAt q source < p) =
          ((findKeyword word (capitals q)).filter (source < ·)).map (byteAt q) := fun word =>
      filter_byteAt (hplace hsource) fun _ => hplace
    simp only [Option.map_some, hselection, hafter]
    generalize hcondition : (findKeyword "WHERE".toList (capitals q)).filter (source < ·) =
      condition
    generalize hbound : (findKeyword "LIMIT".toList (capitals q)).filter (source < ·) = bound
    have hcondition' : ∀ p ∈ condition, findKeyword "WHERE".toList (capitals q) = some p :=
      fun p hp => (Option.filter_eq_some_iff.mp (hcondition.trans hp)).1
    have hbound' : ∀ p ∈ bound, findKeyword "LIMIT".toList (capitals q) = some p :=
      fun p hp => (Option.filter_eq_some_iff.mp (hbound.trans hp)).1
    have hend : bound.getD q.length ≤ q.length :=
      getD_le fun p hp => hplace (hbound' p hp)
    have htable : (condition <|> bound).getD q.length ≤ q.length :=
      orElse_getD_le (fun p hp => hplace (hcondition' p hp)) fun p hp => hplace (hbound' p hp)
    have hregion : slice (byteAt q source + byteLength " FROM ".toList)
        (max (byteAt q ((condition <|> bound).getD q.length))
          (byteAt q source + byteLength " FROM ".toList)) q =
        cut (source + 6) (max ((condition <|> bound).getD q.length) (source + 6)) q :=
      slice_clause hsource htable
    have hor : (condition.map (byteAt q) <|> bound.map (byteAt q)) =
        (condition <|> bound).map (byteAt q) := by
      cases condition <;> rfl
    simp only [hor, getD_byteAt, hregion, sliceConditions_eq hcondition' hend,
      sliceLimit_eq hbound']
    cases condition <;> cases bound <;>
      simp only [clausePredicates, clauseLimit, Outcome.ok_bind, bind_assoc]

/-! ### Texts without an answer -/

/-- A value, or a reason why the query has none. -/
def Answered {α : Type} (x : Outcome α) : Prop :=
  (∃ a, x = .ok a) ∨ ∃ detail, x = .error (.query detail)

namespace Answered

variable {α β : Type}

lemma ok (a : α) : Answered (.ok a : Outcome α) := .inl ⟨a, rfl⟩

lemma error (detail : String) : Answered (.error (.query detail) : Outcome α) := .inr ⟨detail, rfl⟩

/-- One computation after another has an answer if both have one. -/
lemma bind {x : Outcome α} {f : α → Outcome β} (hx : Answered x) (hf : ∀ a, Answered (f a)) :
    Answered (x >>= f) := by
  rcases hx with ⟨a, rfl⟩ | ⟨detail, rfl⟩
  · exact hf a
  · exact error detail

lemma map {x : Outcome α} (hx : Answered x) (f : α → β) : Answered (x.map f) := by
  rw [← Outcome.bind_ok]
  exact hx.bind fun a => ok (f a)

/-- Computations on the items of a list have an answer if each of them has one. -/
lemma mapM {f : α → Outcome β} (hf : ∀ a, Answered (f a)) (as : List α) :
    Answered (as.mapM f) := by
  induction as with
  | nil => exact ok []
  | cons a as ih =>
    rw [List.mapM_cons]
    exact (hf a).bind fun b => ih.bind fun bs => ok (b :: bs)

/-- A part that does not end before it starts. -/
lemma cut (h : start ≤ stop) (cs : List Char) : Answered (Query.cut start stop cs) := by
  rw [Query.cut, if_pos h]
  exact ok _

lemma parsePredicate (cs : List Char) : Answered (Query.parsePredicate cs) := by
  unfold Query.parsePredicate
  split
  · exact ok _
  · exact error _

lemma parseLimit (cs : List Char) : Answered (Query.parseLimit cs) := by
  unfold Query.parseLimit
  extract_lets reading
  clear_value reading
  cases reading with
  | error reason => exact error _
  | ok n => exact ok n

lemma clausePredicates (place : Option ℕ) (stop : ℕ) (cs : List Char) :
    Answered (Query.clausePredicates place stop cs) := by
  cases place with
  | none => exact ok _
  | some i => exact (cut (le_max_right _ _) cs).bind fun clause => mapM parsePredicate _

lemma clauseLimit (place : Option ℕ) (cs : List Char) :
    Answered (Query.clauseLimit place cs) := by
  cases place with
  | none => exact ok _
  | some i => exact (cut (le_max_right _ _) cs).bind fun number => (parseLimit _).map some

end Answered

/-- A pattern is found in front exactly if it stands there. -/
lemma findText_eq_zero_iff : findText pattern cs = some 0 ↔ pattern <+: cs := by
  refine ⟨fun h => ?_, findText_of_starts⟩
  obtain ⟨before, after, rfl, hlength⟩ := exists_of_findText h
  obtain rfl := List.length_eq_zero_iff.mp hlength
  exact ⟨after, rfl⟩

/-- The keyword FROM starts before the columns exactly if it follows SELECT at once. -/
lemma source_lt_iff {source : ℕ} (hselect : "SELECT ".toList <+: cs)
    (hsource : findKeyword "FROM".toList cs = some source) :
    source < 7 ↔ "SELECT FROM ".toList <+: cs := by
  obtain ⟨rest, rfl⟩ := hselect
  have hpassed : findKeyword "FROM".toList ("SELECT".toList ++ ' ' :: rest) =
      (findKeyword "FROM".toList (' ' :: rest)).map (· + 6) :=
    findText_append_of_not_mem (by decide)
  obtain ⟨j, hj, rfl⟩ := Option.map_eq_some_iff.mp (hpassed.symm.trans hsource)
  have hsame : "SELECT FROM ".toList <+: "SELECT ".toList ++ rest ↔
      " FROM ".toList <+: ' ' :: rest :=
    List.prefix_append_right_inj "SELECT".toList
  rw [hsame, ← findText_eq_zero_iff]
  constructor
  · intro hlt
    obtain rfl : j = 0 := by omega
    exact hj
  · intro hzero
    obtain rfl := Option.some.inj (hj.symm.trans hzero)
    decide

/-- A text has an answer unless its keyword FROM starts before the columns.

**Proof sketch.** All that could fail without a reason is to cut out a part that ends before
it starts. Only the columns can, since all other parts end behind their start by definition.
-/
lemma answered_parse {text : String}
    (h : ¬"SELECT FROM ".toList <+: capitals (trimmed text)) : Answered (parse text) := by
  unfold parse
  generalize trimmed text = q at h
  dsimp only
  split
  · exact .error _
  rename_i hselect
  split
  · exact .error _
  rename_i source hsource
  have hstart : 7 ≤ source :=
    not_lt.mp ((source_lt_iff (by simpa using hselect) hsource).not.mpr h)
  refine .bind (.cut hstart q) fun selection => .bind (.cut (le_max_right _ _) q) fun region => ?_
  split
  · exact .error _
  · generalize (findKeyword "WHERE".toList (capitals q)).filter (source < ·) = condition
    generalize (findKeyword "LIMIT".toList (capitals q)).filter (source < ·) = bound
    have hclauses := Answered.bind
      (Answered.clausePredicates condition (bound.getD q.length) q) fun predicates =>
        .bind (Answered.clauseLimit bound q) fun limit => .ok (Query.mk (parseColumns selection)
          (String.ofList (Text.stripChars region)) predicates limit)
    cases condition <;> cases bound <;>
      simpa only [clausePredicates, clauseLimit, Outcome.ok_bind, bind_assoc] using hclauses

/-- A text whose keyword FROM starts before the columns has no answer. -/
lemma parse_eq_abort {text : String} (h : "SELECT FROM ".toList <+: capitals (trimmed text)) :
    parse text = .error .abort := by
  have hselect : "SELECT ".toList <+: capitals (trimmed text) :=
    List.IsPrefix.trans ⟨"FROM ".toList, rfl⟩ h
  unfold parse
  generalize trimmed text = q at h hselect
  obtain ⟨source, hsource⟩ : ∃ source, findKeyword "FROM".toList (capitals q) = some source := by
    refine Option.ne_none_iff_exists'.mp fun hnone => findText_eq_none_iff.mp hnone ?_
    exact List.IsInfix.trans ⟨"SELECT".toList, [], rfl⟩ h.isInfix
  have hcut : cut "SELECT ".toList.length source q = .error .abort :=
    if_neg (not_le.mpr ((source_lt_iff hselect hsource).mpr h))
  rw [← List.isPrefixOf_iff_prefix] at hselect
  simp only [hselect, hsource, hcut, Bool.not_true, Bool.false_eq_true, if_false,
    Outcome.error_bind]

/-- **The texts without an answer.** Reading a text by its bytes gives the same as reading it by
characters. Every part that is cut out starts no later than it ends, ends within the text and cuts
no character, so that there is a query or a reason why there is none, exactly if FROM does not
follow SELECT at once.

**Proof sketch.** Reading by bytes is reading by characters (`sliceQuery_eq`), for which the
two cases are `answered_parse` and `parse_eq_abort`. -/
theorem sliceQuery_answered_iff (text : String) : sliceQuery text = parse text ∧
    ((∃ query, sliceQuery text = .ok query) ∨ (∃ detail, sliceQuery text = .error (.query detail)) ↔
      ¬"SELECT FROM ".toList <+: capitals (trimmed text)) ∧
    (sliceQuery text = .error .abort ↔ "SELECT FROM ".toList <+: capitals (trimmed text)) := by
  rw [sliceQuery_eq]
  by_cases h : "SELECT FROM ".toList <+: capitals (trimmed text)
  · rw [parse_eq_abort h]
    refine ⟨rfl, iff_of_false ?_ (not_not.mpr h), iff_of_true rfl h⟩
    rintro (⟨query, hquery⟩ | ⟨detail, hdetail⟩)
    · cases hquery
    · cases hdetail
  · have hanswer := answered_parse h
    refine ⟨rfl, iff_of_true hanswer h, iff_of_false (fun habort => ?_) h⟩
    rcases hanswer with ⟨query, hquery⟩ | ⟨detail, hdetail⟩
    · cases hquery.symm.trans habort
    · cases hdetail.symm.trans habort

/-- The blank between the two keywords belongs to both of them, and the columns would end before
they start. -/
theorem not_answered_noColumns : sliceQuery "SELECT FROM t" = .error .abort ∧
    slice 7 6 "SELECT FROM t".toList = .error .abort ∧
    ¬((∃ query, sliceQuery "SELECT FROM t" = .ok query) ∨
      ∃ detail, sliceQuery "SELECT FROM t" = .error (.query detail)) := by
  have habort : sliceQuery "SELECT FROM t" = .error .abort := by
    rw [sliceQuery_eq]
    exact parse_eq_abort (by decide)
  refine ⟨habort, by decide, ?_⟩
  rw [habort]
  rintro (⟨query, h⟩ | ⟨detail, h⟩)
  · cases h
  · cases h

end Lineage.Query
