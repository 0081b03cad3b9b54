import Lineage.Proofs.Column.Fits
import Lineage.Proofs.Query.Condition
import Lineage.Proofs.Query.Selection

set_option autoImplicit false

/-!
# Quoted literals

A literal between quotes may be any text for which the parser finds none of its keywords and signs
in the query. For all of these texts a query selects the rows that have the text, and for all others
there is a table with one row, which has the text and is not selected.

## Main definitions

* `Lineage.Query.Opaque`: nothing in the query of a text is taken for a keyword or a sign.
* `Lineage.Query.recordsWith`: the records of the rows that have a text in a column.

## Main results

* `Lineage.Query.Opaque.parse_eq`: the query of an opaque text is read back.
* `Lineage.Query.exists_misread`: without limits, other texts have a predicate that is misread.
* `Lineage.Query.run_equalsText_iff`: a text selects its rows in all tables exactly if it is opaque.
-/

namespace Lineage.Query

variable {name value : String} {cs rest : List Char}

/-- Nothing in the query is taken for a keyword or a sign: neither the column nor, between blanks,
a part of the text is the keyword of limits, no part of the text between blanks is the keyword
between predicates, and the text contains no sign of two characters. -/
structure Opaque (name value : String) : Prop where
  /-- The column is not the keyword of limits. -/
  column : Text.upperAscii name ≠ "LIMIT"
  /-- The keyword of limits is not in the text. -/
  limit : ¬" LIMIT ".toList <:+: capitals value.toList
  /-- The keyword between predicates is not in the text. -/
  conjunction : ¬" AND ".toList <:+: capitals value.toList
  /-- No sign of two characters is in the text. -/
  sign : ∀ sign ∈ longSigns, ¬sign <:+: value.toList

/-! ### Opaque texts -/

/-- **An opaque text is read back.**

**Proof sketch.** The keyword of limits is neither the column nor in the text, so there is one
clause up to the end; the keyword between predicates is not in the text, so the clause is one
predicate; and no sign of two characters comes before the one that was written. -/
theorem Opaque.parse_eq (hname : ColumnWord name) (h : Opaque name value) :
    parse (equalsText name value) = .ok ⟨none, "self", [⟨name, .eq, value⟩], none⟩ := by
  have hcolumn : capitals name.toList ≠ "LIMIT".toList := fun heq => h.column (by
    rw [Text.upperAscii, ← String.ofList_toList (s := "LIMIT"), ← heq]
    rfl)
  have hlimit : findKeyword "LIMIT".toList (' ' :: capitals (conditionText name value)) = none :=
    (findKeyword_cons_conditionText_eq_none_iff hname ⟨_, _, rfl, by decide, by decide⟩ (by decide)
      (by decide)).mpr ⟨hcolumn, h.limit⟩
  have hand : findKeyword ['A', 'N', 'D'] (capitals (conditionText name value)) = none := by
    rw [findKeyword_conditionText hname ⟨_, _, rfl, by decide, by decide⟩ (by decide),
      Option.map_eq_none_iff, findKeyword, findText_eq_none_iff]
    exact h.conjunction
  have hone : splitAnd (conditionText name value).length (conditionText name value) =
      [conditionText name value] := by
    cases (conditionText name value).length with
    | zero => rfl
    | succ n => rw [splitAnd, hand]
  have hsign : ∀ sign ∈ longSigns, ¬sign <:+: value.toList ++ ['\''] := fun sign hsign =>
    (longSign_infix_concat hsign).not.mpr (h.sign sign hsign)
  have hpredicate : parsePredicate (conditionText name value) = .ok ⟨name, .eq, value⟩ := by
    rw [conditionText, parsePredicate_of_no_longSign hname hsign, unquote_quoted,
      String.ofList_toList]
  have hpredicates : [conditionText name value].mapM parsePredicate =
      .ok [⟨name, .eq, value⟩] :=
    Outcome.mapM_cons_eq_ok.mpr ⟨_, [], hpredicate, rfl, rfl⟩
  rw [parse_equalsText none (by rw [hlimit]; rfl), Option.getD_none,
    clausePredicates_conditionText, hone, hpredicates]
  rfl

/-! ### Texts that are not opaque -/

/-- A text with a quote is no number. -/
lemma readLimit_ne_ok {n m : ℕ} (h : '\'' ∈ cs) : readLimit n cs ≠ .ok m := by
  induction cs generalizing n with
  | nil => cases h
  | cons c cs ih =>
    rw [readLimit]
    split
    · exact fun heq => by cases heq
    · rename_i hdigit
      have hrest : '\'' ∈ cs := by
        rcases List.mem_cons.mp h with rfl | hrest
        · exact absurd rfl hdigit
        · exact hrest
      dsimp only
      split
      · exact ih hrest
      · exact fun heq => by cases heq

/-- A text with a quote is no limit. -/
lemma parseLimit_ne_ok {m : ℕ} (h : '\'' ∈ cs) : parseLimit cs ≠ .ok m := by
  intro heq
  unfold parseLimit at heq
  split at heq
  · cases heq
  · cases heq
  · rename_i digits _
    have hdigits : '\'' ∈ digits := (List.mem_cons.mp h).resolve_left (by decide)
    cases hreading : readLimit 0 digits with
    | ok n => exact readLimit_ne_ok hdigits hreading
    | error reason => rw [hreading] at heq; cases heq
  · cases hreading : readLimit 0 cs with
    | ok n => exact readLimit_ne_ok h hreading
    | error reason => rw [hreading] at heq; cases heq

/-- The quote at the end stands after a keyword of limits. -/
lemma quote_mem_drop {place : ℕ}
    (h : findKeyword "LIMIT".toList (' ' :: capitals (conditionText name value)) = some place) :
    '\'' ∈ (' ' :: conditionText name value).drop (place + 7) := by
  obtain ⟨before, after, htext, rfl⟩ := exists_of_findText h
  have hconcat : ' ' :: capitals (conditionText name value) =
      (' ' :: capitals (name.toList ++ (" = '".toList ++ value.toList))) ++ ['\''] := by
    rw [conditionText_eq_concat, capitals_append]
    rfl
  have hlast : (before ++ (' ' :: "LIMIT".toList ++ [' '] ++ after)).getLast? = some '\'' := by
    rw [← htext, hconcat, List.getLast?_concat]
  have hafter : '\'' ∈ after := by
    cases after with
    | nil =>
      rw [List.append_nil, ← List.append_assoc, List.getLast?_concat] at hlast
      exact absurd hlast (by decide)
    | cons c after =>
      rw [← List.append_assoc, List.getLast?_append_of_ne_nil _ (List.cons_ne_nil c after)] at hlast
      exact List.mem_of_getLast? hlast
  have hdrop : capitals ((' ' :: conditionText name value).drop (before.length + 7)) = after := by
    have hcapitals : capitals ((' ' :: conditionText name value).drop (before.length + 7)) =
        (' ' :: capitals (conditionText name value)).drop (before.length + 7) := List.map_drop
    rw [hcapitals, htext, List.drop_length_add_append]
    rfl
  rw [← hdrop] at hafter
  exact (mem_capitals rfl).mp hafter

/-- **A keyword of limits in the text** makes the query fail. -/
lemma parse_ne_ok_of_limit
    (h : findKeyword "LIMIT".toList (' ' :: capitals (conditionText name value)) ≠ none)
    (q : Query) :
    parse (equalsText name value) ≠ .ok q := by
  obtain ⟨place, hplace⟩ := Option.ne_none_iff_exists'.mp h
  intro hparse
  rw [parse_equalsText (some (place + 24)) (by rw [hplace]; rfl)] at hparse
  obtain ⟨_, -, hrest⟩ := Outcome.bind_eq_ok.mp hparse
  obtain ⟨_, hlimit, -⟩ := Outcome.bind_eq_ok.mp hrest
  obtain ⟨number, hnumber, hread⟩ := Outcome.bind_eq_ok.mp hlimit
  obtain ⟨n, hn, -⟩ := Outcome.map_eq_ok.mp hread
  have hmem : '\'' ∈ number := by
    rw [cut, if_pos (Nat.le_max_right _ _)] at hnumber
    obtain rfl := Except.ok.inj hnumber
    have hlength : place + 24 + 7 = selectionText.length + (place + 7) := by
      have hselection : selectionText.length = 24 := rfl
      omega
    have hall : (selectionText ++ ' ' :: conditionText name value).drop (place + 24 + 7) =
        (' ' :: conditionText name value).drop (place + 7) := by
      rw [hlength, List.drop_length_add_append]
    rw [List.take_of_length_le (by rw [List.length_drop]; omega), hall]
    exact quote_mem_drop hplace
  exact parseLimit_ne_ok (Text.mem_stripChars rfl hmem) hn

/-- A predicate does not compare a column with a text: it is about another column, or compares with
a text that has a quote. -/
def Misread (name : String) (p : Predicate) : Prop :=
  '=' ∈ p.column.toList ∨ p.column = name ∧ p.comparison = .eq ∧ '\'' ∈ p.literal.toList

/-- A condition without the quote at its end is misread. -/
lemma exists_misread_of_not_mem (hname : ColumnWord name) (hrest : '\'' ∉ rest) :
    ∃ p, parsePredicate (name.toList ++ (" = '".toList ++ rest)) = .ok p ∧ Misread name p := by
  by_cases hsign : ∃ sign ∈ longSigns, sign <:+: rest
  · obtain ⟨sign, hlong, hinside⟩ := hsign
    obtain ⟨p, hp, hcolumn⟩ := parsePredicate_of_longSign hname hlong hinside
    exact ⟨p, hp, .inl hcolumn⟩
  · have hnone : ∀ sign ∈ longSigns, ¬sign <:+: rest := fun sign hlong hinside =>
      hsign ⟨sign, hlong, hinside⟩
    refine ⟨_, parsePredicate_of_no_longSign hname hnone, .inr ⟨rfl, rfl, ?_⟩⟩
    rw [String.toList_ofList]
    exact quote_mem_unquote hrest

/-- The first piece of a condition, up to the keyword between predicates, is misread where such a
keyword or a sign of two characters is in the text.

**Proof sketch.** The condition is cut at the first keyword between predicates that is in the
text, or not at all. In both cases its first piece ends without the quote, or has a sign of
two characters. -/
lemma exists_misread_piece (hname : ColumnWord name) (hvalue : '\'' ∉ value.toList)
    (h : " AND ".toList <:+: capitals value.toList ∨
      ∃ sign ∈ longSigns, sign <:+: value.toList) : ∃ piece pieces,
    splitAnd (conditionText name value).length (conditionText name value) = piece :: pieces ∧
      ∃ p, parsePredicate piece = .ok p ∧ Misread name p := by
  obtain ⟨n, hn⟩ : ∃ n, (conditionText name value).length = n + 1 :=
    Nat.exists_eq_add_of_le' (by simp [conditionText]; omega)
  have hfound : findKeyword ['A', 'N', 'D'] (capitals (conditionText name value)) =
      (findKeyword ['A', 'N', 'D'] (capitals value.toList)).map
        (· + (name.toList ++ " = '".toList).length) :=
    findKeyword_conditionText hname ⟨_, _, rfl, by decide, by decide⟩ (by decide)
  rw [hn, splitAnd, hfound]
  cases hand : findKeyword ['A', 'N', 'D'] (capitals value.toList) with
  | some i =>
    refine ⟨_, _, rfl, ?_⟩
    have htake : (conditionText name value).take (i + (name.toList ++ " = '".toList).length) =
        name.toList ++ (" = '".toList ++ (value.toList ++ ['\'']).take i) := by
      rw [conditionText, ← List.append_assoc, Nat.add_comm, List.take_length_add_append,
        List.append_assoc]
    have hbefore : '\'' ∉ (value.toList ++ ['\'']).take i := by
      obtain ⟨before, after, htext, rfl⟩ := exists_of_findText hand
      have hlength := congrArg List.length htext
      rw [length_capitals, List.length_append] at hlength
      rw [List.take_append_of_le_length (by omega)]
      exact fun hmem => hvalue (List.mem_of_mem_take hmem)
    rw [htake]
    exact exists_misread_of_not_mem hname hbefore
  | none =>
    refine ⟨_, _, rfl, ?_⟩
    have hnone : ¬" AND ".toList <:+: capitals value.toList := findText_eq_none_iff.mp hand
    obtain ⟨sign, hlong, hinside⟩ := h.resolve_left hnone
    obtain ⟨p, hp, hcolumn⟩ := parsePredicate_of_longSign hname hlong
      ((longSign_infix_concat hlong).mpr hinside)
    exact ⟨p, hp, .inl hcolumn⟩

/-- **The first predicate is misread** where a keyword between predicates or a sign of two
characters is in the text. -/
lemma exists_misread (hname : ColumnWord name) (hvalue : '\'' ∉ value.toList)
    (hlimit : findKeyword "LIMIT".toList (' ' :: capitals (conditionText name value)) = none)
    (h : " AND ".toList <:+: capitals value.toList ∨ ∃ sign ∈ longSigns, sign <:+: value.toList)
    {q : Query} (hparse : parse (equalsText name value) = .ok q) :
    ∃ p ps, q.predicates = p :: ps ∧ Misread name p := by
  rw [parse_equalsText none (by rw [hlimit]; rfl), Option.getD_none,
    clausePredicates_conditionText] at hparse
  obtain ⟨predicates, hpredicates, hrest⟩ := Outcome.bind_eq_ok.mp hparse
  obtain rfl := Except.ok.inj hrest
  obtain ⟨piece, pieces, hpieces, p, hp, hmisread⟩ := exists_misread_piece hname hvalue h
  rw [hpieces] at hpredicates
  obtain ⟨p', ps, hp', -, rfl⟩ := Outcome.mapM_cons_eq_ok.mp hpredicates
  obtain rfl := Except.ok.inj (hp.symm.trans hp')
  exact ⟨p, ps, rfl, hmisread⟩

/-- A table with one text. -/
def oneText (name value : String) : Batch where
  fields := [⟨name, .utf8, false⟩]
  rows := [[.text value]]

/-- **A query with a misread predicate** does not return the row of a text without quotes.

**Proof sketch.** Either another column is asked for, which is not in the table, or the text
is compared with one that has a quote. -/
lemma run_ne_of_misread {text : String} {q : Query} {p : Predicate} {ps : List Predicate}
    (hname : ColumnWord name) (hvalue : '\'' ∉ value.toList) (hparse : parse text = .ok q)
    (hpredicates : q.predicates = p :: ps) (hmisread : Misread name p) :
    run ["self"] (some (oneText name value)) text ≠ .ok [[(name, .string value)]] := by
  intro hrun
  have hrecords : (oneText name value).toRecords = .ok [[(name, .string value)]] := rfl
  obtain ⟨_, hq, hrun'⟩ := Outcome.bind_eq_ok.mp hrun
  obtain rfl := Except.ok.inj (hparse.symm.trans hq)
  split at hrun'
  · cases hrun'
  · dsimp only [runOn] at hrun'
    split at hrun'
    · cases hrun'
    · rename_i hknown
      have hcolumn : p.column = name := by
        have hmentioned : p.column ∈ q.mentioned :=
          List.mem_append_right _ (List.mem_map_of_mem (hpredicates ▸ List.mem_cons_self))
        have hindex := List.find?_eq_none.mp hknown _ hmentioned
        by_contra hne
        refine hindex ?_
        simp [Batch.columnIndex?, Column.fieldIndex?, oneText, Ne.symm hne]
      rcases hmisread with hsign | ⟨-, heq, hquote⟩
      · exact hname.sign _ (hcolumn ▸ hsign) (by decide)
      · have hne : (value == p.literal) = false :=
          beq_eq_false_iff_ne.mpr fun h => hvalue (h ▸ hquote)
        have hholds : p.holds (valueAt [(name, .string value)] p.column) = .ok false := by
          have hvalueAt : valueAt [(name, .string value)] p.column = .string value := by
            rw [hcolumn, valueAt, Json.lookup?_cons, if_pos rfl]
            rfl
          rw [hvalueAt, Predicate.holds, heq]
          exact congrArg Except.ok hne
        rw [hrecords, Outcome.ok_bind, collect, hpredicates, accepts, hholds] at hrun'
        cases hrun'

/-! ### Tables -/

/-- A column of texts at an index, whose name no other column has, in a table that can be held by
its columns. -/
structure TextColumn (table : Batch) (name : String) (i : ℕ) : Prop where
  /-- There are texts in the column. -/
  field : ∃ nullable, table.fields[i]? = some ⟨name, .utf8, nullable⟩
  /-- No other column has the name. -/
  unique : (table.fields.map FieldOf.name).count name = 1
  /-- The columns can hold the rows. -/
  fits : table.Fits

/-- A cell is a text. -/
def isText (value : String) : Cell → Bool
  | .text t => t == value
  | _ => false

/-- The records of the rows that have a text in a column. -/
def recordsWith (i : ℕ) (value : String) (table : Batch) (records : List Record) : List Record :=
  ((table.rows.zip records).filter fun e => isText value (Batch.cellAt i e.1)).map Prod.snd

variable {table : Batch} {records : List Record} {i : ℕ}

/-- The record of a row has the value of the cell in a column whose name no other column has. -/
lemma valueAt_eq_valueOf {type : ColumnType} {nullable : Bool}
    (hfield : table.fields[i]? = some ⟨name, type, nullable⟩)
    (hunique : (table.fields.map FieldOf.name).count name = 1) (hfits : table.Fits)
    {row : List Cell} (hrow : row ∈ table.rows) {record : Record}
    (hrecord : Batch.recordOfRow table.fields row = .ok record) :
    valueAt record name = Batch.valueOf type (Batch.cellAt i row) ∧
      Cell.Fits type (Batch.cellAt i row) := by
  have hheld := hfits row hrow
  have hlength : row.length = table.fields.length := hheld.length_eq
  obtain ⟨hi, -⟩ := List.getElem?_eq_some_iff.mp hfield
  obtain ⟨cell, hcell⟩ : ∃ cell, row[i]? = some cell :=
    Option.ne_none_iff_exists'.mp fun hnone => by
      have := List.getElem?_eq_none_iff.mp hnone
      omega
  have hmem : ((⟨name, type, nullable⟩, cell) : Field × Cell) ∈ table.fields.zip row :=
    List.mem_of_getElem? (List.getElem?_zip_eq_some.mpr ⟨hfield, hcell⟩)
  have hcellAt : Batch.cellAt i row = cell := by rw [Batch.cellAt, hcell, Option.getD_some]
  rw [hcellAt]
  refine ⟨Batch.lookup?_recordOfRow hmem hunique hlength hrecord, ?_⟩
  have hpart := (hheld.getD hfield).1
  rwa [hcell] at hpart

/-- The record of a row has the text of the column, or a null. -/
lemma TextColumn.valueAt_eq (h : TextColumn table name i) {row : List Cell}
    (hrow : row ∈ table.rows) {record : Record}
    (hrecord : Batch.recordOfRow table.fields row = .ok record) :
    (Batch.cellAt i row = .null ∧ valueAt record name = .null) ∨
      ∃ t, Batch.cellAt i row = .text t ∧ valueAt record name = .string t := by
  obtain ⟨nullable, hfield⟩ := h.field
  obtain ⟨hvalue, hheld⟩ := valueAt_eq_valueOf hfield h.unique h.fits hrow hrecord
  rw [hvalue]
  generalize Batch.cellAt i row = cell at hheld
  rcases hheld with rfl | hscalar
  · exact .inl ⟨rfl, rfl⟩
  · cases cell with
    | text t => exact .inr ⟨t, rfl, rfl⟩
    | _ => exact hscalar.elim

/-- The predicate of the query is evaluated on the record of a row by whether the row has the
text. -/
lemma TextColumn.holds_eq (h : TextColumn table name i) {row : List Cell} (hrow : row ∈ table.rows)
    {record : Record} (hrecord : Batch.recordOfRow table.fields row = .ok record) :
    (⟨name, .eq, value⟩ : Predicate).holds (valueAt record name) =
        .ok (isText value (Batch.cellAt i row)) := by
  rcases h.valueAt_eq hrow hrecord with ⟨hcell, hvalue⟩ | ⟨t, hcell, hvalue⟩ <;>
    rw [hcell, hvalue] <;> rfl

/-- Items are kept by what belongs to them. -/
lemma filter_eq_of_forall₂ {α β : Type} {as : List α} {bs : List β} {p : α → Bool} {q : β → Bool}
    (h : List.Forall₂ (fun a b => q b = p a) as bs) :
    bs.filter q = ((as.zip bs).filter fun e => p e.1).map Prod.snd := by
  induction h with
  | nil => rfl
  | @cons a b as bs hab _ ih =>
    rw [List.zip_cons_cons, List.filter_cons, List.filter_cons, hab, ih]
    cases p a <;> rfl

/-- **A query with one predicate** that is evaluated by a test of the rows selects the rows that
pass the test.

**Proof sketch.** Since the predicate can be evaluated on every record, what is collected are
the records that satisfy it (`collect_eq`). Records and rows belong together one by one. -/
theorem run_eq_of_holds {text source : String} {p : Predicate} {names : List String}
    {test : List Cell → Bool} (hparse : parse text = .ok ⟨none, source, [p], none⟩)
    (hsource : source ∈ names) (hcolumn : p.column ∈ table.fields.map FieldOf.name)
    (hrecords : table.toRecords = .ok records)
    (hholds : ∀ row ∈ table.rows, ∀ record, Batch.recordOfRow table.fields row = .ok record →
      p.holds (valueAt record p.column) = .ok (test row)) :
    run names (some table) text =
      .ok (((table.rows.zip records).filter fun e => test e.1).map Prod.snd) := by
  have hpairs : List.Forall₂ (fun row record => row ∈ table.rows ∧
      Batch.recordOfRow table.fields row = .ok record) table.rows records :=
    (List.forall₂_and_left _ _).mpr ⟨fun _ hrow => hrow, Outcome.mapM_eq_ok.mp hrecords⟩
  have hknown : ∀ column ∈ mentioned ⟨none, source, [p], none⟩,
      column ∈ table.fields.map FieldOf.name := by
    intro column hmentioned
    obtain rfl := List.mem_singleton.mp hmentioned
    exact hcolumn
  have hevaluates : ∀ record ∈ records, Evaluates ⟨none, source, [p], none⟩ record := by
    intro record hrecord p' hp
    obtain rfl := List.mem_singleton.mp hp
    obtain ⟨row, -, hrow, hof⟩ := Outcome.exists_mem_of_forall₂ hpairs.flip hrecord
    exact ⟨_, hholds row hrow record hof⟩
  have hmarks : List.Forall₂ (fun row record => keeps ⟨none, source, [p], none⟩ record = test row)
      table.rows records := by
    refine hpairs.imp fun row record hpair => ?_
    have hrow := hholds row hpair.1 record hpair.2
    rw [keeps, List.all_cons, List.all_nil, Bool.and_true]
    exact Except.ok.inj ((holds_eq_satisfied hrow).symm.trans hrow)
  rw [run_eq_bind hparse hsource hknown, hrecords, Outcome.ok_bind, collect_eq hevaluates,
    filter_eq_of_forall₂ hmarks]
  exact congrArg Except.ok (List.map_id _)

/-- **An opaque text selects its rows.** -/
theorem Opaque.run_eq (hname : ColumnWord name) (hclear : Opaque name value)
    {names : List String} (hself : "self" ∈ names) (h : TextColumn table name i)
    (hrecords : table.toRecords = .ok records) :
    run names (some table) (equalsText name value) = .ok (recordsWith i value table records) := by
  have hcolumn : name ∈ table.fields.map FieldOf.name :=
    List.count_pos_iff.mp (by rw [h.unique]; exact Nat.one_pos)
  exact run_eq_of_holds (Opaque.parse_eq hname hclear) hself hcolumn hrecords
    fun _ hrow _ hrecord => h.holds_eq hrow hrecord

/-- The only column of a table with one text. -/
lemma textColumn_oneText (name value : String) : TextColumn (oneText name value) name 0 where
  field := ⟨false, rfl⟩
  unique := by simp [oneText]
  fits := fun row hrow => by
    obtain rfl := List.mem_singleton.mp hrow
    exact ⟨Or.inr trivial, Or.inr (Or.inr rfl), trivial⟩

/-- **A text whose only row is selected is opaque.** -/
theorem opaque_of_run (hname : ColumnWord name) (hvalue : '\'' ∉ value.toList)
    (hrun : run ["self"] (some (oneText name value)) (equalsText name value) =
      .ok [[(name, .string value)]]) : Opaque name value := by
  obtain ⟨q, hparse, -⟩ := Outcome.bind_eq_ok.mp hrun
  have hlimit : findKeyword "LIMIT".toList (' ' :: capitals (conditionText name value)) = none := by
    by_contra hfound
    exact parse_ne_ok_of_limit hfound q hparse
  have hread : ¬(" AND ".toList <:+: capitals value.toList ∨
      ∃ sign ∈ longSigns, sign <:+: value.toList) := fun h =>
    let ⟨_, _, hpredicates, hmisread⟩ := exists_misread hname hvalue hlimit h hparse
    run_ne_of_misread hname hvalue hparse hpredicates hmisread hrun
  have hword : ∃ w ws, "LIMIT".toList = w :: ws ∧ w ≠ '=' ∧ w ≠ '\'' :=
    ⟨'L', ['I', 'M', 'I', 'T'], rfl, by decide, by decide⟩
  obtain ⟨hcolumn, hinside⟩ :=
    (findKeyword_cons_conditionText_eq_none_iff hname hword (by decide) (by decide)).mp hlimit
  refine ⟨fun heq => hcolumn ?_, hinside, fun h => hread (.inl h), fun sign hsign h =>
    hread (.inr ⟨sign, hsign, h⟩)⟩
  have hcapitals := congrArg String.toList heq
  rwa [Text.upperAscii, String.toList_ofList] at hcapitals

/-- **Quoted texts are opaque** exactly if nothing in the query is taken for a keyword of limits, a
keyword between predicates or a sign of two characters: the query for the rows with the text returns
exactly these rows, whatever the table is.

**Proof sketch.** The query of an opaque text is read back, and its predicate is evaluated on
a record by the text of the row (`Opaque.run_eq`). For any other text take the table with one
row that has it: either the query cannot be read (`parse_ne_ok_of_limit`), or its first
predicate is misread (`exists_misread`), and the row is not returned. -/
theorem run_equalsText_iff (hname : ColumnWord name) (hvalue : '\'' ∉ value.toList) :
    (∀ (names : List String) (table : Batch) (i : ℕ) (records : List Record), "self" ∈ names →
      TextColumn table name i → table.toRecords = .ok records →
        run names (some table) (equalsText name value) =
          .ok (recordsWith i value table records)) ↔ Opaque name value := by
  constructor
  · intro hall
    have hself : "self" ∈ ["self"] := List.mem_cons_self
    have hrun := hall ["self"] (oneText name value) 0 [[(name, .string value)]] hself
      (textColumn_oneText name value) rfl
    have hselected : recordsWith 0 value (oneText name value) [[(name, .string value)]] =
        [[(name, .string value)]] := by
      simp [recordsWith, oneText, isText, Batch.cellAt]
    exact opaque_of_run hname hvalue (hrun.trans (congrArg Except.ok hselected))
  · exact fun hclear names table i records hself h hrecords =>
      Opaque.run_eq hname hclear hself h hrecords

/-- Texts with the characters and words of a query, and a missing one. -/
def queries : Batch where
  fields := [⟨"c", .utf8, true⟩, ⟨"n", .int64, true⟩]
  rows := [[.text "x; from a < b", .int 1], [.null, .int 2], [.text "x", .null],
    [.text "x; from a < b", .null]]

/-- A text with a keyword, a sign and a semicolon selects the two rows that have it. -/
theorem run_equalsText_iff_queries :
    '\'' ∉ "x; from a < b".toList ∧ Opaque "c" "x; from a < b" ∧
      run ["self"] (some queries) "SELECT * FROM self WHERE c = 'x; from a < b'" =
        .ok [[("c", .string "x; from a < b"), ("n", .int 1)],
          [("c", .string "x; from a < b"), ("n", .null)]] := by
  have hname : ColumnWord "c" := ⟨by decide, by simp; rfl, by simp⟩
  have hclear : Opaque "c" "x; from a < b" :=
    ⟨by decide, by decide, by decide, by decide⟩
  have hself : "self" ∈ ["self"] := List.mem_cons_self
  have hcolumn : TextColumn queries "c" 0 := by
    refine ⟨⟨true, rfl⟩, by simp [queries], fun row hrow => ?_⟩
    simp only [queries, List.mem_cons, List.not_mem_nil, or_false] at hrow
    rcases hrow with rfl | rfl | rfl | rfl <;>
      simp [queries, Cell.Fits, Cell.FitsParts, Cell.FitsScalar, ColumnType.utf8, ColumnType.int64,
        IntWidth.lo, IntWidth.hi, Number.least64, Number.greatest64]
  exact ⟨by decide, hclear, (run_equalsText_iff hname (by decide)).mpr hclear ["self"] queries 0
    [[("c", .string "x; from a < b"), ("n", .int 1)], [("c", .null), ("n", .int 2)],
      [("c", .string "x"), ("n", .null)], [("c", .string "x; from a < b"), ("n", .null)]]
    hself hcolumn rfl⟩

/-- A text with a sign of two characters does not select the row that has it: the sign is taken for
the one of the condition, and there is no column with the name in front of it. -/
theorem not_selected_sign :
    '\'' ∉ "a==b".toList ∧ (oneText "c" "a==b").rows = [[.text "a==b"]] ∧
      run ["self"] (some (oneText "c" "a==b")) "SELECT * FROM self WHERE c = 'a==b'" =
        .error (.query "unknown column 'c = 'a'") := ⟨by decide, rfl, by rfl⟩

end Lineage.Query
