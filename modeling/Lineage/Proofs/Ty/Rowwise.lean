import Lineage.Proofs.Column.Rowwise
import Lineage.Ty.Item

set_option autoImplicit false

/-!
# Selecting, cutting and descending row by row

Marks for the rows of a type, columns cut down to a type and the parts of rows under a path are
computed for every row on its own.

## Main results

* `Lineage.Ty.rowwise_selectRows`: the marks of cells by a type.
* `Lineage.Ty.framed_projectColumn`: columns cut down to a type.
* `Lineage.Ty.framed_descend`: the parts of cells under labels.
-/

namespace Lineage.Ty

/-! ### Candidates -/

/-- The best of changed candidates is the changed best one. -/
lemma bestOf?_map {α β : Type} (f : α → β) (candidates : List (α × Float)) :
    bestOf? (candidates.map fun c => (f c.1, c.2)) = (bestOf? candidates).map f := by
  cases candidates with
  | nil => rfl
  | cons first rest =>
    have hfold : ∀ (rest : List (α × Float)) (best : α × Float),
        (rest.map fun c => (f c.1, c.2)).foldl better (f best.1, best.2) =
          (f (rest.foldl better best).1, (rest.foldl better best).2) := by
      intro rest
      induction rest with
      | nil => exact fun _ => rfl
      | cons next rest ih =>
        intro best
        rw [List.map_cons, List.foldl_cons, List.foldl_cons, ← ih]
        congr 1
        unfold better
        split <;> rfl
    simp only [bestOf?, List.map_cons, hfold rest first, Option.map_some]

/-- The best of candidates that are changed one after the other is the changed best one. -/
lemma bestOf?_changed {α : Type} {f : Ty → α} {g : List (Ty × Float) → List (α × Float)}
    (hnil : g [] = []) (hcons : ∀ t score rest, g ((t, score) :: rest) = (f t, score) :: g rest)
    (types : List (Ty × Float)) : bestOf? (g types) = (bestOf? types).map f := by
  have heq : g types = types.map fun entry => (f entry.1, entry.2) := by
    induction types with
    | nil => exact hnil
    | cons entry rest ih =>
      obtain ⟨t, score⟩ := entry
      rw [hcons, ih, List.map_cons]
  rw [heq]
  exact bestOf?_map f types

/-- The best of candidates is one of them. -/
lemma mem_of_bestOf? {α : Type} {candidates : List (α × Float)} {best : α}
    (h : bestOf? candidates = some best) : ∃ score, (best, score) ∈ candidates := by
  cases candidates with
  | nil => cases h
  | cons first rest =>
    have hfold : ∀ (rest : List (α × Float)) (best : α × Float),
        rest.foldl better best ∈ best :: rest := by
      intro rest
      induction rest with
      | nil => exact fun best => List.mem_cons_self
      | cons next rest ih =>
        intro best
        rw [List.foldl_cons]
        have hbetter : better best next = best ∨ better best next = next := by
          unfold better
          split
          · exact Or.inr rfl
          · exact Or.inl rfl
        rcases List.mem_cons.mp (ih (better best next)) with heq | hmem
        · rw [heq]
          rcases hbetter with h | h <;> rw [h] <;> simp
        · exact List.mem_cons_of_mem _ (List.mem_cons_of_mem _ hmem)
    cases h
    exact ⟨_, hfold rest first⟩

/-! ### Marks -/

variable {type : ColumnType}

/-- The part of a name of every struct is found by its place. -/
lemma childColumn_eq (type : ColumnType) (name : String) :
    (∃ i part, ∀ cells, childColumn ⟨type, cells⟩ name = .ok ⟨part, cells.map (Cell.part i)⟩) ∨
      ∃ fault, ∀ cells, childColumn ⟨type, cells⟩ name = .error fault := by
  unfold childColumn Column.child?
  cases hindex : Column.fieldIndex? name type.fields with
  | none => exact Or.inr ⟨missingColumn name, fun cells => by simp [hindex, Outcome.ofOption]⟩
  | some i =>
    cases hfield : type.fields[i]? with
    | none =>
      refine Or.inr ⟨missingColumn name, fun cells => ?_⟩
      simp [Column.childAt?, hindex, hfield, Outcome.ofOption]
    | some f =>
      refine Or.inl ⟨i, f.type, fun cells => ?_⟩
      simp [Column.childAt?, hindex, hfield, Outcome.ofOption]

/-- The cells of a column read as whole numbers. -/
lemma rowwise_asInts (type : ColumnType) : Rowwise fun cells => Column.asInts ⟨type, cells⟩ := by
  cases type with
  | scalar s =>
    cases hs : Column.readsAsInt s
    · exact (Rowwise.ofError Fault.columns).congr fun a => by simp [Column.asInts, hs]
    · exact (Rowwise.ofMap Column.cellInt?).congr fun a => by simp [Column.asInts, hs]
  | struct fields => exact Rowwise.ofError _
  | list layout item => exact Rowwise.ofError _

/-- The cells of a column read as doubles. -/
lemma rowwise_asFloats (type : ColumnType) :
    Rowwise fun cells => Column.asFloats ⟨type, cells⟩ := by
  cases type with
  | scalar s =>
    cases hs : Column.readsAsFloat s
    · exact (Rowwise.ofError Fault.columns).congr fun a => by simp [Column.asFloats, hs]
    · exact (Rowwise.ofMap Column.cellFloat?).congr fun a => by simp [Column.asFloats, hs]
  | struct fields => exact Rowwise.ofError _
  | list layout item => exact Rowwise.ofError _

/-- The cells of a column read as texts. -/
lemma rowwise_asTexts (type : ColumnType) : Rowwise fun cells => Column.asTexts ⟨type, cells⟩ := by
  cases type with
  | scalar s => exact (Rowwise.ofMapM (Column.cellText (.scalar s))).congr fun a => rfl
  | struct fields => exact Rowwise.ofError _
  | list layout item =>
    cases layout with
    | fixed n => exact Rowwise.ofError _
    | small | large => exact (Rowwise.ofMapM (Column.cellText (.list _ item))).congr fun a => rfl

/-- The marks of cells by a leaf. -/
lemma rowwise_selectByLeaf (type : ColumnType) (content : Leaf) :
    Rowwise fun cells => selectByLeaf ⟨type, cells⟩ content := by
  have hall : Rowwise fun cells : List Cell => (.ok (cells.map fun _ => true) : Outcome _) :=
    Rowwise.ofMap _
  cases content with
  | integer lo hi base => exact (rowwise_asInts type).map _
  | float lo hi base => exact (rowwise_asFloats type).map _
  | enum nameValues ordered => exact (rowwise_asTexts type).map _
  | datetime format lo hi base =>
    cases base with
    | timestamp => exact hall
    | date | text => exact (rowwise_asTexts type).map _
  | null | unit | boolean | id | text | bytes => exact hall

/-- The names of the branches of a union's rows. -/
lemma rowwise_selectedBranches (type : ColumnType) :
    Rowwise fun cells => selectedBranches ⟨type, cells⟩ := by
  unfold selectedBranches
  rcases childColumn_eq type fieldSelected with ⟨i, part, h⟩ | ⟨fault, h⟩
  · by_cases hpart : part = .utf8
    · simp only [h, Outcome.ok_bind, hpart, if_true, List.map_map]
      exact Rowwise.ofMap _
    · simp only [h, Outcome.ok_bind, hpart, if_false]
      exact Rowwise.ofError _
  · simp only [h, Outcome.error_bind]
    exact Rowwise.ofError _

/-- The mark of a row by the marks of the branches in this row. -/
def rowMark (name : Option String) (marks : List (String × Option Bool)) : Bool :=
  match name with
  | none => false
  | some name =>
    match marks.find? fun b => b.1 == name with
    | none => false
    | some b => b.2.getD false

/-- The mark of a row by the branches follows from the marks in this row. -/
lemma branchMark_eq (branches : List (String × List Bool)) (row : Option String × ℕ) :
    branchMark branches row = rowMark row.1 (rowAt branches row.2) := by
  obtain ⟨name, i⟩ := row
  cases name with
  | none => rfl
  | some name =>
    simp only [branchMark, rowMark, rowAt, List.find?_map, Function.comp_def]
    cases branches.find? fun b => b.1 == name <;> rfl

/-- The marks of rows by the branches of a union, of two parts of the rows. -/
lemma branchMarks_append {p q : List (String × List Bool)} (h : p.map Prod.fst = q.map Prod.fst)
    {a : List (Option String)} (hlength : ∀ part ∈ p, part.2.length = a.length)
    (b : List (Option String)) :
    (a ++ b).zipIdx.map (branchMark (joinParts p q)) =
      a.zipIdx.map (branchMark p) ++ b.zipIdx.map (branchMark q) := by
  simp only [funext (branchMark_eq _)]
  exact zipIdx_map_joinParts rowMark h hlength b

/-- The marks of rows by branches that are given row by row. -/
lemma rowwise_branchMarks {names : List Cell → Outcome (List (Option String))}
    {branches : List Cell → Outcome (List (String × List Bool))} (hnames : Rowwise names)
    (hbranches : Columnwise branches) :
    Rowwise fun cells => do
      let x ← names cells
      let p ← branches cells
      .ok (x.zipIdx.map (branchMark p)) where
  length h := by
    obtain ⟨x, hx, hrest⟩ := Outcome.bind_eq_ok.mp h
    obtain ⟨p, hp, ⟨⟩⟩ := Outcome.bind_eq_ok.mp hrest
    rw [List.length_map, List.length_zipIdx, hnames.length hx]
  append {a b z} := by
    simp only [Outcome.bind_eq_ok, hnames.append, hbranches.append, Except.ok.injEq]
    constructor
    · rintro ⟨_, ⟨x, y, hx, hy, rfl⟩, _, ⟨p, q, hp, hq, rfl⟩, rfl⟩
      refine ⟨_, _, ⟨x, hx, p, hp, rfl⟩, ⟨y, hy, q, hq, rfl⟩, ?_⟩
      refine branchMarks_append (hbranches.keys hp hq) (fun part hpart => ?_) y
      rw [hbranches.length hp part hpart, hnames.length hx]
    · rintro ⟨_, _, ⟨x, hx, p, hp, rfl⟩, ⟨y, hy, q, hq, rfl⟩, rfl⟩
      refine ⟨_, ⟨x, y, hx, hy, rfl⟩, _, ⟨p, q, hp, hq, rfl⟩, ?_⟩
      refine branchMarks_append (hbranches.keys hp hq) (fun part hpart => ?_) y
      rw [hbranches.length hp part hpart, hnames.length hx]

/-- There is a mark for every row of two lists of marks. -/
lemma length_bothMarks {u marks : List Bool} {n : ℕ} (hu : u.length = n)
    (hmarks : marks.length = n) : (bothMarks u marks).length = n := by
  rw [bothMarks, List.length_zipWith, hu, hmarks, Nat.min_self]

/-- The marks of two parts of the rows are put together in each part. -/
lemma bothMarks_append {u marks : List Bool} (h : u.length = marks.length)
    (v marks' : List Bool) :
    bothMarks (u ++ v) (marks ++ marks') = bothMarks u marks ++ bothMarks v marks' :=
  List.zipWith_append h

/-- The marks by a hypothesis are those by its best candidate. If it has none, all rows are
marked. -/
lemma selectRows_hypothesis (c : Column) (info : Info) (types : List (Ty × Float)) :
    selectRows c (.hypothesis info types) =
      ((bestOf? types).map (selectRows c)).getD (.ok (c.cells.map fun _ => true)) := by
  have hbest : bestOf? (selectCandidates c types) = (bestOf? types).map (selectRows c) :=
    bestOf?_changed rfl (fun _ _ _ => rfl) types
  rw [selectRows, hbest]

mutual

/-- **The marks of cells by a type are computed for every cell on its own.**

**Proof sketch.** By induction on the type, together with the members and the candidates. A
leaf reads every cell on its own. The marks by the fields of a struct are folded into those so
far (`selectFields_append`), those by the branches of a union are looked up in the row
(`rowwise_branchMarks`), and a hypothesis is its best candidate. -/
theorem rowwise_selectRows : ∀ (t : Ty) (type : ColumnType),
    Rowwise fun cells => selectRows ⟨type, cells⟩ t
  | .leaf _ content, type => by
    simpa only [selectRows] using rowwise_selectByLeaf type content
  | .members _ .struct fields, type => by
    simp only [selectRows]
    by_cases hstruct : type.isStruct = true
    · simp only [requireStruct, hstruct, if_true, Outcome.ok_bind]
      obtain ⟨hlength, happend⟩ := selectFields_append fields type
      refine ⟨fun h => hlength (List.length_map _) h, ?_⟩
      intro a b z
      rw [List.map_append, happend (List.length_map _) (List.length_map _)]
    · exact (Rowwise.ofError _).congr fun a => by simp [requireStruct, hstruct]; rfl
  | .members _ .union fields, type => by
    simp only [selectRows]
    by_cases hstruct : type.isStruct = true
    · simp only [requireStruct, hstruct, if_true, Outcome.ok_bind]
      exact rowwise_branchMarks (rowwise_selectedBranches type)
        (columnwise_selectBranches fields type)
    · exact (Rowwise.ofError _).congr fun a => by simp [requireStruct, hstruct]; rfl
  | .wrapped _ wrapper inner, type => by
    have ih := rowwise_selectRows inner type
    cases wrapper with
    | optional =>
      simpa only [selectRows, Outcome.bind_ok] using ih.zipWith fun m cell => m || cell.isNull
    | constrained constraint => simpa only [selectRows] using ih
    | list maxSize | array shape => simpa only [selectRows] using Rowwise.ofMap fun _ => true
  | .hypothesis _ types, type => by
    have ih := rowwise_selectCandidates types type
    cases hbest : bestOf? types with
    | none =>
      refine (Rowwise.ofMap fun _ => true).congr fun a => ?_
      rw [selectRows_hypothesis, hbest]
      rfl
    | some best =>
      obtain ⟨score, hmem⟩ := mem_of_bestOf? hbest
      refine (ih _ hmem).congr fun a => ?_
      rw [selectRows_hypothesis, hbest]
      rfl

/-- The marks of rows by the fields of a struct, given the marks so far. -/
theorem selectFields_append : ∀ (fields : List (String × Ty)) (type : ColumnType),
    (∀ {a ma x}, ma.length = a.length → selectFields ⟨type, a⟩ ma fields = .ok x →
      x.length = a.length) ∧
    ∀ {a b ma mb z}, ma.length = a.length → mb.length = b.length →
      (selectFields ⟨type, a ++ b⟩ (ma ++ mb) fields = .ok z ↔
        ∃ x y, selectFields ⟨type, a⟩ ma fields = .ok x ∧ selectFields ⟨type, b⟩ mb fields = .ok y ∧
          z = x ++ y)
  | [], type => by
    simp only [selectFields, Except.ok.injEq]
    refine ⟨fun hlength heq => heq ▸ hlength, fun hlength hlength' => ⟨?_, ?_⟩⟩
    · rintro rfl
      exact ⟨_, _, rfl, rfl, rfl⟩
    · rintro ⟨x, y, rfl, rfl, rfl⟩
      rfl
  | (name, t) :: rest, type => by
    obtain ⟨ihlength, ihappend⟩ := selectFields_append rest type
    simp only [selectFields]
    rcases childColumn_eq type name with ⟨i, part, h⟩ | ⟨fault, h⟩
    · have ih := (rowwise_selectRows t part).comp (Cell.part i)
      simp only [h, Outcome.ok_bind, Outcome.bind_eq_ok]
      refine ⟨?_, ?_⟩
      · rintro a ma x hlength ⟨marks, hmarks, hrest⟩
        exact ihlength (length_bothMarks hlength (ih.length hmarks)) hrest
      · intro a b ma mb z hlength hlength'
        simp only [ih.append]
        constructor
        · rintro ⟨_, ⟨x, y, hx, hy, rfl⟩, hrest⟩
          rw [bothMarks_append (hlength.trans (ih.length hx).symm),
            ihappend (length_bothMarks hlength (ih.length hx))
              (length_bothMarks hlength' (ih.length hy))] at hrest
          obtain ⟨x', y', hx', hy', rfl⟩ := hrest
          exact ⟨x', y', ⟨x, hx, hx'⟩, ⟨y, hy, hy'⟩, rfl⟩
        · rintro ⟨x', y', ⟨x, hx, hx'⟩, ⟨y, hy, hy'⟩, rfl⟩
          refine ⟨_, ⟨x, y, hx, hy, rfl⟩, ?_⟩
          rw [bothMarks_append (hlength.trans (ih.length hx).symm),
            ihappend (length_bothMarks hlength (ih.length hx))
              (length_bothMarks hlength' (ih.length hy))]
          exact ⟨x', y', hx', hy', rfl⟩
    · simp only [h, Outcome.error_bind]
      simp

/-- The marks of rows by every branch of a union. -/
theorem columnwise_selectBranches : ∀ (fields : List (String × Ty)) (type : ColumnType),
    Columnwise fun cells => selectBranches ⟨type, cells⟩ fields
  | [], type => by simpa only [selectBranches] using Columnwise.nil
  | (name, t) :: rest, type => by
    have ihrest := columnwise_selectBranches rest type
    simp only [selectBranches]
    rcases childColumn_eq type name with ⟨i, part, h⟩ | ⟨fault, h⟩
    · have ih := (rowwise_selectRows t part).comp (Cell.part i)
      refine ((Columnwise.single ih name).sideBySide ihrest).congr fun a => ?_
      simp only [h, Outcome.ok_bind]
      cases selectRows ⟨part, a.map (Cell.part i)⟩ t <;> rfl
    · simp only [h, Outcome.error_bind]
      exact Columnwise.ofError fault

/-- The marks of rows by the candidates of a hypothesis. -/
theorem rowwise_selectCandidates : ∀ (types : List (Ty × Float)) (type : ColumnType),
    ∀ entry ∈ types, Rowwise fun cells => selectRows ⟨type, cells⟩ entry.1
  | [], _, _, hentry => by cases hentry
  | (t, score) :: rest, type, entry, hentry => by
    rcases List.mem_cons.mp hentry with rfl | hrest
    · exact rowwise_selectRows t type
    · exact rowwise_selectCandidates rest type entry hrest

end

/-! ### Columns cut down to a type -/

/-- The type and the cells of a column. -/
def columnParts (c : Column) : ColumnType × List Cell := (c.type, c.cells)

/-- Parts of structs fit the nulls of these: one that allows no nulls has them only under a null
struct. -/
def fitsNulls (parts : List (Field × List Cell)) (nulls : List Bool) : Bool :=
  parts.all fun part => part.1.nullable ||
    (part.2.zip nulls).all fun entry => !entry.1.isNull || entry.2

/-- Structs are put together from the parts that fit their nulls. -/
lemma assembleStruct_eq_ok {cells : List Cell} {parts : List (Field × List Cell)}
    {z : ColumnType × List Cell} :
    (assembleStruct cells parts).map columnParts = .ok z ↔
      fitsNulls parts (cells.map Cell.isNull) = true ∧
        z = (.struct (parts.map Prod.fst), structCells cells (parts.map Prod.snd)) := by
  have heq : (assembleStruct cells parts).map columnParts =
      if fitsNulls parts (cells.map Cell.isNull) then
        .ok (.struct (parts.map Prod.fst), structCells cells (parts.map Prod.snd))
      else .error .columns := by
    unfold assembleStruct fitsNulls
    dsimp only
    split <;> rfl
  rw [heq]
  split
  · rename_i hfits
    simp [hfits, eq_comm]
  · rename_i hfits
    simp [hfits]

/-- The structs of two parts of the rows. -/
lemma structCells_append {p q : List (Field × List Cell)} (h : p.map Prod.fst = q.map Prod.fst)
    {a : List Cell} (hlength : ∀ part ∈ p, part.2.length = a.length) (b : List Cell) :
    structCells (a ++ b) ((joinParts p q).map Prod.snd) =
      structCells a (p.map Prod.snd) ++ structCells b (q.map Prod.snd) := by
  have hrow : ∀ (cells : List Cell) (parts : List (Field × List Cell)),
      structCells cells (parts.map Prod.snd) = cells.zipIdx.map fun entry =>
        .struct (!entry.1.isNull) ((rowAt parts entry.2).map fun part => part.2.getD .null) := by
    intro cells parts
    simp [structCells, rowAt, Function.comp_def]
  simp only [hrow]
  exact zipIdx_map_joinParts
    (fun cell row => Cell.struct (!cell.isNull) (row.map fun part => part.2.getD .null)) h hlength b

/-- Parts fit the nulls of structs if they do in both parts of the rows. -/
lemma fitsNulls_joinParts {p q : List (Field × List Cell)} (h : p.map Prod.fst = q.map Prod.fst)
    {a : List Bool} (hlength : ∀ part ∈ p, part.2.length = a.length) (b : List Bool) :
    fitsNulls (joinParts p q) (a ++ b) = (fitsNulls p a && fitsNulls q b) := by
  induction p generalizing q with
  | nil =>
    cases q with
    | nil => rfl
    | cons t q => cases h
  | cons s p ih =>
    cases q with
    | nil => cases h
    | cons t q =>
      simp only [List.map_cons, List.cons.injEq] at h
      have hrest := ih h.2 fun part hpart => hlength part (List.mem_cons_of_mem _ hpart)
      simp only [fitsNulls, joinParts, List.zipWith_cons_cons, List.all_cons] at hrest ⊢
      rw [hrest, List.zip_append (hlength s List.mem_cons_self), List.all_append, h.1]
      cases t.1.nullable <;> simp [Bool.and_assoc, Bool.and_left_comm]

/-- **Structs put together from parts that are given row by row.**

**Proof sketch.** The parts of the rows that come first and of those that come after stand under
the same fields. So the whole fits its nulls exactly if both do (`fitsNulls_joinParts`), and then
its structs are those of the one and of the other (`structCells_append`). -/
theorem framed_assembleStruct {g : List Cell → Outcome (List (Field × List Cell))}
    (hg : Columnwise g) :
    Framed fun cells => g cells >>= fun parts => (assembleStruct cells parts).map columnParts := by
  refine Framed.mk' ?_ ?_ ?_
  · intro a b x y hx hy
    obtain ⟨p, hp, hx⟩ := Outcome.bind_eq_ok.mp hx
    obtain ⟨q, hq, hy⟩ := Outcome.bind_eq_ok.mp hy
    obtain ⟨-, rfl⟩ := assembleStruct_eq_ok.mp hx
    obtain ⟨-, rfl⟩ := assembleStruct_eq_ok.mp hy
    exact congrArg ColumnType.struct (hg.keys hp hq)
  · intro a x hx
    obtain ⟨p, hp, hx⟩ := Outcome.bind_eq_ok.mp hx
    obtain ⟨-, rfl⟩ := assembleStruct_eq_ok.mp hx
    simp [structCells]
  · intro a b z
    have hfits : ∀ {p q}, g a = .ok p → g b = .ok q →
        fitsNulls (joinParts p q) ((a ++ b).map Cell.isNull) =
          (fitsNulls p (a.map Cell.isNull) && fitsNulls q (b.map Cell.isNull)) := by
      intro p q hp hq
      rw [List.map_append]
      exact fitsNulls_joinParts (hg.keys hp hq)
        (fun part hpart => (hg.length hp part hpart).trans (List.length_map _).symm) _
    have hparts : ∀ {p q}, g a = .ok p → g b = .ok q →
        (ColumnType.struct ((joinParts p q).map Prod.fst),
            structCells (a ++ b) ((joinParts p q).map Prod.snd)) =
          (.struct (p.map Prod.fst),
            structCells a (p.map Prod.snd) ++ structCells b (q.map Prod.snd)) := by
      intro p q hp hq
      rw [map_fst_joinParts (hg.keys hp hq), structCells_append (hg.keys hp hq) (hg.length hp) b]
    simp only [Outcome.bind_eq_ok, hg.append, assembleStruct_eq_ok]
    constructor
    · rintro ⟨_, ⟨p, q, hp, hq, rfl⟩, hboth, rfl⟩
      rw [hfits hp hq, Bool.and_eq_true] at hboth
      exact ⟨_, _, ⟨p, hp, hboth.1, rfl⟩, ⟨q, hq, hboth.2, rfl⟩, hparts hp hq⟩
    · rintro ⟨_, _, ⟨p, hp, hleft, rfl⟩, ⟨q, hq, hright, rfl⟩, rfl⟩
      refine ⟨_, ⟨p, q, hp, hq, rfl⟩, ?_, (hparts hp hq).symm⟩
      rw [hfits hp hq, hleft, hright]
      rfl

/-- The items of the lists in two parts of the rows. -/
lemma listItems_append (a b : List Cell) : listItems (a ++ b) = listItems a ++ listItems b :=
  List.flatMap_append

/-- There is a list for every row. -/
lemma length_relist (cells pool : List Cell) : (relist cells pool).length = cells.length := by
  induction cells generalizing pool with
  | nil => rfl
  | cons cell cells ih => cases cell <;> simp [relist, ih]

/-- The lists in two parts of the rows, with other items. -/
lemma relist_append {a pool : List Cell} (h : pool.length = (listItems a).length)
    (b pool' : List Cell) : relist (a ++ b) (pool ++ pool') = relist a pool ++ relist b pool' := by
  induction a generalizing pool with
  | nil =>
    rw [List.eq_nil_of_length_eq_zero h]
    rfl
  | cons cell a ih =>
    cases cell with
    | list items =>
      have hitems : (listItems (.list items :: a)).length =
          items.length + (listItems a).length := by
        simp [listItems]
      rw [hitems] at h
      simp only [List.cons_append, relist]
      rw [List.take_append_of_le_length (by omega), List.drop_append_of_le_length (by omega), ih]
      rw [List.length_drop]
      omega
    | _ => simp only [List.cons_append, relist, ih (by simpa [listItems] using h)]

/-- A column is cut down to the best candidate of a hypothesis. If this has none, the column stays
whole. -/
lemma projectColumn_hypothesis (c : Column) (info : Info) (types : List (Ty × Float)) :
    projectColumn c (.hypothesis info types) =
      ((bestOf? types).map (projectColumn c)).getD (.ok c) := by
  have hbest : bestOf? (projectCandidates c types) = (bestOf? types).map (projectColumn c) :=
    bestOf?_changed rfl (fun _ _ _ => rfl) types
  rw [projectColumn, hbest]

/-- The parts of structs, each cut down to a type, side by side. -/
lemma columnwise_children {form : Form} {fields : List (String × Ty)}
    (h : ∀ (f : Field) (type : ColumnType),
      Columnwise fun cells => projectMember form f ⟨type, cells⟩ fields)
    (entries : List (Field × ℕ)) :
    Columnwise fun cells => ((entries.map fun entry =>
      (entry.1, (⟨entry.1.type, cells.map (Cell.part entry.2)⟩ : Column))).mapM fun entry =>
        projectMember form entry.1 entry.2 fields).map List.flatten := by
  induction entries with
  | nil => exact Columnwise.nil
  | cons entry entries ih =>
    refine (((h entry.1 entry.1.type).comp (Cell.part entry.2)).sideBySide ih).congr fun a => ?_
    have hflatten : ∀ (x : Outcome (List (Field × List Cell)))
        (y : Outcome (List (List (Field × List Cell)))),
        (do
          let p ← x
          let q ← y
          pure (p :: q)).map List.flatten = (do
          let p ← x
          let q ← y.map List.flatten
          .ok (p ++ q)) := by
      intro x y
      cases x <;> cases y <;> rfl
    rw [List.map_cons, List.mapM_cons]
    exact hflatten _ _

/-- Lists whose items are cut down row by row. -/
lemma framed_relist (item : Field) {g : List Cell → Outcome Column}
    (hg : Framed fun cells => (g cells).map columnParts) :
    Framed fun cells => (do
      let items ← g (listItems cells)
      .ok (⟨.list .small ⟨item.name, items.type, item.nullable⟩, relist cells items.cells⟩ :
        Column)).map columnParts := by
  have hresult : ∀ cells z, (do
      let items ← g (listItems cells)
      .ok (⟨.list .small ⟨item.name, items.type, item.nullable⟩, relist cells items.cells⟩ :
        Column)).map columnParts = .ok z ↔
      ∃ x, (g (listItems cells)).map columnParts = .ok x ∧
        z = (.list .small ⟨item.name, x.1, item.nullable⟩, relist cells x.2) := by
    intro cells z
    cases g (listItems cells) with
    | error fault => simp [Except.map]
    | ok items => simp [Except.map, columnParts, eq_comm]
  refine Framed.mk' ?_ ?_ ?_
  · intro a b x y hx hy
    obtain ⟨u, hu, rfl⟩ := (hresult a x).mp hx
    obtain ⟨v, hv, rfl⟩ := (hresult b y).mp hy
    have htype := hg.frame hu hv
    simp only [htype]
  · intro a x hx
    obtain ⟨u, hu, rfl⟩ := (hresult a x).mp hx
    exact length_relist a u.2
  · intro a b z
    rw [hresult, listItems_append]
    simp only [hg.append, hresult]
    constructor
    · rintro ⟨_, ⟨u, v, hu, hv, rfl⟩, rfl⟩
      exact ⟨_, _, ⟨u, hu, rfl⟩, ⟨v, hv, rfl⟩,
        Prod.ext rfl (relist_append (hg.length hu) b v.2)⟩
    · rintro ⟨_, _, ⟨u, hu, rfl⟩, ⟨v, hv, rfl⟩, rfl⟩
      exact ⟨_, ⟨u, v, hu, hv, rfl⟩, Prod.ext rfl (relist_append (hg.length hu) b v.2).symm⟩

/-- A whole part under its field. -/
lemma columnwise_wholePart (f : Field) :
    Columnwise fun cells : List Cell => (.ok [(f, cells)] : Outcome (List (Field × List Cell))) :=
  (Columnwise.single (Rowwise.ofMap fun cell : Cell => cell) f).congr fun a => by
    rw [List.map_id']
    rfl

/-- Whole columns. -/
lemma framed_whole (type : ColumnType) :
    Framed fun cells => (.ok ⟨type, cells⟩ : Outcome Column).map columnParts :=
  (Framed.ofMap type fun cell : Cell => cell).congr fun a => by rw [List.map_id']; rfl

/-- Structs are cut down to members row by row if each of their parts is. -/
lemma framed_projectMembers {form : Form} {fields : List (String × Ty)} {type : ColumnType}
    (info : Info)
    (h : ∀ (f : Field) (type : ColumnType),
      Columnwise fun cells => projectMember form f ⟨type, cells⟩ fields) :
    Framed fun cells =>
      (projectColumn ⟨type, cells⟩ (.members info form fields)).map columnParts := by
  by_cases hstruct : type.isStruct = true
  · cases hmissing : fields.find? fun f => (Column.fieldIndex? f.1 type.fields).isNone with
    | none =>
      refine (framed_assembleStruct (columnwise_children h type.fields.zipIdx)).congr fun a => ?_
      have hassemble : ∀ x : Outcome (List (List (Field × List Cell))),
          (x >>= fun kept => assembleStruct a kept.flatten).map columnParts =
            x.map List.flatten >>= fun parts => (assembleStruct a parts).map columnParts := by
        intro x
        cases x <;> rfl
      simp only [projectColumn, hstruct, if_true, hmissing]
      exact hassemble _
    | some missing =>
      refine Framed.ofNever fun a x hx => ?_
      simp only [projectColumn, hstruct, if_true, hmissing] at hx
      obtain ⟨c, hc, -⟩ := Outcome.map_eq_ok.mp hx
      obtain ⟨kept, -, hkept⟩ := Outcome.bind_eq_ok.mp hc
      cases hkept
  · refine Framed.ofNever fun a x hx => ?_
    simp [projectColumn, hstruct, Except.map] at hx

mutual

/-- **Columns are cut down to a type row by row.**

**Proof sketch.** By induction on the type, together with the members and the candidates. The
parts of a struct are put together again (`framed_projectMembers`), and the items of all lists
are cut down at once and dealt out to the lists (`framed_relist`). What is given besides the
cells is the type of the column. -/
theorem framed_projectColumn : ∀ (t : Ty) (type : ColumnType),
    Framed fun cells => (projectColumn ⟨type, cells⟩ t).map columnParts
  | .leaf _ _, type => by
    simpa only [projectColumn] using framed_whole type
  | .members info form fields, type =>
    framed_projectMembers info fun f type => columnwise_projectMember form f fields type
  | .wrapped _ wrapper inner, type => by
    cases wrapper with
    | optional | constrained constraint =>
      simpa only [projectColumn] using framed_projectColumn inner type
    | array shape => simpa only [projectColumn] using framed_whole type
    | list maxSize =>
      simp only [projectColumn]
      cases type with
      | scalar s => exact framed_whole _
      | struct fields => exact framed_whole _
      | list layout item =>
        cases layout with
        | large | fixed n => exact framed_whole _
        | small => exact framed_relist item (framed_projectColumn inner item.type)
  | .hypothesis _ types, type => by
    have ih := framed_projectCandidates types type
    cases hbest : bestOf? types with
    | none =>
      refine (framed_whole type).congr fun a => ?_
      rw [projectColumn_hypothesis, hbest]
      rfl
    | some best =>
      obtain ⟨score, hmem⟩ := mem_of_bestOf? hbest
      refine (ih _ hmem).congr fun a => ?_
      rw [projectColumn_hypothesis, hbest]
      rfl

/-- One part of structs is cut down to a type row by row. -/
theorem columnwise_projectMember (form : Form) (f : Field) : ∀ (fields : List (String × Ty))
    (type : ColumnType), Columnwise fun cells => projectMember form f ⟨type, cells⟩ fields
  | [], type => by
    simp only [projectMember]
    split
    · exact columnwise_wholePart f
    · exact Columnwise.nil
  | (name, t) :: rest, type => by
    have ih := framed_projectColumn t type
    simp only [projectMember]
    split
    · split
      · exact columnwise_wholePart f
      · refine (ih.columns fun type => (⟨f.name, type, f.nullable⟩ : Field)).congr fun a => ?_
        cases projectColumn ⟨type, a⟩ t <;> rfl
    · exact columnwise_projectMember form f rest type

/-- Columns are cut down to the candidates of a hypothesis row by row. -/
theorem framed_projectCandidates : ∀ (types : List (Ty × Float)) (type : ColumnType),
    ∀ entry ∈ types, Framed fun cells => (projectColumn ⟨type, cells⟩ entry.1).map columnParts
  | [], _, _, hentry => by cases hentry
  | (t, score) :: rest, type, entry, hentry => by
    rcases List.mem_cons.mp hentry with rfl | hrest
    · exact framed_projectColumn t type
    · exact framed_projectCandidates rest type entry hrest

end

/-! ### Parts under labels -/

/-- What becomes of a part of a struct where the struct is null. -/
def partUnder (i : ℕ) (cell : Cell) : Cell :=
  if cell.isNull then (Cell.part i cell).absent else Cell.part i cell

/-- The parts of structs, under the nulls of these, cell by cell. -/
lemma childUnder_eq (type part : ColumnType) (i : ℕ) (cells : List Cell) :
    childUnder ⟨type, cells⟩ ⟨part, cells.map (Cell.part i)⟩ =
      if cells.any fun cell => cell.isNull && decide (part = .null) then .error .columns
      else .ok ⟨part, cells.map (partUnder i)⟩ := by
  have hcells : List.zipWith (fun s cell => if Cell.isNull s then Cell.absent cell else cell) cells
      (cells.map (Cell.part i)) = cells.map (partUnder i) := by
    rw [List.zipWith_map_right, List.zipWith_self]
    rfl
  unfold childUnder
  rw [hcells]
  by_cases hnull : cells.any Cell.isNull = true
  · by_cases hpart : part = .null <;> simp_all
  · have hwhole : cells.map (partUnder i) = cells.map (Cell.part i) := by
      refine List.map_congr_left fun cell hcell => ?_
      have hpresent : cell.isNull = false := by
        simpa using fun h => hnull (List.any_eq_true.mpr ⟨cell, hcell, h⟩)
      simp [partUnder, hpresent]
    have hnone : (cells.any fun cell => cell.isNull && decide (part = .null)) = false := by
      simp_all
    rw [if_neg hnull, hnone, hwhole]
    rfl

/-- The type under labels and the column of the parts. -/
def itemParts (item : Ty × Column) : (Ty × ColumnType) × List Cell :=
  ((item.1, item.2.type), item.2.cells)

mutual

/-- **The parts under labels are found row by row.**

**Proof sketch.** By induction on the type. Under a label of a struct stands the part of every
cell (`childUnder_eq`), and the computation fails where a part that cannot be null is under a
null (`Framed.guard`). What is given besides the cells is the type that the labels lead to. -/
theorem framed_descend : ∀ (t : Ty) (labels : List String) (type : ColumnType),
    Framed fun cells => (descend ⟨type, cells⟩ labels t).map itemParts
  | t, [], type => by
    refine (Framed.ofMap (t, type) fun cell : Cell => cell).congr fun a => ?_
    rw [descend, List.map_id']
    rfl
  | .members _ _ fields, label :: rest, type => by
    simpa only [descend] using framed_descendMember fields label rest type
  | .wrapped _ wrapper inner, label :: rest, type => by
    cases wrapper with
    | optional | constrained constraint => simpa only [descend] using framed_descend inner rest type
    | list maxSize | array shape =>
      refine Framed.ofNever fun a x hx => ?_
      rw [descend] at hx
      · cases hx
      all_goals simp
  | .leaf _ _, label :: rest, type | .hypothesis _ _, label :: rest, type => by
    refine Framed.ofNever fun a x hx => ?_
    rw [descend] at hx
    · cases hx
    all_goals simp

/-- The parts under labels are found row by row from the first member that has the first of
them. -/
theorem framed_descendMember : ∀ (fields : List (String × Ty)) (label : String)
    (rest : List String) (type : ColumnType),
    Framed fun cells => (descendMember ⟨type, cells⟩ label rest fields).map itemParts
  | [], label, rest, type => by
    refine Framed.ofNever fun a x hx => ?_
    rw [descendMember] at hx
    cases hx
  | (name, t) :: others, label, rest, type => by
    simp only [descendMember]
    by_cases hname : name = label
    · by_cases hstruct : type.isStruct = true
      · simp only [hname, hstruct, if_true]
        rcases childColumn_eq type label with ⟨i, part, h⟩ | ⟨fault, h⟩
        · refine (((framed_descend t rest part).comp (partUnder i)).guard
            (fun cell => cell.isNull && decide (part = .null)) .columns).congr fun a => ?_
          rw [h, Outcome.ok_bind, childUnder_eq]
          split <;> rfl
        · refine Framed.ofNever fun a x hx => ?_
          rw [h] at hx
          cases hx
      · refine Framed.ofNever fun a x hx => ?_
        rw [if_pos hname, if_neg hstruct] at hx
        cases hx
    · simp only [hname, if_false]
      exact framed_descendMember others label rest type

end

end Lineage.Ty
