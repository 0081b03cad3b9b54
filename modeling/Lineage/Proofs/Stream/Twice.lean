import Lineage.Proofs.Stream.Filter
import Lineage.Proofs.Stream.Operation
import Lineage.Proofs.Ty.Settled

set_option autoImplicit false

/-!
# Operations on batches that are done twice

A batch that has been cut down to a type stays as it is when it is cut down once more. The rows that
a filter has left pass it again: their payloads are cut down to the target, and this changes no mark
as long as the members of the target are found under their names.

## Main definitions

* `Lineage.Batch.payloadColumn?`: the payloads of the rows of a batch, as a column.

## Main results

* `Lineage.Rowwise.of_marked`: the rows that are marked are marked again.
* `Lineage.Ty.payloadColumn?_of_projectBatch`: the payloads of rows that are cut down.
* `Lineage.Ty.projectBatch_of_projectBatch`: a batch is cut down once and for all.
* `Lineage.BatchOperation.filter_twice`: what a filter leaves passes it again.
* `Lineage.Ty.projected_twice`: columns and batches that are cut down keep the number of their cells
  or rows, and are cut down once and for all.
-/

namespace Lineage

/-! ### Marked rows -/

/-- **Rows that are marked are marked again** when no others are left.

**Proof sketch.** Induction on the rows: the mark of a row is the same among the rows that are
left as it was among all of them. -/
theorem Rowwise.of_marked {α : Type} {g : List α → Outcome (List Bool)} (hg : Rowwise g)
    {rows : List α} {marks : List Bool} (h : g rows = .ok marks) :
    g (((rows.zip marks).filter Prod.snd).map Prod.fst) =
      .ok ((((rows.zip marks).filter Prod.snd).map Prod.fst).map fun _ => true) := by
  induction rows generalizing marks with
  | nil =>
    obtain rfl := List.eq_nil_of_length_eq_zero (hg.length h)
    exact h
  | cons row rows ih =>
    obtain ⟨first, others, hfirst, hothers, rfl⟩ := (hg.append (a := [row])).mp h
    obtain ⟨mark, rfl⟩ := List.length_eq_one_iff.mp (hg.length hfirst)
    have hrest := ih hothers
    cases mark with
    | false => exact hrest
    | true => exact (hg.append (a := [row])).mpr ⟨_, _, hfirst, hrest, rfl⟩

/-! ### Payloads -/

namespace Batch

variable {b : Batch}

/-- The column of the payloads: of the rows themselves, or of the values under `data`. -/
def payloadColumn? (wrapped : Bool) (b : Batch) : Option Column :=
  if wrapped then b.column? dataLabel else some b.toColumn

/-- A field that takes the place of the first one with its name is the first one with its name. -/
lemma fieldIndex?_set {name : String} {fields : List Field} {i : ℕ} {f : Field}
    (h : Column.fieldIndex? name fields = some i) (hname : f.name = name) :
    Column.fieldIndex? name (fields.set i f) = some i := by
  obtain ⟨hlt, -, hbefore⟩ := List.findIdx?_eq_some_iff_getElem.mp h
  refine List.findIdx?_eq_some_iff_getElem.mpr ⟨by simpa using hlt, by simp [hname], ?_⟩
  intro j hj
  rw [List.getElem_set_ne (Nat.ne_of_gt hj)]
  exact hbefore j hj

/-- The cells that rows get in one column are those of the column. -/
lemma map_cellAt_zipWith_set {i : ℕ} {rows : List (List Cell)} {cells : List Cell}
    (hlength : cells.length = rows.length) (hrows : ∀ row ∈ rows, i < row.length) :
    (List.zipWith (fun row cell => row.set i cell) rows cells).map (cellAt i) = cells := by
  refine List.ext_getElem (by simp [hlength]) fun k hk hk' => ?_
  have hrow := hrows rows[k] (List.getElem_mem (hlength ▸ hk'))
  simp [cellAt, hrow]

/-- Rows get the cells of one column once and for all. -/
lemma zipWith_set_zipWith_set (i : ℕ) (rows : List (List Cell)) (cells : List Cell) :
    List.zipWith (fun row cell => row.set i cell)
        (List.zipWith (fun row cell => row.set i cell) rows cells) cells =
      List.zipWith (fun row cell => row.set i cell) rows cells := by
  induction rows generalizing cells with
  | nil => rfl
  | cons row rows ih =>
    cases cells with
    | nil => rfl
    | cons cell cells =>
      simp only [List.zipWith_cons_cons, List.set_set, ih]

end Batch

namespace Ty

variable {t : Ty} {b b' : Batch} {wrapped : Bool}

/-- What is left of a struct is a struct. -/
lemma exists_trim_struct (t : Ty) (fs : List Field) (present : Bool) (parts : List Cell) :
    ∃ left, (trim (.struct fs) t).2 (.struct present parts) = .struct present left := by
  induction t using Ty.induction with
  | leaf info content =>
    rw [trim]
    exact ⟨parts, rfl⟩
  | members info form fields ih =>
    rw [trim_members]
    exact ⟨_, congrArg (Cell.struct · _) (Bool.not_not present)⟩
  | wrapped info wrapper inner ih =>
    cases wrapper with
    | optional | constrained constraint =>
      rw [trim]
      exact ih
    | array shape =>
      rw [trim]
      exact ⟨parts, rfl⟩
    | list maxSize =>
      rcases trim_list (.struct fs) info maxSize inner with ⟨item, hlist, -⟩ | ⟨-, heq⟩
      · cases hlist
      · rw [heq]
        exact ⟨parts, rfl⟩
  | hypothesis info types ih =>
    rcases trim_hypothesis (.struct fs) info types with ⟨-, heq⟩ | ⟨best, hmem, -, heq⟩
    · rw [heq]
      exact ⟨parts, rfl⟩
    · rw [heq]
      exact ih best hmem

/-- The rows of a column of structs that has been cut down, as a batch and as a column again. -/
lemma toColumn_of_ofColumn (hstruct : (trimColumn b.toColumn t).type.isStruct = true)
    (h : Batch.ofColumn (trimColumn b.toColumn t) = .ok b') :
    b'.toColumn = trimColumn b.toColumn t := by
  have htype : ∀ type : ColumnType, type.isStruct = true → .struct type.fields = type := by
    intro type htype
    cases type with
    | struct fs => rfl
    | scalar s | list layout item => cases htype
  unfold Batch.ofColumn at h
  split at h
  · cases h
  · cases h
    refine congrArg₂ Column.mk (htype _ hstruct) ?_
    have hcell : ∀ cell ∈ b.toColumn.cells,
        .struct true ((trim (.struct b.fields) t).2 cell).parts =
          (trim (.struct b.fields) t).2 cell := by
      intro cell hcell
      obtain ⟨row, -, rfl⟩ := List.mem_map.mp hcell
      obtain ⟨left, hleft⟩ := exists_trim_struct t b.fields true row
      rw [hleft, Cell.parts]
    simp only [trimColumn, List.map_map]
    exact List.map_congr_left hcell

/-- Rows are cut down to a type where their column is, to structs without nulls. -/
lemma projectBatch_unwrapped_eq_ok : projectBatch b t false = .ok b' ↔
    ∃ c, projectColumn b.toColumn t = .ok c ∧ c.type.isStruct = true ∧
      Batch.ofColumn c = .ok b' := by
  rw [projectBatch, if_neg Bool.false_ne_true, Outcome.bind_eq_ok]
  refine exists_congr fun c => and_congr_right fun _ => ?_
  split
  · rename_i hstruct
    rw [and_iff_right hstruct]
  · rename_i hstruct
    simp [hstruct]

/-- Wrapped rows are cut down to a type where the column under `data` is, to cells that may stand
there. -/
lemma projectBatch_wrapped_eq_ok : projectBatch b t true = .ok b' ↔
    ∃ i f payload, b.columnIndex? dataLabel = some i ∧ b.fields[i]? = some f ∧
      projectColumn ⟨f.type, b.cellsAt i⟩ t = .ok payload ∧
      b.replaceColumn i ⟨dataLabel, payload.type, f.nullable⟩ payload.cells = .ok b' := by
  rw [projectBatch, if_pos rfl]
  cases hindex : b.columnIndex? dataLabel with
  | none => simp
  | some i =>
    cases hf : b.fields[i]? with
    | none => simp [Batch.columnAt?, hf]
    | some f => simp [Batch.columnAt?, hf, Outcome.bind_eq_ok]

/-- What wrapped rows are cut down to: the column under `data` is that of the payloads that are
left. -/
lemma of_projectBatch_wrapped (hrows : ∀ row ∈ b.rows, row.length = b.fields.length)
    (h : projectBatch b t true = .ok b') :
    ∃ i f payload, b.columnIndex? dataLabel = some i ∧ b.fields[i]? = some f ∧
      projectColumn ⟨f.type, b.cellsAt i⟩ t = .ok payload ∧
      b'.columnIndex? dataLabel = some i ∧
      b'.fields[i]? = some ⟨dataLabel, payload.type, f.nullable⟩ ∧ b'.cellsAt i = payload.cells ∧
      b'.replaceColumn i ⟨dataLabel, payload.type, f.nullable⟩ payload.cells = .ok b' := by
  obtain ⟨i, f, payload, hindex, hf, hpayload, hreplace⟩ := projectBatch_wrapped_eq_ok.mp h
  obtain ⟨rfl, hallows⟩ := Batch.make_eq_ok.mp hreplace
  have hlt := (List.getElem?_eq_some_iff.mp hf).1
  have hlength : payload.cells.length = b.rows.length := by
    have hnulls := congrArg List.length (projectColumn_nulls t hpayload).1
    rwa [List.length_map, List.length_map, Batch.cellsAt, List.length_map] at hnulls
  refine ⟨i, f, payload, hindex, hf, hpayload, Batch.fieldIndex?_set hindex rfl,
    List.getElem?_set_self hlt, Batch.map_cellAt_zipWith_set hlength fun row hrow => ?_, ?_⟩
  · rw [hrows row hrow]
    exact hlt
  · refine Batch.make_eq_ok.mpr ⟨?_, ?_⟩
    · rw [List.set_set, Batch.zipWith_set_zipWith_set]
    · rw [List.set_set, Batch.zipWith_set_zipWith_set]
      exact hallows

/-- **The payloads of rows that are cut down to a type** are the payloads of the rows, cut down. -/
theorem payloadColumn?_of_projectBatch (hrows : ∀ row ∈ b.rows, row.length = b.fields.length)
    (h : projectBatch b t wrapped = .ok b') : ∃ c, b.payloadColumn? wrapped = some c ∧
      b'.payloadColumn? wrapped = some (trimColumn c t) := by
  cases wrapped with
  | false =>
    obtain ⟨c, hc, hstruct, hbatch⟩ := projectBatch_unwrapped_eq_ok.mp h
    obtain rfl := eq_trimColumn_of_projectColumn t hc
    exact ⟨b.toColumn, rfl, congrArg some (toColumn_of_ofColumn hstruct hbatch)⟩
  | true =>
    obtain ⟨i, f, payload, hindex, hf, hpayload, hindex', hf', hcells, -⟩ :=
      of_projectBatch_wrapped hrows h
    refine ⟨⟨f.type, b.cellsAt i⟩, ?_, ?_⟩
    · simp [Batch.payloadColumn?, Batch.column?, hindex, Batch.columnAt?, hf]
    · rw [← eq_trimColumn_of_projectColumn t hpayload]
      simp [Batch.payloadColumn?, Batch.column?, hindex', Batch.columnAt?, hf', hcells]

/-- **A batch is cut down to a type once and for all**, whether its rows are wrapped or not.

**Proof sketch.** The payloads of the new batch are those of the old one, cut down
(`toColumn_of_ofColumn`, `of_projectBatch_wrapped`), and a column is cut down once and for
all. -/
theorem projectBatch_of_projectBatch (hrows : ∀ row ∈ b.rows, row.length = b.fields.length)
    (h : projectBatch b t wrapped = .ok b') : projectBatch b' t wrapped = .ok b' := by
  cases wrapped with
  | false =>
    obtain ⟨c, hc, hstruct, hbatch⟩ := projectBatch_unwrapped_eq_ok.mp h
    refine projectBatch_unwrapped_eq_ok.mpr ⟨c, ?_, hstruct, hbatch⟩
    have hcut := eq_trimColumn_of_projectColumn t hc
    subst hcut
    rw [toColumn_of_ofColumn hstruct hbatch]
    exact projectColumn_of_projectColumn t hc
  | true =>
    obtain ⟨i, f, payload, -, -, hpayload, hindex, hf, hcells, hreplace⟩ :=
      of_projectBatch_wrapped hrows h
    refine projectBatch_wrapped_eq_ok.mpr ⟨i, _, payload, hindex, hf, ?_, hreplace⟩
    rw [hcells]
    exact projectColumn_of_projectColumn t hpayload

/-- A batch that is cut down to a type keeps its number of rows. -/
lemma size_of_projectBatch (h : projectBatch b t wrapped = .ok b') : b'.size = b.size :=
  (framed_projectBatch b.fields t wrapped).length (a := b.rows) (x := batchParts b')
    (Outcome.map_eq_ok.mpr ⟨b', h, rfl⟩)

end Ty

namespace BatchOperation

variable {target : Ty} {wrapped : Bool} {b b' : Batch} {marks : List Bool}

/-- The marks of the rows of a batch are those of their payloads. -/
lemma rowMask_eq_ok : rowMask target wrapped b = .ok marks ↔
    ∃ c, b.payloadColumn? wrapped = some c ∧ target.selectRows c = .ok marks := by
  cases wrapped with
  | false => simp [rowMask, Batch.payloadColumn?, Ty.selectBatchRows]
  | true =>
    rw [rowMask, if_pos rfl, Batch.payloadColumn?, if_pos rfl]
    cases b.column? dataLabel <;> simp

/-- Rows that are cut down to a type have the same marks by it. -/
lemma rowMask_of_projectBatch (hfound : target.FoundByName)
    (hrows : ∀ row ∈ b.rows, row.length = b.fields.length)
    (hproject : target.projectBatch b wrapped = .ok b')
    (hmarks : rowMask target wrapped b = .ok marks) : rowMask target wrapped b' = .ok marks := by
  obtain ⟨c, hpayload, hleft⟩ := Ty.payloadColumn?_of_projectBatch hrows hproject
  obtain ⟨c', hpayload', hselect⟩ := rowMask_eq_ok.mp hmarks
  cases hpayload.symm.trans hpayload'
  exact rowMask_eq_ok.mpr ⟨_, hleft, Ty.selectRows_trimColumn hfound hselect⟩

/-- A filter leaves a batch if some rows are marked, and cuts these down. -/
lemma filterBatch_eq_some : filterBatch target wrapped b = .ok (some b') ↔
    ∃ marks, rowMask target wrapped b = .ok marks ∧ (b.keep marks).size ≠ 0 ∧
      target.projectBatch (b.keep marks) wrapped = .ok b' := by
  rw [filterBatch, Outcome.bind_eq_ok]
  refine exists_congr fun marks => and_congr_right fun _ => ?_
  dsimp only
  split
  · rename_i hnone
    simp [hnone]
  · rename_i hsome
    rw [and_iff_right hsome, Outcome.map_eq_ok]
    simp

/-- **What a filter leaves passes it again**: the same rows and columns. The members of the target
must be found under their names.

**Proof sketch.** The rows that are kept have been marked, so that they are all marked when
they are on their own (`Rowwise.of_marked`). Cutting them down changes no mark
(`rowMask_of_projectBatch`), and what has been cut down stays as it is. -/
theorem filter_twice (hfound : target.FoundByName)
    (hrows : ∀ row ∈ b.rows, row.length = b.fields.length)
    (h : evaluate b (.filter target wrapped) = .ok (some b')) :
    evaluate b' (.filter target wrapped) = .ok (some b') := by
  obtain ⟨marks, hmarks, hsome, hproject⟩ := filterBatch_eq_some.mp h
  have hkept : ∀ row ∈ (b.keep marks).rows, row.length = (b.keep marks).fields.length := by
    intro row hrow
    obtain ⟨⟨row', mark⟩, hmem, rfl⟩ := List.mem_map.mp hrow
    exact hrows _ (List.of_mem_zip (List.mem_of_mem_filter hmem)).1
  have hall : rowMask target wrapped (b.keep marks) =
      .ok ((b.keep marks).rows.map fun _ => true) :=
    (rowwise_rowMask target wrapped b.fields).of_marked hmarks
  have hsize : b'.size = (b.keep marks).size := Ty.size_of_projectBatch hproject
  -- All rows that are left are marked, so that they all stay.
  have hagain : ((b.keep marks).rows.map fun _ => true) = b'.rows.map fun _ => true := by
    rw [List.map_const', List.map_const']
    exact congrArg (List.replicate · true) hsize.symm
  have hsame : b'.keep (b'.rows.map fun _ => true) = b' := by
    rw [Batch.keep_map, List.filter_true]
  refine filterBatch_eq_some.mpr ⟨b'.rows.map fun _ => true, ?_, ?_, ?_⟩
  · rw [← hagain]
    exact rowMask_of_projectBatch hfound hkept hproject hall
  · rw [hsame, hsize]
    exact hsome
  · rw [hsame]
    exact Ty.projectBatch_of_projectBatch hkept hproject

/-- Parcels of up to twenty pounds, and the names of up to nine things in them. -/
def parcel : Ty :=
  .struct [("weight", .integer 0 20), ("things", .list (.struct [("name", .text)]) 9)]

/-- The names of the parts of parcels differ. -/
lemma foundByName_parcel : parcel.FoundByName :=
  Ty.DistinctNames.foundByName (.members (by decide) (List.forall_mem_cons.mpr ⟨.leaf,
    List.forall_mem_singleton.mpr (.wrapped (.members (by decide)
      (List.forall_mem_singleton.mpr .leaf)))⟩))

/-- Numbered parcels with things that are stored under some fields. -/
def parcelFields (things : List Field) (rest : List Field) : List Field :=
  [⟨"key", .int64, false⟩,
    ⟨dataLabel, .struct (⟨"things", .list .small ⟨"item", .struct things, false⟩, false⟩ ::
      ⟨"weight", .int64, false⟩ :: rest), false⟩]

/-- Three parcels with the prices of things and the names of senders. One is too heavy. -/
def parcels : Batch where
  fields := parcelFields [⟨"name", .utf8, false⟩, ⟨"price", .int64, false⟩]
    [⟨"sender", .utf8, true⟩]
  rows :=
    [[.int 1, .struct true [.list [.struct true [.text "pen", .int 2],
        .struct true [.text "ink", .int 5]], .int 3, .text "Ada"]],
      [.int 2, .struct true [.list [.struct true [.text "safe", .int 900]], .int 60, .null]],
      [.int 3, .struct true [.list [], .int 20, .null]]]

/-- The parcels that are light enough, with the names of things. -/
def lightParcels : Batch where
  fields := parcelFields [⟨"name", .utf8, false⟩] []
  rows :=
    [[.int 1, .struct true [.list [.struct true [.text "pen"], .struct true [.text "ink"]],
        .int 3]],
      [.int 3, .struct true [.list [], .int 20]]]

/-- Of three parcels two are left, and stay. -/
theorem filter_twice_parcels :
    parcel.FoundByName ∧ (∀ row ∈ parcels.rows, row.length = parcels.fields.length) ∧
      evaluate parcels (.filter parcel true) = .ok (some lightParcels) ∧
      evaluate lightParcels (.filter parcel true) = .ok (some lightParcels) := by
  have hrows : ∀ row ∈ parcels.rows, row.length = parcels.fields.length := by
    simp [parcels, parcelFields]
  have hfilter : evaluate parcels (.filter parcel true) = .ok (some lightParcels) := by rfl
  exact ⟨foundByName_parcel, hrows, hfilter, filter_twice foundByName_parcel hrows hfilter⟩

/-- Homes in a city, and homes on a floor up to the ninth: two members of one name. -/
def home : Ty :=
  .struct [("home", .struct [("city", .text)]), ("home", .struct [("floor", .integer 0 9)])]

/-- Two homes, each in a city and on a floor. -/
def homes : Batch where
  fields := [⟨"home", .struct [⟨"city", .utf8, false⟩, ⟨"floor", .int64, false⟩], false⟩]
  rows := [[.struct true [.text "Ulm", .int 3]], [.struct true [.text "Bonn", .int 12]]]

/-- The home that is not too high, of which the city is left. -/
def lowHomes : Batch where
  fields := [⟨"home", .struct [⟨"city", .utf8, false⟩], false⟩]
  rows := [[.struct true [.text "Ulm"]]]

/-- **A filter may lose what it looks for**: the floor of a home is gone with the first pass, since
the first member of its name has only a city. -/
theorem not_filter_twice_homes :
    (∀ row ∈ homes.rows, row.length = homes.fields.length) ∧
      evaluate homes (.filter home false) = .ok (some lowHomes) ∧
      evaluate lowHomes (.filter home false) = .error (Ty.missingColumn "floor") :=
  ⟨by simp [homes], by rfl, by rfl⟩

end BatchOperation

namespace Ty

/-- **Data that is cut down twice is cut down once.** A column keeps the number of its cells and a
batch that of its rows, and both stay as they are when they are cut down once more.

**Proof sketch.** For columns this is `projectColumn_of_projectColumn`, for batches
`projectBatch_of_projectBatch`. Cutting down keeps the nulls of a column, so that it keeps the
number of its cells. -/
theorem projected_twice (t : Ty) :
    (∀ {c c' : Column}, projectColumn c t = .ok c' →
      c'.cells.length = c.cells.length ∧ projectColumn c' t = .ok c') ∧
    ∀ {b b' : Batch} {wrapped : Bool}, (∀ row ∈ b.rows, row.length = b.fields.length) →
      projectBatch b t wrapped = .ok b' →
        b'.size = b.size ∧ projectBatch b' t wrapped = .ok b' := by
  refine ⟨fun {c c'} h => ⟨?_, projectColumn_of_projectColumn t h⟩, fun {b b' wrapped} hrows h =>
    ⟨size_of_projectBatch h, projectBatch_of_projectBatch hrows h⟩⟩
  have hnulls := congrArg List.length (projectColumn_nulls t h).1
  rwa [List.length_map, List.length_map] at hnulls

end Ty

namespace BatchOperation

/-- The three parcels with their weights and the names of their things. -/
def namedParcels : Batch where
  fields := parcelFields [⟨"name", .utf8, false⟩] []
  rows :=
    [[.int 1, .struct true [.list [.struct true [.text "pen"], .struct true [.text "ink"]],
        .int 3]],
      [.int 2, .struct true [.list [.struct true [.text "safe"]], .int 60]],
      [.int 3, .struct true [.list [], .int 20]]]

/-- The two homes with their cities. -/
def cityHomes : Column where
  type := .struct [⟨"home", .struct [⟨"city", .utf8, false⟩], false⟩]
  cells := [.struct true [.struct true [.text "Ulm"]], .struct true [.struct true [.text "Bonn"]]]

/-- Homes lose their floors, and parcels the prices of things and the names of senders. The second
time nothing more is lost. -/
theorem projected_twice_homes :
    (Ty.projectColumn homes.toColumn home = .ok cityHomes ∧
      cityHomes.cells.length = homes.toColumn.cells.length ∧
      Ty.projectColumn cityHomes home = .ok cityHomes) ∧
    (∀ row ∈ parcels.rows, row.length = parcels.fields.length) ∧
      Ty.projectBatch parcels parcel true = .ok namedParcels ∧
      namedParcels.size = parcels.size ∧
      Ty.projectBatch namedParcels parcel true = .ok namedParcels := by
  have hcolumn : Ty.projectColumn homes.toColumn home = .ok cityHomes := by rfl
  have hrows : ∀ row ∈ parcels.rows, row.length = parcels.fields.length := by
    simp [parcels, parcelFields]
  have hbatch : Ty.projectBatch parcels parcel true = .ok namedParcels := by rfl
  exact ⟨⟨hcolumn, (Ty.projected_twice home).1 hcolumn⟩, hrows, hbatch,
    (Ty.projected_twice parcel).2 hrows hbatch⟩

end BatchOperation

end Lineage
