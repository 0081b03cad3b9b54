import Lineage.Proofs.Ty.Descend
import Lineage.Proofs.Ty.Membership

set_option autoImplicit false

/-!
# Routes through rows

Labels that are followed in a type and in the column that stores it lead, in every row, through
structs to a part. What is found there is this part, unless one of the structs is null: then the
part does not count, and neither does what lies below it.

## Main definitions

* `Lineage.Ty.Route`: the structs of a row that labels enter, and the part they lead to.
* `Lineage.Ty.route?`: the route of labels through a row, which looks at no nulls.
* `Lineage.Ty.Route.value`: what is found at the end of a route.

## Main results

* `Lineage.Ty.route?_of_descend`: following labels in a column follows their route in every row.
* `Lineage.Ty.descend_rows`: what labels find in a column, type, length and row by row.

## Design

Nulls are carried down one struct at a time while labels are followed, so a column below holds parts
that have already lost their value. A route is about the cells as they are stored. The two meet in
`value?_absent`: a route that starts in a cell that has lost its value ends in one that has.
-/

namespace Lineage

/-- A cell without value stays as it is when it loses its value. -/
@[simp]
lemma Cell.absent_absent (cell : Cell) : cell.absent.absent = cell.absent := by
  cases cell <;> rfl

namespace Ty

variable {label : String} {labels rest : List String} {t part : Ty} {type : ColumnType}
  {cell : Cell}

/-- The structs of a row that labels enter, and the part they lead to. -/
structure Route where
  /-- The structs, from the outermost on, as they are stored. -/
  entered : List Cell
  /-- The type of the column of the part. -/
  type : ColumnType
  /-- The part, as it is stored. -/
  addressed : Cell

/-- The route of labels through a row: a label of a struct or union enters it and leads to its part,
a label of an optional or constrained type leads to the same cell. -/
def route? : List String → Ty → ColumnType → Cell → Option Route
  | [], _, type, cell => some ⟨[], type, cell⟩
  | label :: rest, .members _ _ fields, type, cell => do
    let member ← lookup? label fields
    let (i, part) ← place? label type
    let below ← route? rest member part (cell.part i)
    some ⟨cell :: below.entered, below.type, below.addressed⟩
  | _ :: rest, .wrapped _ .optional inner, type, cell => route? rest inner type cell
  | _ :: rest, .wrapped _ (.constrained _) inner, type, cell => route? rest inner type cell
  | _, _, _, _ => none

/-- What is found at the end of a route: the part, without its value where a struct is null. -/
def Route.value (r : Route) : Cell :=
  if r.entered.any Cell.isNull then r.addressed.absent else r.addressed

/-- What is found at the end of a route is null where a struct or the part is. -/
lemma Route.isNull_value (r : Route) : r.value.isNull = true ↔
    (∃ s ∈ r.entered, s.isNull = true) ∨ r.addressed.isNull = true := by
  unfold value
  rw [← List.any_eq_true]
  split
  · rename_i h
    simp [h]
  · rename_i h
    simp [h]

/-- What is found at the end of a route is the part, if it is not null. -/
lemma Route.value_of_present {r : Route} (h : r.value.isNull = false) : r.value = r.addressed := by
  unfold value at h ⊢
  split at h
  · rw [Cell.isNull_absent] at h
    cases h
  · rename_i hnone
    rw [if_neg hnone]

/-- What labels find in a row, with the type of its column. -/
def value? (labels : List String) (t : Ty) (type : ColumnType) (cell : Cell) :
    Option (ColumnType × Cell) :=
  (route? labels t type cell).map fun r => (r.type, r.value)

/-- A label of a struct or union leads on from the part, which loses its value with the struct. -/
lemma value?_member {info : Info} {form : Form} {fields : List (String × Ty)} {i : ℕ}
    {under : ColumnType} (found : lookup? label fields = some part)
    (place : place? label type = some (i, under)) :
    value? (label :: rest) (.members info form fields) type cell =
      (value? rest part under (cell.part i)).map fun found =>
        (found.1, if cell.isNull then found.2.absent else found.2) := by
  unfold value?
  rw [route?, found, place]
  cases hbelow : route? rest part under (cell.part i) with
  | none => simp [hbelow]
  | some below =>
    simp only [Option.bind_eq_bind, Option.bind_some, hbelow, Option.map_some, Route.value,
      List.any_cons]
    by_cases hnull : cell.isNull = true
    · by_cases hany : below.entered.any Cell.isNull = true <;> simp [hnull, hany]
    · simp [hnull]

/-- **A route from a cell that has lost its value** ends in one that has. -/
lemma value?_absent (labels : List String) (t : Ty) (type : ColumnType) (cell : Cell) :
    value? labels t type cell.absent =
      (value? labels t type cell).map fun found => (found.1, found.2.absent) := by
  induction labels generalizing t with
  | nil => rfl
  | cons label rest ih =>
    match t with
    | .members info form fields =>
      cases found : lookup? label fields with
      | none => simp [value?, route?, found]
      | some part =>
        cases place : place? label type with
        | none => simp [value?, route?, found, place]
        | some entry =>
          obtain ⟨i, under⟩ := entry
          rw [value?_member found place, value?_member found place, Cell.part_absent,
            Cell.isNull_absent]
          cases value? rest part under (cell.part i) with
          | none => rfl
          | some found => by_cases hnull : cell.isNull = true <;> simp [hnull]
    | .wrapped info .optional inner | .wrapped info (.constrained constraint) inner =>
      simpa only [value?, route?] using ih inner
    | .wrapped info (.list maxSize) inner | .wrapped info (.array shape) inner
    | .leaf info content | .hypothesis info types => rfl

/-- A label of a struct or union leads on from the part under the nulls of the struct. -/
lemma value?_cons {info : Info} {form : Form} {fields : List (String × Ty)} {i : ℕ}
    {under : ColumnType} (found : lookup? label fields = some part)
    (place : place? label type = some (i, under)) :
    value? (label :: rest) (.members info form fields) type cell =
      value? rest part under (partUnder i cell) := by
  rw [value?_member found place, partUnder]
  by_cases hnull : cell.isNull = true
  · rw [if_pos hnull, value?_absent]
    simp [hnull]
  · rw [if_neg hnull]
    simp [hnull]

/-! ### Columns row by row -/

/-- **Following labels in a column follows their route in every row.**

**Proof sketch.** By induction on the labels. A label that enters a struct leads from the cell
to its part under the nulls of the struct, and what a route finds from there is what it finds
from the struct (`value?_cons`). -/
theorem value?_of_descend {c : Column} {item : Ty × Column} (h : descend c labels t = .ok item) :
    c.cells.map (value? labels t c.type) =
      item.2.cells.map fun found => some (item.2.type, found) := by
  induction labels generalizing t c with
  | nil =>
    cases (descend_nil c t).symm.trans h
    rfl
  | cons label rest ih =>
    obtain ⟨part, under, hstep, hrest⟩ := descend_cons_eq_ok.mp h
    rw [← ih hrest]
    cases hstep with
    | member found enters =>
      obtain ⟨i, f, hindex, hf, rfl⟩ := enters.eq
      have hplace : place? label c.type = some (i, f.type) := by simp [place?, hindex, hf]
      rw [List.map_map]
      exact List.map_congr_left fun cell _ => value?_cons found hplace
    | optional | constrained => rfl

/-- The part that labels find in a row of a column, at the end of their route. -/
lemma exists_route_of_descend {c : Column} {item : Ty × Column}
    (h : descend c labels t = .ok item) {i : ℕ} (hcell : c.cells[i]? = some cell) :
    ∃ r, route? labels t c.type cell = some r ∧ r.type = item.2.type ∧
      item.2.cells[i]? = some r.value := by
  have hrow := congrArg (fun cells => cells[i]?) (value?_of_descend h)
  simp only [List.getElem?_map, hcell, Option.map_some] at hrow
  obtain ⟨found, hfound, hvalue⟩ := Option.map_eq_some_iff.mp hrow.symm
  obtain ⟨r, hr, heq⟩ := Option.map_eq_some_iff.mp hvalue.symm
  rw [Prod.mk.injEq] at heq
  obtain ⟨htype, rfl⟩ := heq
  exact ⟨r, hr, htype, hfound⟩

/-- **What labels find in a column.** If they can be followed, the type is the one under their path
and the column has a cell for every row. In each row they take a route to a part that is stored in
this column. The cell is null exactly where a struct on the route or the part is null, and otherwise
it is the part. If the path leads nowhere in the type, the labels cannot be followed.

**Proof sketch.** The cells that are found are the ends of the routes, row by row
(`value?_of_descend`). Such an end is null where a struct on the route or the part is
(`Route.isNull_value`). -/
theorem descend_rows (c : Column) (labels : List String) (t : Ty) :
    (∀ part under, descend c labels t = .ok (part, under) →
      t.get (Path.ofLabels labels) = .ok part ∧ under.length = c.length ∧
      ∀ (i : ℕ) (cell : Cell), c.cells[i]? = some cell → ∃ r found,
        route? labels t c.type cell = some r ∧ r.type = under.type ∧
        under.cells[i]? = some found ∧
        (found.isNull = true ↔ (∃ s ∈ r.entered, s.isNull = true) ∨ r.addressed.isNull = true) ∧
        (found.isNull = false → found = r.addressed)) ∧
    (∀ fault, t.get (Path.ofLabels labels) = .error fault →
      ∃ fault', descend c labels t = .error fault') := by
  refine ⟨fun part under h => ⟨?_, ?_, fun i cell hcell => ?_⟩, fun fault hfault => ?_⟩
  · exact get_ofLabels_eq_ok.mpr (along?_of_descend h)
  · have hlength := congrArg List.length (value?_of_descend h)
    rw [List.length_map, List.length_map] at hlength
    exact hlength.symm
  · obtain ⟨r, hr, htype, hvalue⟩ := exists_route_of_descend h hcell
    exact ⟨r, r.value, hr, htype, hvalue, r.isNull_value, Route.value_of_present⟩
  · cases h : descend c labels t with
    | error fault' => exact ⟨fault', rfl⟩
    | ok item =>
      cases hfault.symm.trans (get_ofLabels_eq_ok.mpr (along?_of_descend h))

/-! ### Cities of addresses -/

/-- People who may have an address. -/
def mayHaveAddress : Ty := struct [("address", optional (struct [("city", text)]))]

/-- The labels of the city of an address. -/
def cityLabels : List String := ["address", optionalValue, "city"]

/-- Two people, of whom the second has no address, although a city is stored for it. -/
def twoAddresses : Column :=
  ⟨.struct [⟨"address", .struct [⟨"city", .utf8, false⟩], true⟩],
    [.struct true [.struct true [.text "London"]], .struct true [.struct false [.text "Paris"]]]⟩

/-- The cities of the two people: the second is null because its address is. A label that no address
has cannot be followed. -/
theorem descend_rows_twoAddresses :
    descend twoAddresses cityLabels mayHaveAddress = .ok (text, ⟨.utf8, [.text "London", .null]⟩) ∧
    mayHaveAddress.get (Path.ofLabels cityLabels) = .ok text ∧
    (∃ r found, route? cityLabels mayHaveAddress twoAddresses.type
        (.struct true [.struct false [.text "Paris"]]) = some r ∧
      (∃ s ∈ r.entered, s.isNull = true) ∧ r.addressed = .text "Paris" ∧ found = Cell.null ∧
      (found.isNull = true ↔ (∃ s ∈ r.entered, s.isNull = true) ∨ r.addressed.isNull = true)) ∧
    ∃ fault,
      descend twoAddresses ["address", optionalValue, "zip"] mayHaveAddress = .error fault := by
  have hdescend : descend twoAddresses cityLabels mayHaveAddress =
      .ok (text, ⟨.utf8, [.text "London", .null]⟩) := rfl
  obtain ⟨hget, -, hrows⟩ := (descend_rows twoAddresses cityLabels mayHaveAddress).1 _ _ hdescend
  obtain ⟨r, found, hr, -, hfound, hnull, -⟩ := hrows 1 _ rfl
  refine ⟨hdescend, hget, ⟨r, found, hr, ?_, ?_, ?_, hnull⟩, ?_⟩
  · cases hr
    exact ⟨_, List.mem_cons_of_mem _ List.mem_cons_self, rfl⟩
  · cases hr
    rfl
  · exact (Option.some.inj hfound).symm
  · cases hzip : mayHaveAddress.get (Path.ofLabels ["address", optionalValue, "zip"]) with
    | error fault => exact (descend_rows twoAddresses _ mayHaveAddress).2 fault hzip
    | ok part => cases get_ofLabels_eq_ok.mp hzip

end Ty

end Lineage
