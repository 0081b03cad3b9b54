import Lineage.Proofs.Column.Fits

set_option autoImplicit false

/-!
# Columns with fewer parts

Of a column of structs some parts may be left out, at any depth, also in the items of lists. The
types of both columns say what becomes of each cell: the parts that are left hold what they held.

## Main definitions

* `Lineage.ColumnType.Within`: the parts of one column type are among those of another.
* `Lineage.Cell.narrow`: what becomes of a cell whose column loses the parts that another type does
  not have.

## Main results

* `Lineage.ColumnType.Within.trans`: parts are left out step by step.
* `Lineage.Cell.narrow_self`: where no part is left out, cells stay as they are.
* `Lineage.Cell.narrowParts_filterMap`: the parts of a struct, if names say which of them are left.
-/

namespace Lineage

namespace ColumnType

mutual

/-- The parts of one column type are among those of another: parts of structs may be missing, also
of structs inside others and in lists. -/
inductive Within : ColumnType → ColumnType → Prop
  /-- Cells without parts. -/
  | scalar {content : Scalar} : Within (.scalar content) (.scalar content)
  /-- Some parts of structs. -/
  | struct {left fs : List Field} (parts : FieldsWithin left fs) :
      Within (.struct left) (.struct fs)
  /-- Lists of such items. -/
  | list {layout : ListLayout} {name : String} {nullable : Bool} {part whole : ColumnType}
      (items : Within part whole) :
      Within (.list layout ⟨name, part, nullable⟩) (.list layout ⟨name, whole, nullable⟩)

/-- Some fields of others, in their order, each with parts that are among those it had. -/
inductive FieldsWithin : List Field → List Field → Prop
  /-- There are no fields. -/
  | nil : FieldsWithin [] []
  /-- The first field is missing. -/
  | drop {f : Field} {left fs : List Field} (rest : FieldsWithin left fs) :
      FieldsWithin left (f :: fs)
  /-- The first field is there. -/
  | keep {name : String} {nullable : Bool} {part whole : ColumnType} {left fs : List Field}
      (first : Within part whole) (rest : FieldsWithin left fs) :
      FieldsWithin (⟨name, part, nullable⟩ :: left) (⟨name, whole, nullable⟩ :: fs)

end

mutual

/-- All parts are there. -/
theorem Within.refl : ∀ type : ColumnType, Within type type
  | .scalar _ => .scalar
  | .struct fs => .struct (FieldsWithin.refl fs)
  | .list _ ⟨_, type, _⟩ => .list (Within.refl type)

/-- All fields are there. -/
theorem FieldsWithin.refl : ∀ fs : List (FieldOf ColumnType), FieldsWithin fs fs
  | [] => .nil
  | ⟨_, type, _⟩ :: fs => .keep (Within.refl type) (FieldsWithin.refl fs)

end

mutual

/-- **Parts are left out step by step.**

**Proof sketch.** Induction on the largest of the three types, since it is there that a part
may be missing at either step. -/
theorem Within.trans : ∀ {a b : ColumnType} (c : ColumnType), Within a b → Within b c → Within a c
  | _, _, .scalar _, hab, hbc => by
    cases hbc
    exact hab
  | _, _, .struct fs, hab, hbc => by
    cases hbc with
    | struct h' =>
      cases hab with
      | struct h => exact .struct (FieldsWithin.trans fs h h')
  | _, _, .list _ ⟨_, type, _⟩, hab, hbc => by
    cases hbc with
    | list h' =>
      cases hab with
      | list h => exact .list (Within.trans type h h')

/-- Fields that are there of some fields of others. -/
theorem FieldsWithin.trans : ∀ {a b : List Field} (c : List (FieldOf ColumnType)),
    FieldsWithin a b → FieldsWithin b c → FieldsWithin a c
  | _, _, [], hab, hbc => by
    cases hbc
    exact hab
  | _, _, ⟨_, type, _⟩ :: fs, hab, hbc => by
    cases hbc with
    | drop h' => exact .drop (FieldsWithin.trans fs hab h')
    | keep first' h' =>
      cases hab with
      | drop h => exact .drop (FieldsWithin.trans fs h h')
      | keep first h => exact .keep (Within.trans type first first') (FieldsWithin.trans fs h h')

end

/-- Fields with further ones behind both. -/
lemma FieldsWithin.append_right {left fs : List Field} (h : FieldsWithin left fs)
    (tail : List Field) : FieldsWithin (left ++ tail) (fs ++ tail) := by
  induction fs generalizing left with
  | nil =>
    cases h
    exact FieldsWithin.refl tail
  | cons f fs ih =>
    cases h with
    | drop rest => exact .drop (ih rest)
    | keep first rest => exact .keep first (ih rest)

/-- Some fields of others, each with fewer parts: a choice that keeps names. -/
lemma fieldsWithin_filterMap {kept : Field → Option Field} {fs : List Field}
    (h : ∀ f ∈ fs, ∀ f', kept f = some f' →
      f'.name = f.name ∧ f'.nullable = f.nullable ∧ Within f'.type f.type) :
    FieldsWithin (fs.filterMap kept) fs := by
  induction fs with
  | nil => exact .nil
  | cons f fs ih =>
    obtain ⟨hfirst, hrest⟩ := List.forall_mem_cons.mp h
    rw [List.filterMap_cons]
    cases hkept : kept f with
    | none => exact .drop (ih hrest)
    | some f' =>
      obtain ⟨name, type, nullable⟩ := f
      obtain ⟨name', part, nullable'⟩ := f'
      obtain ⟨rfl, rfl, hwithin⟩ := hfirst _ hkept
      exact .keep hwithin (ih hrest)

end ColumnType

namespace Cell

mutual

/-- What becomes of a cell of a column of the second type, if its column loses the parts that the
first type does not have. The values of the parts that are left stay the same. -/
def narrow : ColumnType → ColumnType → Cell → Cell
  | .struct left, .struct fs, .struct present ps => .struct present (narrowParts left fs ps)
  | .list _ ⟨_, part, _⟩, .list _ ⟨_, whole, _⟩, .list items =>
    .list (items.map fun item => narrow part whole item)
  | _, _, cell => cell

/-- The cells of the parts of a struct that are left, found by their names. -/
def narrowParts : List (FieldOf ColumnType) → List (FieldOf ColumnType) → List Cell → List Cell
  | ⟨name, part, nullable⟩ :: left, ⟨name', whole, _⟩ :: fs, p :: ps =>
    if name = name' then narrow part whole p :: narrowParts left fs ps
    else narrowParts (⟨name, part, nullable⟩ :: left) fs ps
  | _, _, _ => []

end

mutual

/-- **Where no part is left out, cells stay as they are.** -/
theorem narrow_self : ∀ (type : ColumnType) {cell : Cell}, Fits type cell →
    narrow type type cell = cell
  | .scalar _, _, _ => by rw [narrow] <;> simp
  | .struct fs, cell, h => by
    cases cell with
    | struct present ps => rw [narrow, narrowParts_self fs h]
    | _ => exact h.elim
  | .list _ ⟨_, type, _⟩, cell, h => by
    cases cell with
    | list items =>
      have hitems : items.map (fun item => narrow type type item) = items.map id :=
        List.map_congr_left fun item hitem => narrow_self type (h item hitem).1
      rw [narrow, hitems, List.map_id]
    | null => rw [narrow] <;> simp
    | _ => exact h.elim

/-- Where no part of a struct is left out, the parts stay as they are. -/
theorem narrowParts_self : ∀ (fs : List (FieldOf ColumnType)) {present : Bool} {ps : List Cell},
    FitsParts present fs ps → narrowParts fs fs ps = ps
  | [], _, ps, h => by
    cases ps with
    | nil => rw [narrowParts]; simp
    | cons p ps => exact h.elim
  | ⟨_, type, _⟩ :: fs, _, ps, h => by
    cases ps with
    | nil => exact h.elim
    | cons p ps => rw [narrowParts, if_pos rfl, narrow_self type h.1, narrowParts_self fs h.2.2]

end

/-- The parts of a struct that can be held by its columns, column by column. -/
lemma FitsParts.of_mem_zip {present : Bool} {fs : List Field} {ps : List Cell}
    (h : FitsParts present fs ps) : ∀ entry ∈ fs.zip ps, Fits entry.1.type entry.2 := by
  induction fs generalizing ps with
  | nil => exact fun entry hentry => by cases hentry
  | cons f fs ih =>
    cases ps with
    | nil => exact h.elim
    | cons p ps => exact List.forall_mem_cons.mpr ⟨h.1, ih h.2.2⟩

/-- A part of the name that comes next is left. -/
lemma narrowParts_cons_of_eq {f' f : Field} (h : f'.name = f.name) (left fs : List Field) (p : Cell)
    (ps : List Cell) : narrowParts (f' :: left) (f :: fs) (p :: ps) =
      narrow f'.type f.type p :: narrowParts left fs ps := by
  rw [narrowParts, if_pos h]

/-- A part is left out if no part that is left has its name. -/
lemma narrowParts_cons_of_forall_ne {left : List Field} {f : Field}
    (h : ∀ f' ∈ left, f'.name ≠ f.name) (fs : List Field) (p : Cell) (ps : List Cell) :
    narrowParts left (f :: fs) (p :: ps) = narrowParts left fs ps := by
  cases left with
  | nil => simp [narrowParts]
  | cons f' left => rw [narrowParts, if_neg (h f' List.mem_cons_self)]

/-- **The parts of a struct, if names say which of them are left.** What is left of a part has to be
what the types of both columns say.

**Proof sketch.** Induction on the fields, with the cells beside them. A part that is left
stands first on both sides. For one that is left out, `narrowParts` looks at the next part
that is left: it has another name, since `kept` leaves out all parts of a name or none. -/
theorem narrowParts_filterMap {kept : Field → Option (Field × (Cell → Cell))}
    (hname : ∀ f part, kept f = some part → part.1.name = f.name)
    (hsame : ∀ f g : Field, f.name = g.name → ((kept f).isSome ↔ (kept g).isSome))
    {fs : List Field} {ps : List Cell} (hlength : ps.length = fs.length)
    (hparts : ∀ entry ∈ fs.zip ps, ∀ part, kept entry.1 = some part →
      part.2 entry.2 = narrow part.1.type entry.1.type entry.2) :
    narrowParts (fs.filterMap fun f => (kept f).map Prod.fst) fs ps =
      (fs.zip ps).filterMap fun entry => (kept entry.1).map fun part => part.2 entry.2 := by
  induction fs generalizing ps with
  | nil =>
    cases ps with
    | nil => rfl
    | cons p ps => cases hlength
  | cons f fs ih =>
    cases ps with
    | nil => cases hlength
    | cons p ps =>
      obtain ⟨hfirst, hrest⟩ := List.forall_mem_cons.mp hparts
      have hrest' := ih (Nat.succ.inj hlength) hrest
      rw [List.zip_cons_cons]
      cases hkept : kept f with
      | some part =>
        have hname' : part.1.name = f.name := hname f part hkept
        have hpart : part.2 p = narrow part.1.type f.type p := hfirst part hkept
        rw [List.filterMap_cons_some (by rw [hkept]; rfl),
          List.filterMap_cons_some (b := part.2 p) (by rw [hkept]; rfl),
          narrowParts_cons_of_eq hname', hrest', hpart]
      | none =>
        rw [List.filterMap_cons_none (by rw [hkept]; rfl),
          List.filterMap_cons_none (by rw [hkept]; rfl), ← hrest']
        -- A part that is left has another name, as this one is left out.
        refine narrowParts_cons_of_forall_ne (fun f' hf' hsameName => ?_) fs p ps
        obtain ⟨g, -, hg⟩ := List.mem_filterMap.mp hf'
        obtain ⟨part, hpart, rfl⟩ := Option.map_eq_some_iff.mp hg
        have hsome := (hsame f g (hsameName.symm.trans (hname g part hpart))).mpr
          (Option.isSome_iff_exists.mpr ⟨part, hpart⟩)
        rw [hkept] at hsome
        cases hsome

end Cell

end Lineage
