import Lineage.Proofs.Time.Text
import Lineage.Proofs.Ty.Marks

set_option autoImplicit false

/-!
# Marks of dates

Marks are computed for all values of a column, also for those that do not count. The one thing that
may go wrong is a date outside the calendar's range: so there are marks exactly if all dates can be
read. Dates that are stored as counts of days are selected by their texts. Between two dates in the
form YYYY-MM-DD this selects by the numbers of the days.

## Main definitions

* `Lineage.Ty.isBetween`: the mark of a cell by the number of its day.

## Main results

* `Lineage.Ty.exists_selectRows_iff`: when the rows of a column have marks.
* `Lineage.Ty.selectRows_dates`: a column of dates is marked by the numbers of its days.
-/

namespace Lineage.Ty

/-! ### Dates that can be read -/

variable {t : Ty} {type : ColumnType} {c : Column} {cells : List Cell} {mask : List Bool}
  {fields : List (String × Ty)}

/-- Where the fields of a struct give marks, each of them does. -/
lemma exists_marks_of_selectFields (h : ∃ marks, selectFields c mask fields = .ok marks) :
    ∀ member ∈ fields, ∃ part marks, childColumn c member.1 = .ok part ∧
      selectRows part member.2 = .ok marks := by
  induction fields generalizing mask with
  | nil => exact fun member hmember => nomatch hmember
  | cons field fields ih =>
    obtain ⟨name, t⟩ := field
    obtain ⟨marks, h⟩ := h
    obtain ⟨part, hpart, h⟩ := Outcome.bind_eq_ok.mp h
    obtain ⟨first, hfirst, h⟩ := Outcome.bind_eq_ok.mp h
    exact List.forall_mem_cons.mpr ⟨⟨part, first, hpart, hfirst⟩, ih ⟨marks, h⟩⟩

/-- Where the branches of a union give marks, each of them does. -/
lemma exists_marks_of_selectBranches (h : ∃ branches, selectBranches c fields = .ok branches) :
    ∀ member ∈ fields, ∃ part marks, childColumn c member.1 = .ok part ∧
      selectRows part member.2 = .ok marks := by
  induction fields with
  | nil => exact fun member hmember => nomatch hmember
  | cons field fields ih =>
    obtain ⟨name, t⟩ := field
    obtain ⟨branches, h⟩ := h
    obtain ⟨part, hpart, h⟩ := Outcome.bind_eq_ok.mp h
    obtain ⟨first, hfirst, h⟩ := Outcome.bind_eq_ok.mp h
    obtain ⟨others, hothers, -⟩ := Outcome.bind_eq_ok.mp h
    exact List.forall_mem_cons.mpr ⟨⟨part, first, hpart, hfirst⟩, ih ⟨others, hothers⟩⟩

/-- Where a struct or union gives marks, each of its members does. -/
lemma exists_marks_of_members {info : Info} {form : Form}
    (h : selectRows c (.members info form fields) = .ok mask) :
    ∀ member ∈ fields, ∃ part marks, childColumn c member.1 = .ok part ∧
      selectRows part member.2 = .ok marks := by
  cases form with
  | struct =>
    obtain ⟨-, -, h⟩ := Outcome.bind_eq_ok.mp h
    exact exists_marks_of_selectFields ⟨_, h⟩
  | union =>
    obtain ⟨-, -, h⟩ := Outcome.bind_eq_ok.mp h
    obtain ⟨names, -, h⟩ := Outcome.bind_eq_ok.mp h
    obtain ⟨branches, h, -⟩ := Outcome.bind_eq_ok.mp h
    exact exists_marks_of_selectBranches ⟨branches, h⟩

/-- The dates of a column that gives marks can be read. -/
lemma datesReadable_leaf {info : Info} {content : Leaf}
    (hcarries : Carries (.leaf info content) type)
    (h : selectRows ⟨type, cells⟩ (.leaf info content) = .ok mask) :
    ∀ cell ∈ cells, DatesReadable (.leaf info content) type cell := by
  intro cell hcell
  refine .leaf ?_
  rintro format lo hi days rfl rfl
  cases hcarries with
  | leaf stored =>
    obtain rfl : type = .scalar .date32 := by simpa [leafColumn, ColumnType.null] using stored
    obtain ⟨texts, htexts, -⟩ := Outcome.map_eq_ok.mp h
    obtain ⟨text, -, htext⟩ := Outcome.exists_mem_of_forall₂ (Outcome.mapM_eq_ok.mp htexts) hcell
    obtain ⟨text, hdate, -⟩ := Outcome.map_eq_ok.mp htext
    exact ⟨text, Outcome.ofOption_eq_ok.mp hdate⟩

/-- **The dates of a column that gives marks can be read**, also where they do not count.

**Proof sketch.** By induction on the type. Where a struct or union gives marks, all its
members do (`exists_marks_of_members`), whether their parts count or not. -/
theorem datesReadable_of_selectRows (hcarries : Carries t type)
    (h : selectRows ⟨type, cells⟩ t = .ok mask) : ∀ cell ∈ cells, DatesReadable t type cell := by
  induction t using induction generalizing type cells mask with
  | leaf info content => exact datesReadable_leaf hcarries h
  | members info form fields ih =>
    refine fun cell hcell => .members fun member hmember part under hpart => ?_
    obtain ⟨i, type', hplace, hcarried⟩ := hcarries.member hmember
    obtain ⟨rfl, rfl⟩ := (partAt_iff hplace).mp hpart
    obtain ⟨child, marks, hchild, hmarks⟩ := exists_marks_of_members h member hmember
    cases (childColumn_of_place? hplace cells).symm.trans hchild
    exact ih member hmember hcarried hmarks _ (List.mem_map_of_mem hcell)
  | wrapped info wrapper inner ih =>
    cases wrapper with
    | optional =>
      cases hcarries with
      | optional carried =>
        obtain ⟨marks, hmarks, -⟩ := Outcome.bind_eq_ok.mp h
        exact fun cell hcell => .optional (ih carried hmarks cell hcell)
    | constrained constraint =>
      cases hcarries with
      | constrained carried => exact fun cell hcell => .constrained (ih carried h cell hcell)
    | list maxSize => exact fun _ _ => .list
    | array shape => exact fun _ _ => .array
  | hypothesis info types ih =>
    refine fun cell hcell => .hypothesis fun best hbest => ?_
    obtain ⟨score, hmem⟩ := mem_of_bestOf? hbest
    rw [selectRows_hypothesis, hbest] at h
    cases hcarries with
    | hypothesis carried => exact ih _ hmem (carried best hbest) h cell hcell

/-- **There are marks** for cells that fit a column exactly if all dates can be read. -/
theorem exists_selectRows_iff (hcarries : Carries t type)
    (hfits : ∀ cell ∈ cells, Cell.Fits type cell) :
    (∃ mask, selectRows ⟨type, cells⟩ t = .ok mask) ↔
      ∀ cell ∈ cells, DatesReadable t type cell := by
  constructor
  · rintro ⟨mask, h⟩
    exact datesReadable_of_selectRows hcarries h
  · intro hdates
    obtain ⟨mark, hmark⟩ := hcarries.exists_marks
    exact ⟨_, hmark.selects fun cell hcell => ⟨hfits cell hcell, hdates cell hcell⟩⟩

/-! ### Rows between two dates -/

open Calendar

/-- The mark of a cell by the number of its day; cells without one are marked. -/
def isBetween (first last : ℤ) : Cell → Bool
  | .int n => decide (first ≤ n ∧ n ≤ last)
  | _ => true

/-- The count of days of a date within the calendar's range has the text of its date. -/
lemma dateText?_eq {n : ℤ} (h : (ofDays? n).isSome = true) :
    dateText? n = some (renderDate (ofDays n)) := by
  rw [ofDays?] at h
  rw [dateText?, ofDays?]
  split_ifs at h ⊢ with hyear
  · rfl
  · cases h

/-- **A column of dates is marked by the numbers of its days.** The bounds are texts in the form
YYYY-MM-DD, and days are numbered by counting from the first of January 1970.

**Proof sketch.** A count of days in the calendar's range is marked if its text lies between
the bounds (`marks_datetime_date`). The texts of dates have the order of the dates and these
that of their numbers (`between_iff`), since the days are numbered by counting
(`numbered_iff`). -/
theorem selectRows_dates {info : Info} {format lo hi : String} {first last : Date}
    {firstDay lastDay : ℤ} {cells : List Cell} (hlo : Written lo first) (hhi : Written hi last)
    (hfirst : Numbered first firstDay) (hlast : Numbered last lastDay)
    (hfits : ∀ cell ∈ cells, Cell.Fits (.scalar .date32) cell)
    (hrange : ∀ n, .int n ∈ cells → (ofDays? n).isSome = true) :
    selectRows ⟨.scalar .date32, cells⟩ (.leaf info (.datetime format lo hi .date)) =
      .ok (cells.map (isBetween firstDay lastDay)) := by
  obtain ⟨hvalid, rfl⟩ := numbered_iff.mp hfirst
  obtain ⟨hvalid', rfl⟩ := numbered_iff.mp hlast
  have hlegible : ∀ cell ∈ cells, Legible (.leaf info (.datetime format lo hi .date))
      (.scalar .date32) cell := fun cell hcell => by
    refine ⟨hfits cell hcell, .leaf fun _ _ _ n _ heq => ?_⟩
    exact ⟨_, dateText?_eq (hrange n (heq ▸ hcell))⟩
  rw [(marks_datetime_date format lo hi).selects hlegible]
  refine congrArg Except.ok (List.map_congr_left fun cell hcell => ?_)
  cases cell with
  | int n =>
    have hbetween := between_iff hlo hhi hvalid hvalid' (isValid_ofDays n)
    rw [toDays_ofDays] at hbetween
    rw [readMark, textOf, dateText?_eq (hrange n hcell), isBetween]
    exact decide_eq_decide.mpr hbetween
  | text t =>
    have hstored := hfits _ hcell
    simp [Cell.Fits, Cell.FitsScalar] at hstored
  | _ => rfl

/-- From the end of 1999 to the leap day of 2000: the day after it is not selected, and neither are
days before the year 0 and after the year 9999. -/
theorem selectRows_dates_leapDay :
    selectRows ⟨.scalar .date32, [.int 10956, .int 11016, .int 11017, .int (-719529), .null,
        .int 2932897]⟩
      (.leaf {} (.datetime "%Y-%m-%d" "1999-12-31" "2000-02-29" .date)) =
        .ok [true, true, false, false, true, false] := by
  have hlo : Written "1999-12-31" ⟨1999, 12, 31⟩ :=
    .fields ['1', '9', '9', '9'] ['1', '2'] ['3', '1'] (by decide) (by decide) (by decide)
  have hhi : Written "2000-02-29" ⟨2000, 2, 29⟩ :=
    .fields ['2', '0', '0', '0'] ['0', '2'] ['2', '9'] (by decide) (by decide) (by decide)
  have hfirst : Numbered ⟨1999, 12, 31⟩ 10956 := numbered_iff.mpr ⟨rfl, rfl⟩
  have hlast : Numbered ⟨2000, 2, 29⟩ 11016 := numbered_iff.mpr ⟨rfl, rfl⟩
  have hdays : ∀ n ∈ [10956, 11016, 11017, -719529, 2932897], (ofDays? n).isSome = true := by
    decide
  refine selectRows_dates hlo hhi hfirst hlast ?_ (by simpa using hdays)
  simp [Cell.Fits, Cell.FitsScalar, IntWidth.lo, IntWidth.hi]

end Lineage.Ty
