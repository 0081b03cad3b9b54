import Mathlib.Tactic.IntervalCases
import Lineage.Time.Calendar

set_option autoImplicit false

/-!
# Counts of days

Dates are counted one by one from the first of January 1970, forwards and backwards: the day after
the last one of a month is the first of the next month, and February has a day more in leap years.
The count of days of a date is a formula in year, month and day, and the date of a count another
one. Both agree with this counting, and dates come in the order of their counts.

## Main definitions

* `Lineage.Calendar.Date.next`: the day after a date.
* `Lineage.Calendar.Numbered`: the number of a date, by counting.
* `Lineage.Calendar.Date.Earlier`: the order by year, month and day.
* `Lineage.Calendar.yearStart`, `Lineage.Calendar.monthStart`: where years and months begin, in
  years that begin in March.

## Main results

* `Lineage.Calendar.toDays_next`: the day after a date has the next count.
* `Lineage.Calendar.toDays_lt_iff`: dates come in the order of their counts.
* `Lineage.Calendar.toDays_ofDays`, `Lineage.Calendar.isValid_ofDays`: the date of a count of days
  exists and has this count.
* `Lineage.Calendar.numbered_iff`: the count of days of a date is its number.
-/

namespace Lineage.Calendar

variable {d d' : Date} {n : ℤ} {year : ℤ} {month : ℕ}

/-! ### Counting days -/

/-- The day after a date. -/
def Date.next (d : Date) : Date :=
  if d.day < daysOfMonth d.year d.month then ⟨d.year, d.month, d.day + 1⟩
  else if d.month < 12 then ⟨d.year, d.month + 1, 1⟩
  else ⟨d.year + 1, 1, 1⟩

/-- The number of a date: days are counted one by one from the first of January 1970. -/
inductive Numbered : Date → ℤ → Prop
  /-- The first day that is counted. -/
  | epoch : Numbered ⟨1970, 1, 1⟩ 0
  /-- The day after a day with a number has the next number. -/
  | after {d : Date} {n : ℤ} (h : Numbered d n) : Numbered d.next (n + 1)
  /-- The day before a day with a number has the number before. -/
  | before {d : Date} {n : ℤ} (valid : d.isValid = true) (h : Numbered d.next n) :
      Numbered d (n - 1)

/-- The order of dates by year, month and day. -/
def Date.Earlier (d d' : Date) : Prop :=
  d.year < d'.year ∨
    d.year = d'.year ∧ (d.month < d'.month ∨ d.month = d'.month ∧ d.day < d'.day)

/-- Of two different dates one is earlier. -/
lemma earlier_trichotomy (d d' : Date) : d.Earlier d' ∨ d = d' ∨ d'.Earlier d := by
  obtain ⟨y, m, k⟩ := d
  obtain ⟨y', m', k'⟩ := d'
  simp only [Date.Earlier, Date.mk.injEq]
  omega

/-- Month and day of a date that exists. -/
lemma isValid_iff : d.isValid = true ↔
    1 ≤ d.month ∧ d.month ≤ 12 ∧ 1 ≤ d.day ∧ d.day ≤ daysOfMonth d.year d.month := by
  simp [Date.isValid, and_assoc]

/-- Every month has at least 28 days. -/
lemma daysOfMonth_pos (year : ℤ) (month : ℕ) : 28 ≤ daysOfMonth year month := by
  unfold daysOfMonth
  split_ifs <;> omega

/-- The day after a date that exists does. -/
lemma isValid_next (h : d.isValid = true) : d.next.isValid = true := by
  rw [isValid_iff] at h ⊢
  unfold Date.next
  split_ifs with hday hmonth
  · exact ⟨h.1, h.2.1, Nat.le_add_left 1 _, hday⟩
  · have hpos := daysOfMonth_pos d.year (d.month + 1)
    exact ⟨by simp, hmonth, le_refl 1, by dsimp only; omega⟩
  · have hpos := daysOfMonth_pos (d.year + 1) 1
    exact ⟨le_refl 1, by simp, le_refl 1, by dsimp only; omega⟩

/-! ### Years that begin in March -/

/-- The days from the first of March of the year 0 to that of another year. -/
def yearStart (year : ℤ) : ℤ := 365 * year + year / 4 - year / 100 + year / 400

/-- The days from the first of March to the first of a month that is counted from March. -/
def monthStart (month : ℤ) : ℤ := (153 * month + 2) / 5

/-- The year of a date if years begin in March. -/
def Date.marchYear (d : Date) : ℤ := if d.month ≤ 2 then d.year - 1 else d.year

/-- The month of a date, counted from March. -/
def Date.marchMonth (d : Date) : ℤ := if d.month ≤ 2 then d.month + 9 else d.month - 3

/-- The days from the first of March before a date. -/
def Date.dayOfYear (d : Date) : ℤ := monthStart d.marchMonth + d.day - 1

/-- The count of days of a date: those of the years before, and those of its own year. -/
lemma toDays_eq (d : Date) : toDays d = yearStart d.marchYear + d.dayOfYear - epochShift := by
  unfold toDays yearStart Date.dayOfYear monthStart Date.marchMonth Date.marchYear eraDays
    epochShift
  dsimp only
  split_ifs <;> omega

/-- A year has 365 days, and one more if its February is that of a leap year. -/
lemma yearStart_succ (year : ℤ) :
    yearStart (year + 1) = yearStart year + 365 + if isLeap (year + 1) then 1 else 0 := by
  have hleap : isLeap (year + 1) = true ↔
      (year + 1) % 4 = 0 ∧ ((year + 1) % 100 ≠ 0 ∨ (year + 1) % 400 = 0) := by
    simp [isLeap]
  unfold yearStart
  split_ifs with h
  · rw [hleap] at h
    omega
  · rw [hleap] at h
    omega

/-- February is the last month of a year that begins in March. -/
lemma daysOfMonth_two (year : ℤ) :
    (daysOfMonth year 2 : ℤ) = yearStart year - yearStart (year - 1) - monthStart 11 := by
  have hsucc := yearStart_succ (year - 1)
  rw [sub_add_cancel] at hsucc
  rw [hsucc, daysOfMonth, if_pos rfl, monthStart]
  split_ifs <;> omega

/-- Every other month ends where the next one begins. -/
lemma daysOfMonth_of_ne_two (hmin : 1 ≤ d.month) (hmax : d.month ≤ 12) (hne : d.month ≠ 2) :
    (daysOfMonth d.year d.month : ℤ) =
      monthStart (d.marchMonth + 1) - monthStart d.marchMonth := by
  obtain ⟨year, month, day⟩ := d
  dsimp only at hmin hmax hne ⊢
  interval_cases month
  case «2» => exact absurd rfl hne
  all_goals simp [daysOfMonth, Date.marchMonth, monthStart]

/-- The count of a day by that of the first of its month. -/
lemma toDays_eq_first_add (d : Date) :
    toDays d = toDays ⟨d.year, d.month, 1⟩ + d.day - 1 := by
  simp only [toDays_eq, Date.dayOfYear, Date.marchMonth, Date.marchYear]
  omega

/-- The first of a month follows the last day of the month before. -/
lemma toDays_next_month (year : ℤ) (hmin : 1 ≤ month) (hmax : month < 12) :
    toDays ⟨year, month + 1, 1⟩ = toDays ⟨year, month, 1⟩ + daysOfMonth year month := by
  rw [toDays_eq, toDays_eq, Date.dayOfYear, Date.dayOfYear]
  rcases eq_or_ne month 2 with rfl | hne
  · rw [daysOfMonth_two]
    simp [Date.marchYear, Date.marchMonth, monthStart]
    omega
  · have hyear : (⟨year, month + 1, 1⟩ : Date).marchYear =
        (⟨year, month, 1⟩ : Date).marchYear := by
      simp only [Date.marchYear]
      split_ifs <;> omega
    have hmonth : (⟨year, month + 1, 1⟩ : Date).marchMonth =
        (⟨year, month, 1⟩ : Date).marchMonth + 1 := by
      simp only [Date.marchMonth]
      split_ifs <;> omega
    have hdays := daysOfMonth_of_ne_two (d := ⟨year, month, 1⟩) hmin hmax.le hne
    rw [hyear, hmonth]
    dsimp only at hdays ⊢
    omega

/-- The first day of a year follows the last one of the year before. -/
lemma toDays_next_year (year : ℤ) :
    toDays ⟨year + 1, 1, 1⟩ = toDays ⟨year, 12, 1⟩ + daysOfMonth year 12 := by
  simp [toDays_eq, Date.dayOfYear, Date.marchYear, Date.marchMonth, monthStart, daysOfMonth]
  omega

/-- **The day after a date has the next count.** -/
theorem toDays_next (h : d.isValid = true) : toDays d.next = toDays d + 1 := by
  obtain ⟨hmin, hmax, -, hday⟩ := isValid_iff.mp h
  have hfirst := toDays_eq_first_add d
  unfold Date.next
  split_ifs with hlast hmonth
  · have hnext := toDays_eq_first_add ⟨d.year, d.month, d.day + 1⟩
    dsimp only at hnext
    omega
  · rw [toDays_next_month d.year hmin hmonth, hfirst]
    omega
  · have hdecember : d.month = 12 := by omega
    rw [hdecember] at hfirst hday hlast
    rw [toDays_next_year, hfirst]
    omega

/-! ### The order of dates -/

/-- A date that exists is counted with its month. -/
lemma toDays_bounds (h : d.isValid = true) : toDays ⟨d.year, d.month, 1⟩ ≤ toDays d ∧
    toDays d < toDays ⟨d.year, d.month, 1⟩ + daysOfMonth d.year d.month := by
  obtain ⟨-, -, hmin, hmax⟩ := isValid_iff.mp h
  have hfirst := toDays_eq_first_add d
  omega

/-- A month ends before the later months of its year begin. -/
lemma toDays_le_first_of_lt (year : ℤ) {month' : ℕ} (hmin : 1 ≤ month) (hlt : month < month')
    (hmax : month' ≤ 12) :
    toDays ⟨year, month, 1⟩ + daysOfMonth year month ≤ toDays ⟨year, month', 1⟩ := by
  induction month', hlt using Nat.le_induction with
  | base => exact (toDays_next_month year hmin hmax).ge
  | succ next hnext ih =>
    have hle := ih (by omega)
    rw [toDays_next_month year (by omega) hmax]
    omega

/-- The days of a year come before the first of the next one. -/
lemma toDays_lt_next_year (h : d.isValid = true) : toDays d < toDays ⟨d.year + 1, 1, 1⟩ := by
  obtain ⟨hmin, hmax, -, -⟩ := isValid_iff.mp h
  have hmonth := (toDays_bounds h).2
  rw [toDays_next_year]
  rcases hmax.eq_or_lt with heq | hlt
  · rwa [heq] at hmonth
  · have hle := toDays_le_first_of_lt d.year hmin hlt le_rfl
    omega

/-- Later years begin later. -/
lemma toDays_first_le_of_le {year' : ℤ} (h : year ≤ year') :
    toDays ⟨year, 1, 1⟩ ≤ toDays ⟨year', 1, 1⟩ := by
  induction year', h using Int.leInduction with
  | base => exact le_rfl
  | succ next hnext ih =>
    have hpos : 1 ≤ daysOfMonth next 1 := Nat.le_trans (by decide) (daysOfMonth_pos next 1)
    exact ih.trans (toDays_lt_next_year (isValid_iff.mpr ⟨le_rfl, by simp, le_rfl, hpos⟩)).le

/-- An earlier date has a smaller count. -/
lemma Date.Earlier.toDays_lt (h : d.Earlier d') (hd : d.isValid = true) (hd' : d'.isValid = true) :
    toDays d < toDays d' := by
  obtain ⟨hmin, -, -, -⟩ := isValid_iff.mp hd
  obtain ⟨hmin', hmax', -, -⟩ := isValid_iff.mp hd'
  rcases h with hyear | ⟨hyear, hmonth | ⟨hmonth, hday⟩⟩
  · calc toDays d < toDays ⟨d.year + 1, 1, 1⟩ := toDays_lt_next_year hd
      _ ≤ toDays ⟨d'.year, 1, 1⟩ := toDays_first_le_of_le hyear
      _ ≤ toDays ⟨d'.year, d'.month, 1⟩ := by
        rcases hmin'.eq_or_lt with heq | hlt
        · rw [← heq]
        · have hle := toDays_le_first_of_lt d'.year le_rfl hlt hmax'
          omega
      _ ≤ toDays d' := (toDays_bounds hd').1
  · calc toDays d < toDays ⟨d.year, d.month, 1⟩ + daysOfMonth d.year d.month := (toDays_bounds hd).2
      _ ≤ toDays ⟨d.year, d'.month, 1⟩ := toDays_le_first_of_lt d.year hmin hmonth hmax'
      _ ≤ toDays d' := hyear ▸ (toDays_bounds hd').1
  · have hfirst := toDays_eq_first_add d
    have hfirst' := toDays_eq_first_add d'
    rw [← hyear, ← hmonth] at hfirst'
    omega

/-- A later count is of the same year or a later one. -/
lemma year_le_of_toDays_le (hd : d.isValid = true) (hd' : d'.isValid = true)
    (h : toDays d ≤ toDays d') : d.year ≤ d'.year :=
  not_lt.mp fun hlt => (Date.Earlier.toDays_lt (Or.inl hlt) hd' hd).not_ge h

/-- **Dates come in the order of their counts.** -/
theorem toDays_lt_iff (hd : d.isValid = true) (hd' : d'.isValid = true) :
    toDays d < toDays d' ↔ d.Earlier d' := by
  refine ⟨fun h => ?_, fun h => h.toDays_lt hd hd'⟩
  rcases earlier_trichotomy d d' with hlt | rfl | hgt
  · exact hlt
  · exact absurd h (lt_irrefl _)
  · exact absurd h (hgt.toDays_lt hd' hd).asymm

/-- Dates that exist differ in their counts. -/
lemma toDays_inj (hd : d.isValid = true) (hd' : d'.isValid = true) (h : toDays d = toDays d') :
    d = d' := by
  rcases earlier_trichotomy d d' with hlt | heq | hgt
  · exact absurd h (hlt.toDays_lt hd hd').ne
  · exact heq
  · exact absurd h (hgt.toDays_lt hd' hd).ne'

/-! ### The date of a count -/

/-- The day of an era, by the centuries, spans of four years and years before it. A leap day is the
last day of its span, and the last span of a century has none, but for that of the era. -/
lemma exists_spans {dayOfEra : ℕ} (h : dayOfEra < 146097) : ∃ centuries spans years days : ℕ,
    dayOfEra = 36524 * centuries + 1461 * spans + 365 * years + days ∧
      centuries ≤ 3 ∧ spans ≤ 24 ∧ years ≤ 3 ∧ days ≤ 365 ∧
      (days = 365 → years = 3 ∧ (spans = 24 → centuries = 3)) := by
  obtain ⟨c, inCentury, hc, hcmax, hcrest, hclast⟩ : ∃ c rest, dayOfEra = 36524 * c + rest ∧
      c ≤ 3 ∧ rest ≤ 36524 ∧ (rest = 36524 → c = 3) :=
    ⟨min (dayOfEra / 36524) 3, dayOfEra - 36524 * min (dayOfEra / 36524) 3, by omega⟩
  obtain ⟨q, inSpan, hq, hqmax, hqrest⟩ : ∃ q rest, inCentury = 1461 * q + rest ∧
      q ≤ 24 ∧ rest ≤ 1460 :=
    ⟨min (inCentury / 1461) 24, inCentury - 1461 * min (inCentury / 1461) 24, by omega⟩
  obtain ⟨r, days, hr, hrmax, hdays, hleap⟩ : ∃ r rest, inSpan = 365 * r + rest ∧
      r ≤ 3 ∧ rest ≤ 365 ∧ (rest = 365 → r = 3) :=
    ⟨min (inSpan / 365) 3, inSpan - 365 * min (inSpan / 365) 3, by omega⟩
  exact ⟨c, q, r, days, by omega⟩

/-- Only the last day of an era counts as one of a fifth century. -/
lemma centuries_eq {c : ℕ} (inCentury : ℕ) (hc : c ≤ 3) (hmax : inCentury ≤ 36524)
    (hlast : inCentury = 36524 → c = 3) :
    (36524 * c + inCentury) / 36524 = c + (36524 * c + inCentury) / 146096 := by
  rcases hmax.eq_or_lt with heq | hlt
  · rw [heq, hlast heq]
  · omega

/-- A leap day carries over into the next span of four years. -/
lemma carry_bounds {c q r days : ℕ} (hc : c ≤ 3) (hq : q ≤ 24) (hr : r ≤ 3) (hdays : days ≤ 365)
    (hleap : days = 365 → r = 3) :
    (24 * c + q + 365 * r + days) / 1460 ≤ days ∧
      days ≤ 364 + (24 * c + q + 365 * r + days) / 1460 := by
  omega

/-- The year of a day of an era. -/
lemma yearOfEra_eq {c q r days : ℕ} (hc : c ≤ 3) (hq : q ≤ 24) (hr : r ≤ 3) (hdays : days ≤ 365)
    (hleap : days = 365 → r = 3 ∧ (q = 24 → c = 3)) :
    yearOfEra (36524 * c + 1461 * q + 365 * r + days) = 100 * c + 4 * q + r := by
  have hcenturies := centuries_eq (1461 * q + 365 * r + days) hc (by omega) (by omega)
  have hcarry := carry_bounds hc hq hr hdays fun h => (hleap h).1
  have hspans : (36524 * c + (1461 * q + 365 * r + days)) / 1460 =
      25 * c + q + (24 * c + q + 365 * r + days) / 1460 := by
    have hsum : 36524 * c + (1461 * q + 365 * r + days) =
        1460 * (25 * c + q) + (24 * c + q + 365 * r + days) := by omega
    rw [hsum, Nat.mul_add_div (by omega)]
  rw [Nat.add_assoc (36524 * c + 1461 * q), Nat.add_assoc (36524 * c), ← Nat.add_assoc (1461 * q),
    yearOfEra, hspans, hcenturies]
  generalize (24 * c + q + 365 * r + days) / 1460 = carry at hcarry
  generalize (36524 * c + (1461 * q + 365 * r + days)) / 146096 = last
  have hrest : 36524 * c + (1461 * q + 365 * r + days) - (25 * c + q + carry) + (c + last) - last =
      365 * (100 * c + 4 * q + r) + (days - carry) := by omega
  rw [hrest, Nat.mul_add_div (by omega), Nat.div_eq_of_lt (by omega), Nat.add_zero]

/-- The date of a day of a year that begins in March. -/
def ofMarch (year : ℤ) (day : ℕ) : Date :=
  let shiftedMonth := (5 * day + 2) / 153
  let month := if shiftedMonth < 10 then shiftedMonth + 3 else shiftedMonth - 9
  ⟨year + (if month ≤ 2 then 1 else 0), month, day - (153 * shiftedMonth + 2) / 5 + 1⟩

/-- The beginning of a year, by the eras, centuries and spans of four years before it. -/
lemma yearStart_spans {c q r : ℕ} (era : ℤ) (hc : c ≤ 3) (hq : q ≤ 24) (hr : r ≤ 3) :
    yearStart ((100 * c + 4 * q + r : ℕ) + era * 400) =
      era * eraDays + (36524 * c + 1461 * q + 365 * r : ℕ) := by
  have hfours : ((100 * c + 4 * q + r : ℕ) + era * 400) / 4 = 25 * c + q + era * 100 := by omega
  have hcenturies : ((100 * c + 4 * q + r : ℕ) + era * 400) / 100 = c + era * 4 := by omega
  have heras : ((100 * c + 4 * q + r : ℕ) + era * 400) / 400 = era := by omega
  rw [yearStart, hfours, hcenturies, heras, eraDays]
  omega

/-- A day of an era belongs to its year, of which a leap day is the last. -/
lemma days_lt_of_spans {c q r days : ℕ} (era : ℤ) (hdays : days ≤ 365)
    (hleap : days = 365 → r = 3 ∧ (q = 24 → c = 3)) (hq : q ≤ 24) :
    yearStart ((100 * c + 4 * q + r : ℕ) + era * 400) + days <
      yearStart ((100 * c + 4 * q + r : ℕ) + era * 400 + 1) := by
  rw [yearStart_succ]
  rcases hdays.eq_or_lt with heq | hlt
  · obtain ⟨rfl, hlast⟩ := hleap heq
    have hisLeap : isLeap ((100 * c + 4 * q + 3 : ℕ) + era * 400 + 1) = true := by
      simp only [isLeap, Bool.and_eq_true, Bool.or_eq_true, beq_iff_eq, bne_iff_ne]
      omega
    rw [hisLeap, if_pos rfl]
    omega
  · split_ifs <;> omega

/-- **The date of a count of days** is that of a day of a year that begins in March. -/
theorem exists_ofDays (n : ℤ) : ∃ (year : ℤ) (day : ℕ), ofDays n = ofMarch year day ∧
    yearStart year + day = n + epochShift ∧ yearStart year + day < yearStart (year + 1) := by
  obtain ⟨era, dayOfEra, hof, hsplit, hlt⟩ : ∃ (era : ℤ) (dayOfEra : ℕ),
      ofDays n = ofMarch (yearOfEra dayOfEra + era * 400) (dayOfEra -
        (365 * yearOfEra dayOfEra + yearOfEra dayOfEra / 4 - yearOfEra dayOfEra / 100)) ∧
      n + epochShift = era * eraDays + dayOfEra ∧ dayOfEra < 146097 := by
    refine ⟨(n + epochShift) / eraDays, ((n + epochShift) % eraDays).toNat, rfl, ?_, ?_⟩
    all_goals
      unfold eraDays
      omega
  obtain ⟨c, q, r, days, rfl, hc, hq, hr, hmax, hleap⟩ := exists_spans hlt
  refine ⟨(100 * c + 4 * q + r : ℕ) + era * 400, days, ?_, ?_,
    days_lt_of_spans era hmax hleap hq⟩
  · have hfours : (100 * c + 4 * q + r) / 4 = 25 * c + q := by omega
    have hcenturies : (100 * c + 4 * q + r) / 100 = c := by omega
    have hdays : 36524 * c + 1461 * q + 365 * r + days -
        (365 * (100 * c + 4 * q + r) + (25 * c + q) - c) = days := by omega
    rw [hof, yearOfEra_eq hc hq hr hmax hleap, hfours, hcenturies, hdays]
  · rw [yearStart_spans era hc hq hr, hsplit]
    omega

/-- The months of a year that begins in March, of which January and February are the last. -/
lemma ofMarch_eq (year : ℤ) {day : ℕ} (hday : day ≤ 365) : ∃ month : ℕ, month ≤ 11 ∧
    monthStart month ≤ day ∧ day < monthStart (month + 1) ∧
    (ofMarch year day).marchYear = year ∧ (ofMarch year day).marchMonth = month ∧
    ((ofMarch year day).day : ℤ) = day - monthStart month + 1 ∧
    1 ≤ (ofMarch year day).month ∧ (ofMarch year day).month ≤ 12 := by
  refine ⟨(5 * day + 2) / 153, ?_⟩
  simp only [ofMarch, Date.marchYear, Date.marchMonth, monthStart]
  split_ifs <;> omega

/-- The count of a day of a year that begins in March. -/
lemma toDays_ofMarch (year : ℤ) {day : ℕ} (hday : day ≤ 365) :
    toDays (ofMarch year day) = yearStart year + day - epochShift := by
  obtain ⟨month, -, -, -, hyear, hmonth, hd, -, -⟩ := ofMarch_eq year hday
  rw [toDays_eq, Date.dayOfYear, hyear, hmonth, hd]
  omega

/-- A year that begins in March has at most 366 days. -/
lemma day_le_of_lt_yearStart {day : ℕ} (h : yearStart year + day < yearStart (year + 1)) :
    day ≤ 365 := by
  rw [yearStart_succ] at h
  split_ifs at h <;> omega

/-- A day of a year that begins in March exists. -/
lemma isValid_ofMarch {day : ℕ} (h : yearStart year + day < yearStart (year + 1)) :
    (ofMarch year day).isValid = true := by
  obtain ⟨month, hlast, hstart, hend, hyear, hmonth, hd, hmin, hmax⟩ :=
    ofMarch_eq year (day_le_of_lt_yearStart h)
  refine isValid_iff.mpr ⟨hmin, hmax, by omega, ?_⟩
  rcases eq_or_ne (ofMarch year day).month 2 with htwo | hne
  · -- The days of February are those that are left of the year.
    have hfebruary := daysOfMonth_two (year + 1)
    rw [add_sub_cancel_right] at hfebruary
    have hyear' : (ofMarch year day).year = year + 1 := by
      rw [Date.marchYear, htwo] at hyear
      omega
    have hmonth' : month = 11 := by
      rw [Date.marchMonth, htwo] at hmonth
      omega
    rw [htwo, hyear']
    rw [hmonth', Nat.cast_ofNat] at hd
    omega
  · have hdays := daysOfMonth_of_ne_two hmin hmax hne
    rw [hmonth] at hdays
    omega

/-- **The date of a count of days has this count.** -/
theorem toDays_ofDays (n : ℤ) : toDays (ofDays n) = n := by
  obtain ⟨year, day, hof, hcount, hlt⟩ := exists_ofDays n
  rw [hof, toDays_ofMarch year (day_le_of_lt_yearStart hlt)]
  omega

/-- **The date of a count of days exists.** -/
theorem isValid_ofDays (n : ℤ) : (ofDays n).isValid = true := by
  obtain ⟨year, day, hof, -, hlt⟩ := exists_ofDays n
  exact hof ▸ isValid_ofMarch hlt

/-- The date of the count of a date. -/
lemma ofDays_toDays (h : d.isValid = true) : ofDays (toDays d) = d :=
  toDays_inj (isValid_ofDays _) h (toDays_ofDays _)

/-! ### Numbers of dates -/

/-- Every date of a count has this number. -/
lemma numbered_ofDays (n : ℤ) : Numbered (ofDays n) n := by
  have hnext : ∀ n : ℤ, (ofDays n).next = ofDays (n + 1) := fun n => by
    have hcount : toDays (ofDays n).next = n + 1 := by
      rw [toDays_next (isValid_ofDays n), toDays_ofDays]
    rw [← hcount, ofDays_toDays (isValid_next (isValid_ofDays n))]
  induction n using Int.induction_on with
  | zero => exact .epoch
  | succ n ih => exact hnext n ▸ ih.after
  | pred n ih =>
    have hback : (ofDays (-n - 1)).next = ofDays (-n) := by rw [hnext, sub_add_cancel]
    exact .before (isValid_ofDays _) (hback ▸ ih)

/-- **The count of days of a date is its number.** -/
theorem numbered_iff : Numbered d n ↔ d.isValid = true ∧ toDays d = n := by
  constructor
  · intro h
    induction h with
    | epoch => exact ⟨rfl, rfl⟩
    | after h ih => exact ⟨isValid_next ih.1, by rw [toDays_next ih.1, ih.2]⟩
    | before valid h ih =>
      have hnext := toDays_next valid
      exact ⟨valid, by omega⟩
  · rintro ⟨hvalid, rfl⟩
    exact ofDays_toDays hvalid ▸ (toDays_ofDays (toDays d)).symm ▸ numbered_ofDays (toDays d)

end Lineage.Calendar
