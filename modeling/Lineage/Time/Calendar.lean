set_option autoImplicit false

/-!
# Calendar dates and times

Days are counted from 1970-01-01 in the Gregorian calendar, which is continued in both directions.
An era is a span of 400 years, after which the calendar repeats; its years begin in March, so that
a leap day is the last of its year.

## Main definitions

* `Lineage.Calendar.Date`, `Lineage.Calendar.ofDays`, `Lineage.Calendar.toDays`: dates and counts
  of days.
* `Lineage.Calendar.renderDate`: the ISO text of a date.
* `Lineage.Calendar.dateText?`, `Lineage.Calendar.timestampText?`: texts of counts, within the
  supported years.
-/

namespace Lineage.Calendar

/-- A date of the calendar. -/
structure Date where
  /-- The year; the year before 1 is 0. -/
  year : Int
  /-- The month, from 1 to 12. -/
  month : Nat
  /-- The day of the month, from 1. -/
  day : Nat
  deriving DecidableEq, Repr

/-- The days of an era. -/
def eraDays : Int := 146097

/-- The days from the first of March of year 0 to the start of 1970. -/
def epochShift : Int := 719468

/-- The year of an era on a day of the era. -/
def yearOfEra (dayOfEra : Nat) : Nat :=
  (dayOfEra - dayOfEra / 1460 + dayOfEra / 36524 - dayOfEra / 146096) / 365

/-- The date of a count of days. -/
def ofDays (days : Int) : Date :=
  let shifted := days + epochShift
  let era := shifted / eraDays
  let dayOfEra := (shifted % eraDays).toNat
  let yoe := yearOfEra dayOfEra
  let dayOfYear := dayOfEra - (365 * yoe + yoe / 4 - yoe / 100)
  let shiftedMonth := (5 * dayOfYear + 2) / 153
  let day := dayOfYear - (153 * shiftedMonth + 2) / 5 + 1
  let month := if shiftedMonth < 10 then shiftedMonth + 3 else shiftedMonth - 9
  let year := (yoe : Int) + era * 400 + (if month ≤ 2 then 1 else 0)
  ⟨year, month, day⟩

/-- The count of days of a date. -/
def toDays (d : Date) : Int :=
  let y := if d.month ≤ 2 then d.year - 1 else d.year
  let era := y / 400
  let yoe := y % 400
  let shiftedMonth : Int := if d.month > 2 then (d.month : Int) - 3 else (d.month : Int) + 9
  let dayOfYear := (153 * shiftedMonth + 2) / 5 + (d.day : Int) - 1
  let dayOfEra := yoe * 365 + yoe / 4 - yoe / 100 + dayOfYear
  era * eraDays + dayOfEra - epochShift

/-- Whether a year has a leap day. -/
def isLeap (year : Int) : Bool :=
  year % 4 == 0 && (year % 100 != 0 || year % 400 == 0)

/-- The number of days of a month. -/
def daysOfMonth (year : Int) (month : Nat) : Nat :=
  if month = 2 then (if isLeap year then 29 else 28)
  else if month = 4 ∨ month = 6 ∨ month = 9 ∨ month = 11 then 30
  else 31

/-- Whether month and day exist. -/
def Date.isValid (d : Date) : Bool :=
  1 ≤ d.month && d.month ≤ 12 && 1 ≤ d.day && d.day ≤ daysOfMonth d.year d.month

/-- The digits of a number, with zeros in front up to a width. -/
def padded (width n : Nat) : String :=
  let digits := Nat.toDigits 10 n
  String.ofList (List.replicate (width - digits.length) '0' ++ digits)

/-- The ISO text of a date: years from 0 to 9999 have four digits, others a sign. -/
def renderDate (d : Date) : String :=
  let year :=
    if 0 ≤ d.year ∧ d.year ≤ 9999 then padded 4 d.year.toNat
    else (if d.year < 0 then "-" else "+") ++ padded 4 d.year.natAbs
  year ++ "-" ++ padded 2 d.month ++ "-" ++ padded 2 d.day

/-- The first supported year. -/
def firstYear : Int := -262143

/-- The last supported year. -/
def lastYear : Int := 262142

/-- The date of a count of days, within the supported years. -/
def ofDays? (days : Int) : Option Date :=
  let d := ofDays days
  if firstYear ≤ d.year ∧ d.year ≤ lastYear then some d else none

/-- The ISO text of a count of days. -/
def dateText? (days : Int) : Option String :=
  (ofDays? days).map renderDate

/-- A part of a second, without digits if there is none, else with three, six or nine. -/
def renderFraction (nanoseconds : Nat) : String :=
  if nanoseconds = 0 then ""
  else if nanoseconds % 1000000 = 0 then "." ++ padded 3 (nanoseconds / 1000000)
  else if nanoseconds % 1000 = 0 then "." ++ padded 6 (nanoseconds / 1000)
  else "." ++ padded 9 nanoseconds

/-- The text of a time of day. -/
def renderTime (second nanoseconds : Nat) : String :=
  padded 2 (second / 3600) ++ ":" ++ padded 2 (second / 60 % 60) ++ ":" ++ padded 2 (second % 60)
    ++ renderFraction nanoseconds

/-- The ISO text of a count of units since the start of 1970. -/
def timestampText? (perSecond : Nat) (count : Int) : Option String :=
  let seconds := count / (perSecond : Int)
  let part := (count % (perSecond : Int)).toNat
  (ofDays? (seconds / 86400)).map fun d =>
    renderDate d ++ "T" ++ renderTime (seconds % 86400).toNat (part * (1000000000 / perSecond))

end Lineage.Calendar
