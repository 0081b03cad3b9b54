import Lineage.Number.Reader
import Lineage.Text.Blank
import Lineage.Time.Calendar

set_option autoImplicit false

/-!
# Reading dates and points in time

Dates are written `2020-01-31`, with one or two digits for month and day, or as eight digits; what
follows a short date with hyphens does not count as long as it has no digits. A point in time is a
date, a separator, and a time of day with an optional part of a second and an optional offset from
the standard zone.

## Main definitions

* `Lineage.Calendar.daysOfText?`: the days since 1970-01-01 of a date.
* `Lineage.Calendar.Instant`, `Lineage.Calendar.instantOfText?`: a point in time.
-/

namespace Lineage.Calendar

open Number (isDigit natOfDigits digitValue)

/-- The days of a date that exists. -/
def daysOf? (year month day : Nat) : Option Int :=
  let d : Date := ⟨year, month, day⟩
  if d.isValid then some (toDays d) else none

/-- Four digits, a hyphen, and pieces of one or two digits around another hyphen. -/
def daysOfPieces? (year month day : List Char) : Option Int :=
  let short (cs : List Char) : Bool := cs.length == 1 || cs.length == 2
  if year.length == 4 && short month && short day && (year ++ month ++ day).all isDigit then
    daysOf? (natOfDigits year) (natOfDigits month) (natOfDigits day)
  else none

/-- The days of a date with hyphens, after its year: one or two digits, a hyphen, one or two digits,
and then no more digits. -/
def daysOfRest? (year rest : List Char) : Option Int :=
  match rest.dropWhile isDigit with
  | '-' :: more =>
    if (more.dropWhile isDigit).any isDigit then none
    else daysOfPieces? year (rest.takeWhile isDigit) (more.takeWhile isDigit)
  | _ => none

/-- The days of a short date. -/
def daysOfShort? (cs : List Char) : Option Int :=
  match cs.drop 4 with
  | '-' :: rest => daysOfRest? (cs.take 4) rest
  | _ =>
    if cs.length == 8 && cs.all isDigit then
      daysOf? (natOfDigits (cs.take 4)) (natOfDigits ((cs.drop 4).take 2))
        (natOfDigits (cs.drop 6))
    else none

/-- A point in time: seconds since the start of 1970, and nanoseconds, which in a leap second
exceed a second. -/
structure Instant where
  /-- Seconds since the start of 1970. -/
  seconds : Int
  /-- Nanoseconds after it. -/
  nanoseconds : Nat
  deriving DecidableEq, Repr

/-- The seconds and nanoseconds of a time of day; a second 60 is a leap second. -/
def timeOfDay? (hour minute second nanoseconds : Nat) : Option (Nat × Nat) :=
  if hour < 24 ∧ minute < 60 then
    if second < 60 then some (3600 * hour + 60 * minute + second, nanoseconds)
    else if second = 60 then some (3600 * hour + 60 * minute + 59, 1000000000 + nanoseconds)
    else none
  else none

/-- The nanoseconds of the digits after the point; those after the ninth do not count. -/
def nanosecondsOfDigits (cs : List Char) : Nat :=
  let kept := cs.take 9
  natOfDigits kept * Number.pow10 (9 - kept.length)

/-- A time of day with colons, and what follows it. -/
def colonTime? : List Char → Option ((Nat × Nat) × List Char)
  | h :: i :: ':' :: m :: n :: ':' :: s :: t :: rest => do
    if !([h, i, m, n, s, t].all isDigit) then none
    let time (nanoseconds : Nat) := timeOfDay? (natOfDigits [h, i]) (natOfDigits [m, n])
      (natOfDigits [s, t]) nanoseconds
    match rest with
    | '.' :: more =>
      let digits := more.takeWhile isDigit
      if digits.isEmpty then none
      some (← time (nanosecondsOfDigits digits), more.dropWhile isDigit)
    | _ => some (← time 0, rest)
  | _ => none

/-- A time of day as six digits, not followed by more, and what follows it. -/
def compactTime? (cs : List Char) : Option ((Nat × Nat) × List Char) := do
  let digits := cs.take 6
  let next := (cs.drop 6).take 2
  if digits.length ≠ 6 ∨ !digits.all isDigit ∨ next.any isDigit then none
  let part (i : Nat) : Nat := natOfDigits ((digits.drop i).take 2)
  some (← timeOfDay? (part 0) (part 2) (part 4) 0, cs.drop 6)

/-- A time of day and what follows it. -/
def time? (cs : List Char) : Option ((Nat × Nat) × List Char) :=
  match colonTime? cs with
  | some result => some result
  | none => compactTime? cs

/-- The seconds of an offset from its digits; it is less than a day. -/
def offsetOfDigits? (sign : Char) (h i m n : Char) : Option Int :=
  if !([h, i, m, n].all isDigit) then none
  else
    let seconds : Nat := natOfDigits [h, i] * 3600 + natOfDigits [m, n] * 60
    if 86400 ≤ seconds then none
    else if sign = '+' then some seconds
    else if sign = '-' then some (-(seconds : Int))
    else none

/-- The seconds of an offset: hours, or hours and minutes with or without a colon. -/
def offset? : List Char → Option Int
  | [sign, h, i, ':', m, n] => offsetOfDigits? sign h i m n
  | [sign, h, i, m, n] => offsetOfDigits? sign h i m n
  | [sign, h, i] => offsetOfDigits? sign h i '0' '0'
  | _ => none

/-- The offset that ends a point in time; nothing and the letter Z stand for the standard zone. -/
def zone? : List Char → Option Int
  | [] => some 0
  | ['z'] => some 0
  | ['Z'] => some 0
  | cs => offset? (Text.stripLeft cs)

/-- The point in time of a text. -/
def instantOfChars? (cs : List Char) : Option Instant := do
  let date := cs.take 10
  if date.length ≠ 10 then none
  let days ← match Text.splitChars '-' date with
    | [year, month, day] =>
      if month.length == 2 then daysOfPieces? year month day else none
    | _ => none
  match cs.drop 10 with
  | [] => some ⟨days * 86400, 0⟩
  | separator :: rest =>
    if separator ≠ 'T' ∧ separator ≠ 't' ∧ separator ≠ ' ' then none
    let ((seconds, nanoseconds), after) ← time? rest
    let offset ← zone? after
    some ⟨days * 86400 + seconds - offset, nanoseconds⟩

/-- The point in time of a text. -/
def instantOfText? (s : String) : Option Instant := instantOfChars? s.toList

/-- The units since the start of 1970, rounded down. -/
def Instant.count (perSecond : Nat) (t : Instant) : Int :=
  t.seconds * (perSecond : Int) + ((t.nanoseconds / (1000000000 / perSecond) : Nat) : Int)

/-- The days since 1970-01-01 of a date, or of a point in time where the text is longer than ten
bytes. -/
def daysOfText? (s : String) : Option Int :=
  let cs := s.toList
  if s.utf8ByteSize ≤ 10 then daysOfShort? cs
  else (instantOfChars? cs).map fun t => t.seconds / 86400

end Lineage.Calendar
