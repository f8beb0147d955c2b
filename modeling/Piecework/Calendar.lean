/-
# Piecework.Calendar — days and civil dates.

Dates are those of the Gregorian calendar, extended to all years.  A day is counted from the first of
January of the year zero, so that a date is found from a count of days by exact integer division and
one walk over the lengths of the months.
-/
import Piecework.Arithmetic

namespace Piecework

/-- A civil date.  Month and day count from one. -/
structure Date where
  year : Int
  month : Nat
  day : Nat
deriving DecidableEq, Repr

namespace Date

/-- Whether a year has a 29th of February. -/
def isLeap (year : Int) : Bool := year % 4 = 0 && (year % 100 ≠ 0 || year % 400 = 0)

/-- The lengths of the months of a year. -/
def monthLengths (year : Int) : List Nat :=
  [31, if isLeap year then 29 else 28, 31, 30, 31, 30, 31, 31, 30, 31, 30, 31]

/-- The days before the first of January of a year. -/
def daysBefore (year : Int) : Int := 365 * year + (year + 3) / 4 - (year + 99) / 100 + (year + 399) / 400

/-- A date that the calendar has. -/
def isValid (d : Date) : Bool :=
  1 ≤ d.month && 1 ≤ d.day &&
    match (monthLengths d.year)[d.month - 1]? with
    | some length => d.day ≤ length
    | none => false

/-- The number of a date's day. -/
def dayNumber (d : Date) : Int :=
  daysBefore d.year + ((monthLengths d.year).take (d.month - 1)).sum + (d.day - 1 : Nat)

/-- The year that a day lies in.  The mean year gives a guess that is off by at most one. -/
def yearOf (number : Int) : Int :=
  let guess := number * 400 / 146097
  if number < daysBefore guess then guess - 1
  else if daysBefore (guess + 1) ≤ number then guess + 1
  else guess

/-- Walks over the months with the days that are left: the month and the day in it, both from zero. -/
def monthOf : List Nat → Nat → Nat × Nat
  | [], rest => (0, rest)
  | length :: more, rest =>
    if rest < length then (0, rest)
    else
      let (month, day) := monthOf more (rest - length)
      (month + 1, day)

/-- The date of a day. -/
def ofDayNumber (number : Int) : Date :=
  let year := yearOf number
  let (month, day) := monthOf (monthLengths year) (number - daysBefore year).toNat
  ⟨year, month + 1, day + 1⟩

/-- The first of January 1970, from which instants are counted. -/
def epochDay : Int := dayNumber ⟨1970, 1, 1⟩

example : epochDay = 719528 := by decide

example : ofDayNumber (epochDay + 19782) = ⟨2024, 2, 29⟩ := by decide

example : ofDayNumber (-1) = ⟨-1, 12, 31⟩ := by decide

end Date

end Piecework
