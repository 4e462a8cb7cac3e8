/-!
# The calendar

The Gregorian calendar, extended to all years before its introduction. A date corresponds to the number
of days since the first day of the year 0. Going back, the year is estimated from its average length,
which misses by one at most, and the month is found by counting the days of the months off.
-/

namespace FixWire

/-- A day of the calendar. -/
structure Date where
  year : Int
  month : Nat
  day : Nat
  deriving DecidableEq, Repr

namespace Calendar

/-- A year with a 29th of February. -/
def isLeap (year : Int) : Bool :=
  year % 4 = 0 && (year % 100 ≠ 0 || year % 400 = 0)

/-- The lengths of the months of a year. -/
def monthLengths (year : Int) : List Nat :=
  [31, if isLeap year then 29 else 28, 31, 30, 31, 30, 31, 31, 30, 31, 30, 31]

/-- The day number of the first day of a year : 365 days for each year before it, and one more for each
leap year. -/
def firstDay (year : Int) : Int :=
  365 * year + (year + 3) / 4 - (year + 99) / 100 + (year + 399) / 400

/-- Whether the month and the day exist in the year. -/
def isValid (d : Date) : Bool :=
  1 ≤ d.month && d.month ≤ 12 && 1 ≤ d.day && d.day ≤ (monthLengths d.year).getD (d.month - 1) 0

/-- The number of days of the year before the first day of a month. -/
def daysBefore (year : Int) (month : Nat) : Nat :=
  ((monthLengths year).take (month - 1)).foldr (· + ·) 0

/-- The number of days from the first day of the year 0 to the date. -/
def toDays (d : Date) : Int :=
  firstDay d.year + daysBefore d.year d.month + (d.day - 1)

/-- The year that has the day with the given number. -/
def yearOf (days : Int) : Int :=
  let estimate := 400 * days / 146097
  if days < firstDay estimate then estimate - 1
  else if firstDay (estimate + 1) ≤ days then estimate + 1
  else estimate

/-- The month and the day of the month, both from 1, of the day that comes `n` days after the first
day of month `month`, when the months from there on have the given lengths. -/
def countOff (month : Nat) : List Nat → Nat → Nat × Nat
  | [], n => (month, n + 1)
  | length :: lengths, n =>
    if n < length then (month, n + 1) else countOff (month + 1) lengths (n - length)

/-- The date of the day with the given number. -/
def ofDays (days : Int) : Date :=
  let year := yearOf days
  let (month, day) := countOff 1 (monthLengths year) (days - firstDay year).toNat
  ⟨year, month, day⟩

/-- The day number of the first of January 1970. -/
def epoch : Int := firstDay 1970

end Calendar

end FixWire
