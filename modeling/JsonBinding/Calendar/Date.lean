/-!
# Dates

Dates of the Gregorian calendar, extended to all years (`Date.of?`): the day of the year, the day
of the week, counted from Monday, and the week that a day belongs to by the ISO rule, where a week
belongs to the year that holds its Thursday (`Date.isoWeek`).
-/

namespace JsonBinding.Calendar

/-- Whether a year has a leap day. -/
def isLeap (year : Int) : Bool := year % 4 == 0 && (year % 100 != 0 || year % 400 == 0)

/-- The number of days in a year. -/
def daysInYear (year : Int) : Nat := if isLeap year then 366 else 365

/-- The lengths of the months of a year. -/
def monthLengths (year : Int) : List Nat :=
  [31, if isLeap year then 29 else 28, 31, 30, 31, 30, 31, 31, 30, 31, 30, 31]

/-- A date. -/
structure Date where
  year : Int
  month : Nat
  day : Nat
  deriving DecidableEq

namespace Date

/-- The first and the last year of the calendar. -/
def yearRange : Int × Int := (-262143, 262142)

/-- The date with these parts, when the calendar has it. -/
def of? (year : Int) (month day : Nat) : Option Date :=
  if yearRange.1 ≤ year ∧ year ≤ yearRange.2 ∧ 1 ≤ month ∧ month ≤ 12 ∧ 1 ≤ day ∧
      day ≤ (monthLengths year).getD (month - 1) 0 then some ⟨year, month, day⟩ else none

variable (d : Date)

/-- The quarter of the year. -/
def quarter : Nat := (d.month + 2) / 3

/-- The day of the year, from 1. -/
def ordinal : Nat := ((monthLengths d.year).take (d.month - 1)).foldl (· + ·) d.day

/-- The number of days in the years before `year`, from year 1 on. -/
def daysBefore (year : Int) : Int :=
  365 * (year - 1) + (year - 1) / 4 - (year - 1) / 100 + (year - 1) / 400

/-- The number of days since 31 December of the year 0. -/
def dayNumber : Int := daysBefore d.year + d.ordinal

/-- The number of days since 1 January 1970. -/
def sinceEpoch : Int := d.dayNumber - 719163

/-- The number of days since Monday. -/
def sinceMonday : Nat := ((d.dayNumber - 1) % 7).toNat

/-- The number of days since Sunday. -/
def sinceSunday : Nat := (d.sinceMonday + 1) % 7

/-- The week of the year when weeks start on Sunday; days before the first Sunday are in week 0. -/
def weekFromSunday : Nat := (d.ordinal + 6 - d.sinceSunday) / 7

/-- The week of the year when weeks start on Monday. -/
def weekFromMonday : Nat := (d.ordinal + 6 - d.sinceMonday) / 7

/-- The year and the week that the day belongs to: those of the Thursday between the same two
Sundays. -/
def isoWeek : Int × Nat :=
  let thursday : Int := d.ordinal + 3 - d.sinceMonday
  let week (n : Int) : Nat := ((n - 1) / 7).toNat + 1
  if thursday < 1 then (d.year - 1, week (thursday + daysInYear (d.year - 1)))
  else if thursday > daysInYear d.year then (d.year + 1, week (thursday - daysInYear d.year))
  else (d.year, week thursday)

end Date

end JsonBinding.Calendar
