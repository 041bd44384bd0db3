/-!
# The calendar

Days are counted from 1970-01-01, which was a Thursday. `Calendar.ofDay` finds year, month and day
of the month in the Gregorian calendar, extended to all years, and `Calendar.toDay` is its inverse
on the dates that exist. The years of this count begin in March, so that a leap day ends its year.
-/

namespace RequestAuth

/-- A day of the Gregorian calendar. -/
structure Calendar where
  /-- The year, the one before year 1 being year 0. -/
  year : Int
  /-- The month, from 1 to 12. -/
  month : Nat
  /-- The day of the month, from 1. -/
  day : Nat
  deriving DecidableEq, Repr

namespace Calendar

/-- The days of an era of four hundred years. -/
def daysOfEra : Nat := 146097

/-- The days from the start of the first March of era 0 to 1970-01-01. -/
def epochOffset : Nat := 719468

/-- The days of an era before its `year`th year, for a year below 400. -/
def daysBeforeYear (year : Nat) : Nat :=
  365 * year + year / 4 - year / 100

/-- The days of a year before its `month`th month, counted from March as month 0. -/
def daysBeforeMonth (month : Nat) : Nat :=
  (153 * month + 2) / 5

/-- The date of the given day, counted from 1970-01-01. -/
def ofDay (day : Int) : Calendar :=
  let shifted := day + epochOffset
  let era := shifted / daysOfEra
  let dayOfEra := (shifted % daysOfEra).toNat
  let yearOfEra := (dayOfEra - dayOfEra / 1460 + dayOfEra / 36524 - dayOfEra / 146096) / 365
  let dayOfYear := dayOfEra - daysBeforeYear yearOfEra
  let monthFromMarch := (5 * dayOfYear + 2) / 153
  let month := if monthFromMarch < 10 then monthFromMarch + 3 else monthFromMarch - 9
  { year := 400 * era + yearOfEra + (if month ≤ 2 then 1 else 0)
    month
    day := dayOfYear - daysBeforeMonth monthFromMarch + 1 }

/-- The number of a date that exists, counted from 1970-01-01. -/
def toDay (date : Calendar) : Int :=
  let year := if date.month ≤ 2 then date.year - 1 else date.year
  let monthFromMarch := (date.month + 9) % 12
  year / 400 * daysOfEra + daysBeforeYear (year % 400).toNat + daysBeforeMonth monthFromMarch +
    date.day - 1 - epochOffset

/-- Whether a year has a leap day. -/
def isLeap (year : Int) : Bool :=
  year % 4 = 0 ∧ (year % 100 ≠ 0 ∨ year % 400 = 0)

/-- The number of days of a month. -/
def daysInMonth (year : Int) (month : Nat) : Nat :=
  if month = 2 then if isLeap year then 29 else 28
  else if month = 4 ∨ month = 6 ∨ month = 9 ∨ month = 11 then 30
  else 31

/-- Whether a date exists. -/
def Exists (date : Calendar) : Prop :=
  1 ≤ date.month ∧ date.month ≤ 12 ∧ 1 ≤ date.day ∧
    date.day ≤ daysInMonth date.year date.month

instance (date : Calendar) : Decidable date.Exists := by
  unfold Exists
  infer_instance

/-- The day of the week of a day counted from 1970-01-01; Sunday is 0. -/
def weekday (day : Int) : Nat :=
  ((day + 4) % 7).toNat

end Calendar

end RequestAuth
