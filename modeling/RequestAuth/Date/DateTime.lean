import RequestAuth.Date.Calendar

/-!
# Points in time

A point in time is a number of seconds since 1970-01-01 00:00:00 and a number of nanoseconds. A
leap second is the continuation of a second past its end. Clocks have leap seconds at the end of a
minute only, and so do the points in time that are made from seconds and nanoseconds
(`DateTime.ofUnix?`), but the nanoseconds of any point in time can be replaced, and time zones are
not always whole minutes apart: any second may be continued. The years run from -262143 to 262142.
-/

namespace RequestAuth

/-- A point in time, in years that the calendar can name. -/
structure DateTime where
  /-- Seconds since 1970-01-01 00:00:00. -/
  unix : Int
  /-- Nanoseconds since the second began; a leap second has a thousand million and more. -/
  nanos : Nat
  first_le : -8334601228800 ≤ unix
  le_last : unix ≤ 8210266876799
  nanos_lt : nanos < 2000000000
  deriving DecidableEq, Repr

namespace DateTime

/-- The point in time with the given seconds and nanoseconds, if there is one. A leap second is made
at the end of a minute only. -/
def ofUnix? (unix : Int) (nanos : Nat) : Option DateTime :=
  if h₁ : -8334601228800 ≤ unix then
    if h₂ : unix ≤ 8210266876799 then
      if h₃ : nanos < 2000000000 then
        if 1000000000 ≤ nanos → unix % 60 = 59 then some ⟨unix, nanos, h₁, h₂, h₃⟩ else none
      else none
    else none
  else none

/-- The day of a point in time, counted from 1970-01-01. -/
def dayNumber (t : DateTime) : Int := t.unix / 86400

/-- The second of the day; that of a leap second is the one that it continues. -/
def secondOfDay (t : DateTime) : Nat := (t.unix % 86400).toNat

/-- Whether a point in time lies in a leap second. -/
def isLeapSecond (t : DateTime) : Bool := 1000000000 ≤ t.nanos

end DateTime

end RequestAuth
