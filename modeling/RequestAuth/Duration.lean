/-!
# Lengths of time

A length of time is a natural number of nanoseconds, and so is a point in time, counted from when a
clock was started. `Duration.text` writes a length of time in the largest unit that leaves a whole
part, with as many decimal places as it needs.
-/

namespace RequestAuth.Duration

/-- One microsecond. -/
def microsecond : Nat := 1000

/-- One millisecond. -/
def millisecond : Nat := 1000000

/-- One second. -/
def second : Nat := 1000000000

/-- The given number of milliseconds. -/
def ofMillis (n : Nat) : Nat := n * millisecond

/-- The given number of seconds. -/
def ofSeconds (n : Nat) : Nat := n * second

/-- The decimal places of `part / unit` for a power of ten `unit`, without zeros at the end. -/
def places (unit part : Nat) : List Char :=
  let digits := Nat.toDigits 10 (unit + part)
  (digits.tail.reverse.dropWhile (· = '0')).reverse

/-- A length of time counted in `unit`, a power of ten of nanoseconds, under the given name. -/
def textIn (unit : Nat) (name : String) (d : Nat) : String :=
  match places unit (d % unit) with
  | [] => toString (d / unit) ++ name
  | digits => toString (d / unit) ++ "." ++ String.ofList digits ++ name

/-- A length of time in seconds, or in the largest smaller unit that it reaches. -/
def text (d : Nat) : String :=
  if second ≤ d then textIn second "s" d
  else if millisecond ≤ d then textIn millisecond "ms" d
  else if microsecond ≤ d then textIn microsecond "µs" d
  else textIn 1 "ns" d

end RequestAuth.Duration
