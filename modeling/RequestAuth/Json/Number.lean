import RequestAuth.Json.Value

/-!
# JSON numbers

A number without fraction and exponent that fits 64 bits is a whole number. Any other is of double
precision: the digits that fit 64 bits are rounded first, and the result is then multiplied or
divided by a power of ten and rounded again, so it may be a neighbour of the nearest one.
-/

namespace RequestAuth.JsonValue

/-! ## Digits -/

/-- The digits at the start of a text, and what follows them. -/
def digitsOf (text : List Char) : List Char × List Char :=
  (text.takeWhile Char.isDigit, text.dropWhile Char.isDigit)

/-- The bound of the numbers that 64 bits hold. -/
def wordBound : Nat := Nat.pow 2 64

/-- Puts digits after a number for as long as 64 bits hold it, and the digits that are left. -/
def absorb (n : Nat) : List Char → Nat × List Char
  | [] => (n, [])
  | c :: rest =>
    let next := 10 * n + (c.toNat - 0x30)
    if next < wordBound then absorb next rest else (n, c :: rest)

/-- The number that decimal digits write. -/
def natOfDigits (digits : List Char) : Nat :=
  digits.foldl (fun n c => 10 * n + (c.toNat - 0x30)) 0

/-! ## Double precision -/

/-- The greatest power of ten of double precision. -/
def maxPowerOfTen : Nat := 308

/-- A power of ten of double precision. -/
def powerOfTen (n : Nat) : Binary64 :=
  (Binary64.round? (Nat.pow 10 n) 1).getD .zero

/-- A number divided by a power of ten the given number of times. -/
def divideTimes (power x : Binary64) : Nat → Option Binary64
  | 0 => some x
  | times + 1 => if x.mantissa = 0 then some x else do divideTimes power (← x.div? power) times

/-- A number divided by `10 ^ n`, for a positive `n`, in steps of the greatest power of ten. -/
def scaleDown (x : Binary64) (n : Nat) : Option Binary64 := do
  let steps := (n - 1) / maxPowerOfTen
  let y ← divideTimes (powerOfTen maxPowerOfTen) x steps
  y.div? (powerOfTen (n - steps * maxPowerOfTen))

/-- The number `digits · 10 ^ exponent` in double precision; nothing if it is too large. -/
def ofParts? (digits : Nat) (exponent : Int) : Option Binary64 := do
  let x ← Binary64.round? digits 1
  if exponent < 0 then scaleDown x exponent.natAbs
  else if exponent ≤ maxPowerOfTen then x.mul? (powerOfTen exponent.toNat)
  else if x.mantissa = 0 then some x
  else none

/-! ## Reading -/

/-- Whether there is a minus sign at the start of a text, and what follows the sign, if there is
one. -/
def readSign : List Char → Bool × List Char
  | '-' :: rest => (true, rest)
  | '+' :: rest => (false, rest)
  | text => (false, text)

/-- The whole number at the start of a text, with or without a sign, and what follows it. -/
def readPower? (text : List Char) : Option (Int × List Char) :=
  let (negative, text) := readSign text
  match digitsOf text with
  | ([], _) => none
  | (digits, rest) =>
    let n : Int := natOfDigits digits
    some (if negative then -n else n, rest)

/-- The exponent at the start of a text, zero if there is none, and what follows it. -/
def readExponent? (text : List Char) : Option (Int × List Char) :=
  match text with
  | 'e' :: rest | 'E' :: rest => readPower? rest
  | _ => some (0, text)

/-- The fraction at the start of a text, after a number and `skipped` digits that were left out of
it: the number with the digits that fit it, and the power of ten of the last one. -/
def readFraction? (n skipped : Nat) (text : List Char) : Option (Nat × Int × List Char) :=
  match text with
  | '.' :: rest =>
    match digitsOf rest with
    | ([], _) => none
    | (digits, rest) =>
      let (m, left) := absorb n digits
      some (m, (skipped : Int) - (digits.length - left.length : Nat), rest)
  | _ => some (n, skipped, text)

/-- Whether a text goes on as a number does that is not whole. -/
def isFractional : List Char → Bool
  | '.' :: _ | 'e' :: _ | 'E' :: _ => true
  | _ => false

/-- A number from its digits before the point and what follows them. -/
def numberOf? (negative : Bool) (digits rest : List Char) : Option (JsonValue × List Char) := do
  let (n, left) := absorb 0 digits
  let whole : Int := if negative then -(n : Int) else n
  if left = [] ∧ ¬ isFractional rest ∧ -Int.pow 2 63 ≤ whole ∧ ¬ (negative ∧ n = 0) then
    return (.integer whole, rest)
  let (n, fraction, rest) ← readFraction? n left.length rest
  let (exponent, rest) ← readExponent? rest
  return (.decimal negative (← ofParts? n (fraction + exponent)), rest)

/-- The number that the digits at the start of a text begin, and what follows it. -/
def readUnsigned? (negative : Bool) (text : List Char) : Option (JsonValue × List Char) :=
  match digitsOf text with
  | ([], _) => none
  | ('0' :: _ :: _, _) => none
  | (digits, rest) => numberOf? negative digits rest

/-- The number at the start of a text, and what follows it. -/
def readNumber? : List Char → Option (JsonValue × List Char)
  | '-' :: rest => readUnsigned? true rest
  | text => readUnsigned? false text

end RequestAuth.JsonValue
