/-!
# Binary fractions of double precision

A non-negative number of double precision is `mantissa · 2 ^ exponent` with a mantissa of at most
53 bits. `Binary64.round?` finds the one nearest to a quotient of natural numbers, which is all
that the arithmetic on such numbers needs: product and quotient are exact, and then rounded.
-/

namespace RequestAuth

/-- A non-negative number of double precision. -/
structure Binary64 where
  /-- The digits of the number in base two. -/
  mantissa : Nat
  /-- The power of two of the last digit. -/
  exponent : Int
  deriving DecidableEq, Repr

namespace Binary64

/-- The number of binary digits of a mantissa. -/
def precision : Nat := 53

/-- The least exponent. -/
def minExponent : Int := -1074

/-- The greatest exponent. -/
def maxExponent : Int := 971

/-- Zero. -/
def zero : Binary64 := ⟨0, minExponent⟩

/-- A quotient times a power of two, as a quotient. -/
def scale (num den : Nat) (e : Int) : Nat × Nat :=
  if 0 ≤ e then (num * Nat.pow 2 e.toNat, den) else (num, den * Nat.pow 2 (-e).toNat)

/-- The whole number nearest to a quotient; of two, the even one. -/
def roundHalfEven (num den : Nat) : Nat :=
  let down := num / den
  let twice := 2 * (num % den)
  if twice < den then down
  else if den < twice then down + 1
  else down + down % 2

/-- The mantissa of a quotient for the given exponent. -/
def mantissaAt (num den : Nat) (e : Int) : Nat :=
  let (n, d) := scale num den (-e)
  roundHalfEven n d

/-- The exponent for which the mantissa of a quotient has all its digits, or the least one. -/
def exponentOf (num den : Nat) : Int :=
  let e : Int := (num.log2 : Int) - den.log2 - precision
  let (n, d) := scale num den (-e)
  max minExponent (if n < Nat.pow 2 precision * d then e else e + 1)

/-- The number nearest to a quotient; nothing if the quotient is too large. -/
def round? (num den : Nat) : Option Binary64 :=
  if num = 0 then some zero
  else
    let e := exponentOf num den
    let m := mantissaAt num den e
    let (m, e) := if m = Nat.pow 2 precision then (Nat.pow 2 (precision - 1), e + 1) else (m, e)
    if e ≤ maxExponent then some ⟨m, e⟩ else none

/-- The number as a quotient. -/
def toRatio (x : Binary64) : Nat × Nat :=
  scale x.mantissa 1 x.exponent

/-- The product, rounded. -/
def mul? (x y : Binary64) : Option Binary64 :=
  let (a, b) := x.toRatio
  let (c, d) := y.toRatio
  round? (a * c) (b * d)

/-- The quotient, rounded. -/
def div? (x y : Binary64) : Option Binary64 :=
  let (a, b) := x.toRatio
  let (c, d) := y.toRatio
  round? (a * d) (b * c)

end Binary64

end RequestAuth
