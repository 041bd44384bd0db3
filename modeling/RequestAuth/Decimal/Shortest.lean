import RequestAuth.Decimal.Binary64

/-!
# Shortest decimals

Many decimals round to the same number of double precision. `Shortest.ofBinary` finds the one on
the coarsest grid of powers of ten that has such a decimal; of two on that grid it takes the
nearer.
-/

namespace RequestAuth.Shortest

/-- The number `digits · 10 ^ exponent`. -/
structure Decimal where
  /-- The digits, as a number. -/
  digits : Nat
  /-- The power of ten of the last digit. -/
  exponent : Int
  deriving DecidableEq, Repr

/-- The decimals that round to a number: between two bounds, all counted in quarters of the number's
last binary digit. -/
structure Interval where
  /-- The lower bound. -/
  low : Nat
  /-- The number itself. -/
  value : Nat
  /-- The upper bound. -/
  high : Nat
  /-- Whether the bounds round to the number too. -/
  closed : Bool
  /-- The power of two of a quarter of the last digit. -/
  exponent : Int
  deriving DecidableEq, Repr

/-- The decimals that round to a positive number. -/
def Interval.ofBinary (x : Binary64) : Interval :=
  let narrow := x.mantissa = Nat.pow 2 (Binary64.precision - 1) ∧ Binary64.minExponent < x.exponent
  { low := 4 * x.mantissa - if narrow then 1 else 2
    value := 4 * x.mantissa
    high := 4 * x.mantissa + 2
    closed := x.mantissa % 2 = 0
    exponent := x.exponent - 2 }

/-- The quotient by which a quarter of the last digit is measured on the grid of `10 ^ k`. -/
def Interval.unit (interval : Interval) (k : Int) : Nat × Nat :=
  let (n, d) := Binary64.scale 1 1 interval.exponent
  if 0 ≤ k then (n, d * Nat.pow 10 k.toNat) else (n * Nat.pow 10 (-k).toNat, d)

/-- Whether `digits · 10 ^ k` rounds to the number. -/
def Interval.holds (interval : Interval) (k : Int) (digits : Nat) : Bool :=
  let (n, d) := interval.unit k
  let point := digits * d
  if interval.closed then interval.low * n ≤ point ∧ point ≤ interval.high * n
  else interval.low * n < point ∧ point < interval.high * n

/-- The point on the grid of `10 ^ k` that rounds to the number, if there is one. -/
def Interval.onGrid? (interval : Interval) (k : Int) : Option Decimal :=
  let (n, d) := interval.unit k
  let below := interval.value * n / d
  match interval.holds k below, interval.holds k (below + 1) with
  | true, true =>
    let rest := 2 * (interval.value * n % d)
    let up := d < rest ∨ (rest = d ∧ below % 2 = 1)
    some ⟨if up then below + 1 else below, k⟩
  | true, false => some ⟨below, k⟩
  | false, true => some ⟨below + 1, k⟩
  | false, false => none

/-- The finest grid that is ever needed. -/
def finest : Int := -324

/-- The first point that rounds to the number, from the grid `steps` powers of ten above the finest
one down. -/
def search (interval : Interval) : Nat → Option Decimal
  | 0 => interval.onGrid? finest
  | steps + 1 =>
    match interval.onGrid? (finest + steps + 1) with
    | some decimal => some decimal
    | none => search interval steps

/-- The shortest decimal that rounds to a number. -/
def ofBinary (x : Binary64) : Decimal :=
  if x.mantissa = 0 then ⟨0, 0⟩
  else (search (.ofBinary x) 633).getD ⟨0, 0⟩

end RequestAuth.Shortest
