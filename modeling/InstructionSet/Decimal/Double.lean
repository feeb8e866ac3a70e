import InstructionSet.Decimal

/-!
# Decimals as double precision holds them

A decimal is rounded to the nearest double, and a double is named by the shortest decimal that
rounds to it. Everything is exact arithmetic on natural numbers.

A faster reader takes the digits for a double and multiplies or divides it once by a power of ten.
It finds the nearest double too where digits and power are doubles themselves, but can miss it by
one in the last place elsewhere, as with `31.245270191439438`. Decimals are not read like that here.
-/

namespace InstructionSet

/-- The number `mantissa · 2 ^ power`, zero or positive. -/
structure Double where
  mantissa : Nat
  power : Int
  deriving DecidableEq, Repr

namespace Double

/-- One more than the largest mantissa. -/
def mantissaLimit : Nat := Nat.pow 2 53

/-- The power of two of the smallest doubles. -/
def leastPower : Int := -1074

/-- The power of two of the largest doubles. -/
def greatestPower : Int := 971

/-- A decimal of `10 ^ 310` or more lies beyond all doubles. -/
def leastOverflow : Int := 310

/-- A decimal below `10 ^ -330` lies below half of the smallest positive double. -/
def greatestUnderflow : Int := -330

/-- `num / den` to the nearest natural number, a half going to the even neighbour. -/
def roundQuotient (num den : Nat) : Nat :=
  let floor := num / den
  let rest := num % den
  if 2 * rest < den ∨ (2 * rest = den ∧ floor % 2 = 0) then floor else floor + 1

/-- `num / den · base ^ power` as a quotient of natural numbers. -/
def scale (base num den : Nat) (power : Int) : Nat × Nat :=
  (num * base.pow power.toNat, den * base.pow (-power).toNat)

/-- The greatest `e` with `base ^ e ≤ num / den`, if `log` takes it of natural numbers. -/
def floorLog (base : Nat) (log : Nat → Nat) (num den : Nat) : Int :=
  let guess : Int := log num - log den
  let (low, high) := scale base den num guess
  if low ≤ high then guess else guess - 1

def decimalLog (n : Nat) : Nat := (Nat.toDigits 10 n).length - 1

/-- The double nearest to the positive number `num / den`; `none` if that is beyond the
largest. -/
def ofQuotient? (num den : Nat) : Option Double :=
  let power := max leastPower (floorLog 2 Nat.log2 num den - 52)
  let (num, den) := scale 2 num den (-power)
  let mantissa := roundQuotient num den
  let rounded : Double :=
    if mantissa = mantissaLimit then ⟨mantissa / 2, power + 1⟩ else ⟨mantissa, power⟩
  if greatestPower < rounded.power then none else some rounded

/-- The double nearest to `coefficient · 10 ^ exponent`. -/
def ofDecimal? (coefficient : Nat) (exponent : Int) : Option Double :=
  let magnitude := decimalLog coefficient + exponent
  if coefficient = 0 ∨ magnitude < greatestUnderflow then some ⟨0, leastPower⟩
  else if leastOverflow ≤ magnitude then none
  else
    let (num, den) := scale 10 coefficient 1 exponent
    ofQuotient? num den

/-- The numbers that round to a double lie between `low / den` and `high / den`, the double
itself being `mid / den`; the ends belong to them if `closed`. -/
structure Interval where
  low : Nat
  mid : Nat
  high : Nat
  den : Nat
  closed : Bool

/-- The gap below a power of two is half the gap above it. -/
def interval (x : Double) : Interval :=
  let below := if 2 * x.mantissa = mantissaLimit ∧ leastPower < x.power then 1 else 2
  let (up, den) := scale 2 1 1 (x.power - 2)
  { low := (4 * x.mantissa - below) * up
    mid := 4 * x.mantissa * up
    high := (4 * x.mantissa + 2) * up
    den
    closed := x.mantissa % 2 = 0 }

/-- `num / den` is one of the numbers of the interval. -/
def Interval.holds (i : Interval) (num den : Nat) : Bool :=
  if i.closed then i.low * den ≤ num * i.den && num * i.den ≤ i.high * den
  else i.low * den < num * i.den && num * i.den < i.high * den

/-- The multiple of `10 ^ exponent` in the interval that is nearest to its double, an even one
of two that are equally near. -/
def Interval.multiple? (i : Interval) (exponent : Int) : Option Nat :=
  let (up, down) := scale 10 1 1 exponent
  let floor := i.mid * down / (i.den * up)
  let lower := i.holds (floor * up) down
  let upper := i.holds ((floor + 1) * up) down
  if lower && upper then some (roundQuotient (i.mid * down) (i.den * up))
  else if lower then some floor
  else if upper then some (floor + 1)
  else none

/-- Looks for a multiple on `grids` successive decimal grids, each ten times finer than the one
before. -/
def Interval.search (i : Interval) (exponent : Int) : (grids : Nat) → Nat × Int
  | 0 => (i.mid / i.den, 0)
  | grids + 1 =>
      match i.multiple? exponent with
      | some coefficient => (coefficient, exponent)
      | none => i.search (exponent - 1) grids

/-- Seventeen digits tell any two doubles apart; one grid more allows for a first digit that is
carried. -/
def searchGrids : Nat := 18

/-- The shortest decimal that rounds to `x`, and of those the nearest. -/
def shortest (x : Double) : Nat × Int :=
  if x.mantissa = 0 then (0, 0)
  else
    let i := x.interval
    i.search (floorLog 10 decimalLog i.mid i.den + 1) searchGrids

end Double

/-- The decimal that names the double nearest to `± coefficient · 10 ^ exponent`; `none` if that
is beyond the largest double. -/
def Decimal.ofDouble? (negative : Bool) (coefficient : Nat) (exponent : Int) : Option Decimal :=
  (Double.ofDecimal? coefficient exponent).map fun x =>
    let (coefficient, exponent) := x.shortest
    .ofParts negative coefficient exponent

end InstructionSet
