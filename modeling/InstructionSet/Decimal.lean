/-!
# Decimal numbers and their text

A decimal is a sign, a coefficient and a power of ten. Its text has no more digits than the
coefficient needs.
-/

namespace InstructionSet

/-- The number `± coefficient · 10 ^ exponent`, in the one way that leaves no zero at the end of
the coefficient. -/
structure Decimal where
  negative : Bool
  coefficient : Nat
  exponent : Int
  trimmed : coefficient % 10 ≠ 0 ∨ (coefficient = 0 ∧ exponent = 0)
  deriving DecidableEq, Repr

namespace Decimal

/-- The coefficient without its final zeros, each of them counted in the exponent instead. -/
def trim (coefficient : Nat) (exponent : Int) : Nat × Int :=
  if coefficient = 0 then (0, 0)
  else if coefficient % 10 = 0 then trim (coefficient / 10) (exponent + 1)
  else (coefficient, exponent)
termination_by coefficient
decreasing_by omega

theorem trim_trimmed (coefficient : Nat) (exponent : Int) :
    (trim coefficient exponent).1 % 10 ≠ 0 ∨
      ((trim coefficient exponent).1 = 0 ∧ (trim coefficient exponent).2 = 0) := by
  fun_induction trim coefficient exponent with
  | case1 => simp
  | case2 _ _ _ _ ih => exact ih
  | case3 _ _ _ h => exact .inl h

def ofParts (negative : Bool) (coefficient : Nat) (exponent : Int) : Decimal where
  negative
  coefficient := (trim coefficient exponent).1
  exponent := (trim coefficient exponent).2
  trimmed := trim_trimmed coefficient exponent

/-- The same number up to the sign of zero. -/
def sameValue (x y : Decimal) : Bool :=
  x == y || (x.coefficient == 0 && y.coefficient == 0)

/-- A number is written out in full if its point falls no further than `leadingZeros` places to
the left of its first digit and no further than `wholeDigits` places to the right of it. -/
def leadingZeros : Nat := 4

@[inherit_doc leadingZeros]
def wholeDigits : Nat := 16

/-- Digits with the point written among them, at least one digit on either side. -/
def positional (digits : List Char) (exponent : Int) : List Char :=
  let point : Int := digits.length + exponent
  if 0 ≤ exponent then
    digits ++ List.replicate exponent.toNat '0' ++ ['.', '0']
  else if 0 < point then
    digits.take point.toNat ++ '.' :: digits.drop point.toNat
  else
    ['0', '.'] ++ List.replicate (-point).toNat '0' ++ digits

/-- The first digit, the others after a point, and the power of ten with its sign. -/
def scientific (digits : List Char) (exponent : Int) : List Char :=
  let power : Int := digits.length + exponent - 1
  let fraction := digits.drop 1
  digits.take 1 ++ (if fraction.isEmpty then [] else '.' :: fraction) ++
    ['e', if power < 0 then '-' else '+'] ++ Nat.toDigits 10 power.natAbs

/-- The text of the number without its sign. -/
def magnitude (x : Decimal) : List Char :=
  if x.coefficient = 0 then ['0', '.', '0']
  else
    let digits := Nat.toDigits 10 x.coefficient
    let point : Int := digits.length + x.exponent
    if -(leadingZeros : Int) ≤ point ∧ point ≤ wholeDigits then positional digits x.exponent
    else scientific digits x.exponent

def chars (x : Decimal) : List Char :=
  if x.negative then '-' :: x.magnitude else x.magnitude

end Decimal

end InstructionSet
