import InstructionSet.Decimal.Double
import InstructionSet.Json.Value

/-!
# Numbers in JSON text
-/

namespace InstructionSet.Json.Number

/-- The integers that are kept exactly: those of 64 bits, with or without sign. -/
def isExact (n : Int) : Bool := Int64.minValue.toInt ≤ n && n < UInt64.size

/-- A nonempty run of digits and what follows it. -/
def digits? (text : List Char) : Option (List Char × List Char) :=
  match text.span Char.isDigit with
  | ([], _) => none
  | run => some run

/-- The fraction's digits, if the text goes on with a point. -/
def fraction? : List Char → Option (List Char × List Char)
  | '.' :: rest => digits? rest
  | rest => some ([], rest)

/-- The power of ten after an exponent mark, which must end the text. -/
def power? : List Char → Option Int
  | [] => some 0
  | mark :: rest =>
      if mark = 'e' ∨ mark = 'E' then
        let (negative, rest) := match rest with
          | '-' :: rest => (true, rest)
          | '+' :: rest => (false, rest)
          | rest => (false, rest)
        match digits? rest with
        | some (run, []) =>
            let power : Int := Nat.ofDigitChars 10 run 0
            some (if negative then -power else power)
        | _ => none
      else none

/-- Minus zero is a real number, as no integer holds it. -/
def ofInteger? (negative : Bool) (magnitude : Nat) : Option Number :=
  let value : Int := if negative then -(magnitude : Int) else magnitude
  if isExact value && !(negative && magnitude == 0) then some (.integer value)
  else (Decimal.ofDouble? negative magnitude 0).map .real

def ofMagnitude? (negative : Bool) (text : List Char) : Option Number := do
  let (whole, rest) ← digits? text
  if whole.length ≠ 1 ∧ whole.head? = some '0' then none
  else if rest = [] then ofInteger? negative (Nat.ofDigitChars 10 whole 0)
  else
    let (fraction, rest) ← fraction? rest
    let power ← power? rest
    let coefficient := Nat.ofDigitChars 10 (whole ++ fraction) 0
    (Decimal.ofDouble? negative coefficient (power - fraction.length)).map .real

/-- The number that `text` denotes; `none` also for one beyond the largest double. -/
def ofChars? : List Char → Option Number
  | '-' :: rest => ofMagnitude? true rest
  | text => ofMagnitude? false text

def chars : Number → List Char
  | .integer n => if n < 0 then '-' :: Nat.toDigits 10 n.natAbs else Nat.toDigits 10 n.natAbs
  | .real x => x.chars

def text (n : Number) : String := String.ofList n.chars

end InstructionSet.Json.Number
