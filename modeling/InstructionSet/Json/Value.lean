import InstructionSet.Decimal
import InstructionSet.Entries

/-!
# JSON values

Objects are lists of members in the order of the text. A value that was read has no key twice;
a value that is written may.
-/

namespace InstructionSet.Json

/-- Numbers written as integers stay exact within 64 bits. All others are doubles, each held as
the shortest decimal that names it. -/
inductive Number where
  | integer (value : Int)
  | real (value : Decimal)
  deriving DecidableEq, Repr

inductive Value where
  | null
  | bool (value : Bool)
  | number (value : Number)
  | text (value : String)
  | array (items : List Value)
  | object (members : List (String × Value))
  deriving Repr, Inhabited

/-- The two zeros are one number. -/
def Number.same : Number → Number → Bool
  | .integer m, .integer n => m == n
  | .real x, .real y => x.sameValue y
  | _, _ => false

mutual

/-- Equality of values, which disregards the order of an object's members. -/
def Value.same : Value → Value → Bool
  | .null, .null => true
  | .bool a, .bool b => a == b
  | .number m, .number n => m.same n
  | .text s, .text t => s == t
  | .array xs, .array ys => sameItems xs ys
  | .object xs, .object ys => xs.length == ys.length && sameMembers xs ys
  | _, _ => false

def sameItems : List Value → List Value → Bool
  | [], [] => true
  | x :: xs, y :: ys => x.same y && sameItems xs ys
  | _, _ => false

/-- Each of the members has an equal one under its key in `others`. -/
def sameMembers : List (String × Value) → List (String × Value) → Bool
  | [], _ => true
  | (key, x) :: rest, others =>
      (match Entries.get? key others with
        | some y => x.same y
        | none => false) && sameMembers rest others

end

instance : BEq Value := ⟨Value.same⟩

end InstructionSet.Json
