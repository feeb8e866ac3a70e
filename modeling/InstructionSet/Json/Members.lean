import InstructionSet.Json.Value

/-!
# Members of a written record
-/

namespace InstructionSet.Json

def ofUInt32 (n : UInt32) : Value := .number (.integer n.toNat)

def ofNat (n : Nat) : Value := .number (.integer n)

def ofTexts (texts : List String) : Value := .array (texts.map .text)

def ofSizes (sizes : List UInt32) : Value := .array (sizes.map ofUInt32)

/-- The member of a field that is left out where it has no value. -/
def member? {α : Type} (key : String) (encode : α → Value) (value : Option α) :
    List (String × Value) :=
  (value.map fun x => (key, encode x)).toList

end InstructionSet.Json
