import InstructionSet.Json.Members
import InstructionSet.Json.Schema

/-!
# Operands

An operand is an encoded field of fixed width. Beside its width and kind it carries whatever
else its entry says, in the order of the entry.
-/

namespace InstructionSet

structure Operand where
  name : String
  bits : UInt32
  kind : Option String := none
  attributes : List (String × Json.Value) := []
  deriving Repr

namespace Operand

instance : Named Operand := ⟨Operand.name⟩

/-- The order of the attributes makes no difference. -/
instance : BEq Operand := ⟨fun x y =>
  x.name == y.name && x.bits == y.bits && x.kind == y.kind &&
    Json.Value.object x.attributes == Json.Value.object y.attributes⟩

/-- Operands of this kind choose the variant of an opcode. -/
def selectorKind : String := "variant"

def isSelector (operand : Operand) : Bool := operand.kind == some selectorKind

/-- An entry of which some members have been read. -/
structure Entry where
  bits : Option UInt32 := none
  kind : Option String := none
  attributes : List (String × Json.Value) := []

/-- Every member but the width and the kind is an attribute. -/
def Entry.read (e : Entry) (key : String) (value : Json.Value) : Except Json.Mismatch Entry :=
  if key = "bits" then (Json.Reading.uint32 value).map fun bits => { e with bits := some bits }
  else if key = "type" then
    (Json.Reading.optional .text value).map fun kind => { e with kind }
  else .ok { e with attributes := e.attributes ++ [(key, value)] }

/-- The operand called `name` whose entry is the value read. -/
def reading (name : String) : Json.Reading Operand
  | .object members => do
      let e ← members.foldlM (fun (e : Entry) member => e.read member.1 member.2) {}
      match e.bits with
      | some bits => .ok { name, bits, kind := e.kind, attributes := e.attributes }
      | none => .error (.missingField "bits")
  | v => .error (.wrongType v "struct OperandDef")

/-- Attributes follow the members of every operand, and one of them may be called `name` too. -/
def json (operand : Operand) : Json.Value :=
  .object (("name", .text operand.name) :: ("bits", Json.ofUInt32 operand.bits) ::
    Json.member? "type" .text operand.kind ++ operand.attributes)

end Operand

end InstructionSet
