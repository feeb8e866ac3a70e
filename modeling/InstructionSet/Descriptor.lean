import InstructionSet.Json.Members

/-!
# Descriptors of scalar types and opcode classes

Both are taken over as the documents give them.
-/

namespace InstructionSet

structure Descriptor where
  name : String
  body : Json.Value
  deriving Repr, BEq

instance : Named Descriptor := ⟨Descriptor.name⟩

def Descriptor.json (d : Descriptor) : Json.Value :=
  .object [("name", .text d.name), ("descriptor", d.body)]

end InstructionSet
