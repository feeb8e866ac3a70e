import InstructionSet.Opcode

/-!
# Attachments of an opcode
-/

namespace InstructionSet

/-- What a listing remarks on beside an opcode's name. -/
structure Attachments where
  comparison : Bool
  extended : Bool
  sizetype : Bool
  fitSize : Bool
  deriving Repr, DecidableEq

namespace Attachments

/-- Each attachment has its bit; higher bits mean nothing. -/
def ofBits (bits : Nat) : Attachments where
  comparison := bits.testBit 0
  extended := bits.testBit 1
  sizetype := bits.testBit 2
  fitSize := bits.testBit 3

def bits (a : Attachments) : Nat :=
  a.comparison.toNat + 2 * a.extended.toNat + 4 * a.sizetype.toNat + 8 * a.fitSize.toNat

def names (a : Attachments) : List String :=
  (if a.comparison then ["comparison"] else []) ++
    (if a.extended then ["extended"] else []) ++
    (if a.sizetype then ["sizetype"] else []) ++
    (if a.fitSize then ["fit-size"] else [])

def isEmpty (a : Attachments) : Bool := a.names.isEmpty

def text (a : Attachments) : String := ", ".intercalate a.names

def of (layout : Layout) (sizetype : Bool) (traits : Traits) : Attachments where
  comparison := traits.comparison
  extended := !layout.extWords.isEmpty
  sizetype
  fitSize := traits.fitSize.isSome

end Attachments

def Opcode.attachments (o : Opcode) : Attachments := .of o.layout o.shape.sizetype o.traits

def Variant.attachments (v : Variant) : Attachments := .of v.layout v.shape.sizetype v.traits

end InstructionSet
