import InstructionSet.Comparison
import InstructionSet.Descriptor
import InstructionSet.Level
import InstructionSet.Opcode.Draft
import InstructionSet.Operand

/-!
# Declarations

What the documents of a set declare, before anything is laid over a template or checked.
-/

namespace InstructionSet

/-- The contents of a document set, each list in the order of declaration. -/
structure Declarations where
  types : List Descriptor := []
  classes : List Descriptor := []
  operands : List Operand := []
  levels : List (String × Level.Draft) := []
  comparisonTemplate : Comparison.Draft := {}
  comparisons : List (String × Comparison.Draft) := []
  opcodeTemplate : Opcode.Draft := {}
  opcodes : List (String × Opcode.Draft) := []

end InstructionSet
