import InstructionSet.Declarations.Load

/-!
# Building document sets in memory

A builder gathers entries and templates and writes the documents of a set: the six required
ones, the opcodes going to a fragment.
-/

namespace InstructionSet

structure Builder where
  types : List (String × Json.Value) := []
  classes : List (String × Json.Value) := []
  operands : List (String × Json.Value) := []
  levels : List (String × Json.Value) := []
  comparisonTemplate : Json.Value := .object []
  comparisons : List (String × Json.Value) := []
  opcodeTemplate : Json.Value := .object []
  opcodes : List (String × Json.Value) := []
  fragment : String := "opcodes_main"

namespace Builder

inductive Kind where
  | scalarType
  | opcodeClass
  | operand
  | level
  | comparison
  | opcode
  deriving DecidableEq, Repr

inductive Call where
  | entry (kind : Kind) (name : String) (value : Json.Value)
  | comparisonTemplate (value : Json.Value)
  | opcodeTemplate (value : Json.Value)
  | fragment (name : String)

/-- Adds an entry; one of the same name is replaced in its place. -/
def add (b : Builder) (kind : Kind) (name : String) (value : Json.Value) : Builder :=
  match kind with
  | .scalarType => { b with types := Entries.put (name, value) b.types }
  | .opcodeClass => { b with classes := Entries.put (name, value) b.classes }
  | .operand => { b with operands := Entries.put (name, value) b.operands }
  | .level => { b with levels := Entries.put (name, value) b.levels }
  | .comparison => { b with comparisons := Entries.put (name, value) b.comparisons }
  | .opcode => { b with opcodes := Entries.put (name, value) b.opcodes }

def call (b : Builder) : Call → Builder
  | .entry kind name value => b.add kind name value
  | .comparisonTemplate value => { b with comparisonTemplate := value }
  | .opcodeTemplate value => { b with opcodeTemplate := value }
  | .fragment name => { b with fragment := name }

def empty : Builder := {}

/-- A valid set in which an empty comparison or opcode entry is valid too. -/
def minimal : Builder where
  types := [("B", .object [("bits", Json.ofNat 8)]), ("W", .object [("bits", Json.ofNat 16)])]
  classes := [("alu", .object [("description", .text "arithmetic")])]
  operands := [("r", .object [("bits", Json.ofNat 4), ("type", .text "register")])]
  levels :=
    [("L0", .object [("sizes", .array [Json.ofNat 8]), ("types", .array [.text "B"]),
      ("addr", Json.ofNat 0)])]
  comparisonTemplate :=
    .object [("level", .text "L0"), ("opA", .text "r"), ("opB", .text "r"),
      ("sizes", .array [Json.ofNat 8]), ("types", .array [.text "B"])]
  opcodeTemplate := .object [("opA", .text "r"), ("opB", .text "r")]

/-- A mapping with its end marker. -/
def terminated (entries : List (String × Json.Value)) : Json.Value :=
  .object (Entries.put (Document.endMarker, .null) entries)

def document (members : List (String × Json.Value)) : Json.Value :=
  .object [(Document.dataKey, .object members)]

open Declarations in
/-- The documents in the order in which they are written. -/
def documents (b : Builder) : List (String × Json.Value) :=
  [(typesName, document [(typesName, terminated b.types)]),
    (classesName, document [(classesName, terminated b.classes)]),
    (operandsName, document [(operandsName, terminated b.operands)]),
    (levelsName, document [(levelsName, terminated b.levels)]),
    (comparisonsName, document [(templateKey, b.comparisonTemplate),
      (comparisonsName, terminated b.comparisons)]),
    (opcodesName, document [(templateKey, b.opcodeTemplate),
      (fragmentsKey, .array [.text b.fragment])]),
    (b.fragment, document [(opcodesName, terminated b.opcodes)])]

/-- A fragment named like a required document takes its place. -/
def build (b : Builder) : MemoryStore :=
  b.documents.foldl (fun s entry => s.insertValue entry.1 entry.2) {}

end Builder

end InstructionSet
