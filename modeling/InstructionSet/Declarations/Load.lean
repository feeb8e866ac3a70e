import InstructionSet.Declarations
import InstructionSet.Outcome
import InstructionSet.Store

/-!
# Loading declarations from a store

Six documents are required, and the one on opcodes may list fragments with further opcodes. An
opcode declared again takes the place of the earlier one.
-/

namespace InstructionSet.Declarations

def typesName : String := "types"

def classesName : String := "classes"

def operandsName : String := "operands"

def levelsName : String := "levels"

def comparisonsName : String := "comparisons"

def opcodesName : String := "opcodes"

/-- The names of the required documents, in the order in which they are loaded. Each is also the
key of the document's mapping. -/
def requiredNames : List String :=
  [typesName, classesName, operandsName, levelsName, comparisonsName, opcodesName]

def templateKey : String := "default"

def fragmentsKey : String := "opcodedefs"

def descriptors (d : Document) (key : String) : Except Error (List Descriptor) := do
  let members ← d.mapping key
  return (Document.entryMembers members).map fun (name, body) => { name, body }

def operandList (d : Document) : Except Error (List Operand) := do
  let entries ← d.entries operandsName (← d.mapping operandsName) Operand.reading
  return entries.map Prod.snd

def levelList (d : Document) : Except Error (List (String × Level.Draft)) := do
  d.entries levelsName (← d.mapping levelsName) fun _ => Level.Draft.reading

def comparisonList (d : Document) : Except Error (List (String × Comparison.Draft)) := do
  d.entries comparisonsName (← d.mapping comparisonsName) fun _ => Comparison.Draft.reading

/-- The opcodes of a mapping in the opcode document or in a fragment. -/
def opcodeEntries (d : Document) (members : List (String × Json.Value)) :
    Except Error (List (String × Opcode.Draft)) :=
  d.entries opcodesName members fun _ => Opcode.Draft.reading

/-- Adds the opcodes that `document` declares to those declared so far. -/
def declareAll (document : String) (known : Table (String × Opcode.Draft)) :
    List (String × Opcode.Draft) → Outcome (Table (String × Opcode.Draft))
  | [] => pure known
  | entry :: rest => do
      Outcome.warnIf (known.contains entry.1) (.opcodeRedefined entry.1 document)
      declareAll document (known.insert entry) rest

/-- Adds the opcodes of one fragment to those declared so far. -/
def declareFragment (store : Store) (known : Table (String × Opcode.Draft)) (name : String) :
    Outcome (Table (String × Opcode.Draft)) := do
  let fragment ← store name
  let entries ← opcodeEntries fragment (← fragment.mapping opcodesName)
  declareAll fragment.name known entries

/-- The opcodes of the opcode document, then those of its fragments as they are listed. -/
def opcodeList (store : Store) (d : Document) : Outcome (List (String × Opcode.Draft)) := do
  let inline ← d.optionalMapping opcodesName
  let fragments ← d.nameList fragmentsKey
  if inline.isNone && fragments.isNone then
    (d.fail (.namesMissing fragmentsKey) : Except Error Unit)
  let entries ← opcodeEntries d (inline.getD [])
  let known ← declareAll d.name .empty entries
  let known ← (fragments.getD []).foldlM (declareFragment store) known
  return known.entries

/-- The declarations of the set in `store`. Comparisons and opcodes are read before the other
documents, so a fault in them is reported first. -/
def load (store : Store) : Outcome Declarations := do
  let types ← store typesName
  let classes ← store classesName
  let operands ← store operandsName
  let levels ← store levelsName
  let comparisons ← store comparisonsName
  let opcodes ← store opcodesName
  let comparisonTemplate ← comparisons.record templateKey Comparison.Draft.reading
  let comparisonEntries ← comparisonList comparisons
  let opcodeTemplate ← opcodes.record templateKey Opcode.Draft.reading
  let opcodeEntries ← opcodeList store opcodes
  return {
    types := ← descriptors types typesName
    classes := ← descriptors classes classesName
    operands := ← operandList operands
    levels := ← levelList levels
    comparisonTemplate
    comparisons := comparisonEntries
    opcodeTemplate
    opcodes := opcodeEntries }

/-- The names of the fragments that the opcode document lists, as far as it can be read. -/
def fragmentNames (store : Store) : List String :=
  match store opcodesName >>= fun d => d.nameList fragmentsKey with
  | .ok (some names) => names
  | _ => []

end InstructionSet.Declarations
