import InstructionSet.Declarations
import InstructionSet.Form
import InstructionSet.Opcode.Attachments
import InstructionSet.Opcode.Variants

/-!
# Compiled definitions

Compiling declarations lays each comparison and opcode over its template, checks it, and
resolves variants. The first broken rule ends it.
-/

namespace InstructionSet

/-- An instruction set that keeps all rules. -/
structure Definition where
  types : Table Descriptor
  classes : Table Descriptor
  operands : Table Operand
  levels : Table Level
  comparisons : Table Comparison
  opcodes : Table Opcode

namespace Definition

instance : BEq Definition := ⟨fun d e =>
  d.types == e.types && d.classes == e.classes && d.operands == e.operands &&
    d.levels == e.levels && d.comparisons == e.comparisons && d.opcodes == e.opcodes⟩

def json (d : Definition) : Json.Value :=
  .object [
    ("types", .array (d.types.entries.map Descriptor.json)),
    ("classes", .array (d.classes.entries.map Descriptor.json)),
    ("operands", .array (d.operands.entries.map Operand.json)),
    ("levels", .array (d.levels.entries.map Level.json)),
    ("comparisons", .array (d.comparisons.entries.map Comparison.json)),
    ("opcodes", .array (d.opcodes.entries.map Opcode.json))]

def opcode? (d : Definition) (name : String) : Option Opcode := d.opcodes.get? name

end Definition

namespace Catalog

/-- The shape of an opcode from its merged draft. -/
def shape (c : Catalog) (id : String) (d : Opcode.Draft) : Outcome Shape :=
  if d.variant.getD false then do
    let variants ← c.variants id d
    return .variantBearing variants
  else do
    Outcome.warnIf d.variants.value?.isSome (.variantsUnused id)
    return .plain (.ofDraft d)

/-- The opcode that its merged draft describes. -/
def opcode (c : Catalog) (classes : Table Descriptor) (id : String) (d : Opcode.Draft) :
    Outcome Opcode := do
  let layout ← (c.layout d).mapError (Breach.error (.opcode id))
  if let some className := d.className.value? then
    Outcome.warnIf (!classes.contains className) (.classUndefined id className)
  let shape ← c.shape id d
  return { name := id, layout, shape, traits := .ofDraft d }

end Catalog

namespace Declarations

def catalog (r : Declarations) : Catalog where
  levels := Level.accumulate r.levels
  operands := .ofList r.operands

def compile (r : Declarations) : Outcome Definition := do
  let classes := Table.ofList r.classes
  let comparisons ← (r.comparisons.mapM fun (id, entry) =>
    (r.catalog.comparison id (entry.onto r.comparisonTemplate)).mapError
      (Breach.error (.comparison id)) : Except Error _)
  let opcodes ← r.opcodes.mapM fun (id, entry) =>
    r.catalog.opcode classes id (entry.onto r.opcodeTemplate)
  return {
    types := .ofList r.types
    classes
    operands := r.catalog.operands
    levels := r.catalog.levels
    comparisons := .ofList comparisons
    opcodes := .ofList opcodes }

end Declarations

end InstructionSet
