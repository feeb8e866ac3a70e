import InstructionSet.Comparison
import InstructionSet.Error
import InstructionSet.Level
import InstructionSet.Opcode
import InstructionSet.Operand
import InstructionSet.Table

/-!
# Checks against the catalog of levels and operands

Comparisons and opcodes refer to levels and operands by name. A check answers with the first
rule that is broken, in a fixed order of rules.
-/

namespace InstructionSet

structure Catalog where
  levels : Table Level
  operands : Table Operand

namespace Catalog

/-- The operand that a draft names on one side. -/
def operand (c : Catalog) (side : OperandSide) (name : Setting String) :
    Except Breach Operand :=
  match name.getD "" with
  | "" => .error (.operandMissing side)
  | name =>
      match c.operands.get? name with
      | some operand => .ok operand
      | none => .error (.operandUnknown side name)

def level (c : Catalog) (name : Setting String) : Except Breach Level :=
  match name.getD "" with
  | "" => .error .levelMissing
  | name =>
      match c.levels.get? name with
      | some level => .ok level
      | none => .error (.levelUnknown name)

/-- The sizes of a comparison: there are some, and its level has them all. -/
def checkSizes (level : Level) (sizes : List UInt32) : Except Breach Unit :=
  if sizes.isEmpty then .error .sizesMissing
  else
    match sizes.find? fun size => !level.supportsSize size with
    | some size => .error (.sizeUnsupported size level.name)
    | none => .ok ()

/-- The types of a comparison: its level has them all. -/
def checkTypes (level : Level) (types : List String) : Except Breach Unit :=
  match types.find? fun type => !level.supportsType type with
  | some type => .error (.typeUnsupported type level.name)
  | none => .ok ()

/-- The comparison of a draft that keeps all rules. -/
def comparison (c : Catalog) (id : String) (d : Comparison.Draft) :
    Except Breach Comparison := do
  let level ← c.level d.level
  let opA ← c.operand .a d.opA
  let opB ← c.operand .b d.opB
  let sizes := unique (d.sizes.getD [])
  let types := unique (d.types.getD [])
  checkSizes level sizes
  checkTypes level types
  return {
    name := id
    level := level.name
    opA := opA.name
    opB := opB.name
    sizes
    types
    form := d.form.getD ""
    description := d.description.value? }

/-- The combined width of operands. -/
def width (operands : List Operand) : Nat :=
  operands.foldl (fun total operand => total + operand.bits.toNat) 0

/-- The operand that extension word number `word` names. -/
def wordOperand (c : Catalog) (word : Nat) (name : String) : Except Breach Operand :=
  match c.operands.get? name with
  | some operand => .ok operand
  | none => .error (.wordOperandUnknown word name)

/-- The operands of extension word number `word`, which fill it. -/
def wordOperands (c : Catalog) (word : Nat) (names : List String) :
    Except Breach (List Operand) := do
  let operands ← names.mapM (c.wordOperand word)
  if width operands = extensionWordBits then .ok operands
  else .error (.wordBudget word (width operands))

/-- The operands of the extension words from number `word` on, each word's before the next. -/
def extensionOperands (c : Catalog) (word : Nat) :
    List (List String) → Except Breach (List Operand)
  | [] => .ok []
  | names :: rest => do
      let operands ← c.wordOperands word names
      let more ← c.extensionOperands (word + 1) rest
      return operands ++ more

/-- The base operands, which fill the operand byte. -/
def checkBase (opA opB : Operand) : Except Breach Unit :=
  if width [opA, opB] = baseOperandBits then .ok ()
  else .error (.operandBudget opA.name opB.name (width [opA, opB]))

/-- All operands of an opcode, of which one at most is a selector. -/
def checkSelectors (operands : List Operand) : Except Breach Unit :=
  let selectors := operands.countP Operand.isSelector
  if 1 < selectors then .error (.selectorsMultiple selectors) else .ok ()

/-- The variants of a draft: one marked as variant lists some, and not too many. -/
def checkVariants (d : Opcode.Draft) : Except Breach Unit :=
  let count := (d.variants.getD []).length
  if d.variant.getD false then
    if count = 0 then .error .variantsMissing
    else if variantLimit < count then .error (.variantsTooMany count)
    else .ok ()
  else .ok ()

/-- The operand layout of an opcode or variant that keeps all rules. -/
def layout (c : Catalog) (d : Opcode.Draft) : Except Breach Layout := do
  let opA ← c.operand .a d.opA
  let opB ← c.operand .b d.opB
  checkBase opA opB
  let extension ← c.extensionOperands 0 (d.extwords.getD [])
  checkSelectors (opA :: opB :: extension)
  checkVariants d
  return { opA := opA.name, opB := opB.name, extWords := d.extwords.getD [] }

end Catalog

end InstructionSet
