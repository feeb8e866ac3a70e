import InstructionSet.Json.Schema

/-!
# What can be wrong with a set of definitions

An error is kept as its cause. Its wording is a matter of `Diagnostic`, which holds the texts
that are shown.
-/

namespace InstructionSet

/-- What a rule was checked against. -/
inductive Subject where
  | comparison (id : String)
  | opcode (id : String)
  | variant (id : String) (variation : Nat)
  deriving DecidableEq, Repr

inductive Category where
  | referential
  | budget
  | variant
  | subset
  deriving DecidableEq, Repr

inductive OperandSide where
  | a
  | b
  deriving DecidableEq, Repr

/-- A broken rule. Words of extension are counted from zero. -/
inductive Breach where
  | levelMissing
  | levelUnknown (level : String)
  | operandMissing (side : OperandSide)
  | operandUnknown (side : OperandSide) (name : String)
  | sizesMissing
  | sizeUnsupported (size : UInt32) (level : String)
  | typeUnsupported (type level : String)
  | operandBudget (opA opB : String) (bits : Nat)
  | wordOperandUnknown (word : Nat) (name : String)
  | wordBudget (word bits : Nat)
  | selectorsMultiple (count : Nat)
  | variantsMissing
  | variantsTooMany (count : Nat)
  deriving DecidableEq, Repr

/-- Combined width of operands A and B. -/
def baseOperandBits : Nat := 8

/-- Combined width of the operands of one extension word. -/
def extensionWordBits : Nat := 16

/-- The most variants that one opcode may list. -/
def variantLimit : Nat := 16

structure Violation where
  subject : Subject
  breach : Breach
  deriving DecidableEq, Repr

/-- Why a root directory cannot be used. -/
inductive RootFault where
  | missing
  | notDirectory
  deriving DecidableEq, Repr

/-- Why a document cannot be used. -/
inductive LoadFault where
  | noSuchDocument
  | noSuchFile
  | notUtf8
  | notJson
  | rootNotObject
  | dataMissing
  | mappingMissing (key : String)
  | mappingNotObject (key : String)
  | templateMissing (key : String)
  | namesMissing (key : String)
  | field (key : String) (mismatch : Json.Mismatch)
  | entry (mapping id : String) (mismatch : Json.Mismatch)

inductive Error where
  | path (root : String) (fault : RootFault)
  | load (document : String) (fault : LoadFault)
  | violation (violation : Violation)

namespace Subject

/-- The kind of definition, with which the codes of its rules begin. -/
def scope : Subject → String
  | .comparison _ => "comparison"
  | .opcode _ => "opcode"
  | .variant _ _ => "opcode"

def text : Subject → String
  | .comparison id => s!"comparison '{id}'"
  | .opcode id => s!"opcode '{id}'"
  | .variant id variation => s!"opcode '{id}' variant {variation}"

end Subject

namespace OperandSide

def letter : OperandSide → String
  | .a => "A"
  | .b => "B"

def rule : OperandSide → String
  | .a => "operand-a"
  | .b => "operand-b"

end OperandSide

namespace Breach

def category : Breach → Category
  | .levelMissing => .referential
  | .levelUnknown _ => .referential
  | .operandMissing _ => .referential
  | .operandUnknown _ _ => .referential
  | .wordOperandUnknown _ _ => .referential
  | .operandBudget _ _ _ => .budget
  | .wordBudget _ _ => .budget
  | .selectorsMultiple _ => .variant
  | .variantsMissing => .variant
  | .variantsTooMany _ => .variant
  | .sizesMissing => .subset
  | .sizeUnsupported _ _ => .subset
  | .typeUnsupported _ _ => .subset

/-- The code of the rule without its scope. -/
def rule : Breach → String
  | .levelMissing => "level.missing"
  | .levelUnknown _ => "level.unknown"
  | .operandMissing side => side.rule ++ ".missing"
  | .operandUnknown side _ => side.rule ++ ".unknown"
  | .sizesMissing => "sizes.missing"
  | .sizeUnsupported _ _ => "sizes.level"
  | .typeUnsupported _ _ => "types.level"
  | .operandBudget _ _ _ => "operand-budget"
  | .wordOperandUnknown _ _ => "extword.operand-unknown"
  | .wordBudget _ _ => "extword-budget"
  | .selectorsMultiple _ => "variant-selector.multiple"
  | .variantsMissing => "variants.missing"
  | .variantsTooMany _ => "variants.too-many"

def message : Breach → String
  | .levelMissing => "no level declared"
  | .levelUnknown level => s!"level '{level}' is not defined"
  | .operandMissing side => s!"no operand {side.letter} declared"
  | .operandUnknown side name => s!"operand {side.letter} '{name}' is not defined"
  | .sizesMissing => "no sizes declared"
  | .sizeUnsupported size level => s!"size {size.toNat} is incompatible with level '{level}'"
  | .typeUnsupported type level => s!"type '{type}' is incompatible with level '{level}'"
  | .operandBudget opA opB bits =>
      s!"operands '{opA}' + '{opB}' span {bits} bits, expected exactly {baseOperandBits}"
  | .wordOperandUnknown word name =>
      s!"extension word {word} references undefined operand '{name}'"
  | .wordBudget word bits =>
      s!"extension word {word} spans {bits} bits, expected exactly {extensionWordBits}"
  | .selectorsMultiple count =>
      s!"{count} variant selector operands declared, at most one allowed"
  | .variantsMissing => "variant opcode declares no variants"
  | .variantsTooMany count => s!"{count} variants declared, at most {variantLimit} allowed"

/-- The error that the breach is when found in `subject`. -/
def error (subject : Subject) (breach : Breach) : Error := .violation ⟨subject, breach⟩

end Breach

def Violation.code (v : Violation) : String := v.subject.scope ++ "." ++ v.breach.rule

def RootFault.message : RootFault → String
  | .missing => "no such directory"
  | .notDirectory => "not a directory"

def LoadFault.message : LoadFault → String
  | .noSuchDocument => "no such document"
  | .noSuchFile => "no such file"
  | .notUtf8 => "unreadable: stream did not contain valid UTF-8"
  | .notJson => "invalid JSON"
  | .rootNotObject => "document root is not an object"
  | .dataMissing => "missing data section"
  | .mappingMissing key => s!"missing '{key}' section"
  | .mappingNotObject key => s!"'{key}' section is not an object"
  | .templateMissing key => s!"missing '{key}' template"
  | .namesMissing key => s!"missing '{key}' list"
  | .field key mismatch => s!"'{key}': {mismatch.message}"
  | .entry mapping id mismatch => s!"{mapping} entry '{id}': {mismatch.message}"

/-- An error in the words that are shown. -/
inductive Diagnostic where
  | path (root reason : String)
  | load (document reason : String)
  | violation (category : Category) (subject : Subject) (code message : String)
  deriving DecidableEq, Repr

def Category.heading : Category → String
  | .referential => "referential error"
  | .budget => "bit budget error"
  | .variant => "variant error"
  | .subset => "subset error"

namespace Diagnostic

/-- The text of a violation, without its category. -/
def violationText (subject : Subject) (code message : String) : String :=
  s!"{subject.text} [{code}]: {message}"

def text : Diagnostic → String
  | .path root reason => s!"invalid definition path '{root}': {reason}"
  | .load document reason => s!"could not load '{document}': {reason}"
  | .violation category subject code message =>
      s!"{category.heading}: {violationText subject code message}"

end Diagnostic

namespace Error

def diagnostic : Error → Diagnostic
  | .path root fault => .path root fault.message
  | .load document fault => .load document fault.message
  | .violation v => .violation v.breach.category v.subject v.code v.breach.message

def message (e : Error) : String := e.diagnostic.text

end Error

end InstructionSet
