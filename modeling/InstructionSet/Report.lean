import InstructionSet.Fingerprint

/-!
# Reports on a compiled definition

The text report counts the tables and lists every opcode with its forms. The JSON report holds
the tables and the forms in groups, one for each plain opcode and one for each variant.
-/

namespace InstructionSet

/-- The name of an opcode, and its attachments if it has any. -/
def Opcode.heading (o : Opcode) : String :=
  if o.attachments.isEmpty then o.name else s!"{o.name} ({o.attachments.text})"

namespace Definition

/-- The sizes of the tables with their labels. -/
def counts (d : Definition) : List (Nat × String) :=
  [(d.types.size, "TypeDefs"), (d.classes.size, "ClassDefs"), (d.operands.size, "OperandDefs"),
    (d.levels.size, "LevelDefs"), (d.comparisons.size, "ComparisonDefs"),
    (d.opcodes.size, "OpcodeDefs")]

def summaryLines (d : Definition) : List String :=
  "Parsed:" :: d.counts.map (fun (count, label) => s!"\t{count} {label}") ++
    ["Fingerprint: " ++ d.fingerprint.text]

def formLines (d : Definition) (o : Opcode) : List String :=
  match o.shape with
  | .plain _ => (o.mnemonic.forms d.comparisons).map fun form => "\t" ++ form
  | .variantBearing variants =>
      variants.flatMap fun v =>
        (v.mnemonic.forms d.comparisons).map fun form => s!"\t[{v.variation}] {form}"

def listingLines (d : Definition) : List String :=
  d.opcodes.entries.flatMap fun o => o.heading :: d.formLines o

/-- The text report; a quiet one leaves the listing out. -/
def report (d : Definition) (quiet : Bool) : String :=
  let lines := if quiet then d.summaryLines else d.summaryLines ++ d.listingLines
  String.join (lines.map fun line => line ++ "\n")

end Definition

/-- The forms of a plain opcode, or of one variant. -/
structure FormGroup where
  opcode : String
  variation : Option Nat
  forms : List String
  deriving Repr, DecidableEq

def FormGroup.json (g : FormGroup) : Json.Value :=
  .object (("opcode", .text g.opcode) :: Json.member? "variation" Json.ofNat g.variation ++
    [("forms", Json.ofTexts g.forms)])

namespace Definition

def opcodeGroups (d : Definition) (o : Opcode) : List FormGroup :=
  match o.shape with
  | .plain _ => [⟨o.name, none, o.mnemonic.forms d.comparisons⟩]
  | .variantBearing variants =>
      variants.map fun v => ⟨o.name, some v.variation, v.mnemonic.forms d.comparisons⟩

def formGroups (d : Definition) : List FormGroup := d.opcodes.entries.flatMap d.opcodeGroups

def reportJson (d : Definition) : Json.Value :=
  .object [("fingerprint", d.fingerprint.json), ("definition", d.json),
    ("forms", .array (d.formGroups.map FormGroup.json))]

end Definition

end InstructionSet
