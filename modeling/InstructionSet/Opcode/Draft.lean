import InstructionSet.Json.Schema

/-!
# Drafts of opcodes

Opcode entries, the variants listed in them, and their template are drafts of one form, which
leave fields open.
-/

namespace InstructionSet

structure Opcode.Draft where
  opA : Setting String := .absent
  opB : Setting String := .absent
  sizes : Setting (List UInt32) := .absent
  types : Setting (List String) := .absent
  sizetype : Setting Bool := .absent
  isUnsized : Setting Bool := .absent
  variant : Setting Bool := .absent
  variants : Setting (List Opcode.Draft) := .absent
  extwords : Setting (List (List String)) := .absent
  comparison : Setting Bool := .absent
  form : Setting String := .absent
  fitsize : Setting UInt32 := .absent
  className : Setting String := .absent
  description : Setting String := .absent

namespace Opcode.Draft

/-- `entry` laid over `template`, field by field. Lists are taken whole. -/
def onto (entry template : Draft) : Draft where
  opA := entry.opA.onto template.opA
  opB := entry.opB.onto template.opB
  sizes := entry.sizes.onto template.sizes
  types := entry.types.onto template.types
  sizetype := entry.sizetype.onto template.sizetype
  isUnsized := entry.isUnsized.onto template.isUnsized
  variant := entry.variant.onto template.variant
  variants := entry.variants.onto template.variants
  extwords := entry.extwords.onto template.extwords
  comparison := entry.comparison.onto template.comparison
  form := entry.form.onto template.form
  fitsize := entry.fitsize.onto template.fitsize
  className := entry.className.onto template.className
  description := entry.description.onto template.description

/-- The draft without its variant markers. -/
def unmarked (d : Draft) : Draft := { d with variant := .absent, variants := .absent }

/-- The draft has a variant marker, set or cleared. -/
def isMarked (d : Draft) : Bool := d.variant.isPresent || d.variants.isPresent

def fields : List String :=
  ["opA", "opB", "sizes", "types", "sizetype", "unsized", "variant", "variants", "extwords",
    "comparison", "form", "fitsize", "class", "description"]

/-- Reads any field but the list of variants. -/
def put (d : Draft) (key : String) (value : Json.Value) : Except Json.Mismatch Draft :=
  match key with
  | "opA" => (Json.Reading.setting .text value).map fun opA => { d with opA }
  | "opB" => (Json.Reading.setting .text value).map fun opB => { d with opB }
  | "sizes" => (Json.Reading.setting (.list .uint32) value).map fun sizes => { d with sizes }
  | "types" => (Json.Reading.setting (.list .text) value).map fun types => { d with types }
  | "sizetype" => (Json.Reading.setting .flag value).map fun sizetype => { d with sizetype }
  | "unsized" => (Json.Reading.setting .flag value).map fun isUnsized => { d with isUnsized }
  | "variant" => (Json.Reading.setting .flag value).map fun variant => { d with variant }
  | "extwords" =>
      (Json.Reading.setting (.list (.list .text)) value).map fun extwords => { d with extwords }
  | "comparison" =>
      (Json.Reading.setting .flag value).map fun comparison => { d with comparison }
  | "form" => (Json.Reading.setting .text value).map fun form => { d with form }
  | "fitsize" => (Json.Reading.setting .uint32 value).map fun fitsize => { d with fitsize }
  | "class" => (Json.Reading.setting .text value).map fun className => { d with className }
  | "description" =>
      (Json.Reading.setting .text value).map fun description => { d with description }
  | _ => .error (.unknownField key fields)

mutual

/-- A draft is an object, or an array of the values of its first fields. -/
def reading : Json.Value → Except Json.Mismatch Draft
  | .object members => readMembers {} members
  | .array items => do
      let d ← readItems {} fields items
      if fields.length < items.length then .error (.surplusItems items.length) else .ok d
  | v => .error (.wrongType v "struct OpcodeFields")

def readMembers (d : Draft) : List (String × Json.Value) → Except Json.Mismatch Draft
  | [] => .ok d
  | (key, value) :: rest => do
      let d ←
        if key = "variants" then (readVariants value).map fun variants => { d with variants }
        else d.put key value
      readMembers d rest

def readItems (d : Draft) : List String → List Json.Value → Except Json.Mismatch Draft
  | key :: keys, value :: rest => do
      let d ←
        if key = "variants" then (readVariants value).map fun variants => { d with variants }
        else d.put key value
      readItems d keys rest
  | _, _ => .ok d

def readVariants : Json.Value → Except Json.Mismatch (Setting (List Draft))
  | .null => .ok .cleared
  | .array items => (readDrafts items).map .given
  | v => .error (.wrongType v "a sequence")

def readDrafts : List Json.Value → Except Json.Mismatch (List Draft)
  | [] => .ok []
  | item :: rest => do
      let d ← reading item
      let more ← readDrafts rest
      return d :: more

end

end Opcode.Draft

end InstructionSet
