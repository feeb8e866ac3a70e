import InstructionSet.Json.Members
import InstructionSet.Json.Schema
import InstructionSet.Entries

/-!
# Comparisons

A comparison is a predicate on two operands at a level. Entries and their template are drafts,
which leave fields open.
-/

namespace InstructionSet

structure Comparison where
  name : String
  level : String
  opA : String
  opB : String
  sizes : List UInt32
  types : List String
  form : String
  description : Option String
  deriving Repr, DecidableEq

structure Comparison.Draft where
  level : Setting String := .absent
  opA : Setting String := .absent
  opB : Setting String := .absent
  sizes : Setting (List UInt32) := .absent
  types : Setting (List String) := .absent
  form : Setting String := .absent
  description : Setting String := .absent
  deriving Repr, DecidableEq

namespace Comparison

instance : Named Comparison := ⟨Comparison.name⟩

def json (c : Comparison) : Json.Value :=
  .object ([("name", .text c.name), ("level", .text c.level), ("opA", .text c.opA),
    ("opB", .text c.opB), ("sizes", Json.ofSizes c.sizes), ("types", Json.ofTexts c.types),
    ("form", .text c.form)] ++ Json.member? "description" .text c.description)

namespace Draft

/-- `entry` laid over `template`, field by field. -/
def onto (entry template : Draft) : Draft where
  level := entry.level.onto template.level
  opA := entry.opA.onto template.opA
  opB := entry.opB.onto template.opB
  sizes := entry.sizes.onto template.sizes
  types := entry.types.onto template.types
  form := entry.form.onto template.form
  description := entry.description.onto template.description

def fields : List String := ["level", "opA", "opB", "sizes", "types", "form", "description"]

def put (d : Draft) (key : String) (value : Json.Value) : Except Json.Mismatch Draft :=
  match key with
  | "level" => (Json.Reading.setting .text value).map fun level => { d with level }
  | "opA" => (Json.Reading.setting .text value).map fun opA => { d with opA }
  | "opB" => (Json.Reading.setting .text value).map fun opB => { d with opB }
  | "sizes" => (Json.Reading.setting (.list .uint32) value).map fun sizes => { d with sizes }
  | "types" => (Json.Reading.setting (.list .text) value).map fun types => { d with types }
  | "form" => (Json.Reading.setting .text value).map fun form => { d with form }
  | "description" =>
      (Json.Reading.setting .text value).map fun description => { d with description }
  | _ => .error (.unknownField key fields)

def reading : Json.Reading Draft := .record "struct ComparisonFields" fields {} put

end Draft

end Comparison

end InstructionSet
