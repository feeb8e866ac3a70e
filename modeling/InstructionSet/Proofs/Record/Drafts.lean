import InstructionSet.Comparison
import InstructionSet.Opcode.Draft
import InstructionSet.Proofs.Record.Schema

/-!
# Schemas of drafts

The drafts of comparisons have seven fields, those of opcodes fourteen. A draft laid over another
keeps the settings of both field by field.
-/

namespace InstructionSet

/-! ## Comparisons -/

inductive Comparison.Field where
  | level
  | opA
  | opB
  | sizes
  | types
  | form
  | description
  deriving DecidableEq

namespace Comparison.Field

def all : List Field := [level, opA, opB, sizes, types, form, description]

def key : Field → String
  | level => "level"
  | opA => "opA"
  | opB => "opB"
  | sizes => "sizes"
  | types => "types"
  | form => "form"
  | description => "description"

def kind : Field → Schema.Kind
  | level | opA | opB | form | description => .text
  | sizes => .list .uint32
  | types => .list .text

end Comparison.Field

namespace Comparison.Draft

def setting (d : Draft) : (f : Field) → Setting (f.kind.Data Draft)
  | .level => d.level
  | .opA => d.opA
  | .opB => d.opB
  | .sizes => d.sizes
  | .types => d.types
  | .form => d.form
  | .description => d.description

def ofSettings (settings : (f : Field) → Setting (f.kind.Data Draft)) : Draft where
  level := settings .level
  opA := settings .opA
  opB := settings .opB
  sizes := settings .sizes
  types := settings .types
  form := settings .form
  description := settings .description

def schema : Schema Draft where
  Field := Field
  fields := Field.all
  mem_fields f := by cases f <;> decide
  key := Field.key
  nodup_keys := by decide
  kind := Field.kind
  settings := {
    toFun := setting
    invFun := ofSettings
    left_inv := fun _ => rfl
    right_inv := fun settings => by
      funext f
      cases f <;> rfl }

theorem keys_schema : schema.keys = fields := rfl

theorem overlays_onto : schema.Overlays onto := by
  intro entry template f
  cases f <;> rfl

theorem blank_default : schema.Blank {} := by
  intro f
  cases f <;> rfl

end Comparison.Draft

/-! ## Opcodes -/

inductive Opcode.Field where
  | opA
  | opB
  | sizes
  | types
  | sizetype
  | isUnsized
  | variant
  | variants
  | extwords
  | comparison
  | form
  | fitsize
  | className
  | description
  deriving DecidableEq

namespace Opcode.Field

def all : List Field :=
  [opA, opB, sizes, types, sizetype, isUnsized, variant, variants, extwords, comparison, form,
    fitsize, className, description]

def key : Field → String
  | opA => "opA"
  | opB => "opB"
  | sizes => "sizes"
  | types => "types"
  | sizetype => "sizetype"
  | isUnsized => "unsized"
  | variant => "variant"
  | variants => "variants"
  | extwords => "extwords"
  | comparison => "comparison"
  | form => "form"
  | fitsize => "fitsize"
  | className => "class"
  | description => "description"

def kind : Field → Schema.Kind
  | opA | opB | form | className | description => .text
  | sizetype | isUnsized | variant | comparison => .flag
  | fitsize => .uint32
  | sizes => .list .uint32
  | types => .list .text
  | extwords => .list (.list .text)
  | variants => .list .nested

end Opcode.Field

namespace Opcode.Draft

def setting (d : Draft) : (f : Field) → Setting (f.kind.Data Draft)
  | .opA => d.opA
  | .opB => d.opB
  | .sizes => d.sizes
  | .types => d.types
  | .sizetype => d.sizetype
  | .isUnsized => d.isUnsized
  | .variant => d.variant
  | .variants => d.variants
  | .extwords => d.extwords
  | .comparison => d.comparison
  | .form => d.form
  | .fitsize => d.fitsize
  | .className => d.className
  | .description => d.description

def ofSettings (settings : (f : Field) → Setting (f.kind.Data Draft)) : Draft where
  opA := settings .opA
  opB := settings .opB
  sizes := settings .sizes
  types := settings .types
  sizetype := settings .sizetype
  isUnsized := settings .isUnsized
  variant := settings .variant
  variants := settings .variants
  extwords := settings .extwords
  comparison := settings .comparison
  form := settings .form
  fitsize := settings .fitsize
  className := settings .className
  description := settings .description

def schema : Schema Draft where
  Field := Field
  fields := Field.all
  mem_fields f := by cases f <;> decide
  key := Field.key
  nodup_keys := by decide
  kind := Field.kind
  settings := {
    toFun := setting
    invFun := ofSettings
    left_inv := fun d => by
      cases d
      rfl
    right_inv := fun settings => by
      funext f
      cases f <;> rfl }

theorem keys_schema : schema.keys = fields := rfl

theorem overlays_onto : schema.Overlays onto := by
  intro entry template f
  cases f <;> rfl

theorem blank_default : schema.Blank {} := by
  intro f
  cases f <;> rfl

end Opcode.Draft

end InstructionSet
