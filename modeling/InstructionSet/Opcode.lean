import InstructionSet.Json.Members
import InstructionSet.Opcode.Draft
import InstructionSet.Unique

/-!
# Opcodes

An opcode is plain, with sizes or without, or bears variants, each of which is a plain
definition of its own under the opcode's name.
-/

namespace InstructionSet

/-- Names of the operands: the base pair, and those of each extension word. -/
structure Layout where
  opA : String
  opB : String
  extWords : List (List String)
  deriving Repr, DecidableEq

namespace Layout

/-- Every operand name, the base pair first. -/
def all (l : Layout) : List String := l.opA :: l.opB :: l.extWords.flatten

def members (l : Layout) : List (String × Json.Value) :=
  [("opA", .text l.opA), ("opB", .text l.opB)] ++
    if l.extWords.isEmpty then [] else [("ext_words", .array (l.extWords.map Json.ofTexts))]

def json (l : Layout) : Json.Value := .object l.members

end Layout

/-- Sizes and types share one name space in forms: the sizes first, in decimal. -/
def associateSizetype (sizes : List UInt32) (types : List String) : List String :=
  unique (sizes.map (fun size => toString size.toNat) ++ types)

/-- The shape of an opcode without variants. The types of a sized one include its sizes if
`sizetype` is set. -/
inductive PlainShape where
  | sized (sizes : List UInt32) (types : List String) (sizetype : Bool)
  | unsized (types : List String)
  deriving Repr, DecidableEq

namespace PlainShape

def ofDraft (d : Opcode.Draft) : PlainShape :=
  let types := d.types.getD []
  if d.isUnsized.getD false then .unsized (unique types)
  else
    let sizes := unique (d.sizes.getD [])
    if d.sizetype.getD false then .sized sizes (associateSizetype sizes types) true
    else .sized sizes (unique types) false

def types : PlainShape → List String
  | .sized _ types _ => types
  | .unsized types => types

def sizetype : PlainShape → Bool
  | .sized _ _ sizetype => sizetype
  | .unsized _ => false

def members : PlainShape → List (String × Json.Value)
  | .sized sizes types sizetype =>
      [("shape", .text "sized"), ("sizes", Json.ofSizes sizes), ("types", Json.ofTexts types),
        ("sizetype", .bool sizetype)]
  | .unsized types => [("shape", .text "unsized"), ("types", Json.ofTexts types)]

end PlainShape

/-- What opcodes and variants have beside operands and shape. -/
structure Traits where
  comparison : Bool
  form : String
  fitSize : Option UInt32
  className : Option String
  description : Option String
  deriving Repr, DecidableEq

namespace Traits

def ofDraft (d : Opcode.Draft) : Traits where
  comparison := d.comparison.getD false
  form := d.form.getD ""
  fitSize := d.fitsize.value?
  className := d.className.value?
  description := d.description.value?

def members (t : Traits) : List (String × Json.Value) :=
  [("comparison", .bool t.comparison), ("form", .text t.form)] ++
    Json.member? "fitsize" Json.ofUInt32 t.fitSize ++
    Json.member? "class" .text t.className ++
    Json.member? "description" .text t.description

end Traits

/-- A variant, numbered by its place in the opcode's list. -/
structure Variant where
  name : String
  variation : Nat
  layout : Layout
  shape : PlainShape
  traits : Traits
  deriving Repr, DecidableEq

def Variant.json (v : Variant) : Json.Value :=
  .object ([("name", .text v.name), ("variation", Json.ofNat v.variation)] ++
    v.layout.members ++ v.shape.members ++ v.traits.members)

inductive Shape where
  | plain (shape : PlainShape)
  | variantBearing (variants : List Variant)
  deriving Repr, DecidableEq

namespace Shape

/-- The types that forms are expanded over. -/
def types : Shape → List String
  | .plain shape => shape.types
  | .variantBearing _ => []

def sizetype : Shape → Bool
  | .plain shape => shape.sizetype
  | .variantBearing _ => false

def variants : Shape → List Variant
  | .plain _ => []
  | .variantBearing variants => variants

def isVariantBearing : Shape → Bool
  | .plain _ => false
  | .variantBearing _ => true

def members : Shape → List (String × Json.Value)
  | .plain shape => shape.members
  | .variantBearing variants =>
      [("shape", .text "variant_bearing"), ("variants", .array (variants.map Variant.json))]

end Shape

structure Opcode where
  name : String
  layout : Layout
  shape : Shape
  traits : Traits
  deriving Repr, DecidableEq

namespace Opcode

instance : Named Opcode := ⟨Opcode.name⟩

def json (o : Opcode) : Json.Value :=
  .object (("name", .text o.name) :: o.layout.members ++ o.shape.members ++ o.traits.members)

end Opcode

end InstructionSet
