import InstructionSet.Json.Number
import InstructionSet.Setting
import InstructionSet.Text.Quoted

/-!
# Typed readings of JSON values

A reading takes a value to what a schema makes of it, or says where the two do not match. Parts
are read in the order of the text and the first mismatch is the one reported.
-/

namespace InstructionSet.Json

inductive Mismatch where
  | wrongType (found : Value) (expected : String)
  | outOfRange (found : Int)
  | missingField (name : String)
  | unknownField (name : String) (known : List String)
  | surplusItems (count : Nat)

/-- A value as a message shows it. -/
def Value.described : Value → String
  | .null => "null"
  | .bool b => s!"boolean `{b}`"
  | .number (.integer n) => "integer `" ++ (Number.integer n).text ++ "`"
  | .number (.real x) => "floating point `" ++ (Number.real x).text ++ "`"
  | .text s => "string " ++ Text.quoted s
  | .array _ => "sequence"
  | .object _ => "map"

def Mismatch.message : Mismatch → String
  | .wrongType found expected => s!"invalid type: {found.described}, expected {expected}"
  | .outOfRange n => s!"invalid value: integer `{n}`, expected u32"
  | .missingField name => s!"missing field `{name}`"
  | .unknownField name known =>
      let listed := ", ".intercalate (known.map fun field => s!"`{field}`")
      s!"unknown field `{name}`, expected one of {listed}"
  | .surplusItems count => s!"invalid length {count}, expected fewer elements in array"

abbrev Reading (α : Type) := Value → Except Mismatch α

namespace Reading

def uint32 : Reading UInt32
  | .number (.integer n) =>
      if 0 ≤ n ∧ n < UInt32.size then .ok (UInt32.ofNat n.toNat) else .error (.outOfRange n)
  | v => .error (.wrongType v "u32")

def text : Reading String
  | .text s => .ok s
  | v => .error (.wrongType v "a string")

def flag : Reading Bool
  | .bool b => .ok b
  | v => .error (.wrongType v "a boolean")

def list {α : Type} (item : Reading α) : Reading (List α)
  | .array items => items.mapM item
  | v => .error (.wrongType v "a sequence")

/-- `null` stands for no value. -/
def optional {α : Type} (value : Reading α) : Reading (Option α)
  | .null => .ok none
  | v => (value v).map some

/-- The value of a key that is present: `null` clears it. -/
def setting {α : Type} (value : Reading α) : Reading (Setting α)
  | .null => .ok .cleared
  | v => (value v).map .given

/-- A record is an object, or an array of the values of its first fields. `put` reads the value
of one field into the record. -/
def record {α : Type} (expected : String) (fields : List String) (start : α)
    (put : α → String → Reading α) : Reading α
  | .object members => members.foldlM (fun r member => put r member.1 member.2) start
  | .array items => do
      let r ← (fields.zip items).foldlM (fun r member => put r member.1 member.2) start
      if fields.length < items.length then .error (.surplusItems items.length) else .ok r
  | v => .error (.wrongType v expected)

end Reading

end InstructionSet.Json
