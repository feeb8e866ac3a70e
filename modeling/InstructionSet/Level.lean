import InstructionSet.Json.Members
import InstructionSet.Json.Schema
import InstructionSet.Table
import InstructionSet.Unique

/-!
# Capability levels

Levels are declared one after the other, and each has all that the levels before it have.
-/

namespace InstructionSet

/-- What one declaration adds. -/
structure Level.Draft where
  sizes : List UInt32 := []
  types : List String := []
  addr : Option UInt32 := none
  deriving Repr

structure Level where
  name : String
  sizes : List UInt32
  types : List String
  addr : UInt32
  deriving Repr, DecidableEq

namespace Level

instance : Named Level := ⟨Level.name⟩

def supportsSize (level : Level) (size : UInt32) : Bool := level.sizes.contains size

def supportsType (level : Level) (type : String) : Bool := level.types.contains type

def json (level : Level) : Json.Value :=
  .object [("name", .text level.name), ("sizes", Json.ofSizes level.sizes),
    ("types", Json.ofTexts level.types), ("addr", Json.ofUInt32 level.addr)]

namespace Draft

/-- Keys that are not known are passed over. -/
def put (d : Draft) (key : String) (value : Json.Value) : Except Json.Mismatch Draft :=
  match key with
  | "sizes" => (Json.Reading.list .uint32 value).map fun sizes => { d with sizes }
  | "types" => (Json.Reading.list .text value).map fun types => { d with types }
  | "addr" => (Json.Reading.optional .uint32 value).map fun addr => { d with addr }
  | _ => .ok d

def reading : Json.Reading Draft :=
  .record "struct LevelFields" ["sizes", "types", "addr"] {} put

end Draft

/-- What the declarations so far add up to. -/
structure Tally where
  sizes : List UInt32 := []
  types : List String := []
  addr : UInt32 := 0

def Tally.add (t : Tally) (d : Draft) : Tally :=
  { sizes := appendNew t.sizes d.sizes
    types := appendNew t.types d.types
    addr := max t.addr (d.addr.getD 0) }

def Tally.level (t : Tally) (name : String) : Level := { t with name }

/-- The level that each declaration brings about, after those that `t` adds up. -/
def snapshots (t : Tally) : List (String × Draft) → List Level
  | [] => []
  | (name, d) :: rest => (t.add d).level name :: snapshots (t.add d) rest

/-- The table of all levels; of two with one name the later counts. -/
def accumulate (declared : List (String × Draft)) : Table Level :=
  .ofList (snapshots {} declared)

end Level

end InstructionSet
