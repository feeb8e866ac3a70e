import InstructionSet.Error
import InstructionSet.Json.Reader

/-!
# Documents

A document is the nonempty `data` object of a JSON text, under the name by which messages call
it. Its members are templates, lists of names, and mappings from ids to entries.
-/

namespace InstructionSet

structure Document where
  name : String
  members : List (String × Json.Value)

namespace Document

def dataKey : String := "data"

/-- Ends a mapping; it is no entry, whatever its value and place. -/
def endMarker : String := "_end"

def ofValue (name : String) : Json.Value → Except Error Document
  | .object root =>
      match Entries.get? dataKey root with
      | some (.object (member :: members)) => .ok ⟨name, member :: members⟩
      | _ => .error (.load name .dataMissing)
  | _ => .error (.load name .rootNotObject)

def parse (name text : String) : Except Error Document :=
  match Json.parse? text with
  | some v => ofValue name v
  | none => .error (.load name .notJson)

variable {α : Type}

def value? (d : Document) (key : String) : Option Json.Value := Entries.get? key d.members

def fail (d : Document) (fault : LoadFault) : Except Error α := .error (.load d.name fault)

def optionalMapping (d : Document) (key : String) :
    Except Error (Option (List (String × Json.Value))) :=
  match d.value? key with
  | none => .ok none
  | some (.object members) => .ok (some members)
  | some _ => d.fail (.mappingNotObject key)

def mapping (d : Document) (key : String) : Except Error (List (String × Json.Value)) := do
  match ← d.optionalMapping key with
  | some members => return members
  | none => d.fail (.mappingMissing key)

/-- The members of a mapping that are entries. -/
def entryMembers (members : List (String × Json.Value)) : List (String × Json.Value) :=
  members.filter fun member => member.1 != endMarker

/-- Reads the entries of the mapping called `key`, each by the reading for its id. -/
def entries (d : Document) (key : String) (members : List (String × Json.Value))
    (reading : String → Json.Reading α) : Except Error (List (String × α)) :=
  (entryMembers members).mapM fun (id, value) =>
    match reading id value with
    | .ok entry => .ok (id, entry)
    | .error mismatch => d.fail (.entry key id mismatch)

/-- Reads the one record under `key`. -/
def record (d : Document) (key : String) (reading : Json.Reading α) : Except Error α :=
  match d.value? key with
  | none => d.fail (.templateMissing key)
  | some value =>
      match reading value with
      | .ok r => .ok r
      | .error mismatch => d.fail (.field key mismatch)

def nameList (d : Document) (key : String) : Except Error (Option (List String)) :=
  match d.value? key with
  | none => .ok none
  | some value =>
      match Json.Reading.list .text value with
      | .ok names => .ok (some names)
      | .error mismatch => d.fail (.field key mismatch)

end Document

end InstructionSet
