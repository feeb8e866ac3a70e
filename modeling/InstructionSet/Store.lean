import InstructionSet.Document
import InstructionSet.Json.Printer

/-!
# Stores of documents
-/

namespace InstructionSet

/-- A store answers a name with the document of that name. -/
abbrev Store := String → Except Error Document

/-- Texts under logical names. -/
structure MemoryStore where
  texts : List (String × String) := []
  deriving Repr

namespace MemoryStore

/-- A text put under a name already there replaces the one before. -/
def insert (s : MemoryStore) (name text : String) : MemoryStore :=
  ⟨Entries.put (name, text) s.texts⟩

def insertValue (s : MemoryStore) (name : String) (value : Json.Value) : MemoryStore :=
  s.insert name value.compact

def get? (s : MemoryStore) (name : String) : Option String := Entries.get? name s.texts

def erase (s : MemoryStore) (name : String) : MemoryStore :=
  ⟨s.texts.filter fun entry => entry.1 != name⟩

/-- All names in ascending order. -/
def names (s : MemoryStore) : List String :=
  (s.texts.map Prod.fst).mergeSort fun a b => decide (a ≤ b)

def load (s : MemoryStore) : Store := fun name =>
  match s.get? name with
  | some text => Document.parse name text
  | none => .error (.load name .noSuchDocument)

def ofList (texts : List (String × String)) : MemoryStore :=
  texts.foldl (fun s entry => s.insert entry.1 entry.2) {}

end MemoryStore

end InstructionSet
