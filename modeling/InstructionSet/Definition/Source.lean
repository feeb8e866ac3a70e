import InstructionSet.Declarations.Load
import InstructionSet.Definition
import InstructionSet.Store.Directory

/-!
# Definitions from documents
-/

namespace InstructionSet.Definition

/-- The definition that the documents of a store declare. -/
def ofStore (store : Store) : Outcome Definition := do
  (← Declarations.load store).compile

/-- The definition that the documents below a directory declare. -/
def ofDirectory (files : Files) (root : String) : Outcome Definition := do
  ofStore (← DirectoryStore.mk? files root).load

end InstructionSet.Definition
