import InstructionSet.CommandLine

/-!
# The program

Looks up what a run can ask for in the file system, and prints what the run answers.
-/

namespace InstructionSet.Program

/-- What is found at a path now. -/
def probe (path : String) : IO (Option FileNode) := do
  let file := (← IO.currentDir) / path
  if ← file.isDir then return some .directory
  if ← file.pathExists then return some (.file (← IO.FS.readBinFile file))
  return none

/-- A view of `paths` as they are now. -/
def viewOf (paths : List String) : IO Files := do
  let found ← paths.mapM fun path => return (path, ← probe path)
  return fun path => (Entries.get? path found).join

/-- A view of the root, the required documents and the fragments that they list. -/
def viewOfRoot (root : String) : IO Files := do
  let pathOf (name : String) : String := joinPath root (name ++ ".json")
  let required := root :: Declarations.requiredNames.map pathOf
  let first ← viewOf required
  let store : DirectoryStore := ⟨first, root⟩
  viewOf (required ++ (Declarations.fragmentNames store.load).map pathOf)

end InstructionSet.Program

open InstructionSet in
def main (arguments : List String) : IO UInt32 := do
  let request := CommandLine.parse arguments
  let files ← match request with
    | .report options => Program.viewOfRoot options.rootPath
    | _ => pure fun _ => none
  let response := CommandLine.respond files request
  for w in response.warnings do
    IO.eprintln s!"warning: {w.text}"
  IO.print response.output
  IO.eprint response.errors
  return response.exitCode
