import InstructionSet.Entries
import InstructionSet.Store.Directory

/-!
# Trees of files

A finite tree of files, seen from a working directory. Paths are resolved step by step: each
step starts in a directory, `.` stays there, and `..` leads to the directory above.
-/

namespace InstructionSet

/-- The names that lead from the top to a place in the tree. -/
abbrev Place := List String

/-- The directories and files, and the place of the working directory. -/
structure FileTree where
  working : Place
  directories : List Place := []
  files : List (Place × ByteArray) := []

namespace FileTree

/-- The place one step further, whether there is anything or not. Nothing is above the top. -/
def enter (place : Place) (step : String) : Place :=
  if step = "" ∨ step = "." then place
  else if step = ".." then place.dropLast
  else place ++ [step]

/-- Absolute paths start at the top. -/
def startOf (t : FileTree) (path : String) : Place :=
  if path.startsWith "/" then [] else t.working

/-- The place that a path names, and those it leads through, the nearest first. -/
def trail (t : FileTree) (path : String) : Place × List Place :=
  (path.splitOn "/").foldl (fun (place, before) step => (enter place step, place :: before))
    (t.startOf path, [])

/-- Creates a directory, and every directory on the path to it, also one that the path leaves
again by `..`. -/
def addDirectory (t : FileTree) (path : String) : FileTree :=
  let (place, before) := t.trail path
  { t with directories := place :: before ++ t.directories }

/-- Creates a file, and the directories on the path to it. A file at the place of another takes
its place. -/
def addFile (t : FileTree) (path : String) (bytes : ByteArray) : FileTree :=
  let (place, before) := t.trail path
  { t with directories := before ++ t.directories, files := (place, bytes) :: t.files }

/-- Every place on the way to something is a directory. -/
def isDirectory (t : FileTree) (place : Place) : Bool :=
  place.isPrefixOf t.working || t.directories.any place.isPrefixOf ||
    t.files.any fun (file, _) => place.isPrefixOf file && place != file

def find? (t : FileTree) (place : Place) : Option FileNode :=
  if t.isDirectory place then some .directory
  else (t.files.find? fun (file, _) => file == place).map fun (_, bytes) => .file bytes

/-- One step of a path. There has to be a directory to start in, and something to arrive at. -/
def step? (t : FileTree) (place : Place) (step : String) : Option Place :=
  let next := enter place step
  if t.isDirectory place && (t.find? next).isSome then some next else none

/-- The most bytes that a path may have, all of its steps and separators counted. -/
def pathLimit : Nat := 4095

/-- What paths lead to. The empty path leads nowhere, and neither does one that is longer than
`pathLimit`, whichever steps it takes. -/
def view (t : FileTree) : Files := fun path =>
  if path.isEmpty || pathLimit < path.utf8ByteSize then none
  else ((path.splitOn "/").foldlM t.step? (t.startOf path)).bind t.find?

end FileTree

end InstructionSet
