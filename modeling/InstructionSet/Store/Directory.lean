import InstructionSet.Store

/-!
# Documents below a directory

A directory store looks its documents up in a view of a file system, which answers a path with
what is found there.
-/

namespace InstructionSet

inductive FileNode where
  | file (bytes : ByteArray)
  | directory

/-- What is found at each path. -/
abbrev Files := String → Option FileNode

/-- `child` seen from `root`. An absolute `child` stands for itself, and nothing is normalised. -/
def joinPath (root child : String) : String :=
  if child.startsWith "/" || root.isEmpty then child
  else if root.endsWith "/" then root ++ child
  else root ++ "/" ++ child

structure DirectoryStore where
  files : Files
  root : String

namespace DirectoryStore

/-- The store rooted at a directory. -/
def mk? (files : Files) (root : String) : Except Error DirectoryStore :=
  match files root with
  | some .directory => .ok ⟨files, root⟩
  | some (.file _) => .error (.path root .notDirectory)
  | none => .error (.path root .missing)

def documentPath (s : DirectoryStore) (name : String) : String := joinPath s.root (name ++ ".json")

/-- Messages call a document by its path. -/
def load (s : DirectoryStore) : Store := fun name =>
  let path := s.documentPath name
  match s.files path with
  | some (.file bytes) =>
      match String.fromUTF8? bytes with
      | some text => Document.parse path text
      | none => .error (.load path .notUtf8)
  | _ => .error (.load path .noSuchFile)

end DirectoryStore

end InstructionSet
