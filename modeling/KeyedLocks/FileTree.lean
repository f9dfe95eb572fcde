/-!
# Reading files of a tree

A `FileTree` is everything below a root directory, and the directory that relative paths start
from. `FileTree.read` walks a path component by component and gives the text of the file it ends
at, or the first thing that is in the way.
-/

namespace KeyedLocks

inductive FileError where
  | nulByte
  | notFound
  | notDirectory
  | isDirectory
  | nameTooLong
  | notUtf8
  | other (description : String)
deriving Repr, DecidableEq

def FileError.message : FileError → String
  | .nulByte => "file name contained an unexpected NUL byte"
  | .notFound => "No such file or directory (os error 2)"
  | .notDirectory => "Not a directory (os error 20)"
  | .isDirectory => "Is a directory (os error 21)"
  | .nameTooLong => "File name too long (os error 36)"
  | .notUtf8 => "stream did not contain valid UTF-8"
  | .other description => description

inductive FileNode where
  | file (bytes : ByteArray)
  | directory (entries : List (String × FileNode))

structure FileTree where
  /-- The contents of the root directory. -/
  entries : List (String × FileNode) := []
  /-- The names that lead from the root to where relative paths start. -/
  working : List String := []

namespace FileTree

/-- A component of a path may have so many bytes. -/
def nameLimit : Nat := 255

/-- A path may have so many bytes. -/
def pathLimit : Nat := 4095

/-- Where a walk stands: on a node, with the directories it came through, innermost first. -/
structure Place where
  node : FileNode
  above : List FileNode := []

/-- The next component. Empty ones and `.` stay in a directory, `..` leaves it; above the root
directory there is only the root directory again. -/
def step (name : String) (p : Place) : Except FileError Place :=
  match p.node with
  | .file _ => .error .notDirectory
  | .directory entries =>
    if name = "" ∨ name = "." then .ok p
    else if name = ".." then
      match p.above with
      | [] => .ok p
      | d :: above => .ok ⟨d, above⟩
    else if nameLimit < name.utf8ByteSize then .error .nameTooLong
    else
      match entries.find? (·.1 = name) with
      | none => .error .notFound
      | some (_, node) => .ok ⟨node, p.node :: p.above⟩

def walk (names : List String) (p : Place) : Except FileError Place :=
  names.foldlM (fun p name => step name p) p

def root (t : FileTree) : Place := { node := .directory t.entries }

/-- The place a path leads to. A path that begins with a slash starts at the root. -/
def find (t : FileTree) (path : String) : Except FileError Place := do
  if path.toList.contains '\x00' then throw .nulByte
  if path = "" then throw .notFound
  if pathLimit < path.utf8ByteSize then throw .nameTooLong
  let start ← if path.startsWith "/" then pure t.root else walk t.working t.root
  walk (path.splitOn "/") start

def read (t : FileTree) (path : String) : Except FileError String := do
  match (← t.find path).node with
  | .directory _ => .error .isDirectory
  | .file bytes =>
    match String.fromUTF8? bytes with
    | some text => .ok text
    | none => .error .notUtf8

/-- Put a node at a path of names, making the directories on the way. -/
def insertAt (node : FileNode) : List String → List (String × FileNode) → List (String × FileNode)
  | [], entries => entries
  | [name], entries => entries.filter (·.1 ≠ name) ++ [(name, node)]
  | name :: names, entries =>
    let inner := match entries.find? (·.1 = name) with
      | some (_, .directory inner) => inner
      | _ => []
    entries.filter (·.1 ≠ name) ++ [(name, .directory (insertAt node names inner))]

/-- The components of a path that lead somewhere. -/
def names (path : String) : List String :=
  (path.splitOn "/").filter fun name => name ≠ "" ∧ name ≠ "."

/-- Put a node at a path from the root, making the directories on the way. -/
def insert (t : FileTree) (path : String) (node : FileNode) : FileTree :=
  { t with entries := insertAt node (names path) t.entries }

/-- The directories every system has. -/
def systemDirectories : List String :=
  ["/bin", "/dev", "/etc", "/home", "/lib", "/opt", "/proc", "/root", "/sys", "/tmp", "/usr",
    "/var"]

/-- A system with nothing in it but what every system has, its empty device among that, and with
the directory that relative paths start from. -/
def system (working : String) : FileTree :=
  let t : FileTree := { working := names working }
  ((working :: systemDirectories).foldl (fun t path => t.insert path (.directory [])) t).insert
    "/dev/null" (.file ByteArray.empty)

end FileTree

end KeyedLocks
