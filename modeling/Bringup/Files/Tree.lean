import Bringup.Files.Path
import Bringup.Text.Utf8

/-!
# File trees

A tree of directories and files in memory, with a working directory, and the way from a path to what
it names. `Tree.readText` reads a file as UTF-8; whoever reads files of other kinds hands on the same
type of function, `Reader`.
-/

namespace Bringup.Files

/-- Why a file cannot be read or run. -/
inductive Fault where
  | notFound
  | notDirectory
  | isDirectory
  | permissionDenied
  /-- The path holds the character that ends a path. -/
  | holdsNul
  /-- The file is no text in UTF-8. -/
  | notText
  deriving DecidableEq, Inhabited, Repr

/-- What the system says about the fault. -/
def Fault.message : Fault → String
  | .notFound => "No such file or directory (os error 2)"
  | .notDirectory => "Not a directory (os error 20)"
  | .isDirectory => "Is a directory (os error 21)"
  | .permissionDenied => "Permission denied (os error 13)"
  | .holdsNul => "file name contained an unexpected NUL byte"
  | .notText => "stream did not contain valid UTF-8"

/-- Reads the text of the file that a path names. -/
abbrev Reader := String → Except Fault String

/-- A file with its bytes, or a directory with the names in it. -/
inductive Node where
  | file (bytes : List UInt8)
  | directory (entries : List (String × Node))
  deriving Inhabited

namespace Node

/-- What a directory holds; a file holds nothing. -/
def entries : Node → List (String × Node)
  | .file _ => []
  | .directory entries => entries

/-- What has a name in a directory. -/
def child? (node : Node) (name : String) : Option Node := node.entries.lookup name

/-- Puts something in the place of a name of a directory. -/
def setChild (node : Node) (name : String) (child : Node) : Node :=
  let others := node.entries.filter fun (other, _) => other ≠ name
  .directory (others ++ [(name, child)])

/-- What a path names below a directory. -/
def find? (node : Node) : List String → Option Node
  | [] => some node
  | name :: names => (node.child? name).bind fun child => child.find? names

/-- Puts something in the place of a path below a directory, and makes the directories on the way. -/
def put (node : Node) : List String → Node → Node
  | [], new => new
  | name :: names, new =>
    node.setChild name (((node.child? name).getD (.directory [])).put names new)

end Node

/-- Everything below a root, and the directory from which relative paths start. -/
structure Tree where
  root : Node := .directory []
  /-- The way from the root to the working directory. -/
  working : List String := []
  deriving Inhabited

namespace Tree

/-- Goes one part of a path further, from the last of the nodes passed so far. -/
def step (passed : List Node) (part : String) : Except Fault (List Node) :=
  match passed with
  | .directory entries :: above =>
    if part = "." then .ok passed
    else if part = ".." then .ok (if above = [] then passed else above)
    else
      match entries.lookup part with
      | some node => .ok (node :: passed)
      | none => .error .notFound
  | _ => .error .notDirectory

/-- What a path names. -/
def find (tree : Tree) (path : String) : Except Fault Node := do
  if path.contains '\x00' then throw .holdsNul
  if path = "" then throw .notFound
  let start := if Path.isAbsolute path then [] else tree.working
  let passed ← (start ++ Path.parts path).foldlM step [tree.root]
  match passed with
  | .directory entries :: _ => return .directory entries
  | node :: _ => if Path.endsInSlash path then throw .notDirectory else return node
  | [] => throw .notFound

/-- The bytes of the file that a path names. -/
def read (tree : Tree) (path : String) : Except Fault (List UInt8) := do
  match ← tree.find path with
  | .file bytes => return bytes
  | .directory _ => throw .isDirectory

/-- The text of the file that a path names. -/
def readText (tree : Tree) : Reader := fun path => do
  let bytes ← tree.read path
  match Text.Utf8.decode? bytes with
  | some text => return text
  | none => throw .notText

end Tree

end Bringup.Files
