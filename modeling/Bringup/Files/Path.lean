/-!
# Paths

A path is a text whose parts stand between slashes. Joining paths and finding the directory of one
look at the text only, not at what it names; so a dot in front of a relative path stays.
-/

namespace Bringup.Files.Path

/-- Whether a path starts at the root. -/
def isAbsolute (path : String) : Bool := path.toList.head? = some '/'

/-- A path as seen from a directory. An absolute path stays as it is. -/
def join (directory path : String) : String :=
  if isAbsolute path then path
  else
    match directory.toList.getLast? with
    | none | some '/' => directory ++ path
    | some _ => directory ++ "/" ++ path

/-! ### Parts -/

/-- The texts between slashes, empty ones among them. -/
def splitSlashes : List Char → List (List Char)
  | [] => [[]]
  | '/' :: cs => [] :: splitSlashes cs
  | c :: cs =>
    match splitSlashes cs with
    | [] => [[c]]
    | part :: parts => (c :: part) :: parts

/-- The parts of a path, which are not empty. -/
def parts (path : String) : List String :=
  ((splitSlashes path.toList).filter (· ≠ [])).map String.ofList

/-- Whether a path ends in a slash and so can only name a directory. -/
def endsInSlash (path : String) : Bool := path.toList.getLast? = some '/'

/-! ### The directory of a path -/

/-- The root or the dot that a path starts from, and what follows it. -/
def splitStart : List Char → List Char × List Char
  | '/' :: rest => (['/'], rest)
  | ['.'] => (['.'], [])
  | '.' :: '/' :: rest => (['.'], '/' :: rest)
  | rest => ([], rest)

/-- A path, read from its end, without the slashes and single dots that it ends in. -/
def dropIdle : List Char → List Char
  | '/' :: rest => dropIdle rest
  | ['.'] => []
  | '.' :: '/' :: rest => dropIdle rest
  | rest => rest

/-- The path of the directory that holds what a path names, as it is written there. Neither the root
nor the empty path has one. -/
def parent? (path : String) : Option String :=
  let (start, rest) := splitStart path.toList
  match dropIdle rest.reverse with
  | [] => if start = ['.'] then some "" else none
  | backwards =>
    let before := (backwards.dropWhile (· ≠ '/')).drop 1
    some (String.ofList (start ++ (dropIdle before).reverse))

end Bringup.Files.Path
