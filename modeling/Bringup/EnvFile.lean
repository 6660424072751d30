import Bringup.Environment
import Bringup.Text.Blank
import Bringup.Text.Quoted

/-!
# Environment files

An environment file sets one variable a line, as `KEY=VALUE`. Blank lines and lines that start with
`#` say nothing; `export ` may stand before the key; one pair of single or double quotes around the
value is taken off. The first line that is neither ends the reading.
-/

namespace Bringup.EnvFile

/-- Why a line sets no variable. -/
inductive Fault where
  /-- The line has no equals sign. -/
  | noAssignment (line : String)
  /-- The text before the equals sign is empty or has blanks inside. -/
  | invalidKey (key : String)
  deriving DecidableEq, Repr

/-- What the fault says. -/
def Fault.message : Fault → String
  | .noAssignment line => s!"expected KEY=VALUE, got {Text.quote line}"
  | .invalidKey key => s!"invalid key {Text.quote key}"

/-- A fault and the number of its line, counted from one. -/
structure Error where
  line : Nat
  fault : Fault
  deriving DecidableEq, Repr

/-- The text between two `mark`s, where it is written so. -/
def unquoteBy? (mark : Char) : List Char → Option (List Char)
  | [] => none
  | c :: cs => if c = mark ∧ cs.getLast? = some mark then some cs.dropLast else none

/-- A value without the one pair of quotes that may stand around it. -/
def unquote (value : List Char) : List Char :=
  match unquoteBy? '"' value with
  | some inner => inner
  | none => (unquoteBy? '\x27' value).getD value

/-- What a line says: nothing, or the value of a variable. -/
def parseLine (line : List Char) : Except Fault (Option (String × String)) :=
  let line := Text.trim line
  if line = [] ∨ line.head? = some '#' then .ok none
  else
    let assignment :=
      match Text.dropLead? "export ".toList line with
      | some rest => Text.trimStart rest
      | none => line
    match Text.splitAt? '=' assignment with
    | none => .error (.noAssignment (String.ofList assignment))
    | some (key, value) =>
      let key := Text.trim key
      if key = [] ∨ key.any Text.isBlank then .error (.invalidKey (String.ofList key))
      else .ok (some (String.ofList key, String.ofList (unquote (Text.trim value))))

/-- Reads lines, the first of which has the given number, on top of an environment. -/
def parseLines (env : Environment) (number : Nat) : List (List Char) → Except Error Environment
  | [] => .ok env
  | line :: rest =>
    match parseLine line with
    | .error fault => .error ⟨number, fault⟩
    | .ok none => parseLines env (number + 1) rest
    | .ok (some (key, value)) => parseLines (env.set key value) (number + 1) rest

/-- The environment that a text sets, where the last value of each variable wins. -/
def parse (text : String) : Except Error Environment :=
  parseLines .empty 1 (Text.lines text.toList)

end Bringup.EnvFile
