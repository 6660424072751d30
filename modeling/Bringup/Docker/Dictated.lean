import Bringup.Docker.Engine

/-!
# Dictated machines

A machine that is told what came of each command, in the order of the calls. It remembers the first
call that it was not told about, for someone to run the command and tell. A session on a machine that
was told more goes the same way as before, up to that call.
-/

namespace Bringup.Docker.Dictated

/-- The state of the machine. -/
structure State where
  /-- What came of the calls to come. -/
  told : List Outcome := []
  /-- The number of calls so far. -/
  calls : Nat := 0
  /-- The first call whose outcome is not known. -/
  asked : Option Command := none
  deriving DecidableEq, Inhabited, Repr

/-- Calls a command. Each takes one millisecond, so that it can be interrupted. -/
def State.call (s : State) (command : Command) : State × Nat × Outcome :=
  let calls := s.calls + 1
  match s.told with
  | outcome :: told => ({ s with told, calls }, 1, outcome)
  | [] => ({ s with calls, asked := s.asked.or (some command) }, 1, .notFound)

/-- The machine that is told. -/
def machine : Machine where
  State := State
  call := State.call

/-! ### Telling -/

/-- The outcome that a line tells: the code with which the command exited, and behind a blank what it
printed, as a result or as an error. -/
def outcome? (line : String) : Option Outcome :=
  let line := Text.trim line.toList
  let (code, text) := (Text.splitAt? ' ' line).getD (line, [])
  match (String.ofList code).toNat? with
  | none => none
  | some code =>
    if code = 0 then some (.exited 0 (String.ofList text).toUTF8.toList [])
    else some (.exited code.toUInt8 [] (String.ofList text).toUTF8.toList)

/-- The line that asks for a command to be run. -/
def Command.line (command : Command) : String :=
  let word (argument : String) : String :=
    let isPlain (c : Char) : Bool := c.isAlphanum || c ∈ "-_./:=@".toList
    if argument ≠ "" ∧ argument.all isPlain then argument
    else "'" ++ argument.replace "'" "'\\''" ++ "'"
  " ".intercalate ("$" :: (command.program :: command.arguments).map word)

end Bringup.Docker.Dictated
