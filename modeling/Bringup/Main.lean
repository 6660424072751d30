import Bringup.CommandLine.Session
import Bringup.Docker.Dictated

/-!
# The program

`plan` reads the deployment from disk and prints its plan. `up` prints each command that is to be run,
as a line behind a dollar sign, and reads from its input what came of it: the exit code and, behind a
blank, what the command printed. The line `interrupt` interrupts, and so does the end of the input.
-/

namespace Bringup.Program

open CommandLine Docker

/-- The fault behind an error of the system. -/
def faultOf : IO.Error → Files.Fault
  | .noFileOrDirectory .. => .notFound
  | .permissionDenied .. => .permissionDenied
  | .inappropriateType _ code _ => if code = 20 then .notDirectory else .isDirectory
  | _ => .notFound

/-- Reads a file from disk. -/
def readFile (path : String) : IO (Except Files.Fault String) := do
  try
    let bytes ← IO.FS.readBinFile path
    return match Text.Utf8.decode? bytes.toList with
      | some text => .ok text
      | none => .error .notText
  catch error => return .error (faultOf error)

/-- Reads the file of a deployment and the files of variables that it names. -/
def readDeployment (file : String) : IO Files.Reader := do
  let main ← readFile file
  let directory := (Files.Path.parent? file).getD "."
  let description := main.toOption.bind Deployment.Description.parse?
  let entries := (description.map Deployment.Description.services).getD []
  let paths := entries.filterMap fun entry => entry.envFile.map (Files.Path.join directory)
  let others ← paths.mapM fun path => return (path, ← readFile path)
  return fun path => (((file, main) :: others).lookup path).getD (.error .notFound)

/-- What was told so far. -/
structure Dialogue where
  outcomes : Array Outcome := #[]
  /-- The number of the call during which services that start were interrupted. -/
  startInterrupt : Option Nat := none
  /-- Whether services that were ready were interrupted. -/
  restInterrupt : Bool := false

/-- The attendant who acts as told. -/
def Dialogue.attendant (dialogue : Dialogue) : Attendant Dictated.machine where
  interruptsStart := fun (s : Dictated.State) => dialogue.startInterrupt.any (· ≤ s.calls)
  interruptsRest := fun _ _ => dialogue.restInterrupt
  leaves := fun (s : Dictated.State) => s.asked.isSome

/-- Goes on with a session, of which so many characters are printed, until it ends. -/
partial def converse (input output : IO.FS.Stream) (read : Files.Reader) (words : List String)
    (dialogue : Dialogue) (printed : Nat) : IO UInt32 := do
  let start : Dictated.State := { told := dialogue.outcomes.toList }
  let session := Session.run dialogue.attendant start read words
  let state : Dictated.State := session.state
  output.putStr (session.printed.drop printed).copy
  output.flush
  let printed := session.printed.length
  match session.ending with
  | .exited none => return 0
  | .exited (some failure) =>
    IO.eprint failure.report
    return failure.code.toUInt32
  | .waiting =>
    let dialogue ← match state.asked with
      | none => do
        let _ ← input.getLine
        pure { dialogue with restInterrupt := true }
      | some command => do
        output.putStrLn (Dictated.Command.line command)
        output.flush
        let line ← input.getLine
        match Dictated.outcome? line with
        | some outcome => pure { dialogue with outcomes := dialogue.outcomes.push outcome }
        | none =>
          let interrupted := dialogue.startInterrupt.isSome
          let calls := dialogue.outcomes.size + 1
          if line.isEmpty then
            pure { dialogue with
              outcomes := dialogue.outcomes.push .notFound
              startInterrupt := dialogue.startInterrupt.or (some calls) }
          else if interrupted then pure dialogue
          else pure { dialogue with startInterrupt := some calls }
    converse input output read words dialogue printed

end Bringup.Program

/-- Runs the program. -/
def main (words : List String) : IO UInt32 := do
  let file := match Bringup.CommandLine.Arguments.read words with
    | .ok arguments => arguments.file
    | .error _ => ""
  let read ← Bringup.Program.readDeployment file
  Bringup.Program.converse (← IO.getStdin) (← IO.getStdout) read words {} 0
