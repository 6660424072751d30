import Bringup.CommandLine.Arguments
import Bringup.Container
import Bringup.Deployment.Error
import Bringup.Text.Blank

/-!
# Failures of the program

Why the program ends without having done what it was asked to, the code with which it exits then, and
the report that it prints: what failed, and below that what caused it.
-/

namespace Bringup.CommandLine

/-- Why the program ends early. -/
inductive Failure where
  | usage (error : UsageError)
  /-- The deployment in a file cannot be loaded. -/
  | load (file : String) (error : Deployment.Error)
  /-- There is no network for the project. -/
  | network (error : Container.Error)
  /-- So many services did not become ready. -/
  | notReady (count : Nat)
  deriving DecidableEq, Repr

/-- What the error says. -/
def UsageError.message : UsageError → String
  | .help | .nothing => "Usage: stackup [--file FILE] [--project PROJECT] <plan | up>"
  | .missingAction => "an action is required: plan or up"
  | .unknownAction => "unknown action"
  | .unknownArgument => "unknown argument"
  | .invalidValue => "an option needs a value"
  | .needlessValue => "an option takes no value"
  | .repeated => "an option is given twice"

namespace Failure

/-- What failed. -/
def message : Failure → String
  | .usage error => error.message
  | .load file _ => s!"Failed to load {file}"
  | .network _ => "Failed to prepare the project network"
  | .notReady count => s!"{count} service(s) did not become ready"

/-- What caused the failure, each cause followed by its own. -/
def causes : Failure → List String
  | .load _ error => error.messages
  | .network error => [error.message]
  | .usage _ | .notReady _ => []

/-- The code with which the program exits. -/
def code : Failure → UInt8
  | .usage .help => 0
  | .usage _ => 2
  | _ => 1

/-- A line with a mark and a text, whose further lines stand below its first. -/
def indent (mark text : String) : String :=
  let indentation := List.replicate mark.length ' '
  let shifted := text.toList.flatMap fun c => if c = '\n' then c :: indentation else [c]
  "\n" ++ mark ++ String.ofList shifted

/-- The lines on causes, which are numbered where there is more than one. -/
def causeLines : List String → String
  | [] => ""
  | [cause] => "\n\nCaused by:" ++ indent "    " cause
  | causes =>
    let lines := causes.zipIdx.map fun (cause, (number : Nat)) => indent s!"    {number}: " cause
    "\n\nCaused by:" ++ String.join lines

/-- The report on the failure. -/
def report (failure : Failure) : String :=
  s!"Error: {failure.message}{causeLines failure.causes}\n"

end Failure

end Bringup.CommandLine
