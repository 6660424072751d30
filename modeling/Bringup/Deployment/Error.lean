import Bringup.EnvFile
import Bringup.Files.Tree
import Bringup.Topology.Error

/-!
# Why a deployment cannot be loaded
-/

namespace Bringup.Deployment

/-- Why a deployment cannot be loaded. -/
inductive Error where
  /-- A file cannot be read. -/
  | unreadable (path : String) (fault : Files.Fault)
  /-- A file does not describe a deployment. -/
  | malformed
  /-- A line of a file with variables sets none. -/
  | envFile (path : String) (error : EnvFile.Error)
  /-- The described services and volumes make no topology. -/
  | topology (error : TopologyError)
  deriving DecidableEq, Repr

/-- What the error says. -/
def Error.message : Error → String
  | .unreadable path fault => s!"Failed to read {path}: {fault.message}"
  | .malformed => "Invalid deployment file"
  | .envFile path error => s!"{path}:{error.line}: {error.fault.message}"
  | .topology error => error.message

/-- What the error says and, after that, what each cause of it says. -/
def Error.messages (error : Error) : List String :=
  match error with
  | .unreadable _ fault => [error.message, fault.message]
  | _ => [error.message]

end Bringup.Deployment
