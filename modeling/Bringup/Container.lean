import Bringup.Duration
import Bringup.Service

/-!
# Containers

What the lifecycle of a service knows of the engine that runs its container: the handle of a
started container, what the engine is asked to do with it, and what it answers.
-/

namespace Bringup.Container

/-- A started container: the service it runs and the engine's own name for it. -/
structure Handle where
  service : ServiceId
  id : String
  deriving DecidableEq, Inhabited, Repr

/-- The handle as `service@id`. -/
def Handle.display (handle : Handle) : String := s!"{handle.service}@{handle.id}"

/-- Whether a container can be used yet. -/
inductive Probe where
  | ready
  | notReady
  /-- The question itself failed, which counts as not ready. -/
  | errored (message : String)
  deriving DecidableEq, Inhabited, Repr

/-- Why an engine did not do what it was asked. -/
inductive Error where
  | start (message : String)
  | stop (message : String)
  | command (message : String)
  | unavailable (message : String)
  deriving DecidableEq, Inhabited, Repr

/-- What the error says. -/
def Error.message : Error → String
  | .start message => s!"Container start failed: {message}"
  | .stop message => s!"Container stop failed: {message}"
  | .command message => s!"Runtime command failed: {message}"
  | .unavailable message => s!"Runtime unavailable: {message}"

/-- What an engine is asked to do. -/
inductive Call where
  | start (service : Service) (volumes : List Volume)
  | stop (handle : Handle) (timeout : Duration)
  | kill (handle : Handle)
  | probe (handle : Handle)
  deriving DecidableEq

/-- What an engine answers to the call of the same name. -/
inductive Reply where
  | start (result : Except Error Handle)
  | stop (result : Except Error Unit)
  | kill (result : Except Error Unit)
  | probe (result : Probe)

end Bringup.Container
