import Bringup.Docker.Arguments
import Bringup.Text.Utf8

/-!
# Scripts of commands

A script runs commands one after another, each of which may depend on what came of those before, and
ends with a value. What the lifecycle asks of an engine becomes a script here, and so does the network
of a project.
-/

namespace Bringup.Docker

/-- A program and what it is called with. -/
structure Command where
  program : String
  arguments : List String
  deriving DecidableEq, Inhabited, Repr

/-- What came of a command. -/
inductive Outcome where
  | exited (code : UInt8) (stdout stderr : List UInt8)
  /-- There is no such program. -/
  | notFound
  /-- The program could not be called. -/
  | refused (message : String)
  deriving DecidableEq, Inhabited, Repr

/-- What a program printed, without the blanks around. -/
def printed (bytes : List UInt8) : String :=
  String.ofList (Text.trim (Text.Utf8.decodeLossy bytes).toList)

/-- The text that a command printed, or why it failed. -/
def Outcome.result (command : Command) : Outcome → Except Container.Error String
  | .exited 0 stdout _ => .ok (printed stdout)
  | .exited code _ stderr =>
    let subcommand := command.arguments.headD ""
    .error (.command
      s!"{command.program} {subcommand} exited with exit status: {code}: {printed stderr}")
  | .notFound => .error (.unavailable s!"{command.program} not found on PATH")
  | .refused message => .error (.command message)

/-- Commands to run with certain arguments, and the value at the end. -/
inductive Script (α : Type) where
  | done (a : α)
  | run (arguments : List String) (next : Except Container.Error String → Script α)

namespace Script

/-- Goes on with what a script ends with. -/
def bind {α β : Type} : Script α → (α → Script β) → Script β
  | .done a, f => f a
  | .run arguments next, f => .run arguments fun result => (next result).bind f

instance : Monad Script where
  pure := done
  bind := bind

end Script

/-- Runs one command. -/
def command (arguments : List String) : Script (Except Container.Error String) :=
  .run arguments .done

/-! ### What scripts do -/

/-- Makes the network of a project, unless there is one. -/
def ensureNetwork (project : String) : Script (Except Container.Error Unit) := do
  match ← command ["network", "inspect", project] with
  | .ok _ => return .ok ()
  | .error _ =>
    let created ← command ["network", "create", project]
    return created.map fun _ => ()

/-- Runs the container of a service. One that is left from before would be in the way and goes. -/
def start (project : String) (service : Service) (volumes : List Volume) :
    Script (Except Container.Error Container.Handle) := do
  let _ ← command ["rm", "-f", containerName project service.id]
  match ← command (runArguments project service volumes) with
  | .ok id => return .ok ⟨service.id, id⟩
  | .error (.command message) => return .error (.start message)
  | .error error => return .error error

/-- Stops a container and removes it. -/
def stop (handle : Container.Handle) (timeout : Duration) :
    Script (Except Container.Error Unit) := do
  match ← command (stopArguments handle timeout) with
  | .error error => return .error (.stop error.message)
  | .ok _ =>
    let removed ← command ["rm", handle.id]
    return removed.map fun _ => ()

/-- Ends a container at once and removes it, also where it cannot be ended. -/
def kill (handle : Container.Handle) : Script (Except Container.Error Unit) := do
  let _ ← command ["kill", handle.id]
  let removed ← command ["rm", "-f", handle.id]
  return removed.map fun _ => ()

/-- Asks whether a container can be used. -/
def probe (handle : Container.Handle) : Script Container.Probe := do
  match ← command (inspectArguments handle) with
  | .ok status => return probeOf status
  | .error error => return .errored error.message

/-- Does what an engine is asked to do. -/
def perform (project : String) : Container.Call → Script Container.Reply
  | .start service volumes => return .start (← start project service volumes)
  | .stop handle timeout => return .stop (← stop handle timeout)
  | .kill handle => return .kill (← kill handle)
  | .probe handle => return .probe (← probe handle)

end Bringup.Docker
