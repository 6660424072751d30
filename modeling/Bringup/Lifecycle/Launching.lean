import Bringup.Lifecycle.Halting

/-!
# Launches

A launch asks for the container of a service and keeps what comes back until the start job takes it.
A container that comes back after the start job has left is halted.
-/

namespace Bringup.Lifecycle.Controller

variable {t : Topology} (c : Controller t) (now : Nat) (id : JobId) (job : Launch t.size)

/-- Moves the launch on. -/
def launchPhase (phase : LaunchPhase) : Controller t := c.setJob id (.launch { job with phase })

/-- The launch's own next step, where it has one. -/
def runLaunch : Option (Controller t × List Effect) :=
  match job.phase with
  | .calling =>
    let call := .start (t.service job.service) (t.volumesOf job.service)
    some (c.launchPhase id job .running, [.asks id (.container call)])
  | .returned (.ok handle) =>
    if job.orphaned then
      some (c.launchPhase id job (.halting handle (c.beginHalt now)), [c.askStop id handle])
    else none
  | .returned (.error _) => if job.orphaned then some (c.launchPhase id job .finished, []) else none
  | _ => none

/-- The moment for which the launch waits is there. -/
def timeoutLaunch : Option (Controller t × List Effect) :=
  match job.phase with
  | .halting handle halt =>
    if halt.timedOut now then
      some (c.launchPhase id job (.halting handle .killing), [.withdraws id, askKill id handle])
    else none
  | _ => none

/-- The launch goes on after an answer, if it is one to what it asked. -/
def answerLaunch (reply : Reply) : Option (Controller t × List Effect) :=
  match job.phase, reply with
  | .running, .container (.start result) => some (c.launchPhase id job (.returned result), [])
  | .halting handle halt, reply =>
    match halt.answered reply with
    | some .over => some (c.launchPhase id job .finished, [])
    | some .kill => some (c.launchPhase id job (.halting handle .killing), [askKill id handle])
    | none => none
  | _, _ => none

end Bringup.Lifecycle.Controller
