import Bringup.Lifecycle.Halting

/-!
# Stop jobs

The stop of a service waits for the stops it was told to wait for, takes the service and its
container out of use, halts the container, unbinds the volumes of the service and moves it to
stopped. A failed service keeps its state; one that was never started is stopped at once.
-/

namespace Bringup.Lifecycle.Controller

variable {t : Topology} (c : Controller t) (now : Nat) (id : JobId) (job : StopJob t.size)

/-- Moves the job on. -/
def stopPhase (phase : StopPhase) : Controller t := c.setJob id (.stop { job with phase })

/-- Unbinds the volumes that are left. -/
def detachNext : List Volume → Controller t × List Effect
  | [] => (c.stopPhase id job .retiring, [])
  | volume :: rest =>
    (c.stopPhase id job (.detaching (volume :: rest)), [.asks id (.volume (.detach volume.id))])

/-- Goes on once the service is out of use: with the halt of its container, if it had one. -/
def haltTaken (handle : Option Container.Handle) : Controller t × List Effect :=
  match handle with
  | some handle =>
    (c.stopPhase id job (.halting handle (c.beginHalt now)), [c.askStop id handle])
  | none => c.detachNext id job (t.volumesOf job.service)

/-- Takes the container out of its slot. -/
def takeHandle : Controller t :=
  c.modifySlot job.service fun slot => { slot with handle := none }

/-- Takes the service and its container out of use. -/
def take : Controller t × List Effect :=
  let s := job.service
  let handle := (c.slot s).handle
  match (c.slot s).state with
  | .stopped => (c.stopPhase id job .finished, [])
  | .pending =>
    let (c, moved) := c.move now s .stopped
    let (c, asked) := c.haltTaken now id job none
    (c, moved ++ asked)
  | .starting | .ready =>
    let (c, moved) := c.move now s .stopping
    let (c, asked) := (c.takeHandle job).haltTaken now id job handle
    (c, moved ++ asked)
  | .stopping | .failed => (c.takeHandle job).haltTaken now id job handle

/-- The job's own next step, where it has one. -/
def runStop : Option (Controller t × List Effect) :=
  let s := job.service
  match job.phase with
  | .awaiting [] => some (c.stopPhase id job .taking, [])
  | .awaiting (other :: rest) =>
    if c.isFinished other then some (c.stopPhase id job (.awaiting rest), []) else none
  | .taking => some (c.take now id job)
  | .retiring =>
    let (c, effects) :=
      if (c.slot s).state = .stopping then c.move now s .stopped else (c, [])
    some (c.stopPhase id job .finished, effects)
  | _ => none

/-- The moment for which the job waits is there. -/
def timeoutStop : Option (Controller t × List Effect) :=
  match job.phase with
  | .halting handle halt =>
    if halt.timedOut now then
      some (c.stopPhase id job (.halting handle .killing), [.withdraws id, askKill id handle])
    else none
  | _ => none

/-- The job goes on after an answer, if it is one to what it asked. -/
def answerStop (reply : Reply) : Option (Controller t × List Effect) :=
  match job.phase, reply with
  | .halting handle halt, reply =>
    match halt.answered reply with
    | some .over => some (c.detachNext id job (t.volumesOf job.service))
    | some .kill => some (c.stopPhase id job (.halting handle .killing), [askKill id handle])
    | none => none
  | .detaching (_ :: rest), .volume _ => some (c.detachNext id job rest)
  | _, _ => none

end Bringup.Lifecycle.Controller
