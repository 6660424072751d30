import Bringup.Lifecycle.Call
import Bringup.Lifecycle.Retry
import Bringup.Topology.Basic

/-!
# Controllers

A controller drives the services of a topology. This module holds its state and the writers through
which everything else changes it: a slot for each service, the run that a start belongs to, and the
jobs and calls created so far.

Runs are numbered. A start joins the current run; cancelling ends the current run and all before it,
and the next start after that opens a new one. So a run is cancelled exactly when its number is
below `cancelledRuns`.
-/

namespace Bringup.Lifecycle

/-- What a step of the controller shows to the outside. -/
inductive Effect where
  /-- A job asks and waits for the answer. -/
  | asks (job : JobId) (request : Request)
  /-- A job no longer waits for the answer to what it asked last. -/
  | withdraws (job : JobId)
  /-- A move was not allowed and did not happen. -/
  | refusedMove (service : ServiceId) (source target : ServiceState)
  deriving DecidableEq

/-- The state of a controller. -/
structure Controller (t : Topology) where
  config : Config := {}
  slots : Vector Slot t.size := .replicate t.size {}
  /-- The run that the next start joins, unless it is cancelled. -/
  currentRun : Nat := 0
  /-- The runs with a lower number are cancelled. -/
  cancelledRuns : Nat := 0
  jobs : Array (Job t.size) := #[]
  calls : Array (Call t.size) := #[]

namespace Controller

variable {t : Topology} (c : Controller t)

/-! ### Reading -/

/-- What is kept of a service. -/
def slot (s : Fin t.size) : Slot := c.slots[s]

/-- What is known of a service. -/
def status (s : Fin t.size) : Status := (c.slot s).status (t.id s)

/-- Whether a run is cancelled. -/
def isCancelled (run : Nat) : Bool := run < c.cancelledRuns

/-- Whether a job has nothing left to do. -/
def isFinished (job : JobId) : Bool := (c.jobs[job]?).any Job.isFinished

/-- What a call has handed back, and when. -/
def answer? (call : CallId) : Option (Answer × Nat) := (c.calls[call]?).bind Call.answer?

/-- The state of a service. -/
def state? (id : ServiceId) : Option ServiceState := (t.position? id).map fun s => (c.slot s).state

/-- The order in which a report lists the services: the order of their start. -/
def reportOrder (t : Topology) : List (Fin t.size) :=
  match t.startOrder with
  | .ok order => order
  | .error _ => List.finRange t.size

/-! ### Writing -/

/-- Replaces what is kept of a service. -/
def setSlot (s : Fin t.size) (slot : Slot) : Controller t := { c with slots := c.slots.set s slot }

/-- Changes what is kept of a service. -/
def modifySlot (s : Fin t.size) (f : Slot → Slot) : Controller t := c.setSlot s (f (c.slot s))

/-- Replaces a job. -/
def setJob (job : JobId) (value : Job t.size) : Controller t :=
  { c with jobs := c.jobs.setIfInBounds job value }

/-- Replaces a call. -/
def setCall (call : CallId) (value : Call t.size) : Controller t :=
  { c with calls := c.calls.setIfInBounds call value }

/-- Moves a call on. -/
def setCallPhase (call : CallId) (phase : CallPhase t.size) : Controller t :=
  match c.calls[call]? with
  | some value => c.setCall call { value with phase }
  | none => c

/-- Creates jobs, numbered from `jobs.size` on. -/
def spawn (jobs : List (Job t.size)) : Controller t := { c with jobs := c.jobs ++ jobs }

/-- Moves a service; a move that is not allowed is reported and does not happen. -/
def move (now : Nat) (s : Fin t.size) (target : ServiceState) : Controller t × List Effect :=
  match (c.slot s).move? now target with
  | some slot => (c.setSlot s slot, [])
  | none => (c, [.refusedMove (t.id s) (c.slot s).state target])

/-- Moves a service out of the state of starting and records why; any other state stays. -/
def moveFromStarting (now : Nat) (s : Fin t.size) (target : ServiceState) (error : Option Error) :
    Controller t × List Effect :=
  if (c.slot s).state = .starting then
    let (c, effects) := c.move now s target
    match error with
    | some error => (c.modifySlot s (·.record error), effects)
    | none => (c, effects)
  else (c, [])

/-- Opens a new run if the current one is cancelled. -/
def arm : Controller t :=
  if c.isCancelled c.currentRun then { c with currentRun := c.currentRun + 1 } else c

/-- Cancels the current run and all before it. -/
def cancelRuns : Controller t := { c with cancelledRuns := c.currentRun + 1 }

end Controller

end Bringup.Lifecycle
