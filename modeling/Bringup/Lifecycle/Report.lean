import Bringup.Lifecycle.Error
import Bringup.Text.Padding

/-!
# Reports

A status is what is known of one service at one moment: its state, the last error recorded with it
and the moves it has made. A report holds the status of every service, and is shown as one line
for each.
-/

namespace Bringup.Lifecycle

/-- A move between two states, at a time in milliseconds. -/
structure Transition where
  source : ServiceState
  target : ServiceState
  time : Nat
  deriving DecidableEq, Inhabited, Repr

/-- What is known of a service at one moment. -/
structure Status where
  id : ServiceId
  state : ServiceState
  lastError : Option Error := none
  /-- The moves the service has made, the oldest first. -/
  transitions : List Transition := []
  deriving DecidableEq, Inhabited, Repr

namespace Status

/-- When the service last entered a state. -/
def entered? (status : Status) (state : ServiceState) : Option Nat :=
  (status.transitions.reverse.find? fun move => move.target = state).map Transition.time

/-- The line of a report on the service. -/
def display (status : Status) : String :=
  let error := match status.lastError with
    | none => ""
    | some error => s!" ({error.message})"
  s!"{Text.padRight 20 status.id.name} {status.state.display}{error}\n"

end Status

/-- The status of every service. -/
structure Report where
  services : List Status := []
  deriving DecidableEq, Inhabited, Repr

namespace Report

/-- The status of one service. -/
def get? (report : Report) (id : ServiceId) : Option Status :=
  report.services.find? fun status => status.id = id

/-- The state of one service. -/
def state? (report : Report) (id : ServiceId) : Option ServiceState :=
  (report.get? id).map Status.state

/-- Whether every service is ready. -/
def allReady (report : Report) : Bool := report.services.all fun status => status.state = .ready

/-- The services with which an error is recorded. -/
def failures (report : Report) : List Status :=
  report.services.filter fun status => status.lastError.isSome

/-- The report as text. -/
def display (report : Report) : String := String.join (report.services.map Status.display)

end Report

end Bringup.Lifecycle
