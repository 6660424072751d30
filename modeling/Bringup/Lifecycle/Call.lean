import Bringup.Lifecycle.Job

/-!
# Calls

A call is one use of a controller by those outside. Most calls set jobs to work and wait for them;
some are made of other calls. The phase of a call says what it does next, and at the end holds its
answer.
-/

namespace Bringup.Lifecycle

/-- What a controller can be asked to do. -/
inductive Operation where
  /-- Starts every service that can be started. -/
  | startAll
  /-- Stops every service. -/
  | stopAll
  /-- Stops and starts one service that is ready or stopped. -/
  | restart (service : ServiceId)
  /-- Cancels the starts under way. -/
  | cancel
  /-- Reports on every service. -/
  | status
  /-- Cancels the starts under way, then stops every service. -/
  | shutDown
  /-- Starts every service, and shuts down if interrupted before the end. -/
  | upUntil
  deriving DecidableEq, Inhabited, Repr

/-- What a call hands back. -/
inductive Answer where
  | report (report : Report)
  | restarted (result : Except Error Status)
  | cancelled
  /-- Every service was started, or could not be. -/
  | finished (report : Report)
  /-- The start was interrupted, and the report is on the stop that followed. -/
  | interrupted (report : Report)
  deriving Inhabited

/-- What a call does when the call it waits for has answered. -/
inductive Sequel where
  /-- Starts every service, although interrupted. -/
  | startAll
  /-- Stops every service. -/
  | stopAll
  /-- Hands the report on. -/
  | report
  /-- Hands on the report of a start that nothing interrupted. -/
  | finish
  /-- Waits for the interrupted start. -/
  | drain (up : CallId)
  /-- Shuts down. -/
  | shutDown
  /-- Hands on the report of the stop after an interrupt. -/
  | interrupt
  deriving DecidableEq, Inhabited, Repr

/-- Where a call stands. -/
inductive CallPhase (n : Nat) where
  /-- Waits for its jobs. -/
  | joining
  /-- About to read the first of the services that are left. -/
  | reporting (services : List (Fin n)) (taken : List Status)
  /-- About to look whether the service can be restarted. -/
  | checking (service : Fin n)
  /-- Waits for the stop of the service to restart. -/
  | stopping (service : Fin n) (job : JobId)
  /-- Waits for its start. -/
  | starting (service : Fin n) (job : JobId)
  /-- About to read what the restart came to. -/
  | reading (service : Fin n)
  /-- About to cancel the first of the services that are left, if it is starting. -/
  | sweeping (services : List (Fin n))
  /-- About to start every service, if nothing interrupts it before. -/
  | beginning
  /-- Waits for another call. -/
  | following (call : CallId) (sequel : Sequel)
  /-- Has answered, at the given time. -/
  | answered (answer : Answer) (time : Nat)

/-- One use of the controller. -/
structure Call (n : Nat) where
  operation : Operation
  /-- The jobs it waits for. -/
  jobs : List JobId := []
  phase : CallPhase n

/-- What a call has handed back, and when. -/
def Call.answer? {n : Nat} (call : Call n) : Option (Answer × Nat) :=
  match call.phase with
  | .answered answer time => some (answer, time)
  | _ => none

end Bringup.Lifecycle
