import Bringup.Lifecycle.Calling
import Bringup.Lifecycle.Launching
import Bringup.Lifecycle.Starting
import Bringup.Lifecycle.Stopping

/-!
# Steps of a controller

Everything that can happen to a controller is an action. `step` says what an action does at a given
time, and that it cannot happen where it answers nothing. Nothing is said about which of several
possible actions comes next: a run of the controller is any sequence of actions, so the jobs and
calls may take their steps in any order, and what is asked outside may be answered at any time.

Each action is one step of one job or call, from one wait to the next.
-/

namespace Bringup.Lifecycle

/-- Something that can happen to a controller. -/
inductive Action where
  /-- Somebody makes a call. -/
  | invoke (operation : Operation)
  /-- A call takes its next step. -/
  | proceed (call : CallId)
  /-- A call is interrupted. -/
  | interrupt (call : CallId)
  /-- A job takes its next step. -/
  | run (job : JobId)
  /-- A job leaves a wait because its run is cancelled. -/
  | heed (job : JobId)
  /-- The moment for which a job waits is there. -/
  | timeout (job : JobId)
  /-- What a job asked is answered. -/
  | answer (job : JobId) (reply : Reply)

namespace Controller

variable {t : Topology}

/-- The controller after an action, and what the action shows to the outside, or nothing where the
action cannot happen. -/
def step (now : Nat) (c : Controller t) : Action → Option (Controller t × List Effect)
  | .invoke operation => some ((c.invoke now operation).1, [])
  | .proceed id => (c.calls[id]?).bind fun call => c.proceed now id call
  | .interrupt id => (c.calls[id]?).bind fun call => c.interrupt id call
  | .run id =>
    match c.jobs[id]? with
    | some (.start job) => c.runStart now id job
    | some (.stop job) => c.runStop now id job
    | some (.launch job) => c.runLaunch now id job
    | none => none
  | .heed id =>
    match c.jobs[id]? with
    | some (.start job) => c.heedStart id job
    | _ => none
  | .timeout id =>
    match c.jobs[id]? with
    | some (.start job) => c.timeoutStart now id job
    | some (.stop job) => c.timeoutStop now id job
    | some (.launch job) => c.timeoutLaunch now id job
    | none => none
  | .answer id reply =>
    match c.jobs[id]? with
    | some (.start job) => c.answerStart now id job reply
    | some (.stop job) => c.answerStop id job reply
    | some (.launch job) => c.answerLaunch id job reply
    | none => none

end Controller

/-- The moments for which a job waits. -/
def Job.deadline? {n : Nat} : Job n → Option Nat
  | .start job =>
    match job.phase with
    | .pausing _ _ deadline => some deadline
    | .discarding _ halt => halt.deadline?
    | _ => none
  | .stop job =>
    match job.phase with
    | .halting _ halt => halt.deadline?
    | _ => none
  | .launch job =>
    match job.phase with
    | .halting _ halt => halt.deadline?
    | _ => none

end Bringup.Lifecycle
