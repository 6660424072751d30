import Bringup.Lifecycle.Slot

/-!
# Jobs

A controller does its work in jobs that run side by side: one for each service to start, one for
each service to stop, and one for each container that is being launched. The phase of a job says
where it stands, and with it what it waits for: its own next step, the end of another job, an answer
from outside, or a moment in time. Services are known by their positions below `n`, jobs and calls
by the numbers in which they were created.
-/

namespace Bringup.Lifecycle

/-- The number of a job. -/
abbrev JobId := Nat

/-- The number of a call. -/
abbrev CallId := Nat

/-- A question to the container engine or to the volume table. -/
inductive Request where
  | container (call : Container.Call)
  | volume (request : Volume.Request)
  deriving DecidableEq

/-- The answer to a request of the same name. -/
inductive Reply where
  | container (reply : Container.Reply)
  | volume (result : Except Volume.BindingError Volume.Answer)

/-- How far the halt of a container has come. -/
inductive Halt where
  /-- It was asked to stop, and is killed if it has not by the deadline. -/
  | stopping (deadline : Nat)
  /-- It was asked to be killed. -/
  | killing
  deriving DecidableEq, Inhabited, Repr

/-- What the start of a service came to. -/
inductive Verdict where
  | ready
  | failed (error : Error)
  /-- The run was cancelled, during the given launch if there is one. -/
  | cancelled (launch : Option JobId)
  deriving DecidableEq, Inhabited, Repr

/-- Where the start of a service stands. -/
inductive StartPhase (n : Nat) where
  /-- About to look at the state of the service. -/
  | arriving
  /-- Waits until whoever starts the service is done with it. -/
  | following
  /-- Waits for the first of the dependencies that are left. -/
  | awaiting (dependencies : List (Fin n))
  /-- About to record why the service cannot be started. -/
  | refusing (error : Error)
  /-- About to move the service to starting. -/
  | entering
  /-- Waits until the first of the volumes that are left is bound to the service. -/
  | attaching (volumes : List Volume)
  /-- Waits for the container. -/
  | launching (launch : JobId)
  /-- About to record the container. -/
  | recording (handle : Container.Handle)
  /-- Halts a container that came after the service had left the state of starting. -/
  | discarding (handle : Container.Handle) (halt : Halt)
  /-- Waits before the next question whether the container is ready. -/
  | pausing (handle : Container.Handle) (attempt : UInt32) (deadline : Nat)
  /-- About to ask whether the container is ready. -/
  | asking (handle : Container.Handle) (attempt : UInt32)
  /-- Waits for the answer. -/
  | probing (handle : Container.Handle) (attempt : UInt32)
  /-- About to write down what the start came to. -/
  | concluding (verdict : Verdict)
  | finished
  deriving DecidableEq, Inhabited, Repr

/-- Starts one service for one run. -/
structure StartJob (n : Nat) where
  service : Fin n
  /-- The run, whose end ends the job too. -/
  run : Nat
  /-- Whether the job still holds its claim on the service. -/
  claimed : Bool := true
  phase : StartPhase n := .arriving
  deriving DecidableEq, Repr

/-- Where the stop of a service stands. -/
inductive StopPhase where
  /-- Waits until the first of the jobs that are left has finished. -/
  | awaiting (jobs : List JobId)
  /-- About to take the service out of use. -/
  | taking
  /-- Halts the container of the service. -/
  | halting (handle : Container.Handle) (halt : Halt)
  /-- Waits until the first of the volumes that are left is unbound. -/
  | detaching (volumes : List Volume)
  /-- About to move the service to stopped. -/
  | retiring
  | finished
  deriving DecidableEq, Inhabited, Repr

/-- Stops one service. -/
structure StopJob (n : Nat) where
  service : Fin n
  phase : StopPhase := .taking
  deriving DecidableEq, Repr

/-- Where the launch of a container stands. -/
inductive LaunchPhase where
  /-- About to ask for the container. -/
  | calling
  /-- Waits for the container. -/
  | running
  /-- The container, or why there is none, waits to be taken. -/
  | returned (result : Except Container.Error Container.Handle)
  /-- Halts a container that nobody takes any more. -/
  | halting (handle : Container.Handle) (halt : Halt)
  | finished

/-- Launches the container of a service, for the start job that waits for it. -/
structure Launch (n : Nat) where
  service : Fin n
  /-- Whether the start job has left without taking the container. -/
  orphaned : Bool := false
  phase : LaunchPhase := .calling

/-- A job of one of the three kinds. -/
inductive Job (n : Nat) where
  | start (job : StartJob n)
  | stop (job : StopJob n)
  | launch (job : Launch n)

/-- Whether the job has nothing left to do. -/
def Job.isFinished {n : Nat} : Job n → Bool
  | .start ⟨_, _, _, .finished⟩ => true
  | .stop ⟨_, .finished⟩ => true
  | .launch ⟨_, _, .finished⟩ => true
  | _ => false

end Bringup.Lifecycle
