import Bringup.Lifecycle.Controller

/-!
# Halting a container

A container is asked to stop. If it refuses, or has not stopped when its time is over, it is killed,
and whatever comes of that ends the halt.
-/

namespace Bringup.Lifecycle

/-- How a halt goes on. -/
inductive Halt.Next where
  /-- The container has to be killed. -/
  | kill
  | over
  deriving DecidableEq, Inhabited, Repr

namespace Halt

/-- How a halt goes on after an answer, if it is one to what was asked. -/
def answered : Halt → Reply → Option Next
  | .stopping _, .container (.stop (.ok _)) => some .over
  | .stopping _, .container (.stop (.error _)) => some .kill
  | .killing, .container (.kill _) => some .over
  | _, _ => none

/-- Whether the time of a container to stop is over. -/
def timedOut (now : Nat) : Halt → Bool
  | .stopping deadline => deadline ≤ now
  | .killing => false

/-- The moment at which a container that has not stopped is killed. -/
def deadline? : Halt → Option Nat
  | .stopping deadline => some deadline
  | .killing => none

end Halt

namespace Controller

variable {t : Topology} (c : Controller t)

/-- A halt that begins now. -/
def beginHalt (now : Nat) : Halt := .stopping (now + c.config.stopTimeout.ceilMillis)

/-- The question with which a halt begins. -/
def askStop (job : JobId) (handle : Container.Handle) : Effect :=
  .asks job (.container (.stop handle c.config.stopTimeout))

/-- The question with which a halt ends that did not go well. -/
def askKill (job : JobId) (handle : Container.Handle) : Effect :=
  .asks job (.container (.kill handle))

end Controller

end Bringup.Lifecycle
