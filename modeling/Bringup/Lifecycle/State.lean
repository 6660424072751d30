/-!
# States of a service

Where a service stands between its declaration and its end, and the moves that are allowed:
pending to starting or stopped; starting to ready, failed or stopping; ready to stopping; stopping
to stopped; stopped to starting.
-/

namespace Bringup.Lifecycle

/-- Where a service stands. -/
inductive ServiceState where
  /-- Declared and not started yet. -/
  | pending
  /-- Being started and not known to be ready. -/
  | starting
  /-- Usable by those that depend on it. -/
  | ready
  | stopping
  /-- Stopped, or never started and given up. -/
  | stopped
  /-- Could not be started. -/
  | failed
  deriving DecidableEq, Inhabited, Repr

namespace ServiceState

/-- The name of the state. -/
def display : ServiceState → String
  | pending => "pending"
  | starting => "starting"
  | ready => "ready"
  | stopping => "stopping"
  | stopped => "stopped"
  | failed => "failed"

/-- Whether a service may move from one state to the other. -/
def canMoveTo : ServiceState → ServiceState → Bool
  | pending, starting | pending, stopped => true
  | starting, ready | starting, failed | starting, stopping => true
  | ready, stopping => true
  | stopping, stopped => true
  | stopped, starting => true
  | _, _ => false

/-- Whether a service may be started. -/
def isStartable : ServiceState → Bool
  | pending | stopped => true
  | _ => false

theorem isStartable_iff {s : ServiceState} : s.isStartable ↔ s.canMoveTo starting := by
  cases s <;> decide

end ServiceState

end Bringup.Lifecycle
