import Bringup.Lifecycle.Report

/-!
# Slots

A slot is what a controller keeps of one service: its state, the copy of it that those that wait
for the service watch, the container that runs it, the last error, the moves made so far, and how
many start jobs still hold a claim on it. While claims are held, a service that is not ready may
still become so; without them it is settled.
-/

namespace Bringup.Lifecycle

/-- What is kept of one service. -/
structure Slot where
  state : ServiceState := .pending
  /-- The state as those that wait for the service watch it. -/
  published : ServiceState := .pending
  /-- The container that runs the service and that nobody has taken out to halt it. -/
  handle : Option Container.Handle := none
  lastError : Option Error := none
  /-- The moves made so far, the oldest first. -/
  transitions : List Transition := []
  /-- The start jobs that hold a claim on the service. -/
  claims : Nat := 0
  deriving DecidableEq, Inhabited, Repr

/-- What those that wait for a service see of it. -/
structure Progress where
  state : ServiceState
  claims : Nat
  deriving DecidableEq, Inhabited, Repr

/-- Whether the service is ready, or will not change without a new start. -/
def Progress.settled (p : Progress) : Bool := p.state = .ready || p.claims = 0

namespace Slot

/-- What others see of the service. -/
def progress (slot : Slot) : Progress := ⟨slot.published, slot.claims⟩

/-- The slot after a move, if the move is allowed. -/
def move? (slot : Slot) (now : Nat) (target : ServiceState) : Option Slot :=
  if slot.state.canMoveTo target then
    some { slot with
      state := target
      published := target
      transitions := slot.transitions ++ [⟨slot.state, target, now⟩] }
  else none

/-- Records an error. -/
def record (slot : Slot) (error : Error) : Slot := { slot with lastError := some error }

/-- Takes a claim on the service. -/
def claim (slot : Slot) : Slot := { slot with claims := slot.claims + 1 }

/-- Gives a claim up. -/
def release (slot : Slot) : Slot := { slot with claims := slot.claims - 1 }

/-- What is known of the service with the given name. -/
def status (slot : Slot) (id : ServiceId) : Status :=
  ⟨id, slot.state, slot.lastError, slot.transitions⟩

end Slot

end Bringup.Lifecycle
