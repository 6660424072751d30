import Bringup.Proofs.Simulation.Standstill
import Bringup.Proofs.Topology.Recursion

/-!
# What a lone stop comes to

All services are stopped while nothing else goes on. When each service is taken and when its stop is over
follows from what the services hold and how long their containers take to stop, by recursion over the
dependents (`Teardown.ends_eq`): a service is taken when the stop of the last that depends on it is over,
and its own stop is over at once if it holds no container, and else when the container has stopped or its
time to stop is over. In the latter case it is killed.

`Slot.torn` is what is left of the slot of a service.
-/

namespace Bringup

namespace Lifecycle.Slot

variable (slot : Slot)

/-- The slot once a stop job has taken its service at an instant. -/
def taken (now : Nat) : Slot :=
  match slot.state with
  | .stopped => slot
  | .pending => slot.moved now .stopped
  | .starting | .ready => { slot.moved now .stopping with handle := none }
  | .stopping | .failed => { slot with handle := none }

/-- The slot once a stop job has come to its end at an instant. -/
def retired (now : Nat) : Slot := if slot.state = .stopping then slot.moved now .stopped else slot

/-- The slot once its service has been stopped, between two instants. -/
def torn (begins ends : Nat) : Slot := (slot.taken begins).retired ends

variable {slot} {now begins ends : Nat}

/-- A service that has failed stays so, and every other one is stopped. -/
theorem state_torn :
    (slot.torn begins ends).state = if slot.state = .failed then .failed else .stopped := by
  unfold torn taken retired
  cases h : slot.state <;> simp [moved, h]

/-- The error stays. -/
theorem lastError_torn : (slot.torn begins ends).lastError = slot.lastError := by
  unfold torn taken retired
  cases h : slot.state <;> simp only [] <;> split <;> rfl

/-- No container is left, if a service that can be started holds none. -/
theorem handle_torn (hv : slot.state.isStartable → slot.handle = none) :
    (slot.torn begins ends).handle = none := by
  unfold torn taken retired
  cases h : slot.state <;> simp_all [moved, ServiceState.isStartable]

/-- A slot of a service that is stopped or has failed stays as it is, if it holds no container. -/
theorem torn_eq_self (hs : slot.state = .stopped ∨ slot.state = .failed)
    (hh : slot.handle = none) : slot.torn begins ends = slot := by
  obtain ⟨state, published, handle, lastError, transitions, claims⟩ := slot
  obtain rfl : handle = none := hh
  rcases hs with rfl | rfl <;> rfl

end Lifecycle.Slot

namespace Simulation

open Lifecycle
open Engine.Scripted (Entry)
open Bringup.Topology (latest along)

variable {t : Topology}

/-- What a stop of all services meets. -/
structure Teardown (t : Topology) where
  /-- When it is called. -/
  called : Nat
  /-- Whether there is a container in the slot of a service. -/
  holds : Fin t.size → Bool
  /-- How long a container takes to stop. -/
  stopDelay : Fin t.size → Nat
  /-- How long a container has to stop. -/
  patience : Nat

namespace Teardown

variable (p : Teardown t) (s : Fin t.size)

/-- How long the stop of a service takes from when the service is taken. -/
def span : Nat := if p.holds s then min (p.stopDelay s) p.patience else 0

/-- The order in which services stop. -/
def order (t : Topology) : List (Fin t.size) :=
  match t.stopOrder with
  | .ok order => order
  | .error _ => List.finRange t.size

/-- When the stop of a service is over. -/
def ends : Fin t.size → Nat :=
  along (fun s ends => latest p.called ends (t.dependents s) + p.span s) (order t) fun _ => p.called

/-- When a service is taken. -/
def begins : Nat := latest p.called p.ends (t.dependents s)

/-- When the call returns. -/
def returns : Nat := latest p.called p.ends (List.finRange t.size)

/-- What the engine is asked for a service: to stop its container, if there is one, and to kill it if
that takes too long. -/
def calls : List Entry :=
  if p.holds s then
    ⟨p.begins s, .stop, t.id s, none⟩ ::
      if p.patience < p.stopDelay s then [⟨p.begins s + p.patience, .kill, t.id s, none⟩] else []
  else []

variable {p s}

theorem order_eq (ht : t.Built) : ∃ order, t.stopOrder = .ok order ∧ Teardown.order t = order ∧
    order.Nodup ∧ (∀ s, s ∈ order) ∧ ∀ s, ∀ e ∈ t.dependents s, order.idxOf e < order.idxOf s := by
  obtain ⟨order, ho, h⟩ := ht.stopOrder
  exact ⟨order, ho, by rw [Teardown.order, ho], h⟩

/-- **The recursion over the dependents**: the stop of a service is over after as long as it takes
itself, and it begins when the last stop of those that depend on it is over. -/
theorem ends_eq (ht : t.Built) : p.ends s = p.begins s + p.span s := by
  obtain ⟨order, -, ho, hnodup, hmem, hbehind⟩ := order_eq ht
  rw [ends, ho, Topology.along_eq hnodup hmem hbehind (fun h => by rw [Topology.latest_congr h]),
    begins, ends, ho]

theorem called_le_begins : p.called ≤ p.begins s := Topology.earliest_le_latest

theorem ends_le_begins {e : Fin t.size} (h : e ∈ t.dependents s) : p.ends e ≤ p.begins s :=
  Topology.le_latest h

theorem begins_le_ends (ht : t.Built) : p.begins s ≤ p.ends s := by
  rw [ends_eq ht]
  exact Nat.le_add_right _ _

theorem called_le_returns : p.called ≤ p.returns := Topology.earliest_le_latest

theorem ends_le_returns : p.ends s ≤ p.returns := Topology.le_latest (List.mem_finRange s)

theorem begins_le {now : Nat} (hc : p.called ≤ now) (h : ∀ e ∈ t.dependents s, p.ends e ≤ now) :
    p.begins s ≤ now := Topology.latest_le hc h

theorem returns_le {now : Nat} (hc : p.called ≤ now) (h : ∀ s, p.ends s ≤ now) : p.returns ≤ now :=
  Topology.latest_le hc fun s _ => h s

/-- The stop of a service without a container is over at once. -/
theorem ends_of_bare (ht : t.Built) (h : p.holds s = false) : p.ends s = p.begins s := by
  rw [ends_eq ht, span, h]
  rfl

theorem ends_of_holds (ht : t.Built) (h : p.holds s) :
    p.ends s = p.begins s + min (p.stopDelay s) p.patience := by
  rw [ends_eq ht, span, if_pos h]

theorem calls_of_bare (h : p.holds s = false) : p.calls s = [] := by simp [calls, h]

/-- A container that stops in time is not killed. -/
theorem calls_of_patient (h : p.holds s) (hp : p.stopDelay s ≤ p.patience) :
    p.calls s = [⟨p.begins s, .stop, t.id s, none⟩] := by
  rw [calls, if_pos h, if_neg (Nat.not_lt.2 hp)]

/-- A container that takes too long is killed when its time is over. -/
theorem calls_of_overrun (ht : t.Built) (h : p.holds s) (hp : p.patience < p.stopDelay s) :
    p.calls s = [⟨p.begins s, .stop, t.id s, none⟩, ⟨p.ends s, .kill, t.id s, none⟩] := by
  rw [calls, if_pos h, if_pos hp, ends_of_holds ht h, Nat.min_eq_right (Nat.le_of_lt hp)]

/-- Where no service holds a container everything is over at once. -/
theorem ends_of_all_bare (ht : t.Built) (h : ∀ s, p.holds s = false) (s : Fin t.size) :
    p.ends s = p.called := by
  refine ht.induct_dependents (P := fun s => p.ends s = p.called) (fun s ih => ?_) s
  rw [ends_of_bare ht (h s)]
  exact Nat.le_antisymm (begins_le (Nat.le_refl _) fun e he => Nat.le_of_eq (ih e he))
    called_le_begins

end Teardown

namespace Setting

/-- What a stop of all services meets in a setting. -/
def teardown (x : Setting Engine.Scripted.engine t) : Teardown t where
  called := x.now
  holds s := (x.controller.slot s).handle.isSome
  stopDelay s := (x.engine.script (t.id s)).stopDelay
  patience := x.controller.config.stopTimeout.ceilMillis

end Setting

end Simulation

end Bringup
