import Bringup.Simulation.Schedule

/-!
# Runs in which all that is called is a start

From a world others come about, event by event, in any order in which the events can happen (`Leads`).
The runs here are those in which those outside make no calls but starts. The one run that a world picks
for itself is among them (`Leads.advance`).
-/

namespace Bringup.Simulation

open Lifecycle (CallId)

variable {e : Engine} {w w' w'' : World e}

/-- If somebody makes a call, it is one that starts every service. -/
def Event.Starts : Event → Prop
  | .control _ (.invoke operation) => operation = .startAll
  | _ => True

/-- The worlds that come from a world as long as all that those outside do is to call starts. -/
inductive Leads (w : World e) : World e → Prop where
  | refl : Leads w w
  | tail {w' w'' : World e} {event : Event} (leads : Leads w w')
    (h : w'.step event = some w'') (he : event.Starts) : Leads w w''

namespace Leads

theorem invoke (h : Leads w w') (k : Nat) : Leads w (w'.invoke k .startAll).1 := by
  unfold World.invoke
  cases hc : w'.control k (.invoke .startAll) with
  | none => exact h
  | some w'' =>
      have hstep : w'.step (.control k (.invoke .startAll)) = some w'' := hc
      exact h.tail hstep rfl

/-! ## The run that a world picks -/

theorem starts_of_mem_events {event : Event} (h : event ∈ w.events) : event.Starts := by
  cases event with
  | control k action =>
      cases action with
      | invoke operation =>
          simp [World.events, World.stepEvents, World.timeoutEvents, World.stackEvents] at h
      | _ => trivial
  | _ => trivial

theorem next (h : Leads w w') (hn : w'.next? = some w'') : Leads w w'' := by
  obtain ⟨event, he, hs⟩ := List.exists_of_findSome?_eq_some hn
  exact h.tail hs (starts_of_mem_events he)

theorem settleIn (h : Leads w w') (count : Nat) : Leads w (w'.settleIn count) := by
  induction count generalizing w' with
  | zero => exact h
  | succ count ih =>
      rw [World.settleIn]
      split
      next hn => exact ih (h.next hn)
      next => exact h

theorem advanceIn (h : Leads w w') (done : World e → Bool) (limit : Option Nat) (count : Nat) :
    Leads w (w'.advanceIn done limit count) := by
  induction count generalizing w' with
  | zero => exact h
  | succ count ih =>
      rw [World.advanceIn]
      split
      next => exact h
      next =>
        split
        next => exact h
        next time ht =>
          split
          next => exact h
          next =>
            have hlater : w'.now < time := by
              simpa using (List.mem_filter.1 (List.min?_mem ht)).2
            have hpass : w'.step (.pass time) = some { w' with now := time } := if_pos hlater
            have hled : Leads w { w' with now := time } := h.tail hpass trivial
            exact ih (hled.settleIn _)

/-- The run that a world picks is one of those that it has. -/
theorem advance (h : Leads w w') (done : World e → Bool) (limit : Option Nat) :
    Leads w (w'.advance done limit) :=
  (h.settleIn _).advanceIn done limit _

theorem await (h : Leads w w') (k : Nat) (call : CallId) : Leads w (w'.await k call) :=
  h.advance _ none

end Leads

end Bringup.Simulation
