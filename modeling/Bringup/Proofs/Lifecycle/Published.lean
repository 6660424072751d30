import Bringup.Proofs.Lifecycle.Runs

/-!
# The published state is the state

Beside its state a slot keeps the copy of it that those watch who wait for the service. A move changes
both, and whatever else is done to a slot changes neither (`StartTurn.published`, `StopTurn.published`). So a
controller whose copies are all up to date keeps them so in every step (`Published.step`), and what a job
that waits for a dependency reads is the state of the dependency.
-/

namespace Bringup.Lifecycle

namespace Slot

/-- The state that others watch is the state. -/
def Published (slot : Slot) : Prop := slot.published = slot.state

variable {slot : Slot}

theorem Published.record (h : slot.Published) (error : Error) : (slot.recordIfStartable error).Published := by
  unfold recordIfStartable
  split
  next => exact h
  next => exact h

theorem Published.leave (h : slot.Published) (now : Nat) (target : ServiceState) (error : Option Error) :
    (slot.leaveStarting now target error).Published := by
  unfold leaveStarting
  split
  next => exact rfl
  next => exact h

theorem Published.unclaim (h : slot.Published) {n : Nat} (job : StartJob n) :
    (job.unclaim slot).Published := by
  unfold StartJob.unclaim
  split
  next => exact h
  next => exact h

theorem Published.settled_iff (h : slot.Published) :
    slot.progress.settled ↔ slot.state = .ready ∨ slot.claims = 0 := by
  rw [progress_settled_iff, h]

end Slot

variable {t : Topology} {c c' : Controller t} {now : Nat} {id : JobId} {action : Action} {slot : Slot}
  {aside : Aside} {effects : List Effect}

theorem StartTurn.published {job job' : StartJob t.size}
    (turn : StartTurn c now id job action job' slot aside effects)
    (h : (c.slot job.service).Published) : slot.Published := by
  cases turn with
  | enter | enterBare => exact rfl
  | refuse | forgo => exact (h.record _).unclaim job
  | conclude => exact (h.leave now _ _).unclaim job
  | follow | cease | discarded => exact h.unclaim job
  | _ => exact h

theorem StopTurn.published {job : StopJob t.size} {phase : StopPhase}
    (turn : StopTurn c now id job action phase slot effects) (h : (c.slot job.service).Published) :
    slot.Published := by
  cases turn with
  | skip | retire | take => exact rfl
  | _ => exact h

namespace Controller

/-- All states that others watch are the states. -/
def Published (c : Controller t) : Prop := ∀ s, (c.slot s).Published

theorem Published.turn (h : c.Published) (hturn : TurnsTo c now id action c' effects) : c'.Published := by
  obtain ⟨old, new, slot, aside, -, turn, rfl⟩ := hturn
  intro s
  by_cases hs : s = old.service
  · subst hs
    rw [slot_after_self]
    cases turn with
    | start turn => exact turn.published (h _)
    | stop turn => exact turn.published (h _)
    | launch => exact h _
  · rw [slot_after_of_ne hs]
    exact h s

theorem Sets.published (hsets : Sets now c c') (h : c.Published) : c'.Published := by
  intro s
  cases hsets with
  | starts services jobs slots => exact slots s ▸ h s
  | stops stops fresh jobs slots => exact slots s ▸ h s
  | sweeps s' jobs slots =>
      rw [slots]
      split
      next => exact (h s').leave now _ _
      next => exact h s

/-- **Every step publishes the states that it changes.** -/
theorem Published.step (h : c.Published) (hs : c.step now action = some (c', effects)) : c'.Published :=
  step_induct hs (fun _ turn => h.turn turn) (fun h change => change.sets.published h) h

theorem published_fresh (config : Config) : (fresh t config).Published := fun s => by
  simp [fresh, Controller.slot, Slot.Published]

theorem Run.published {config : Config} {past : List (Moment t)} (run : Run (fresh t config) past c) :
    c.Published := run.invariant (published_fresh config) Published.step

end Controller

end Bringup.Lifecycle
