import Bringup.Proofs.Simulation.Dismantling
import Bringup.Proofs.Simulation.Renewal

/-!
# The stop that a restart begins with

The stop job of a restart takes the service if it is ready, gets its container out of the way, and unbinds
its volumes one after another, each as long after the one before as the store takes over it. At every
instant it has come as far as it has to (`Vacating.turn`), as long as the engine answers what it promised,
in time (`Promises`). A service that is stopped already is left as it is.
-/

namespace Bringup.Simulation

open Lifecycle
open Container (Handle)
open Engine.Scripted (Entry)

variable {t : Topology}

namespace Setting

/-! ## Where the stop stands -/

section

variable (x y : Setting Engine.Scripted.engine t) (s : Fin t.size)

/-- The stop job of a restart has come as far as it has to at this instant. -/
def Vacating : StopPhase → Prop
  | .awaiting _ => False
  | .taking => x.Unbegun y s
  | .halting handle (.stopping deadline) =>
    (x.controller.slot s).state = .ready ∧ handle.service = t.id s ∧
      deadline = x.now + x.teardown.patience ∧ y.now ≤ x.vacates s ∧
      (y.controller.slot s).state = .stopping ∧ x.Traces y s [⟨x.now, .stop, t.id s, none⟩] [] []
  | .halting _ .killing =>
    (x.controller.slot s).state = .ready ∧ y.now = x.vacates s ∧
      (y.controller.slot s).state = .stopping ∧ x.Traces y s (x.evicts s) [] []
  | .detaching volumes =>
    ∃ gone volume rest, volumes = volume :: rest ∧ t.volumesOf s = gone ++ volume :: rest ∧
      (x.controller.slot s).state = .ready ∧
      y.ServedAt (x.vacates s + (gone.length + 1) * x.latency) ∧
      (y.controller.slot s).state = .stopping ∧ x.Traces y s (x.evicts s) (gone ++ [volume]) []
  | .retiring =>
    y.now = x.clears s ∧ (y.controller.slot s).state = .stopping ∧
      x.Traces y s (x.evicts s) (t.volumesOf s) []
  | .finished => x.Vacated y s

/-- When the engine goes on with a halt, and with what answer. -/
def Ends (entry : Ongoing Engine.Scripted.Work) : Halt → Prop
  | .stopping _ => entry.due = x.now + x.teardown.stopDelay s ∧
    entry.work = .answer (.stop (Engine.Scripted.State.outcome (x.engine.script (t.id s)).stopFault))
  | .killing => entry.due = x.vacates s

/-- What the engine works on for a job of a restart comes to what the scripts have in store. -/
def Promises (entry : Ongoing Engine.Scripted.Work) : Job t.size → Prop
  | .stop job => ∀ handle halt, job.phase = .halting handle halt → x.Ends s entry halt
  | job => ∀ engine, Kept x.scene engine → job.Takes x.scene.prospect
    (.container (Engine.Scripted.State.finish engine entry.work).2)

/-- A halt goes on in time: the engine answers when the container has stopped, and the time of the
container to stop is over only before that. -/
structure HaltsInTime (id : JobId) (action : Action) (phase : StopPhase) : Prop where
  answer : ∀ {handle deadline reply}, phase = .halting handle (.stopping deadline) →
    action = .answer id reply → x.now + x.teardown.stopDelay s ≤ y.now ∧ reply = .container
      (.stop (Engine.Scripted.State.outcome (x.engine.script (t.id s)).stopFault))
  timeout : ∀ {handle deadline}, phase = .halting handle (.stopping deadline) →
    action = .timeout id → y.now < x.now + x.teardown.stopDelay s

end

variable {x y z : Setting Engine.Scripted.engine t} {s : Fin t.size} {id : JobId} {action : Action}
  {phase phase' : StopPhase} {slot : Slot} {effects : List Effect}

theorem Vacating.congr (h : x.Vacating y s phase) (hz : y.Resembles z) (hnow : z.now = y.now)
    (hserved : ∀ time, y.ServedAt time → z.ServedAt time) : x.Vacating z s phase := by
  have hstate {state : ServiceState} (he : (y.controller.slot s).state = state) :
      (z.controller.slot s).state = state := (congrArg Slot.state (hz.slot s)).trans he
  cases phase with
  | awaiting => exact h.elim
  | taking => exact Unbegun.congr hz hnow h
  | halting handle halt =>
      cases halt with
      | stopping deadline =>
          obtain ⟨hready, hservice, hdeadline, hle, hs, htraces⟩ := h
          exact ⟨hready, hservice, hdeadline, hnow ▸ hle, hstate hs, htraces.resembles hz⟩
      | killing =>
          obtain ⟨hready, hover, hs, htraces⟩ := h
          exact ⟨hready, hnow.trans hover, hstate hs, htraces.resembles hz⟩
  | detaching =>
      obtain ⟨gone, volume, rest, he, hv, hready, hover, hs, htraces⟩ := h
      exact ⟨gone, volume, rest, he, hv, hready, hserved _ hover, hstate hs, htraces.resembles hz⟩
  | retiring => exact ⟨hnow.trans h.1, hstate h.2.1, h.2.2.resembles hz⟩
  | finished => exact Vacated.congr hz hnow h

section

variable (hx : x.Renewable s) (hconfig : y.controller.config = x.controller.config)
  (hmode : y.store.mode = .serving x.latency) (hqueue : y.store.queue = [])
  (hturn : StopTurn y.controller y.now id ⟨s, phase⟩ action phase' slot effects)

include hmode hqueue in
/-- A stop job whose container is out of the way asks for the next of its volumes, or is about to move its
service to stopped. -/
theorem vacating_detach {gone volumes : List Volume}
    (hturn : Turn y.controller y.now id (.stop ⟨s, phase⟩) action
      (.stop ⟨s, Controller.detachPhase volumes⟩) slot .nothing (Controller.askDetach id volumes))
    (hvolumes : t.volumesOf s = gone ++ volumes) (hready : (x.controller.slot s).state = .ready)
    (hnow : y.now = x.vacates s + gone.length * x.latency) (hslot : slot.state = .stopping)
    (htraces : x.Traces y s (x.evicts s) gone []) :
    x.Vacating (y.after (y.controller.after id (.stop ⟨s, Controller.detachPhase volumes⟩) s slot .nothing)
      (Controller.askDetach id volumes)) s (Controller.detachPhase volumes) := by
  have hstate : ((y.controller.after id (.stop ⟨s, Controller.detachPhase volumes⟩) s slot .nothing).slot
      s).state = .stopping := by
    rw [Controller.slot_after_self]
    exact hslot
  cases volumes with
  | nil =>
      rw [List.append_nil] at hvolumes
      rw [← hvolumes, ← clears_of_ready hready] at hnow
      exact ⟨hnow, hstate, hvolumes ▸ htraces.turned hmode hturn rfl htraces.shelf⟩
  | cons volume rest =>
      have htime : y.now + x.latency = x.vacates s + (gone.length + 1) * x.latency := by
        rw [hnow, Nat.succ_mul, Nat.add_assoc]
      exact ⟨gone, volume, rest, rfl, hvolumes, hready, .ask hmode hqueue hturn rfl htime _, hstate,
        htraces.turned hmode hturn rfl htraces.shelf.detach⟩

include hmode in
/-- A stop job kills a container that takes too long to stop, or cannot be stopped. -/
theorem vacating_kill {handle : Handle} {deadline : Nat} {before : List Effect}
    (hturn : Turn y.controller y.now id (.stop ⟨s, .halting handle (.stopping deadline)⟩) action
      (.stop ⟨s, .halting handle .killing⟩) (y.controller.slot s) .nothing
      (before ++ [Controller.askKill id handle]))
    (hb : before = [] ∨ before = [.withdraws id]) (hready : (x.controller.slot s).state = .ready)
    (hservice : handle.service = t.id s) (hnow : y.now = x.vacates s)
    (hslot : (y.controller.slot s).state = .stopping)
    (hstubborn : x.teardown.patience < x.teardown.stopDelay s ∨
      (x.engine.script (t.id s)).stopFault ≠ none)
    (htraces : x.Traces y s [⟨x.now, .stop, t.id s, none⟩] [] []) : x.Vacating (y.after
      (y.controller.after id (.stop ⟨s, .halting handle .killing⟩) s (y.controller.slot s) .nothing)
      (before ++ [Controller.askKill id handle])) s (.halting handle .killing) := by
  refine ⟨hready, (now_after _ _).trans hnow, ?_, ?_⟩
  · rw [controller_after, Controller.slot_after_self]
    exact hslot
  · rw [evicts_of_stubborn hready hstubborn]
    refine htraces.after hmode hturn ?_ htraces.shelf
    rw [Controller.askKill, engine_after_asks _ hb, ← hservice, ← hnow]
    exact Engine.Scripted.State.calls_take_kill handle

include hx hconfig hmode in
/-- A service that is ready is taken, and one that is stopped already is left as it is. -/
theorem Unbegun.taken (h : x.Unbegun y s)
    (hturn : StopTurn y.controller y.now id ⟨s, .taking⟩ action phase' slot effects) :
    x.Vacating (y.after (y.controller.after id (.stop ⟨s, phase'⟩) s slot .nothing) effects) s
      phase' := by
  obtain ⟨hnow, hsame, htraces⟩ := h
  have hstate := hx.state
  rw [← hsame] at hstate
  have hslot : (y.controller.after id (.stop ⟨s, phase'⟩) s slot .nothing).slot s = slot :=
    Controller.slot_after_self
  have hturns : Turn y.controller y.now id (.stop ⟨s, .taking⟩) action (.stop ⟨s, phase'⟩) slot .nothing
      effects := .stop hturn
  cases hturn with
  | idle hp hs =>
      obtain ⟨hclears, hevicts⟩ := evicts_of_stopped (hsame ▸ hs)
      refine ⟨hnow.trans hclears.symm, ?_, ?_⟩
      · rw [controller_after, hslot]
        exact hs
      · rw [hevicts]
        exact htraces.turned hmode hturns rfl (hx.shelved_of_stopped (hsame ▸ hs) htraces.shelf)
  | take hp hs =>
      have hready : (x.controller.slot s).state = .ready := by
        rw [← hsame]
        refine hstate.resolve_right fun he => ?_
        rcases hs with hs | hs <;> exact absurd (hs.symm.trans he) (by simp)
      obtain ⟨handle, hh, hservice⟩ := hx.exists_handle hready
      have hh : (y.controller.slot s).handle = some handle := by rw [hsame, hh]
      rw [hh] at hturns hslot ⊢
      refine ⟨hready, hservice, ?_, ?_, ?_, ?_⟩
      · rw [hnow, hconfig]
        rfl
      · rw [now_after, hnow, vacates_of_ready hready]
        exact Nat.le_add_right _ _
      · rw [controller_after, hslot]
        rfl
      · refine htraces.after hmode hturns ?_ htraces.shelf
        rw [← hservice, ← hnow]
        exact Engine.Scripted.State.calls_take_stop handle y.controller.config.stopTimeout
  | skip hp hs => rcases hstate with he | he <;> cases hs.symm.trans he
  | takeLeft hp hs =>
      rcases hs with hs | hs <;> rcases hstate with he | he <;> cases hs.symm.trans he
  | go hp | pass hp | retire hp | leave hp | overrun hp | halted hp | kill hp | unbind hp => cases hp

include hmode hqueue in
/-- A container that is to stop has stopped in time, or is killed. -/
theorem Vacating.halting {handle : Handle} {deadline : Nat}
    (h : x.Vacating y s (.halting handle (.stopping deadline)))
    (hturn : StopTurn y.controller y.now id ⟨s, .halting handle (.stopping deadline)⟩ action phase' slot
      effects)
    (hin : HaltsInTime x y s id action (.halting handle (.stopping deadline))) :
    x.Vacating (y.after (y.controller.after id (.stop ⟨s, phase'⟩) s slot .nothing) effects) s
      phase' := by
  obtain ⟨hready, hservice, hdeadline, hle, hstate, htraces⟩ := h
  have hturns : Turn y.controller y.now id (.stop ⟨s, .halting handle (.stopping deadline)⟩) action
      (.stop ⟨s, phase'⟩) slot .nothing effects := .stop hturn
  have hvacates := vacates_of_ready hready
  rw [hvacates] at hle
  cases hturn with
  | overrun hp hh =>
      obtain ⟨rfl, rfl⟩ := StopPhase.halting.inj hp
      have hpatience : deadline ≤ y.now := of_decide_eq_true hh
      have hlong := hin.timeout rfl rfl
      exact vacating_kill hmode hturns (.inr rfl) hready hservice (by omega) hstate (.inl (by omega))
        htraces
  | halted hp hr =>
      obtain ⟨rfl, rfl⟩ := StopPhase.halting.inj hp
      obtain ⟨hstopped, rfl⟩ := hin.answer rfl rfl
      have hfault : (x.engine.script (t.id s)).stopFault = none := by
        cases hf : (x.engine.script (t.id s)).stopFault with
        | none => rfl
        | some error => simp [hf, Engine.Scripted.State.outcome, Halt.answered] at hr
      refine vacating_detach hmode hqueue hturns (List.nil_append _).symm hready ?_ hstate ?_
      · rw [List.length_nil, Nat.zero_mul, Nat.add_zero]
        omega
      · rw [evicts_of_patient hready (by omega) hfault]
        exact htraces
  | kill hp hr =>
      obtain ⟨rfl, rfl⟩ := StopPhase.halting.inj hp
      obtain ⟨hstopped, rfl⟩ := hin.answer rfl rfl
      refine vacating_kill hmode hturns (.inl rfl) hready hservice (by omega) hstate (.inr fun hf => ?_)
        htraces
      simp [hf, Engine.Scripted.State.outcome, Halt.answered] at hr
  | go hp | pass hp | idle hp | skip hp | take hp | takeLeft hp | retire hp | leave hp
  | unbind hp => cases hp

include hx hconfig hmode hqueue hturn in
/-- **The turn of the stop job** of a restart comes when it has to. -/
theorem Vacating.turn (h : x.Vacating y s phase) (hin : HaltsInTime x y s id action phase) :
    x.Vacating (y.after (y.controller.after id (.stop ⟨s, phase'⟩) s slot .nothing) effects) s
      phase' := by
  have hturns : Turn y.controller y.now id (.stop ⟨s, phase⟩) action (.stop ⟨s, phase'⟩) slot .nothing
      effects := .stop hturn
  cases phase with
  | awaiting => exact h.elim
  | taking => exact Unbegun.taken hx hconfig hmode h hturn
  | halting handle halt =>
      cases halt with
      | stopping deadline => exact h.halting hmode hqueue hturn hin
      | killing =>
          obtain ⟨hready, hnow, hstate, htraces⟩ := h
          obtain ⟨rfl, rfl, rfl⟩ := StopTurn.killing_cases hturn rfl
          exact vacating_detach hmode hqueue hturns (List.nil_append _).symm hready (by simpa using hnow)
            hstate htraces
  | detaching volumes =>
      obtain ⟨gone, volume, rest, rfl, hvolumes, hready, hserved, hstate, htraces⟩ := h
      cases hturn with
      | unbind hp =>
          obtain ⟨rfl, rfl⟩ := List.cons.inj (StopPhase.detaching.inj hp)
          exact vacating_detach hmode hqueue hturns (by simpa using hvolumes) hready
            (by simpa using hserved.reached hqueue) hstate htraces
      | go hp | pass hp | idle hp | skip hp | take hp | takeLeft hp | retire hp | leave hp
      | overrun hp | halted hp | kill hp => cases hp
  | retiring =>
      obtain ⟨hnow, hstate, htraces⟩ := h
      cases hturn with
      | retire hp hs =>
          exact ⟨hnow, congrArg Slot.state Controller.slot_after_self,
            htraces.turned hmode hturns rfl htraces.shelf⟩
      | leave hp hs => exact absurd hstate hs
      | go hp | pass hp | idle hp | skip hp | take hp | takeLeft hp | overrun hp | halted hp | kill hp
      | unbind hp => cases hp
  | finished => cases hturn <;> simp_all

omit hx hconfig hmode hqueue in
include hturn in
/-- **What the stop job asks** of the engine comes to what the scripts have in store. -/
theorem Vacating.promises (h : x.Vacating y s phase) {c : Controller t}
    (hnew : x.Vacating (y.after c effects) s phase') (hscripts : StopsAs y.engine x.engine)
    {call : Container.Call} (hexpects : (Job.stop ⟨s, phase'⟩ : Job t.size).Expects call) :
    x.Promises s ⟨id, y.now + (Engine.Scripted.State.take y.engine y.now call).2.1,
      (Engine.Scripted.State.take y.engine y.now call).2.2⟩ (.stop ⟨s, phase'⟩) := by
  rintro handle halt rfl
  cases halt with
  | stopping deadline =>
      cases call with
      | stop handle' timeout =>
          obtain rfl : handle' = handle := hexpects
          obtain ⟨-, hservice, -⟩ := hnew
          obtain rfl : phase = .taking := StopTurn.stopping_cases hturn
          obtain ⟨hdelay, hfault⟩ := hscripts (t.id s)
          constructor
          · show y.now + (Engine.Scripted.State.script y.engine handle'.service).stopDelay = _
            rw [h.1, hservice, hdelay]
            rfl
          · show Engine.Scripted.Work.answer (.stop (Engine.Scripted.State.outcome
              (Engine.Scripted.State.script y.engine handle'.service).stopFault)) = _
            rw [hservice, hfault]
      | _ => exact hexpects.elim
  | killing =>
      cases call with
      | kill handle' => exact (now_after _ _).symm.trans hnew.2.1
      | _ => exact hexpects.elim

end

end Setting

end Bringup.Simulation
