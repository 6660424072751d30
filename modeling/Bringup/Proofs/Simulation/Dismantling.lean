import Bringup.Proofs.Simulation.InTime
import Bringup.Proofs.Simulation.Teardown

/-!
# The turns of a stop job

All services are stopped in a setting where nothing goes on. Each stop job then is where the teardown of
the setting has it at every instant (`Orderly.turn`): the slot of its service, what the engine has been
asked for the service, and when the engine answers (`Orderly.told`). A stop job asks for each volume of
its service to be unbound, so at its end they are (`Emptied.turn`), and nothing else happens to any volume
(`Loosened.stop`).
-/

namespace Bringup.Simulation

open Lifecycle
open Container (Handle)
open Engine.Scripted (Entry)
open Volume (Bindings)

variable {t : Topology}

/-- A halt does not go on with an answer of the store. -/
theorem step_volume_of_halting {c : Controller t} {now : Nat} {id : JobId} {s : Fin t.size}
    {handle : Handle} {halt : Halt} {result : Store.Result}
    (hj : c.jobs[id]? = some (.stop ⟨s, .halting handle halt⟩)) :
    c.step now (.answer id (.volume result)) = none := by
  cases halt <;> simp [Controller.step, hj, Controller.answerStop, Halt.answered]

/-! ## Volumes -/

/-- Each binding is as it was, or it is one of a volume of the topology that has been unbound. -/
def Loosened (t : Topology) (before after : Bindings) : Prop :=
  ∀ id, after.get? id = before.get? id ∨
    (∃ s : Fin t.size, ∃ volume ∈ t.volumesOf s, volume.id = id) ∧
      after.get? id = (before.get? id).map fun binding => { binding with owner := none }

/-- The volumes of a service that a stop job has come to are unbound, but for those that it has yet to
ask for. -/
def Emptied (table : Bindings) (s : Fin t.size) (phase : StopPhase) : Prop :=
  phase.Unbinds ∨ phase = .finished → ∀ volume ∈ t.volumesOf s,
    volume ∈ phase.toUnbind.tail ∨ table.owner? volume.id = none

section

variable {before table : Bindings} {job : StopJob t.size} {volume : Volume} {s : Fin t.size}
  {phase : StopPhase}

/-- A volume that is unbound stays so. -/
theorem Loosened.owner?_eq_none (h : Loosened t before table) {id : VolumeId}
    (hn : before.owner? id = none) : table.owner? id = none := by
  rcases h id with he | ⟨-, he⟩
  · rwa [Bindings.owner?, he]
  · rw [Bindings.owner?, he]
    cases before.get? id <;> rfl

/-- A stop job asks for nothing but to unbind volumes of its service. -/
theorem Loosened.stop (h : Loosened t before table)
    (hv : ∀ volume ∈ job.phase.toUnbind, volume ∈ t.volumesOf job.service) :
    Loosened t before (tableAfter table (Job.stop job).errand?) := by
  rw [Job.errand?]
  cases hu : job.phase.toUnbind.head? with
  | none => exact h
  | some first =>
      have hfirst := hv first (List.mem_of_mem_head? hu)
      intro id
      by_cases hid : id = first.id
      · subst hid
        refine .inr ⟨⟨_, first, hfirst, rfl⟩, Bindings.get?_detach_self.trans ?_⟩
        rcases h first.id with he | ⟨-, he⟩ <;> rw [he]
        cases before.get? first.id <;> rfl
      · have he : (tableAfter table (some (.detach first.id))).get? id = table.get? id :=
          Bindings.get?_detach_of_ne hid
        rw [Option.map_some, he]
        exact h id

/-- What a stop job waits for it has asked for, or is going to. -/
theorem unbound_stop_cases (h : volume ∈ job.phase.toUnbind ∨ table.owner? volume.id = none) :
    volume ∈ job.phase.toUnbind.tail ∨
      (tableAfter table (Job.stop job).errand?).owner? volume.id = none := by
  rcases h with hm | hn
  · cases hu : job.phase.toUnbind with
    | nil =>
        rw [hu] at hm
        cases hm
    | cons first rest =>
        rw [hu] at hm
        rcases List.mem_cons.1 hm with rfl | hm
        · refine .inr ?_
          rw [Job.errand?, hu]
          exact Bindings.owner?_detach_self
        · exact .inl hm
  · exact .inr (owner?_stop hn)

theorem Emptied.stop (h : Emptied table s phase) (job : StopJob t.size) :
    Emptied (tableAfter table (Job.stop job).errand?) s phase :=
  fun hp volume hv => (h hp volume hv).imp_right owner?_stop

/-- **The turn of a stop job** asks for the next volume of its service. -/
theorem Emptied.turn {c : Controller t} {now : Nat} {id : JobId} {action : Action} {slot : Slot}
    {effects : List Effect} (h : Emptied table job.service job.phase)
    (turn : StopTurn c now id job action phase slot effects)
    (hstopped : (c.slot job.service).state = .stopped → ∀ volume ∈ t.volumesOf job.service,
      table.owner? volume.id = none) :
    Emptied (tableAfter table (Job.stop { job with phase }).errand?) job.service phase := by
  have hwas (hu : job.phase.Unbinds) (volume : Volume) (hv : volume ∈ t.volumesOf job.service)
      (htail : job.phase.toUnbind.tail ⊆ phase.toUnbind) :
      volume ∈ phase.toUnbind ∨ table.owner? volume.id = none :=
    (h (.inl hu) volume hv).imp_left fun hm => htail hm
  intro hp volume hv
  rw [show phase.toUnbind = (StopJob.phase { job with phase }).toUnbind from rfl]
  refine unbound_stop_cases ?_
  rcases hp with hp | rfl
  · rcases turn.unbinds_cases hp with he | ⟨hu, htail⟩
    · exact .inl (he ▸ hv)
    · exact hwas hu volume hv (fun _ hm => htail ▸ hm)
  · rcases StopTurn.finished_cases turn with hs | hu
    · exact .inr (hstopped hs volume hv)
    · exact hwas hu volume hv (fun _ hm => StopTurn.toUnbind_tail turn hm)

end

namespace Setting

/-! ## Where a stop job stands -/

section

variable (x y : Setting Engine.Scripted.engine t) (s : Fin t.size)

/-- The job that stops the service, if all are stopped in `x`. -/
def stopJob : JobId := x.controller.jobs.size + (Teardown.order t).idxOf s

/-- The slot of a service, and what the engine has been asked for it since `x`. -/
structure Left (slot : Slot) (calls : List Entry) : Prop where
  slot : y.controller.slot s = slot
  calls : Engine.Scripted.State.callsFor y.engine (t.id s)
    = Engine.Scripted.State.callsFor x.engine (t.id s) ++ calls

/-- A stop job has come as far as it has to at this instant. -/
def Orderly : StopPhase → Prop
  | .awaiting jobs =>
    (∀ e ∈ t.dependents s, x.stopJob e ∈ jobs ∨ x.teardown.ends e ≤ y.now) ∧
      (∀ id ∈ jobs, ∃ e ∈ t.dependents s, id = x.stopJob e) ∧
      y.now ≤ x.teardown.begins s ∧ Left x y s (x.controller.slot s) []
  | .taking => y.now = x.teardown.begins s ∧ Left x y s (x.controller.slot s) []
  | .halting handle (.stopping deadline) =>
    handle.service = t.id s ∧ x.teardown.holds s ∧
      deadline = x.teardown.begins s + x.teardown.patience ∧ y.now ≤ x.teardown.ends s ∧
      Left x y s ((x.controller.slot s).taken (x.teardown.begins s))
        [⟨x.teardown.begins s, .stop, t.id s, none⟩]
  | .halting handle .killing =>
    handle.service = t.id s ∧ y.now = x.teardown.ends s ∧
      Left x y s ((x.controller.slot s).taken (x.teardown.begins s)) (x.teardown.calls s)
  | .detaching volumes =>
    volumes ≠ [] ∧ y.now = x.teardown.ends s ∧
      Left x y s ((x.controller.slot s).taken (x.teardown.begins s)) (x.teardown.calls s)
  | .retiring =>
    y.now = x.teardown.ends s ∧
      Left x y s ((x.controller.slot s).taken (x.teardown.begins s)) (x.teardown.calls s)
  | .finished =>
    x.teardown.ends s ≤ y.now ∧
      Left x y s ((x.controller.slot s).torn (x.teardown.begins s) (x.teardown.ends s))
        (x.teardown.calls s)

/-- When the engine goes on with a halt, and with what answer. -/
def Answers (entry : Ongoing Engine.Scripted.Work) : Halt → Prop
  | .stopping _ => entry.due = x.teardown.begins s + x.teardown.stopDelay s ∧
    entry.work = .answer (.stop (.ok ()))
  | .killing => entry.due = x.teardown.ends s ∧ ∃ result, entry.work = .answer (.kill result)

end

section

variable {x y z : Setting Engine.Scripted.engine t} {s : Fin t.size} {slot slot' : Slot}
  {calls : List Entry} {phase : StopPhase}

theorem Left.congr (h : Left x y s slot calls) (hslot : z.controller.slot s = y.controller.slot s)
    (hcalls : Engine.Scripted.State.callsFor z.engine (t.id s)
      = Engine.Scripted.State.callsFor y.engine (t.id s)) : Left x z s slot calls :=
  ⟨hslot.trans h.slot, hcalls.trans h.calls⟩

/-- What happens to others at the same instant leaves a stop job where it has to be. -/
theorem Orderly.congr (h : Orderly x y s phase) (hnow : z.now = y.now)
    (hslot : z.controller.slot s = y.controller.slot s)
    (hcalls : Engine.Scripted.State.callsFor z.engine (t.id s)
      = Engine.Scripted.State.callsFor y.engine (t.id s)) : Orderly x z s phase := by
  cases phase with
  | awaiting jobs =>
      obtain ⟨hseen, hjobs, hle, hleft⟩ := h
      exact ⟨fun e he => hnow ▸ hseen e he, hjobs, hnow ▸ hle, hleft.congr hslot hcalls⟩
  | halting handle halt =>
      cases halt with
      | stopping deadline =>
          obtain ⟨hservice, hholds, hdeadline, hle, hleft⟩ := h
          exact ⟨hservice, hholds, hdeadline, hnow ▸ hle, hleft.congr hslot hcalls⟩
      | killing =>
          obtain ⟨hservice, hover, hleft⟩ := h
          exact ⟨hservice, hnow.trans hover, hleft.congr hslot hcalls⟩
  | detaching =>
      obtain ⟨hne, hover, hleft⟩ := h
      exact ⟨hne, hnow.trans hover, hleft.congr hslot hcalls⟩
  | taking | retiring => exact ⟨hnow.trans h.1, h.2.congr hslot hcalls⟩
  | finished => exact ⟨hnow ▸ h.1, h.2.congr hslot hcalls⟩

/-- What a service shows after a turn in which the engine is not asked anything. -/
theorem Left.turned (h : Left x y s slot calls) {c : Controller t} {effects : List Effect}
    (hslot : c.slot s = slot') (hasks : ∀ asker call, .asks asker (.container call) ∉ effects)
    (hwithdraws : ∀ asker, .withdraws asker ∉ effects) : Left x (y.after c effects) s slot' calls := by
  constructor
  · rw [controller_after]
    exact hslot
  · rw [(y.ongoing_after_leaves c hasks hwithdraws).2]
    exact h.calls

/-- What a service shows after a turn in which the engine is asked something for it. -/
theorem Left.asked (h : Left x y s slot calls) {c : Controller t} {effects : List Effect} {entry : Entry}
    (hslot : c.slot s = slot')
    (hcalls : (y.after c effects).engine = Engine.Scripted.State.write y.engine entry)
    (hservice : entry.service = t.id s) : Left x (y.after c effects) s slot' (calls ++ [entry]) := by
  constructor
  · rw [controller_after]
    exact hslot
  · have hlog : Engine.Scripted.State.calls (y.after c effects).engine
        = Engine.Scripted.State.calls y.engine ++ [entry] := by
      rw [hcalls]
      simp [Engine.Scripted.State.write, Engine.Scripted.State.calls]
    rw [Engine.Scripted.State.callsFor_of_calls hlog, if_pos hservice, h.calls, List.append_assoc]

end

end Setting

/-! ## The turns of a stop job -/

section

variable {c : Controller t} {now : Nat} {id : JobId} {action : Action} {slot : Slot}
  {effects : List Effect} {job : StopJob t.size} {phase : StopPhase}

/-- A stop job that is about to take its service finds it stopped, or takes it. -/
theorem StopTurn.taking_cases (turn : StopTurn c now id job action phase slot effects)
    (hp : job.phase = .taking)
    (hv : (c.slot job.service).state = .pending → (c.slot job.service).handle = none) :
    ((c.slot job.service).state = .stopped ∧ phase = .finished ∧ slot = c.slot job.service ∧
      effects = []) ∨
    ((c.slot job.service).state ≠ .stopped ∧ slot = (c.slot job.service).taken now ∧
      phase = c.takenPhase now job.service (c.slot job.service).handle ∧
      effects = c.askTaken id job.service (c.slot job.service).handle) := by
  cases turn with
  | idle _ hs => exact .inl ⟨hs, rfl, rfl, rfl⟩
  | skip _ hs =>
      rw [hv hs]
      exact .inr ⟨by simp [hs], by simp [Slot.taken, hs], rfl, rfl⟩
  | take _ hs =>
      rcases hs with hs | hs <;> exact .inr ⟨by simp [hs], by simp [Slot.taken, hs], rfl, rfl⟩
  | takeLeft _ hs =>
      rcases hs with hs | hs <;> exact .inr ⟨by simp [hs], by simp [Slot.taken, hs], rfl, rfl⟩
  | go hp' | pass hp' | retire hp' | leave hp' | overrun hp' | halted hp' | kill hp' | unbind hp' =>
      rw [hp] at hp'
      cases hp'

theorem askDetach_quiet (volumes : List Volume) (asker : JobId) :
    (∀ call, .asks asker (.container call) ∉ Controller.askDetach id volumes) ∧
      .withdraws asker ∉ Controller.askDetach id volumes := by
  cases volumes <;> simp [Controller.askDetach]

theorem detachPhase_ne_halting (volumes : List Volume) (handle : Handle) (halt : Halt) :
    .halting handle halt ≠ Controller.detachPhase volumes := by
  cases volumes <;> simp [Controller.detachPhase]

/-- The answer to a kill, whatever it is, lets the job go on to the volumes of its service. -/
theorem StopTurn.killing_cases {handle : Handle}
    (turn : StopTurn c now id job action phase slot effects) (hp : job.phase = .halting handle .killing) :
    phase = Controller.detachPhase (t.volumesOf job.service) ∧ slot = c.slot job.service ∧
      effects = Controller.askDetach id (t.volumesOf job.service) := by
  cases turn with
  | halted => exact ⟨rfl, rfl, rfl⟩
  | overrun hp' hh =>
      obtain ⟨rfl, rfl⟩ := StopPhase.halting.inj (hp.symm.trans hp')
      cases hh
  | @kill _ _ reply hp' hr =>
      obtain ⟨rfl, rfl⟩ := StopPhase.halting.inj (hp.symm.trans hp')
      cases reply with
      | container reply => cases reply <;> cases hr
      | volume => cases hr
  | go hp' | pass hp' | idle hp' | skip hp' | take hp' | takeLeft hp' | retire hp' | leave hp'
  | unbind hp' =>
      rw [hp] at hp'
      cases hp'

/-- A container is asked to stop when its service is taken. -/
theorem StopTurn.stopping_cases {handle : Handle} {deadline : Nat}
    (turn : StopTurn c now id job action (.halting handle (.stopping deadline)) slot effects) :
    job.phase = .taking := by
  generalize hf : StopPhase.halting handle (.stopping deadline) = phase at turn
  cases turn with
  | take hp | takeLeft hp => exact hp
  | skip hp => exact hp
  | halted | unbind => exact absurd hf (detachPhase_ne_halting _ _ _)
  | _ => cases hf

end

namespace Setting

variable {x y : Setting Engine.Scripted.engine t} {s : Fin t.size} {id : JobId} {action : Action}
  {phase : StopPhase} {slot : Slot} {effects : List Effect} {job : StopJob t.size}

/-- Where a service is found stopped, it could be started before. -/
theorem Orderly.startable (h : Orderly x y s phase) (hp : phase ≠ .finished)
    (hs : (y.controller.slot s).state = .stopped) : (x.controller.slot s).state.isStartable := by
  have hkept (hleft : Left x y s (x.controller.slot s) []) :
      (x.controller.slot s).state.isStartable := by
    rw [← hleft.slot, hs]
    rfl
  have htaken {calls : List Entry} (hleft : Left x y s ((x.controller.slot s).taken
      (x.teardown.begins s)) calls) : (x.controller.slot s).state.isStartable := by
    rw [hleft.slot, Slot.taken] at hs
    cases hstate : (x.controller.slot s).state <;> simp_all [Slot.moved, ServiceState.isStartable]
  cases phase with
  | awaiting => exact hkept h.2.2.2
  | taking => exact hkept h.2
  | halting handle halt =>
      cases halt with
      | stopping => exact htaken h.2.2.2.2
      | killing => exact htaken h.2.2
  | detaching => exact htaken h.2.2
  | retiring => exact htaken h.2
  | finished => exact absurd rfl hp

theorem orderly_detachPhase {volumes : List Volume} :
    Orderly x y s (Controller.detachPhase volumes) ↔ y.now = x.teardown.ends s ∧
      Left x y s ((x.controller.slot s).taken (x.teardown.begins s)) (x.teardown.calls s) := by
  cases volumes with
  | nil => exact Iff.rfl
  | cons volume rest => exact and_iff_right (List.cons_ne_nil _ _)

section

variable (ht : t.Built) (hx : x.Standstill) (hlater : x.now ≤ y.now)
  (hconfig : y.controller.config = x.controller.config)
  (hturn : StopTurn y.controller y.now id job action phase slot effects)
  (h : Orderly x y job.service job.phase)

include ht hx hconfig hturn h in
/-- **A service is taken** when the last stop of those that depend on it is over. -/
theorem Orderly.taking (hp : job.phase = .taking) : Orderly x
    (y.after (y.controller.after id (.stop { job with phase }) job.service slot .nothing) effects)
      job.service phase := by
  rw [hp] at h
  obtain ⟨hnow, hleft⟩ := h
  have hvacant := hx.vacant job.service
  have hbare (hh : (x.controller.slot job.service).handle = none) :
      x.teardown.ends job.service = x.teardown.begins job.service ∧
        x.teardown.calls job.service = [] := by
    have hholds : x.teardown.holds job.service = false := by simp [teardown, hh]
    exact ⟨Teardown.ends_of_bare ht hholds, Teardown.calls_of_bare hholds⟩
  have hcases := StopTurn.taking_cases hturn hp fun hs => by
    rw [hleft.slot] at hs ⊢
    exact hvacant (by rw [hs]; rfl)
  rw [hleft.slot, hnow] at hcases
  rcases hcases with ⟨hs, rfl, rfl, rfl⟩ | ⟨-, rfl, rfl, rfl⟩
  · -- A service that is stopped stays as it is.
    have hh := hvacant (by rw [hs]; rfl)
    obtain ⟨hover, hcalls⟩ := hbare hh
    refine ⟨by rw [now_after, hover, hnow], ?_⟩
    rw [Slot.torn_eq_self (.inl hs) hh, hcalls]
    exact hleft.turned Controller.slot_after_self (by simp) (by simp)
  · cases hh : (x.controller.slot job.service).handle with
    | none =>
        obtain ⟨hover, hcalls⟩ := hbare hh
        refine orderly_detachPhase.2 ⟨by rw [now_after, hover, hnow], ?_⟩
        rw [hcalls]
        exact hleft.turned Controller.slot_after_self (fun asker => (askDetach_quiet _ asker).1)
          (fun asker => (askDetach_quiet _ asker).2)
    | some handle =>
        have hservice := hx.handles job.service handle hh
        have hholds : x.teardown.holds job.service := by simp [teardown, hh]
        refine ⟨hservice, hholds, ?_, ?_, ?_⟩
        · rw [hconfig]
          rfl
        · rw [now_after, hnow]
          exact Teardown.begins_le_ends ht
        · refine hleft.asked Controller.slot_after_self ?_ rfl
          rw [← hservice, ← hnow]
          rfl

/-- A halt goes on in time: the engine answers when the container has stopped, and the time of the
container to stop is over only before that. -/
structure InTime (x y : Setting Engine.Scripted.engine t) (s : Fin t.size) (id : JobId)
    (action : Action) (phase : StopPhase) : Prop where
  answer : ∀ {handle deadline reply}, phase = .halting handle (.stopping deadline) →
    action = .answer id reply → reply = .container (.stop (.ok ())) ∧
      x.teardown.begins s + x.teardown.stopDelay s ≤ y.now
  timeout : ∀ {handle deadline}, phase = .halting handle (.stopping deadline) →
    action = .timeout id → y.now < x.teardown.begins s + x.teardown.stopDelay s

/-- A stop job whose container is out of the way goes on to the volumes of its service. -/
theorem orderly_detach {volumes : List Volume} (hnow : y.now = x.teardown.ends s)
    (hleft : Left x y s ((x.controller.slot s).taken (x.teardown.begins s)) (x.teardown.calls s)) :
    Orderly x (y.after (y.controller.after id (.stop ⟨s, Controller.detachPhase volumes⟩) s
      (y.controller.slot s) .nothing) (Controller.askDetach id volumes)) s
        (Controller.detachPhase volumes) :=
  orderly_detachPhase.2 ⟨(now_after _ _).trans hnow,
    hleft.turned (Controller.slot_after_self.trans hleft.slot)
      (fun asker => (askDetach_quiet _ asker).1) (fun asker => (askDetach_quiet _ asker).2)⟩

include ht hturn h in
/-- **A halt is over** when the container has stopped or its time to stop is over, whatever comes first. -/
theorem Orderly.halting {handle : Handle} {deadline : Nat}
    (hp : job.phase = .halting handle (.stopping deadline))
    (hin : InTime x y job.service id action job.phase) : Orderly x
      (y.after (y.controller.after id (.stop { job with phase }) job.service slot .nothing) effects)
        job.service phase := by
  rw [hp] at h
  obtain ⟨hservice, hholds, hdeadline, hle, hleft⟩ := h
  have hover := Teardown.ends_of_holds ht hholds
  cases hturn with
  | overrun hp' hh =>
      obtain ⟨rfl, rfl⟩ := StopPhase.halting.inj (hp.symm.trans hp')
      -- The time of the container is over, and it has not stopped.
      have hpatience : deadline ≤ y.now := of_decide_eq_true hh
      have hlong := hin.timeout hp rfl
      have hnow : y.now = x.teardown.ends job.service := by omega
      refine ⟨hservice, (now_after _ _).trans hnow, ?_⟩
      rw [Teardown.calls_of_overrun ht hholds (by omega)]
      refine hleft.asked (Controller.slot_after_self.trans hleft.slot) ?_ rfl
      rw [← hservice, ← hnow]
      rfl
  | halted hp' hr =>
      obtain ⟨rfl, rfl⟩ := StopPhase.halting.inj (hp.symm.trans hp')
      obtain ⟨-, hstopped⟩ := hin.answer hp rfl
      refine orderly_detach (by omega) ?_
      rw [Teardown.calls_of_patient hholds (by omega)]
      exact hleft
  | kill hp' hr =>
      obtain ⟨rfl, rfl⟩ := StopPhase.halting.inj (hp.symm.trans hp')
      rw [(hin.answer hp rfl).1] at hr
      cases hr
  | _ => simp_all

include ht hx hconfig hlater hturn h in
/-- **The turn of a stop job** comes when the teardown has it. -/
theorem Orderly.turn
    (hseen : ∀ e, y.controller.isFinished (x.stopJob e) → x.teardown.ends e ≤ y.now)
    (hin : InTime x y job.service id action job.phase) : Orderly x
      (y.after (y.controller.after id (.stop { job with phase }) job.service slot .nothing) effects)
        job.service phase := by
  cases hphase : job.phase with
  | taking => exact h.taking ht hx hconfig hturn hphase
  | awaiting jobs =>
      rw [hphase] at h
      obtain ⟨hseen', hjobs, hle, hleft⟩ := h
      cases hturn with
      | go hp =>
          obtain rfl := StopPhase.awaiting.inj (hphase.symm.trans hp)
          have hbegins : x.teardown.begins job.service ≤ y.now :=
            Teardown.begins_le hlater fun e he => (hseen' e he).resolve_left (by simp)
          exact ⟨(now_after _ _).trans (Nat.le_antisymm hle hbegins),
            hleft.turned (Controller.slot_after_self.trans hleft.slot) (by simp) (by simp)⟩
      | @pass other rest hp hf =>
          obtain rfl := StopPhase.awaiting.inj (hphase.symm.trans hp)
          refine ⟨fun e he => ?_, fun id hid => hjobs id (List.mem_cons_of_mem _ hid), ?_,
            hleft.turned (Controller.slot_after_self.trans hleft.slot) (by simp) (by simp)⟩
          · rw [now_after]
            rcases hseen' e he with hm | hover
            · rcases List.mem_cons.1 hm with rfl | hm
              · exact .inr (hseen e hf)
              · exact .inl hm
            · exact .inr hover
          · rw [now_after]
            exact hle
      | _ => simp_all
  | halting handle halt =>
      cases halt with
      | stopping deadline => exact h.halting ht hturn hphase hin
      | killing =>
          obtain ⟨rfl, rfl, rfl⟩ := StopTurn.killing_cases hturn hphase
          rw [hphase] at h
          exact orderly_detach h.2.1 h.2.2
  | detaching volumes =>
      rw [hphase] at h
      obtain ⟨-, hnow, hleft⟩ := h
      cases hturn with
      | unbind => exact orderly_detach hnow hleft
      | _ => simp_all
  | retiring =>
      rw [hphase] at h
      obtain ⟨hnow, hleft⟩ := h
      cases hturn with
      | retire hp hs =>
          rw [hleft.slot] at hs
          refine ⟨Nat.le_of_eq ((now_after _ _).trans hnow).symm, hleft.turned ?_ (by simp) (by simp)⟩
          rw [Controller.slot_after_self, hleft.slot, Slot.torn, Slot.retired, if_pos hs, hnow]
      | leave hp hs =>
          rw [hleft.slot] at hs
          refine ⟨Nat.le_of_eq ((now_after _ _).trans hnow).symm, hleft.turned ?_ (by simp) (by simp)⟩
          rw [Controller.slot_after_self, hleft.slot, Slot.torn, Slot.retired, if_neg hs]
      | _ => simp_all
  | finished => cases hturn <;> simp_all

end

/-! ## What the engine hears -/

section

variable {e : Engine} {y : Setting e t} {old new : Job t.size} {aside : Aside}

/-- What the engine works on after a turn: what it worked on for others, or what the job has asked. -/
theorem ongoing_after_cases (turn : Turn y.controller y.now id old action new slot aside effects)
    (hown : ∀ entry ∈ y.ongoing, entry.job = id → (∃ call, old.Expects call) ∧
      ∀ reply, action ≠ .answer id (.container reply))
    {c : Controller t} {entry : Ongoing e.Work} (hm : entry ∈ (y.after c effects).ongoing) :
    (entry ∈ y.ongoing ∧ entry.job ≠ id) ∨ ∃ call, new.Expects call ∧
      .asks id (.container call) ∈ effects ∧
        entry = ⟨id, y.now + (e.take y.engine y.now call).2.1, (e.take y.engine y.now call).2.2⟩ := by
  have hothers (hm : entry ∈ y.others id) : entry ∈ y.ongoing ∧ entry.job ≠ id := by
    obtain ⟨hm, hne⟩ := List.mem_filter.1 hm
    exact ⟨hm, of_decide_eq_true hne⟩
  cases turn.asking with
  | @asks call before hb he hn =>
      subst he
      rw [ongoing_after_asks c hb] at hm
      rcases List.mem_append.1 hm with hm | hm
      · exact .inl (hothers hm)
      · exact .inr ⟨call, hn, by simp, List.mem_singleton.1 hm⟩
  | withdraws he =>
      subst he
      exact .inl (hothers hm)
  | leaves ha hw _ ho =>
      rw [(y.ongoing_after_leaves c ha hw).1] at hm
      refine .inl ⟨hm, fun he => ?_⟩
      obtain ⟨⟨call, hexpects⟩, hanswer⟩ := hown entry hm he
      rcases ho with ho | ⟨reply, rfl⟩
      · exact ho call hexpects
      · exact hanswer reply rfl

end

theorem engine_after_asks (c : Controller t) {before : List Effect} {call : Container.Call}
    (hb : before = [] ∨ before = [.withdraws id]) :
    (y.after c (before ++ [.asks id (.container call)])).engine
      = (Engine.Scripted.State.take y.engine y.now call).1 := by
  rcases hb with rfl | rfl <;> rfl

/-- **The engine is asked** for the service of the stop job at most, and goes on when the teardown has
it. -/
theorem Orderly.told {c : Controller t}
    (hturn : StopTurn y.controller y.now id job action phase slot effects)
    (hold : Orderly x y job.service job.phase)
    (hnew : Orderly x (y.after c effects) job.service phase)
    (hscripts : StopsAs y.engine x.engine)
    (hfaults : ∀ s, (Engine.Scripted.State.script x.engine (t.id s)).stopFault = none)
    (hown : ∀ entry ∈ y.ongoing, entry.job = id → (∃ call, (Job.stop job).Expects call) ∧
      ∀ reply, action ≠ .answer id (.container reply)) :
    (∃ news, Engine.Scripted.State.calls (y.after c effects).engine
        = Engine.Scripted.State.calls y.engine ++ news ∧
          ∀ entry ∈ news, entry.service = t.id job.service) ∧
    ∀ entry ∈ (y.after c effects).ongoing, (entry ∈ y.ongoing ∧ entry.job ≠ id) ∨
      entry.job = id ∧ ∃ handle halt, phase = .halting handle halt ∧
        Answers x job.service entry halt := by
  constructor
  · cases hturn.asking with
    | @asks call before hb he hn =>
        subst he
        rw [engine_after_asks c hb]
        cases phase with
        | halting handle halt =>
            cases halt with
            | stopping deadline =>
                cases call with
                | stop handle' timeout =>
                    obtain rfl : handle' = handle := hn
                    have hservice : handle'.service = t.id job.service := hnew.1
                    exact ⟨[⟨y.now, .stop, handle'.service, none⟩],
                      Engine.Scripted.State.calls_take_stop handle' timeout, by simpa using hservice⟩
                | _ => exact hn.elim
            | killing =>
                cases call with
                | kill handle' =>
                    obtain rfl : handle' = handle := hn
                    have hservice : handle'.service = t.id job.service := hnew.1
                    exact ⟨[⟨y.now, .kill, handle'.service, none⟩],
                      Engine.Scripted.State.calls_take_kill handle', by simpa using hservice⟩
                | _ => exact hn.elim
        | _ => exact hn.elim
    | withdraws he =>
        subst he
        exact ⟨[], (List.append_nil _).symm, by simp⟩
    | leaves ha hw =>
        rw [(y.ongoing_after_leaves c ha hw).2]
        exact ⟨[], (List.append_nil _).symm, by simp⟩
  · intro entry hm
    refine (ongoing_after_cases (.stop hturn) hown hm).imp_right ?_
    rintro ⟨call, hexpects, -, rfl⟩
    cases phase with
    | halting handle halt =>
        refine ⟨rfl, handle, halt, rfl, ?_⟩
        cases halt with
        | stopping deadline =>
            cases call with
            | stop handle' timeout =>
                obtain rfl : handle' = handle := hexpects
                have hservice : handle'.service = t.id job.service := hnew.1
                rw [StopTurn.stopping_cases hturn] at hold
                obtain ⟨hdelay, hfault⟩ := hscripts (t.id job.service)
                constructor
                · show y.now + (Engine.Scripted.State.script y.engine handle'.service).stopDelay = _
                  rw [hold.1, hservice, hdelay]
                  rfl
                · show Engine.Scripted.Work.answer (.stop (Engine.Scripted.State.outcome
                    (Engine.Scripted.State.script y.engine handle'.service).stopFault)) = _
                  rw [hservice, hfault, hfaults]
                  rfl
            | _ => exact hexpects.elim
        | killing =>
            cases call with
            | kill handle' => exact ⟨(now_after _ _).symm.trans hnew.2.1, _, rfl⟩
            | _ => exact hexpects.elim
    | _ => exact hexpects.elim

end Setting

end Bringup.Simulation
