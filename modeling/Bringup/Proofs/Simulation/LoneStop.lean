import Bringup.Proofs.Simulation.Dismantling
import Bringup.Proofs.Simulation.InTime

/-!
# A lone stop

Starts, stops and restarts were called one after another, all have answered, and then all services are
stopped. On the virtual clock everything comes to pass as the teardown has it: who is stopped and killed,
and when, what is left of each service, and when the call returns (`Run.lone_stop`). A second stop changes
nothing.

From the call on only its stop jobs take turns, and each is where it has to be at every instant
(`Underway`). No step takes time (`Underway.moves`), and the clock never moves past the end of a stop that
is not over, which goes by induction along the dependencies (`Underway.stop_cases`).

Times count in milliseconds, rounded up, and the halts of containers that came late have to be over when
the call is made: otherwise a kill can be missing, or one too many (`kills_unlike_delays`).
-/

namespace Bringup.Simulation

open Lifecycle
open Container (Handle)
open Engine.Scripted (Entry)
open Volume (Bindings)

variable {t : Topology}

namespace Setting

/-- Where the call that stops all services stands. -/
def Joins (x y : Setting Engine.Scripted.engine t) : CallPhase t.size → Prop
  | .joining => y.now ≤ x.teardown.returns
  | .reporting .. => y.now = x.teardown.returns
  | .answered (.report _) time => time = x.teardown.returns
  | _ => False

theorem Joins.congr {x y z : Setting Engine.Scripted.engine t} {phase : CallPhase t.size}
    (h : Joins x y phase) (hnow : z.now = y.now) : Joins x z phase := by
  unfold Joins at h ⊢
  rw [hnow]
  exact h

/-- All services are being stopped, and each stop job has come as far as it has to at this instant. -/
structure Underway (x y : Setting Engine.Scripted.engine t) : Prop where
  later : x.now ≤ y.now
  config : y.controller.config = x.controller.config
  scripts : StopsAs y.engine x.engine
  alarms : y.alarms = []
  prompt : y.store.Prompt y.now
  volumes : y.controller.KeepToVolumes
  loosened : Loosened t x.store.table y.store.settled
  /-- The engine was asked for services of the topology only. -/
  log : ∃ news, Engine.Scripted.State.calls y.engine = Engine.Scripted.State.calls x.engine ++ news ∧
    ∀ entry ∈ news, ∃ s, entry.service = t.id s
  jobs : ∀ s, ∃ phase, y.controller.jobs[x.stopJob s]? = some (.stop ⟨s, phase⟩) ∧
    Orderly x y s phase ∧ Emptied y.store.settled s phase
  /-- All other jobs are at their ends. -/
  rest : ∀ (id : JobId) (job : Job t.size), y.controller.jobs[id]? = some job →
    job.isFinished ∨ ∃ s, id = x.stopJob s
  due : ∀ entry ∈ y.ongoing, ∃ s handle halt, entry.job = x.stopJob s ∧
    y.controller.jobs[entry.job]? = some (.stop ⟨s, .halting handle halt⟩) ∧ Answers x s entry halt
  call : ∃ call, y.controller.calls[x.controller.calls.size]? = some call ∧
    call.operation = .stopAll ∧ (∀ id, id ∈ call.jobs ↔ ∃ s, id = x.stopJob s) ∧ Joins x y call.phase
  /-- All other calls have answered. -/
  lone : ∀ (k : Nat) (call : Call t.size), y.controller.calls[k]? = some call →
    k ≠ x.controller.calls.size → call.answer?.isSome

variable {x y z : Setting Engine.Scripted.engine t} {event : Event} {moments : List (Moment t)}
  {action : Action} {c : Controller t} {effects : List Effect} {id : JobId} {s : Fin t.size}
  {phase : StopPhase}

/-! ## Turns -/

/-- What engine and store do between two turns. -/
theorem Underway.congr (h : Underway x y) (hc : z.controller = y.controller) (hnow : z.now = y.now)
    (hengine : z.engine = y.engine) (halarms : z.alarms = y.alarms)
    (hongoing : ∀ entry ∈ z.ongoing, entry ∈ y.ongoing)
    (hsettled : z.store.settled = y.store.settled) (hprompt : z.store.Prompt z.now) :
    Underway x z where
  later := hnow ▸ h.later
  config := hc ▸ h.config
  scripts := hengine ▸ h.scripts
  alarms := halarms ▸ h.alarms
  prompt := hprompt
  volumes := hc ▸ h.volumes
  loosened := hsettled ▸ h.loosened
  log := hengine ▸ h.log
  jobs s := by
    obtain ⟨phase, hj, horderly, hemptied⟩ := h.jobs s
    exact ⟨phase, hc ▸ hj, horderly.congr hnow (by rw [hc]) (by rw [hengine]), hsettled ▸ hemptied⟩
  rest := hc ▸ h.rest
  due entry hm := by
    rw [hc]
    exact h.due entry (hongoing entry hm)
  call := by
    obtain ⟨call, hk, ho, hjobs, hjoins⟩ := h.call
    exact ⟨call, hc ▸ hk, ho, hjobs, hjoins.congr hnow⟩
  lone := hc ▸ h.lone

/-- Each job that takes a turn is one of the stop jobs. -/
theorem Underway.stop_turn (h : Underway x y) {old new : Job t.size} {slot : Slot} {aside : Aside}
    (hj : y.controller.jobs[id]? = some old)
    (turn : Turn y.controller y.now id old action new slot aside effects) :
    ∃ s phase phase', id = x.stopJob s ∧ old = .stop ⟨s, phase⟩ ∧ new = .stop ⟨s, phase'⟩ ∧
      aside = .nothing ∧ StopTurn y.controller y.now id ⟨s, phase⟩ action phase' slot effects := by
  rcases h.rest id old hj with hf | ⟨s, rfl⟩
  · exact absurd hf turn.not_isFinished
  · obtain ⟨phase, hj', -⟩ := h.jobs s
    obtain rfl := Option.some.inj (hj.symm.trans hj')
    cases turn with
    | stop turn => exact ⟨s, phase, _, rfl, rfl, rfl, rfl, turn⟩

/-- A stop job that has come to its end is one whose stop is over. -/
theorem Underway.seen (h : Underway x y) (s : Fin t.size)
    (hf : y.controller.isFinished (x.stopJob s)) : x.teardown.ends s ≤ y.now := by
  obtain ⟨phase, hj, horderly, -⟩ := h.jobs s
  rw [Controller.isFinished_of_job hj, Job.isFinished_stop] at hf
  obtain rfl : phase = .finished := hf
  exact horderly.1

section

variable (ht : t.Built) (hx : x.Standstill)
  (hfaults : ∀ s, (Engine.Scripted.State.script x.engine (t.id s)).stopFault = none)
  (h : Underway x y)

include ht hx hfaults h in
/-- **The turn of a job** leaves all stop jobs where they have to be. -/
theorem Underway.turn (ha : action.job? = some id)
    (hs : y.controller.step y.now action = some (c, effects))
    (hin : ∀ s phase, y.controller.jobs[id]? = some (.stop ⟨s, phase⟩) →
      InTime x y s id action phase)
    (hown : ∀ entry ∈ y.ongoing, entry.job = id → ∀ reply, action ≠ .answer id (.container reply)) :
    Underway x (y.after c effects) := by
  have hvolumes := h.volumes.step hs
  obtain ⟨old, new, slot, aside, hj, turn, hc⟩ := Controller.turnsTo_of_step ha hs
  obtain ⟨s, phase, phase', rfl, rfl, rfl, rfl, stop⟩ := h.stop_turn hj turn
  obtain ⟨phase', hj', hold, hemptied⟩ := h.jobs s
  obtain rfl : phase = phase' :=
    (StopJob.mk.inj (Job.stop.inj (Option.some.inj (hj.symm.trans hj')))).2
  have hc : c = y.controller.after (x.stopJob s) (.stop ⟨s, phase'⟩) s slot .nothing := hc
  have hid := Controller.lt_size_of_job hj
  have hself : c.jobs[x.stopJob s]? = some (.stop ⟨s, phase'⟩) := hc ▸ Controller.jobs_after_self hid
  have hothers {i : JobId} {job : StopJob t.size} (hne : i ≠ x.stopJob s)
      (hi : y.controller.jobs[i]? = some (.stop job)) : c.jobs[i]? = some (.stop job) :=
    hc ▸ Controller.stop_after_of_ne hne hi
  have hcalls : c.calls = y.controller.calls := hc ▸ Controller.calls_after
  have hnew : Orderly x (y.after c effects) s phase' :=
    hc ▸ Orderly.turn ht hx h.later h.config stop hold h.seen (hin s phase hj)
  obtain ⟨⟨news, hnews, hservices⟩, hdue⟩ := Orderly.told stop hold hnew h.scripts hfaults (by
    intro entry hm he
    obtain ⟨s', handle, halt, -, hj', -⟩ := h.due entry hm
    obtain rfl : phase = .halting handle halt := by
      rw [he, hj] at hj'
      exact (StopJob.mk.inj (Job.stop.inj (Option.some.inj hj'))).2
    exact ⟨Halt.exists_expects handle halt, hown entry hm he⟩)
  have hsettled : (y.after c effects).store.settled
      = tableAfter y.store.settled (Job.stop ⟨s, phase'⟩ : Job t.size).errand? := by
    rw [store_after]
    exact (hear_turn h.prompt.mode turn).1
  constructor
  case later => simpa using h.later
  case config =>
    rw [controller_after, hc, Controller.config_after]
    exact h.config
  case scripts => exact h.scripts.after _ _
  case alarms => simpa using h.alarms
  case prompt =>
    rw [store_after, now_after]
    exact h.prompt.hear effects
  case volumes => simpa using hvolumes
  case loosened =>
    rw [hsettled]
    exact h.loosened.stop fun volume hv => hvolumes _ _ hself volume hv
  case log =>
    obtain ⟨before, hbefore, hall⟩ := h.log
    refine ⟨before ++ news, by rw [hnews, hbefore, List.append_assoc], fun entry hm => ?_⟩
    exact (List.mem_append.1 hm).elim (hall entry) fun hm => ⟨s, hservices entry hm⟩
  case jobs =>
    intro s'
    rw [hsettled, controller_after]
    by_cases hs' : s' = s
    · subst hs'
      refine ⟨phase', hself, hnew, hemptied.turn stop fun hstopped volume hv => ?_⟩
      have hopen : phase ≠ .finished := by
        rintro rfl
        cases stop <;> simp_all
      exact h.loosened.owner?_eq_none (hx.unbound s' (hold.startable hopen hstopped) volume hv)
    · obtain ⟨other, hj', horderly, hemptied⟩ := h.jobs s'
      have hne : x.stopJob s' ≠ x.stopJob s := by
        intro he
        rw [he, hj] at hj'
        exact hs' (StopJob.mk.inj (Job.stop.inj (Option.some.inj hj'))).1.symm
      refine ⟨other, hothers hne hj', horderly.congr (now_after _ _) ?_ ?_, hemptied.stop _⟩
      · rw [controller_after, hc, Controller.slot_after_of_ne hs']
      · refine Engine.Scripted.State.callsFor_of_others hnews fun entry hm he => ?_
        exact hs' (ht.id_injective (he.symm.trans (hservices entry hm)))
  case rest =>
    rw [controller_after, hc]
    intro i job hi
    rcases Controller.jobs_after_cases hid hi with
      ⟨rfl, -⟩ | ⟨-, hi⟩ | ⟨he, -⟩ | ⟨-, l, -, ⟨he, -⟩ | ⟨he, -⟩⟩
    · exact .inr ⟨s, rfl⟩
    · exact h.rest i job hi
    all_goals cases he
  case due =>
    rw [controller_after]
    intro entry hm
    rcases hdue entry hm with ⟨hm, hne⟩ | ⟨he, handle, halt, rfl, hanswers⟩
    · obtain ⟨s', handle, halt, he, hj', hanswers⟩ := h.due entry hm
      exact ⟨s', handle, halt, he, hothers hne hj', hanswers⟩
    · exact ⟨s, handle, halt, he, he ▸ hself, hanswers⟩
  case call =>
    obtain ⟨call, hk, ho, hjobs, hjoins⟩ := h.call
    rw [controller_after, hcalls]
    exact ⟨call, hk, ho, hjobs, hjoins.congr (now_after _ _)⟩
  case lone =>
    rw [controller_after, hcalls]
    exact h.lone

omit ht hx hfaults in
include h in
/-- **The call** goes on when all stops are over, and answers then. -/
theorem Underway.proceed {k : CallId}
    (hs : y.controller.step y.now (.proceed k) = some (c, effects)) : Underway x (y.after c effects) := by
  obtain ⟨rfl, call, hk, hproceed⟩ := Controller.proceed_of_lone h.lone hs
  obtain ⟨call', hk', ho, hjobs, hjoins⟩ := h.call
  obtain rfl := Option.some.inj (hk.symm.trans hk')
  have hmoved : ∃ phase, c = y.controller.setCallPhase x.controller.calls.size phase ∧ effects = [] ∧
      Joins x y phase := by
    cases hp : call.phase with
    | joining =>
        rw [hp] at hjoins
        simp only [Controller.proceed, hp] at hproceed
        split at hproceed
        next hall =>
          obtain ⟨rfl, rfl⟩ := Prod.mk.inj (Option.some.inj hproceed)
          refine ⟨_, rfl, rfl, Nat.le_antisymm hjoins (Teardown.returns_le h.later fun s => ?_)⟩
          exact h.seen s (List.all_eq_true.1 hall _ ((hjobs _).2 ⟨s, rfl⟩))
        next => cases hproceed
    | reporting services taken =>
        rw [hp] at hjoins
        cases services <;> simp only [Controller.proceed, hp] at hproceed <;>
          obtain ⟨rfl, rfl⟩ := Prod.mk.inj (Option.some.inj hproceed) <;>
            exact ⟨_, rfl, rfl, hjoins⟩
    | answered => simp [Controller.proceed, hp] at hproceed
    | _ =>
        rw [hp] at hjoins
        exact hjoins.elim
  obtain ⟨phase, rfl, rfl, hjoins⟩ := hmoved
  have hslot (s : Fin t.size) :
      (y.controller.setCallPhase x.controller.calls.size phase).slot s = y.controller.slot s :=
    Controller.slot_setCallPhase _ _ s
  have hvolumes := h.volumes.step hs
  constructor
  case later => exact h.later
  case config => exact (Controller.config_setCallPhase _ _).trans h.config
  case scripts => exact h.scripts
  case alarms => exact h.alarms
  case prompt => exact h.prompt
  case volumes => exact hvolumes
  case loosened => exact h.loosened
  case log => exact h.log
  case jobs =>
    intro s
    obtain ⟨phase', hj, horderly, hemptied⟩ := h.jobs s
    rw [controller_after, Controller.jobs_setCallPhase]
    exact ⟨phase', hj, horderly.congr rfl (hslot s) rfl, hemptied⟩
  case rest =>
    rw [controller_after, Controller.jobs_setCallPhase]
    exact h.rest
  case due =>
    rw [controller_after, Controller.jobs_setCallPhase]
    exact h.due
  case call =>
    rw [controller_after, Controller.calls_setCallPhase_self hk]
    exact ⟨_, rfl, ho, hjobs, hjoins⟩
  case lone =>
    intro k call' hk' hne
    rw [controller_after, Controller.calls_setCallPhase_of_ne hne] at hk'
    exact h.lone k call' hk' hne

include ht hx hfaults h in
/-- **What happens in time** leaves all stop jobs where they have to be. -/
theorem Underway.moves (hattends : Attends y) (hm : Moves y event moments z) (hi : event.Inner)
    (hin : ∀ job, event = .control 0 (.timeout job) → ¬ y.world.Due 0 job) : Underway x z := by
  cases hm with
  | @act action c effects hs ha =>
      cases hj : action.job? with
      | none =>
          cases action with
          | proceed k => exact h.proceed hs
          | invoke | interrupt => exact hi.elim
          | run | heed | timeout | answer => cases hj
      | some id =>
          refine h.turn ht hx hfaults hj hs (fun s phase hid => ?_) fun _ _ _ reply => ha id _
          constructor
          · rintro handle deadline reply - rfl
            exact absurd rfl (ha _ _)
          · rintro handle deadline rfl rfl
            -- The engine works on the stop of the container, and is not to go on with it yet.
            have hexpects : (Job.stop ⟨s, .halting handle (.stopping deadline)⟩ : Job t.size).Expects
                (.stop handle default) := rfl
            obtain ⟨entry, hm, he, hdue⟩ := undue_of_expects hattends hid hexpects (hin id rfl)
            obtain ⟨s', handle', halt, -, hj', hanswers⟩ := h.due entry hm
            rw [he, hid] at hj'
            obtain ⟨rfl, hp⟩ := StopJob.mk.inj (Job.stop.inj (Option.some.inj hj'))
            obtain ⟨rfl, rfl⟩ := StopPhase.halting.inj hp
            exact hanswers.1 ▸ hdue
  | ring hm =>
      rw [h.alarms] at hm
      cases hm
  | @reply job entry engine reply c effects hm hd hr hs =>
      obtain ⟨s, handle, halt, he, hj, hanswers⟩ := h.due entry (List.mem_of_find?_eq_some hm)
      obtain rfl : entry.job = job := by simpa using List.find?_some hm
      obtain ⟨reply', hwork, hreply⟩ : ∃ reply', entry.work = .answer reply' ∧
          (∀ deadline, halt = .stopping deadline → reply' = .stop (.ok ())) := by
        cases halt with
        | stopping => exact ⟨_, hanswers.2, fun _ _ => rfl⟩
        | killing =>
            obtain ⟨-, result, hw⟩ := hanswers
            exact ⟨_, hw, by simp⟩
      rw [hwork] at hr
      obtain ⟨rfl, hanswer⟩ := Prod.mk.inj hr
      obtain rfl := Engine.Next.answer.inj hanswer
      have hothers : Underway x { y with ongoing := y.others entry.job } :=
        h.congr rfl rfl rfl rfl (fun _ hm => (List.mem_filter.1 hm).1) rfl h.prompt
      refine hothers.turn ht hx hfaults rfl hs (fun s' phase hj' => ?_) fun entry' hm' he' => ?_
      · obtain ⟨rfl, rfl⟩ := StopJob.mk.inj (Job.stop.inj (Option.some.inj (hj'.symm.trans hj)))
        constructor
        · rintro handle' deadline reply' hp ha
          obtain ⟨rfl, rfl⟩ := StopPhase.halting.inj hp
          obtain ⟨-, rfl⟩ := Action.answer.inj ha
          exact ⟨congrArg _ (hreply _ rfl), hanswers.1 ▸ hd⟩
        · rintro _ _ - ha
          cases ha
      · exact absurd he' (of_decide_eq_true (List.mem_filter.1 hm').2)
  | work _ _ hr => cases (Prod.mk.inj hr).2
  | serve hs =>
      exact h.congr rfl rfl rfl rfl (fun _ hm => hm) (Store.settled_serve hs).1 (h.prompt.serve hs)
  | @deliver place job result c effects ha hs =>
      have hothers : Underway x { y with
          store := { y.store with answers := y.store.answers.eraseIdx place } } :=
        h.congr rfl rfl rfl rfl (fun _ hm => hm) rfl ⟨h.prompt.mode, h.prompt.due⟩
      refine hothers.turn ht hx hfaults rfl hs (fun s' phase hj' => ?_) fun _ _ _ reply => by simp
      constructor
      · rintro handle deadline reply rfl -
        cases hs.symm.trans (step_volume_of_halting hj')
      · rintro _ _ - ha
        cases ha
  | hand ha => exact absurd rfl (hattends.no_visitor _ (List.mem_of_getElem? ha))
  | pass => exact hi.elim

end

/-! ## The call -/

/-- A job at its end has no volumes left. -/
theorem Standstill.keepToVolumes (hx : x.Standstill) : x.controller.KeepToVolumes := by
  intro id job hj volume hv
  have hf := hx.finished id job hj
  cases job with
  | start job => simp [Job.volumesLeft, Job.isFinished_start.1 hf, StartPhase.toBind] at hv
  | stop job => simp [Job.volumesLeft, Job.isFinished_stop.1 hf, StopPhase.toUnbind] at hv
  | launch l => cases hv

/-- When all services are asked to stop there is a job for each that waits for those of its dependents. -/
theorem jobs_stopAll (ht : t.Built) (x : Setting Engine.Scripted.engine t) :
    (∀ s, x.controller.stopAll.1.jobs[x.stopJob s]?
      = some (.stop ⟨s, .awaiting ((t.dependents s).map x.stopJob)⟩)) ∧
    ∀ (i : JobId) (job : Job t.size), x.controller.stopAll.1.jobs[i]? = some job →
      x.controller.jobs[i]? = some job ∨ ∃ s, i = x.stopJob s := by
  obtain ⟨order, ho, horder, hnodup, hmem, -⟩ := Teardown.order_eq ht
  have hjobs : x.controller.stopAll.1.jobs = (x.controller.cancelRuns.spawnStops order).jobs := by
    unfold Controller.stopAll
    rw [ho]
    rfl
  have hspawned (i : Nat) : x.controller.stopAll.1.jobs[x.controller.jobs.size + i]?
      = (order[i]?).map fun s => .stop ⟨s, .awaiting ((t.dependents s).map x.stopJob)⟩ := by
    have hge : x.controller.cancelRuns.jobs.size ≤ x.controller.jobs.size + i := Nat.le_add_right _ _
    have hjob : x.stopJob = fun d => x.controller.jobs.size + order.idxOf d := by
      funext d
      rw [stopJob, horder]
    rw [hjobs, Controller.spawnStops, Controller.jobs_spawn_of_ge _ hge, Controller.jobs_cancelRuns,
      Nat.add_sub_cancel_left, List.getElem?_map, hjob]
  constructor
  · intro s
    rw [stopJob, horder, hspawned, List.getElem?_idxOf (hmem s)]
    rfl
  · intro i job hi
    by_cases hlt : i < x.controller.jobs.size
    · have hlt : i < x.controller.cancelRuns.jobs.size := hlt
      refine .inl ?_
      rw [← hi, hjobs, Controller.spawnStops, Controller.jobs_spawn_of_lt _ hlt,
        Controller.jobs_cancelRuns]
    · refine .inr ?_
      rw [← Nat.add_sub_cancel' (Nat.not_lt.1 hlt), hspawned] at hi
      obtain ⟨s, hs, -⟩ := Option.map_eq_some_iff.1 hi
      obtain ⟨hlt', rfl⟩ := List.getElem?_eq_some_iff.1 hs
      refine ⟨order[i - x.controller.jobs.size], ?_⟩
      rw [stopJob, horder, hnodup.idxOf_getElem]
      exact (Nat.add_sub_cancel' (Nat.not_lt.1 hlt)).symm

/-- **A stop of all services is called** at a standstill. -/
theorem underway_invoke (ht : t.Built) (hx : x.Standstill) (hmode : x.store.mode = .serving 0) :
    Underway x (x.after (x.controller.invoke x.now .stopAll).1 []) := by
  have hs : x.controller.step x.now (.invoke .stopAll)
      = some ((x.controller.invoke x.now .stopAll).1, []) := rfl
  obtain ⟨hjobs, hrest⟩ := jobs_stopAll ht x
  obtain ⟨order, ho, horder, hnodup, hmem, -⟩ := Teardown.order_eq ht
  have hstop : x.controller.stopAll.1 = ((x.controller.cancelRuns.spawnStops order).openCall .stopAll
      ((List.range order.length).map (x.controller.jobs.size + ·)) .joining).1 := by
    unfold Controller.stopAll
    rw [ho]
    rfl
  have hslot (s : Fin t.size) : x.controller.stopAll.1.slot s = x.controller.slot s := by
    rw [hstop]
    rfl
  constructor
  case later => exact Nat.le_refl _
  case config => exact Controller.config_step hs
  case scripts => exact fun _ => ⟨rfl, rfl⟩
  case alarms => exact hx.alarms
  case prompt => exact ⟨hmode, fun hq => absurd hx.queue hq⟩
  case volumes => exact hx.keepToVolumes.step hs
  case loosened => exact fun id => .inl (congrArg (Bindings.get? · id) hx.settled)
  case log => exact ⟨[], (List.append_nil _).symm, by simp⟩
  case jobs =>
    intro s
    refine ⟨_, hjobs s, ⟨fun e he => .inl (List.mem_map_of_mem he), fun id hid => ?_,
      Teardown.called_le_begins (p := x.teardown), hslot s, (List.append_nil _).symm⟩, ?_⟩
    · obtain ⟨e, he, rfl⟩ := List.mem_map.1 hid
      exact ⟨e, he, rfl⟩
    · rintro (hp | hp)
      · exact hp.elim
      · cases hp
  case rest => exact fun i job hi => (hrest i job hi).imp_left (hx.finished i job)
  case due =>
    intro entry hm
    have hm : entry ∈ x.ongoing := hm
    rw [hx.ongoing] at hm
    cases hm
  case call =>
    have hk : x.controller.stopAll.1.calls[x.controller.calls.size]? = some ⟨.stopAll,
        (List.range order.length).map (x.controller.jobs.size + ·), .joining⟩ := by
      rw [hstop]
      exact Controller.calls_openCall_size (c := x.controller.cancelRuns.spawnStops order)
    refine ⟨_, hk, rfl, fun id => ?_, Teardown.called_le_returns (p := x.teardown)⟩
    have hid (s : Fin t.size) : x.stopJob s = x.controller.jobs.size + order.idxOf s := by
      rw [stopJob, horder]
    constructor
    · intro hm
      obtain ⟨i, hi, rfl⟩ := List.mem_map.1 hm
      have hi := List.mem_range.1 hi
      exact ⟨order[i], by rw [hid, hnodup.idxOf_getElem]⟩
    · rintro ⟨s, rfl⟩
      rw [hid]
      exact List.mem_map_of_mem (List.mem_range.2 (List.idxOf_lt_length_of_mem (hmem s)))
  case lone =>
    intro k call hk hne
    rw [controller_after, Controller.invoke, hstop] at hk
    rcases Controller.calls_openCall_cases hk with hk | ⟨he, -⟩
    · exact hx.answered k call hk
    · exact absurd he hne

/-! ## Time passes -/

section

variable (ht : t.Built) (h : Underway x y) (hattends : Attends y) (hidle : y.world.Idle) {time : Nat}
  (hh : y.world.horizon? = some time)

include ht h hattends hidle hh in
/-- **Where nothing happens by itself** the clock does not move past the end of a stop that is not over,
by induction along the dependents. -/
theorem Underway.stop_cases (s : Fin t.size) : ∀ phase,
    y.controller.jobs[x.stopJob s]? = some (.stop ⟨s, phase⟩) →
      phase = .finished ∨ time ≤ x.teardown.ends s ∧ Orderly x { y with now := time } s phase := by
  refine ht.induct_dependents (P := fun s => ∀ phase,
    y.controller.jobs[x.stopJob s]? = some (.stop ⟨s, phase⟩) →
      phase = .finished ∨ time ≤ x.teardown.ends s ∧ Orderly x { y with now := time } s phase) ?_ s
  intro s ih phase hj
  obtain ⟨phase', hj', horderly, -⟩ := h.jobs s
  obtain rfl : phase = phase' :=
    (StopJob.mk.inj (Job.stop.inj (Option.some.inj (hj.symm.trans hj')))).2
  obtain ⟨⟨-, hlt⟩, hfirst⟩ := World.horizon?_eq_some.1 hh
  have hown : y.controller.step y.now (.run (x.stopJob s)) = none := own_of_idle hidle trivial
  cases Controller.stopBlock_of_stuck hj hown with
  | finished hp => exact .inl hp
  | @job other rest hp hf =>
      obtain rfl : phase = .awaiting (other :: rest) := hp
      obtain ⟨hseen, hjobs, -, hleft⟩ := horderly
      obtain ⟨e, he, rfl⟩ := hjobs other List.mem_cons_self
      obtain ⟨phase, hj, -⟩ := h.jobs e
      rw [Controller.isFinished_of_job hj, Job.isFinished_stop] at hf
      obtain ⟨hle, -⟩ := (ih e he phase hj).resolve_left hf
      have hbegins := Nat.le_trans hle (Teardown.ends_le_begins he)
      refine .inr ⟨Nat.le_trans hbegins (Teardown.begins_le_ends ht), fun e he => ?_, hjobs, hbegins,
        hleft.congr rfl rfl⟩
      exact (hseen e he).imp_right fun hover => Nat.le_trans hover (Nat.le_of_lt hlt)
  | @halt handle halt hp =>
      obtain rfl : phase = .halting handle halt := hp
      obtain ⟨call, hexpects⟩ := Halt.exists_expects handle halt
      have hexpects : (Job.stop ⟨s, .halting handle halt⟩ : Job t.size).Expects call := hexpects
      obtain ⟨entry, hm, he, hdue⟩ := due_of_expects Engine.Scripted.answering hattends hidle hj hexpects
      obtain ⟨s', handle', halt', -, hj', hanswers⟩ := h.due entry hm
      rw [he, hj] at hj'
      obtain ⟨rfl, hphase⟩ := StopJob.mk.inj (Job.stop.inj (Option.some.inj hj'))
      obtain ⟨rfl, rfl⟩ := StopPhase.halting.inj hphase
      cases halt with
      | killing =>
          -- A kill takes no time.
          have hnow := horderly.2.1
          have hover := hanswers.1
          omega
      | stopping deadline =>
          obtain ⟨hservice, hholds, rfl, -, hleft⟩ := horderly
          have hstopped : time ≤ entry.due := hfirst _ (mem_deadlines.2 (.inl ⟨entry, hm, rfl⟩)) hdue
          have hdeadline := due_of_deadline hidle hj rfl
          have hpatience := hfirst _ (mem_deadlines.2 (.inr (.inl ⟨_, _, hj, rfl⟩))) hdeadline
          have hover := Teardown.ends_of_holds ht hholds
          have hdelay := hanswers.1
          have hle : time ≤ x.teardown.ends s := by omega
          exact .inr ⟨hle, hservice, hholds, rfl, hle, hleft.congr rfl rfl⟩
  | @store volumes hp =>
      obtain rfl : phase = .detaching volumes := hp
      have herrand := errand_eq_none_of_idle hattends h.prompt hidle hj
      simp [Job.errand?, StopPhase.toUnbind] at herrand
      exact absurd herrand horderly.1

include ht h hattends hidle hh in
/-- **Time passes**, and no stop job has missed anything. -/
theorem Underway.pass : Underway x { y with now := time } := by
  obtain ⟨⟨-, hlt⟩, -⟩ := World.horizon?_eq_some.1 hh
  have hle := Nat.le_of_lt hlt
  constructor
  case later => exact Nat.le_trans h.later hle
  case config => exact h.config
  case scripts => exact h.scripts
  case alarms => exact h.alarms
  case prompt => exact ⟨h.prompt.mode, fun hq => Nat.le_trans (h.prompt.due hq) hle⟩
  case volumes => exact h.volumes
  case loosened => exact h.loosened
  case log => exact h.log
  case rest => exact h.rest
  case due => exact h.due
  case lone => exact h.lone
  case jobs =>
    intro s
    obtain ⟨phase, hj, horderly, hemptied⟩ := h.jobs s
    rcases h.stop_cases ht hattends hidle hh s phase hj with rfl | ⟨-, hpassed⟩
    · exact ⟨_, hj, ⟨Nat.le_trans horderly.1 hle, horderly.2.congr rfl rfl⟩, hemptied⟩
    · exact ⟨_, hj, hpassed, hemptied⟩
  case call =>
    obtain ⟨call, hk, ho, hjobs, hjoins⟩ := h.call
    refine ⟨call, hk, ho, hjobs, ?_⟩
    -- Where nothing happens by itself the call waits for a stop that is not over, or it has answered.
    have hstuck := proceed_of_idle hidle hk
    cases hp : call.phase with
    | joining =>
        simp only [Controller.proceed, hp] at hstuck
        split at hstuck
        next => cases hstuck
        next hall =>
          obtain ⟨id, hid, hopen⟩ := by simpa using hall
          obtain ⟨s, rfl⟩ := (hjobs id).1 hid
          obtain ⟨phase, hj, -⟩ := h.jobs s
          rw [Controller.isFinished_of_job hj, ← Bool.not_eq_true, Job.isFinished_stop] at hopen
          obtain ⟨hover, -⟩ := (h.stop_cases ht hattends hidle hh s phase hj).resolve_left hopen
          exact Nat.le_trans hover Teardown.ends_le_returns
    | reporting services taken => cases services <;> simp [Controller.proceed, hp] at hstuck
    | answered answer =>
        rw [hp] at hjoins
        cases answer <;> exact hjoins
    | _ =>
        rw [hp] at hjoins
        exact hjoins.elim

end

/-! ## The end -/

/-- All services have been stopped, as the teardown has it. -/
structure TornDown (x y : Setting Engine.Scripted.engine t) : Prop where
  states : ∀ s, (y.controller.slot s).state
    = if (x.controller.slot s).state = .failed then .failed else .stopped
  errors : ∀ s, (y.controller.slot s).lastError = (x.controller.slot s).lastError
  slots : ∀ s, y.controller.slot s
    = (x.controller.slot s).torn (x.teardown.begins s) (x.teardown.ends s)
  /-- The engine was asked for services of the topology only. -/
  log : ∃ news, Engine.Scripted.State.calls y.engine = Engine.Scripted.State.calls x.engine ++ news ∧
    ∀ entry ∈ news, ∃ s, entry.service = t.id s
  calls : ∀ s, Engine.Scripted.State.callsFor y.engine (t.id s)
    = Engine.Scripted.State.callsFor x.engine (t.id s) ++ x.teardown.calls s
  /-- The volumes of the topology are unbound, and all else that is known of them stays. -/
  volumes : ∀ decl ∈ t.volumes, ∃ binding, x.store.table.get? decl.volume.id = some binding ∧
    y.store.table.get? decl.volume.id = some { binding with owner := none }
  others : ∀ id, (∀ decl ∈ t.volumes, decl.volume.id ≠ id) →
    y.store.table.get? id = x.store.table.get? id
  answer : ∃ report, y.controller.answer? x.controller.calls.size
    = some (.report report, x.teardown.returns)

/-- Where everything is at rest, all services have been stopped. -/
theorem Underway.tornDown (ht : t.Built) (hx : x.Standstill) (h : Underway x y) (hattends : Attends y)
    (hfinished : ∀ (id : JobId) (job : Job t.size), y.controller.jobs[id]? = some job → job.isFinished)
    (hanswered : ∀ (k : Nat) (call : Call t.size), y.controller.calls[k]? = some call →
      call.answer?.isSome) : TornDown x y ∧ y.Standstill := by
  obtain ⟨hongoing, hclients⟩ := silent_of_finished hattends hfinished
  have hsettled : y.store.settled = y.store.table :=
    Store.settled_of_queue (Store.clients_eq_nil.1 hclients).1
  have hloosened : Loosened t x.store.table y.store.table := hsettled ▸ h.loosened
  have hend (s : Fin t.size) : Orderly x y s .finished ∧ Emptied y.store.table s .finished := by
    obtain ⟨phase, hj, horderly, hemptied⟩ := h.jobs s
    obtain rfl : phase = .finished := Job.isFinished_stop.1 (hfinished _ _ hj)
    exact ⟨horderly, hsettled ▸ hemptied⟩
  have hslots (s : Fin t.size) := (hend s).1.2.slot
  have hunbound (s : Fin t.size) (volume : Volume) (hv : volume ∈ t.volumesOf s) :
      y.store.table.owner? volume.id = none :=
    ((hend s).2 (.inr rfl) volume hv).resolve_left (by simp [StopPhase.toUnbind])
  have hvolumes (decl : VolumeDecl) (hd : decl ∈ t.volumes) : ∃ binding,
      x.store.table.get? decl.volume.id = some binding ∧
        y.store.table.get? decl.volume.id = some { binding with owner := none } := by
    obtain ⟨binding, hb⟩ := Option.isSome_iff_exists.1 (hx.registered decl hd)
    obtain ⟨s, hv⟩ := ht.mem_volumesOf hd
    refine ⟨binding, hb, ?_⟩
    rcases hloosened decl.volume.id with he | ⟨-, he⟩
    · rw [hb] at he
      have hnone : binding.owner = none := by
        rw [← Bindings.owner?_of_get? he]
        exact hunbound s _ hv
      rw [he, ← hnone]
    · rw [he, hb]
      rfl
  obtain ⟨call, hk, ho, -, hjoins⟩ := h.call
  refine ⟨⟨fun s => hslots s ▸ Slot.state_torn, fun s => hslots s ▸ Slot.lastError_torn, hslots, h.log,
    fun s => (hend s).1.2.calls, hvolumes, fun id hid => ?_, ?_⟩, hanswered, hfinished, hongoing,
    hclients, h.alarms, fun s handle hh => ?_, fun s _ => ?_, fun s _ => hunbound s,
    fun decl hd => ?_⟩
  · refine (hloosened id).resolve_right ?_
    rintro ⟨⟨s, volume, hv, rfl⟩, -⟩
    obtain ⟨decl, hd, rfl⟩ := mem_volumes_of_volumesOf hv
    exact hid decl hd rfl
  · obtain ⟨answer, time, hp⟩ := Controller.Call.phase_of_answer (hanswered _ call hk)
    rw [hp] at hjoins
    cases answer with
    | report report =>
        obtain rfl : time = x.teardown.returns := hjoins
        exact ⟨report, by rw [Controller.answer?_of_call hk, Call.answer?, hp]⟩
    | _ => exact hjoins.elim
  · rw [hslots, Slot.handle_torn (hx.vacant s)] at hh
    cases hh
  · rw [hslots, Slot.handle_torn (hx.vacant s)]
  · obtain ⟨binding, -, hb⟩ := hvolumes decl hd
    rw [hb]
    rfl

variable {start : Setting Engine.Scripted.engine t} {past : List (Moment t)}

/-- **A stop at a standstill** takes everything down, whatever happens first of what can happen, and then
nothing is going on again. -/
theorem Standstill.stopped (ht : t.Built) (h : start.Opening) (hstore : start.store.mode = .serving 0)
    (run : Run start past x) (hx : x.Standstill)
    (hfaults : ∀ s, (Engine.Scripted.State.script x.engine (t.id s)).stopFault = none) :
    Inevitably World.TicksInTime (fun w => w.AtRest ∧ ∃ past y, w = y.world ∧ Run start past y ∧
      TornDown x y ∧ y.Standstill) (x.world.invoke 0 .stopAll).1 := by
  rw [world_invoke]
  refine (Run.comes_to_rest (I := Underway x) ht Engine.Scripted.answering h ?_
    (run.tail (x.moves_invoke .stopAll)) (underway_invoke ht hx (run.prompt h hstore).mode)).mono ?_
  · intro past moments event y z run hy hm hi
    rcases hi with ⟨hi, hin⟩ | ⟨hidle, time, rfl, hh⟩
    · exact hy.moves ht hx hfaults (run.attends h) hm hi hin
    · cases hm
      exact hy.pass ht (run.attends h) hidle hh
  · rintro w ⟨hrest, past, y, rfl, run, hy, hfinished, hanswered⟩
    exact ⟨hrest, past, y, rfl, run, hy.tornDown ht hx (run.attends h) hfinished hanswered⟩

/-! ## Once and for all -/

/-- A stop has answered at once, and nothing has changed that anybody can see: the services, the calls
to the engine and the bindings of the volumes are the same. -/
structure StoppedAgain (x y : Setting Engine.Scripted.engine t) : Prop where
  slots : ∀ s, y.controller.slot s = x.controller.slot s
  calls : Engine.Scripted.State.calls y.engine = Engine.Scripted.State.calls x.engine
  volumes : ∀ id, y.store.table.get? id = x.store.table.get? id
  answer : ∃ report, y.controller.answer? x.controller.calls.size = some (.report report, x.now)

/-- **A second stop** right after the first changes nothing. -/
theorem TornDown.again (ht : t.Built) (hx : x.Standstill) (hxy : TornDown x y) (hyz : TornDown y z) :
    StoppedAgain y z := by
  have hbare (s : Fin t.size) : (y.controller.slot s).handle = none := by
    rw [hxy.slots]
    exact Slot.handle_torn (hx.vacant s)
  have hholds (s : Fin t.size) : y.teardown.holds s = false := by simp [teardown, hbare]
  have hover : ∀ s, y.teardown.ends s = y.now := Teardown.ends_of_all_bare ht hholds
  refine ⟨fun s => ?_, ?_, fun id => ?_, ?_⟩
  · rw [hyz.slots]
    refine Slot.torn_eq_self ?_ (hbare s)
    rw [hxy.states]
    split
    · exact .inr rfl
    · exact .inl rfl
  · obtain ⟨news, hnews, hservices⟩ := hyz.log
    -- Each new entry would be for some service, and no service has one.
    have hnone : news = [] := by
      refine List.eq_nil_iff_forall_not_mem.2 fun entry hm => ?_
      obtain ⟨s, hs⟩ := hservices entry hm
      have hcalls := hyz.calls s
      rw [Teardown.calls_of_bare (hholds s), List.append_nil] at hcalls
      unfold Engine.Scripted.State.callsFor at hcalls
      rw [hnews, List.filter_append, List.append_right_eq_self] at hcalls
      simpa [hs] using List.filter_eq_nil_iff.1 hcalls entry hm
    rw [hnews, hnone, List.append_nil]
  · by_cases hid : ∃ decl ∈ t.volumes, decl.volume.id = id
    · obtain ⟨decl, hd, rfl⟩ := hid
      obtain ⟨binding, -, hy⟩ := hxy.volumes decl hd
      obtain ⟨binding', hy', hz⟩ := hyz.volumes decl hd
      obtain rfl := Option.some.inj (hy.symm.trans hy')
      rw [hz, hy]
    · exact hyz.others id fun decl hd he => hid ⟨decl, hd, he⟩
  · have hreturns : y.teardown.returns = y.now :=
      Nat.le_antisymm (Teardown.returns_le (Nat.le_refl _) fun s => Nat.le_of_eq (hover s))
        (Teardown.called_le_returns (p := y.teardown))
    exact hreturns ▸ hyz.answer

/-! ## The theorem -/

/-- **A lone stop is exact, ordered and idempotent.** In a setting with a built topology, a fresh
controller with any settings, an engine with any scripts that reports no stop to have failed, and a store
that answers at once and knows the volumes of the topology, none of them bound, let starts, stops and
restarts be called one after another, and cancels at any time while nothing but starts of all services and
cancels are under way, until all calls have answered and no launch is under way, nor the halt of a
container that came late. Then let all services be stopped. Each service is taken when the last stop of
those that depend on it is over, or at the call. Its stop is over at once if it holds no container, and
else when its container has stopped or its time to stop is over, whatever comes first; both times count in
milliseconds, rounded up. The engine is asked to stop each container when its service is taken, and to
kill just those that take longer than that time, when it is over, and nothing else. On the virtual clock,
where the engine answers in time, everything comes to rest with all this done and the call answered when
the last stop is over: a service that has failed stays so, with its error, every other one is stopped, and
the volumes of the topology are unbound and otherwise as they were. If all services are then stopped once
more, everything comes to rest at the same instant, with no call to the engine and no change of a service
or a binding. -/
theorem Run.lone_stop (ht : t.Built) (h : start.Pristine)
    (hfaults : ∀ s, (Engine.Scripted.State.script start.engine (t.id s)).stopFault = none)
    (run : Run start past x) (hturn : ∀ m ∈ past, m.InTurn)
    (hanswered : ∀ (k : Nat) (call : Call t.size), x.controller.calls[k]? = some call →
      call.answer?.isSome) (hlaunches : LaunchesOver x.controller) :
    (∀ s, x.teardown.begins s = Topology.latest x.now x.teardown.ends (t.dependents s) ∧
      x.teardown.ends s = x.teardown.begins s + (if (x.controller.slot s).handle.isSome then
        min (Engine.Scripted.State.script start.engine (t.id s)).stopTime.ceilMillis
          x.controller.config.stopTimeout.ceilMillis else 0) ∧
      x.teardown.calls s = if (x.controller.slot s).handle.isSome then
        ⟨x.teardown.begins s, .stop, t.id s, none⟩ ::
          if x.controller.config.stopTimeout.ceilMillis
              < (Engine.Scripted.State.script start.engine (t.id s)).stopTime.ceilMillis then
            [⟨x.teardown.begins s + x.controller.config.stopTimeout.ceilMillis, .kill, t.id s, none⟩]
          else [] else []) ∧
    (1_000_000 ∣ x.controller.config.stopTimeout.nanos →
      x.controller.config.stopTimeout.ceilMillis * 1_000_000
        = x.controller.config.stopTimeout.nanos) ∧
    Inevitably World.TicksInTime (fun w => w.AtRest ∧ ∃ y, w = y.world ∧ TornDown x y ∧
      Inevitably World.TicksInTime (fun w => w.AtRest ∧ ∃ z, w = z.world ∧ StoppedAgain y z)
        (y.world.invoke 0 .stopAll).1) (x.world.invoke 0 .stopAll).1 := by
  have hx := run.standstill ht h hturn hanswered hlaunches
  have hkept {past : List (Moment t)} {y : Setting Engine.Scripted.engine t} (run : Run start past y)
      (s : Fin t.size) : (Engine.Scripted.State.script y.engine (t.id s)).stopFault = none :=
    (run.stopsAs (t.id s)).2.trans (hfaults s)
  refine ⟨fun s => ?_, fun hdvd => ?_, ?_⟩
  · -- The teardown reads the scripts at the end of the run, which are those of its start.
    have hdelay : (Engine.Scripted.State.script start.engine (t.id s)).stopTime.ceilMillis
        = x.teardown.stopDelay s := (run.stopsAs (t.id s)).1.symm
    rw [hdelay]
    exact ⟨rfl, Teardown.ends_eq ht, rfl⟩
  · obtain ⟨n, hn⟩ := hdvd
    rw [Duration.ceilMillis]
    omega
  · -- The first stop leaves a standstill behind, from which the second one is one more stop.
    refine (hx.stopped ht h.opening h.mode run (hkept run)).mono ?_
    rintro w ⟨hrest, past, y, rfl, run, hxy, hy⟩
    refine ⟨hrest, y, rfl, hxy, (hy.stopped ht h.opening h.mode run (hkept run)).mono ?_⟩
    rintro w ⟨hrest, past, z, rfl, -, hyz, -⟩
    exact ⟨hrest, z, rfl, hxy.again ht hx hyz⟩

/-! ### A stall that is closed -/

/-- Containers are asked once whether they are ready. -/
def askingOnce : Config :=
  let config : Config := default
  { config with retry := { config.retry with maxRetries := .ofNat 0 } }

/-- The cache is never ready, and takes longer to stop than it may. -/
def stallEvening : Setting Engine.Scripted.engine stall where
  controller := .fresh stall askingOnce
  engine := { scripts := [(⟨"db"⟩, { stopTime := .ofMillis 50 }),
    (⟨"cache"⟩, { fallback := .notReady, stopTime := .ofMillis 12000 }),
    (⟨"front"⟩, { stopTime := .ofMillis 200 })] }
  store := { mode := .serving 0, table := .ofVolumes [stallVolume] }
  now := 1000

/-- Database and front are started, the cache fails, and the start answers. -/
def stallOpens : List Event :=
  [.control 0 (.run 0), .control 0 (.run 0), .control 0 (.run 1), .control 0 (.run 1),
    .control 0 (.run 2), .control 0 (.run 3), .resume 0 3, .control 0 (.run 1), .control 0 (.run 1),
    .control 0 (.run 1), .resume 0 1, .control 0 (.run 1), .serve 0, .deliver 0 0, .control 0 (.run 4),
    .resume 0 4, .control 0 (.run 0), .control 0 (.run 0), .control 0 (.run 0), .resume 0 0,
    .control 0 (.run 0), .control 0 (.run 2), .control 0 (.run 2), .control 0 (.run 5), .resume 0 5,
    .control 0 (.run 2), .control 0 (.run 2), .control 0 (.run 2), .resume 0 2, .control 0 (.run 2)]
    ++ List.replicate 5 (.control 0 (.proceed 0))

/-- All calls have answered, all jobs are at their ends, and each service holds a container. -/
def showsOpen (w : World Engine.Scripted.engine) : Bool :=
  w.members.toList.all fun stack =>
    (stack.controller.calls.toList.all fun call => call.answer?.isSome) &&
    stack.controller.jobs.toList.all Job.isFinished &&
    (stack.controller.slots.toList.all fun slot => slot.handle.isSome) &&
    stack.controller.config.stopTimeout.ceilMillis = 10000

/-- What the stop meets there. -/
def stallTeardown : Teardown stall where
  called := 1000
  holds _ := true
  stopDelay s := (Engine.Scripted.State.script stallEvening.engine (stall.id s)).stopDelay
  patience := 10000

theorem stallEvening_pristine : stallEvening.Pristine := by
  refine ⟨⟨⟨_, rfl⟩, rfl, rfl, rfl⟩, rfl, rfl, fun decl hd => ?_⟩
  obtain rfl := List.mem_singleton.1 hd
  exact ⟨{ volume := stallVolume }, by decide +kernel, rfl⟩

/-- The calls that were made in a world, and whether they have answered. -/
def callsOf (w : World e) : List (Operation × Bool) :=
  w.members.toList.flatMap fun stack =>
    stack.controller.calls.toList.map fun call => (call.operation, call.answer?.isSome)

/-- Whether it is the turn of an operation: a cancel may be called during starts of all services, and
everything else once all calls have answered. -/
def turnOf (w : World e) : Operation → Bool
  | .startAll | .stopAll | .restart _ => (callsOf w).all Prod.snd
  | .cancel => (callsOf w).all fun made => made.2 || made.1 = .startAll
  | _ => false

/-- Makes calls in their turns, and lets events happen after each of them. -/
def playCalls (w : World e) : List (Operation × List Event) → Option (World e)
  | [] => some w
  | (operation, events) :: rest =>
    if turnOf w operation then
      (w.step (.control 0 (.invoke operation))).bind fun w =>
        (World.play [] w events).bind fun played => playCalls played.2 rest
    else none

theorem inTurn_of_turnOf {x : Setting e t} {operation : Operation} {effects : List Effect}
    {c : Controller t} (h : turnOf x.world operation) :
    (x.moment (.invoke operation) effects c).InTurn := by
  have hcalls {call : Call t.size} (hcall : call ∈ x.controller.calls) :
      (call.operation, call.answer?.isSome) ∈ callsOf x.world := by
    simp only [callsOf, world, stack, List.flatMap_cons, List.flatMap_nil, List.append_nil]
    exact List.mem_map.2 ⟨call, Array.mem_toList_iff.2 hcall, rfl⟩
  cases operation with
  | startAll | stopAll | restart => exact fun call hcall => List.all_eq_true.1 h _ (hcalls hcall)
  | cancel =>
      intro call hcall hnone
      have hmade := List.all_eq_true.1 h _ (hcalls hcall)
      rw [hnone, Option.isSome_none, Bool.false_or, decide_eq_true_iff] at hmade
      rw [show call.operation = .startAll from hmade]
      trivial
  | _ => cases h

/-- A run with calls in their turns whose end shows something that was looked up by playing it. -/
theorem exists_inTurn (x : Setting e t) (calls : List (Operation × List Event))
    (hevents : ∀ part ∈ calls, ∀ operation, .control 0 (.invoke operation) ∉ part.2)
    (shows : World e → Bool) (h : (playCalls x.world calls).any shows) :
    ∃ past y, Run x past y ∧ (∀ m ∈ past, m.InTurn) ∧ shows y.world := by
  induction calls generalizing x with
  | nil => exact ⟨[], x, .refl, by simp, h⟩
  | cons part rest ih =>
      obtain ⟨operation, events⟩ := part
      rw [playCalls] at h
      split at h
      next hturn =>
        obtain ⟨effects, y, first, played⟩ := exists_act x (.invoke operation)
          (fun w => (World.play [] w events).any fun played => (playCalls played.2 rest).any shows)
          (by simpa [Option.any_bind, Function.comp_def] using h)
        obtain ⟨middle, z, quiet, hquiet, played⟩ := exists_run_all (Q := fun m => ¬ m.Invokes) y events
          (fun he hm => hm.not_invokes fun operation heq =>
            hevents _ List.mem_cons_self operation (heq ▸ he)) (fun w => (playCalls w rest).any shows)
          played
        obtain ⟨later, x', run, hrun, hshows⟩ :=
          ih z (fun part hpart => hevents part (List.mem_cons_of_mem _ hpart)) played
        refine ⟨_, x', ((Run.refl.tail first).trans quiet).trans run, fun m hm => ?_, hshows⟩
        simp only [List.mem_append, List.mem_singleton, List.not_mem_nil, or_false] at hm
        rcases hm with hm | hm | rfl
        · exact hrun m hm
        · exact Moment.inTurn_of_not_invokes (hquiet m hm)
        · exact inTurn_of_turnOf hturn
      next => cases h

/-- A stall that is opened is open, whatever its store, and shows what it is computed to show. -/
theorem exists_stallOpen (store : Store) (events : List Event)
    (hevents : ∀ operation, .control 0 (.invoke operation) ∉ events)
    (shows : World Engine.Scripted.engine → Bool)
    (h : (playCalls { stallEvening with store }.world [(.startAll, events)]).any
      fun w => showsOpen w && shows w) :
    ∃ (past : List (Moment stall)) (x : Setting Engine.Scripted.engine stall),
      Run { stallEvening with store } past x ∧ (∀ m ∈ past, m.InTurn) ∧
      (∀ (k : Nat) (call : Call stall.size), x.controller.calls[k]? = some call →
        call.answer?.isSome) ∧ LaunchesOver x.controller ∧
      x.teardown = { stallTeardown with called := x.now } ∧ shows x.world := by
  obtain ⟨past, x, run, inturn, shown⟩ := exists_inTurn _ _ (by simpa using hevents) _ h
  obtain ⟨opened, shown⟩ := Bool.and_eq_true_iff.1 shown
  simp only [showsOpen, world, stack, Bool.and_eq_true, decide_eq_true_iff, List.all_cons, List.all_nil,
    Bool.and_true, List.all_eq_true, Array.mem_toList_iff] at opened
  obtain ⟨⟨⟨xcalls, xjobs⟩, xslots⟩, xtimeout⟩ := opened
  have holds (s : Fin stall.size) : (x.controller.slot s).handle.isSome :=
    xslots _ (by simp [Controller.slot])
  refine ⟨past, x, run, inturn, fun k call hk => xcalls call (Array.mem_of_getElem? hk),
    fun id l hl => Job.isFinished_launch.1 (xjobs _ (Array.mem_of_getElem? hl)), ?_, shown⟩
  simp only [teardown, stallTeardown, Teardown.mk.injEq, true_and]
  exact ⟨funext holds, funext fun s => (run.stopsAs (stall.id s)).1, xtimeout⟩

/-- The theorem there. -/
theorem lone_stop_stall : ∃ (past : List (Moment stall)) (x : Setting Engine.Scripted.engine stall),
    stall.Built ∧ stallEvening.Pristine ∧
      (∀ s, (Engine.Scripted.State.script stallEvening.engine (stall.id s)).stopFault = none) ∧
      Run stallEvening past x ∧ (∀ m ∈ past, m.InTurn) ∧
      (∀ (k : Nat) (call : Call stall.size), x.controller.calls[k]? = some call →
        call.answer?.isSome) ∧ LaunchesOver x.controller ∧ x.teardown = stallTeardown ∧
      Inevitably World.TicksInTime (fun w => w.AtRest ∧ ∃ y : Setting Engine.Scripted.engine stall,
        w = y.world ∧
        Engine.Scripted.State.callsFor y.engine ⟨"db"⟩
          = Engine.Scripted.State.callsFor x.engine ⟨"db"⟩ ++ [⟨1200, .stop, ⟨"db"⟩, none⟩] ∧
        Engine.Scripted.State.callsFor y.engine ⟨"cache"⟩
          = Engine.Scripted.State.callsFor x.engine ⟨"cache"⟩ ++
            [⟨1000, .stop, ⟨"cache"⟩, none⟩, ⟨11000, .kill, ⟨"cache"⟩, none⟩] ∧
        (∃ report, y.controller.answer? x.controller.calls.size = some (.report report, 11000)) ∧
        Inevitably World.TicksInTime (fun w => w.AtRest ∧ ∃ z, w = z.world ∧ StoppedAgain y z)
          (y.world.invoke 0 .stopAll).1) (x.world.invoke 0 .stopAll).1 := by
  have faults : ∀ s, (Engine.Scripted.State.script stallEvening.engine (stall.id s)).stopFault = none :=
    by decide +kernel
  obtain ⟨past, x, run, inturn, answered, launches, met, shown⟩ :=
    exists_stallOpen stallEvening.store stallOpens (by simp [stallOpens]) (fun w => w.now = 1000)
      (by decide +kernel)
  have now : x.now = 1000 := of_decide_eq_true shown
  have met : x.teardown = stallTeardown := by rw [met, now, stallTeardown]
  obtain ⟨-, -, comes⟩ := run.lone_stop stall_built stallEvening_pristine faults inturn answered launches
  refine ⟨past, x, stall_built, stallEvening_pristine, faults, run, inturn, answered, launches, met,
    comes.mono ?_⟩
  rintro w ⟨hrest, y, rfl, torn, again⟩
  have calls := torn.calls
  have answer := torn.answer
  rw [met] at calls answer
  refine ⟨hrest, y, rfl, (calls ⟨0, by decide⟩).trans (congrArg _ ?_),
    (calls ⟨1, by decide⟩).trans (congrArg _ ?_), ?_, again⟩
  · decide +kernel
  · decide +kernel
  · have returns : stallTeardown.returns = 11000 := by decide +kernel
    exact returns ▸ answer

/-! ### A kill that does not come, and one too many -/

/-- All services are stopped, and no other call is made until the end of the run. -/
def StopsTo (x z : Setting e t) : Prop :=
  ∃ (effects : List Effect) (y : Setting e t) (later : List (Moment t)),
    Moves x (.control 0 (.invoke .stopAll)) [x.moment (.invoke .stopAll) effects y.controller] y ∧
      Run y later z ∧ ∀ m ∈ later, ¬ m.Invokes

/-- What comes of a stop of all services shows something. -/
def showsStopped (events : List Event) (shows : World e → Bool) (w : World e) : Bool :=
  (w.step (.control 0 (.invoke .stopAll))).any fun w =>
    (World.play [] w events).any fun (_, w) => shows w

theorem exists_stopsTo (x : Setting e t) (events : List Event)
    (hevents : ∀ operation, .control 0 (.invoke operation) ∉ events) (shows : World e → Bool)
    (h : showsStopped events shows x.world) : ∃ z, StopsTo x z ∧ shows z.world := by
  obtain ⟨effects, y, first, played⟩ := exists_act x (.invoke .stopAll) _ h
  obtain ⟨later, z, rest, quiet, shown⟩ := exists_run_all (Q := fun m => ¬ m.Invokes) y events
    (fun he hm => hm.not_invokes fun operation heq => hevents operation (heq ▸ he)) shows played
  exact ⟨z, ⟨effects, y, later, first, rest, quiet⟩, shown⟩

/-- Calls in their turns, and then a stop of all services, whose ends show what was looked up. -/
theorem exists_stopped (x : Setting e t) (calls : List (Operation × List Event)) (events : List Event)
    (hcalls : ∀ part ∈ calls, ∀ operation, .control 0 (.invoke operation) ∉ part.2)
    (hevents : ∀ operation, .control 0 (.invoke operation) ∉ events) (opened stopped : World e → Bool)
    (h : (playCalls x.world calls).any fun w => opened w && showsStopped events stopped w) :
    ∃ past y z, Run x past y ∧ (∀ m ∈ past, m.InTurn) ∧ opened y.world ∧ StopsTo y z ∧
      stopped z.world := by
  obtain ⟨past, y, run, inturn, shown⟩ := exists_inTurn x calls hcalls _ h
  obtain ⟨hopened, shown⟩ := Bool.and_eq_true_iff.1 shown
  obtain ⟨z, stops, hstopped⟩ := exists_stopsTo y events hevents stopped shown
  exact ⟨past, y, z, run, inturn, hopened, stops, hstopped⟩

/-- The cache takes two milliseconds to stop, and may take one and a half. -/
def shortEvening : Setting Engine.Scripted.engine stall :=
  { stallEvening with
    controller := .fresh stall { askingOnce with stopTimeout := { nanos := 1_500_000 } }
    engine := { scripts := [(⟨"cache"⟩, { fallback := .notReady, stopTime := { nanos := 2_000_000 } })] } }

/-- Everything is stopped, and the container of the cache stops when its time is over. -/
def shortCloses : List Event :=
  [.control 0 (.run 6), .control 0 (.run 6), .control 0 (.run 7), .control 0 (.run 7), .resume 0 6,
    .control 0 (.run 6), .control 0 (.run 8), .control 0 (.run 8), .control 0 (.run 8), .resume 0 8,
    .serve 0, .deliver 0 0, .control 0 (.run 8), .pass 1002, .resume 0 7, .control 0 (.run 7)]
    ++ List.replicate 5 (.control 0 (.proceed 1))

/-- The database takes long to start and longer to stop than it may, and so does the cache. -/
def lateEvening : Setting Engine.Scripted.engine stall where
  controller :=
    let config : Config := default
    .fresh stall { config with stopTimeout := .ofMillis 200 }
  engine := { scripts := [(⟨"db"⟩, { startTime := .ofMillis 100, stopTime := .ofMillis 500 }),
    (⟨"cache"⟩, { stopTime := .ofMillis 400 })] }
  store := { mode := .serving 0, table := .ofVolumes [stallVolume] }
  now := 1000

/-- The start is cancelled while the container of the database is on its way. When that container has
come, its halt begins. -/
def lateOpens : List (Operation × List Event) :=
  [(.startAll, stallOpens.take 15 ++ [.pass 1010]),
    (.cancel, List.replicate 4 (.control 0 (.proceed 1)) ++ [.control 0 (.run 0), .control 0 (.run 0),
      .control 0 (.run 2), .control 0 (.run 2)] ++ List.replicate 5 (.control 0 (.proceed 0)) ++
      [.pass 1100, .resume 0 4, .control 0 (.run 4), .pass 1150])]

/-- Everything is stopped, and that container has not stopped in time. -/
def lateCloses : List Event :=
  [.control 0 (.run 5), .control 0 (.run 5), .control 0 (.run 5), .control 0 (.run 6),
    .control 0 (.run 6), .control 0 (.run 7), .control 0 (.run 7), .control 0 (.run 7), .serve 0,
    .deliver 0 0, .control 0 (.run 7), .pass 1300, .control 0 (.timeout 4)]

/-- A launch has been answered. -/
def endedStart {n : Nat} : Job n → Bool
  | .launch ⟨_, _, .calling⟩ | .launch ⟨_, _, .running⟩ => false
  | _ => true

/-- The cache holds a container, and all jobs are at their ends. -/
def showsShort (w : World Engine.Scripted.engine) : Bool :=
  w.members.toList.all fun stack =>
    (stack.controller.calls.toList.all fun call => call.answer?.isSome) &&
    stack.controller.jobs.toList.all Job.isFinished &&
    (stack.controller.slots.toList[1]?.any fun slot => slot.handle.isSome) &&
    stack.controller.config.stopTimeout.nanos = 1_500_000 && stack.controller.calls.size = 1

/-- The database holds no container, no start is outstanding, and nothing was killed. -/
def showsLate (w : World Engine.Scripted.engine) : Bool :=
  w.members.toList.all fun stack =>
    (stack.controller.calls.toList.all fun call => call.answer?.isSome) &&
    stack.controller.jobs.toList.all endedStart &&
    (stack.controller.slots.toList[0]?.any fun slot => slot.handle.isNone) &&
    Engine.Scripted.State.count stack.engine .kill ⟨"db"⟩ = 0 && stack.controller.calls.size = 2

/-- Whether a call has answered, and how often a service was killed. -/
def showsKills (k : CallId) (answered : Bool) (service : ServiceId) (kills : Nat)
    (w : World Engine.Scripted.engine) : Bool :=
  (w.answer? 0 k).isSome = answered && w.members.toList.all fun stack =>
    Engine.Scripted.State.count stack.engine .kill service = kills

theorem slots_toList (x : Setting e t) (s : Fin t.size) :
    x.controller.slots.toList[s.val]? = some (x.controller.slot s) := by
  simp [Controller.slot]

/-- A container that takes longer to stop than it may is not killed where both times are over in the same
millisecond; and while all services are stopped, one is killed that holds no container, if the halt of
a container that came late is still going on. -/
theorem kills_unlike_delays :
    (∃ (past : List (Moment stall)) (x z : Setting Engine.Scripted.engine stall),
      shortEvening.Pristine ∧ Run shortEvening past x ∧ (∀ m ∈ past, m.InTurn) ∧
        (∀ (k : Nat) (call : Call stall.size), x.controller.calls[k]? = some call →
          call.answer?.isSome) ∧ LaunchesOver x.controller ∧
        (x.controller.slot ⟨1, by decide⟩).handle.isSome ∧
        x.controller.config.stopTimeout.nanos
          < (Engine.Scripted.State.script shortEvening.engine ⟨"cache"⟩).stopTime.nanos ∧
        StopsTo x z ∧ (z.controller.answer? x.controller.calls.size).isSome ∧
        Engine.Scripted.State.count z.engine .kill ⟨"cache"⟩ = 0) ∧
    ∃ (past : List (Moment stall)) (x z : Setting Engine.Scripted.engine stall),
      lateEvening.Pristine ∧ Run lateEvening past x ∧ (∀ m ∈ past, m.InTurn) ∧
        (∀ (k : Nat) (call : Call stall.size), x.controller.calls[k]? = some call →
          call.answer?.isSome) ∧
        (∀ (id : JobId) (l : Launch stall.size), x.controller.jobs[id]? = some (.launch l) →
          l.phase ≠ .calling ∧ l.phase ≠ .running) ∧
        (x.controller.slot ⟨0, by decide⟩).handle = none ∧
        Engine.Scripted.State.count x.engine .kill ⟨"db"⟩ = 0 ∧
        StopsTo x z ∧ (z.controller.answer? x.controller.calls.size).isNone ∧
        Engine.Scripted.State.count z.engine .kill ⟨"db"⟩ = 1 := by
  constructor
  · obtain ⟨past, x, z, run, inturn, opened, stops, shown⟩ := exists_stopped shortEvening
      [(.startAll, stallOpens)] shortCloses (by simp [stallOpens]) (by simp [shortCloses]) showsShort
      (showsKills 1 true ⟨"cache"⟩ 0) (by decide +kernel)
    simp only [showsShort, world, stack, Bool.and_eq_true, decide_eq_true_iff, List.all_cons,
      List.all_nil, Bool.and_true, List.all_eq_true, Array.mem_toList_iff] at opened
    obtain ⟨⟨⟨⟨calls, jobs⟩, cache⟩, timeout⟩, size⟩ := opened
    obtain ⟨answered, kills⟩ := Bool.and_eq_true_iff.1 shown
    refine ⟨past, x, z, ⟨⟨⟨_, rfl⟩, rfl, rfl, rfl⟩, rfl, rfl, stallEvening_pristine.volumes⟩, run,
      inturn, fun k call hk => calls call (Array.mem_of_getElem? hk),
      fun id l hl => Job.isFinished_launch.1 (jobs _ (Array.mem_of_getElem? hl)), ?_, ?_, stops, ?_,
      ?_⟩
    · rwa [slots_toList x ⟨1, by decide⟩] at cache
    · rw [timeout]
      decide
    · rw [size]
      exact of_decide_eq_true answered
    · simpa [world, stack] using kills
  · obtain ⟨past, x, z, run, inturn, opened, stops, shown⟩ := exists_stopped lateEvening lateOpens
      lateCloses (by simp [lateOpens, stallOpens]) (by simp [lateCloses]) showsLate
      (showsKills 2 false ⟨"db"⟩ 1) (by decide +kernel)
    simp only [showsLate, world, stack, Bool.and_eq_true, decide_eq_true_iff, List.all_cons,
      List.all_nil, Bool.and_true, List.all_eq_true, Array.mem_toList_iff] at opened
    obtain ⟨⟨⟨⟨calls, jobs⟩, database⟩, kills₀⟩, size⟩ := opened
    obtain ⟨answered, kills⟩ := Bool.and_eq_true_iff.1 shown
    refine ⟨past, x, z, ⟨⟨⟨_, rfl⟩, rfl, rfl, rfl⟩, rfl, rfl, stallEvening_pristine.volumes⟩, run,
      inturn, fun k call hk => calls call (Array.mem_of_getElem? hk), fun id l hl => ?_, ?_, kills₀,
      stops, ?_, ?_⟩
    · -- The launch has its answer, and what is left of it is the halt.
      have ended := jobs _ (Array.mem_of_getElem? hl)
      obtain ⟨service, orphaned, phase⟩ := l
      cases phase with
      | calling | running => cases ended
      | _ => simp
    · rw [slots_toList x ⟨0, by decide⟩] at database
      exact Option.isNone_iff_eq_none.1 database
    · rw [size]
      simpa [World.answer?, world, stack] using of_decide_eq_true answered
    · simpa [world, stack] using kills

end Setting

end Bringup.Simulation
