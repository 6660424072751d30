import Bringup.Proofs.Engine.Scripts
import Bringup.Proofs.Lifecycle.InTurn
import Bringup.Proofs.Simulation.BindingsAgree
import Bringup.Proofs.Simulation.CriticalPath
import Bringup.Proofs.Simulation.Instants
import Bringup.Proofs.Simulation.Interrupted
import Bringup.Proofs.Simulation.Visitors

/-!
# A standstill

Starts, stops and restarts were called one after another, with cancels among the starts, and all of them
have answered; no launch is under way. Then nothing is going on (`Run.standstill`): all jobs are at their
ends, engine and store have nothing to do, each container in a slot is one of its service, and the slot
of a service that can be started is empty. The volumes of the topology are known to the store, and those
of a stopped service are unbound.
-/

namespace Bringup.Simulation

open Lifecycle
open Container (Handle)
open Volume (Bindings)

variable {t : Topology}

namespace Setting

variable {start x y : Setting Engine.Scripted.engine t} {past moments : List (Moment t)} {event : Event}
  {m : Moment t} {s : Fin t.size} {c : Controller t} {effects : List Effect}

/-! ## Whose containers come -/

/-- What the engine works on after some effects it worked on before, or one of them asks for it. -/
theorem mem_ongoing_foldl (effects : List Effect) (x : Setting Engine.Scripted.engine t)
    {entry : Ongoing Engine.Scripted.Work} (h : entry ∈ (effects.foldl carry x).ongoing) :
    entry ∈ x.ongoing ∨ ∃ call state, .asks entry.job (.container call) ∈ effects ∧
      entry.work = (Engine.Scripted.State.take state x.now call).2.2 := by
  induction effects generalizing x with
  | nil => exact .inl h
  | cons effect rest ih =>
      rcases ih _ h with h | ⟨call, state, hm, hw⟩
      · cases effect with
        | asks job request =>
            cases request with
            | container call =>
                rcases List.mem_append.1 h with h | h
                · exact .inl (List.mem_filter.1 h).1
                · obtain rfl := List.mem_singleton.1 h
                  exact .inr ⟨call, x.engine, List.mem_cons_self, rfl⟩
            | volume => exact .inl h
        | withdraws => exact .inl (List.mem_filter.1 h).1
        | refusedMove => exact .inl h
      · rw [now_carry] at hw
        exact .inr ⟨call, state, List.mem_cons_of_mem _ hm, hw⟩

/-- A container is started for the service of the launch that asked for it. -/
def Named (c : Controller t) (ongoing : List (Ongoing Engine.Scripted.Work)) : Prop :=
  ∀ entry ∈ ongoing, ∀ service, entry.work = .start service →
    ∃ l : Launch t.size, c.jobs[entry.job]? = some (.launch l) ∧ t.id l.service = service

/-- Only a launch asks for a container to be started, and for one of its service. -/
theorem asks_start {now : Nat} {id asker : JobId} {old new : Job t.size} {action : Action} {slot : Slot}
    {aside : Aside} (turn : Turn c now id old action new slot aside effects) {service : Service}
    {volumes : List Volume} (h : .asks asker (.container (.start service volumes)) ∈ effects) :
    asker = id ∧ ∃ l, old = .launch l ∧ service = t.service l.service := by
  cases turn with
  | @launch l _ _ _ turn =>
      cases turn with
      | call =>
          obtain ⟨rfl, hcall⟩ := Effect.asks.inj (List.mem_singleton.1 h)
          obtain ⟨rfl, -⟩ := Container.Call.start.inj (Request.container.inj hcall)
          exact ⟨rfl, l, rfl, rfl⟩
      | _ => simp [Controller.askStop, Controller.askKill] at h
  | start turn =>
      cases turn <;> simp [Controller.askStop, Controller.askKill, Controller.askAttach] at h
  | @stop job _ _ _ _ turn =>
      have hdetach (volumes' : List Volume) :
          .asks asker (.container (.start service volumes)) ∉ Controller.askDetach id volumes' := by
        cases volumes' <;> simp [Controller.askDetach]
      cases turn with
      | take | takeLeft =>
          cases hh : (c.slot job.service).handle with
          | none => exact absurd (hh ▸ h) (hdetach _)
          | some handle => simp [hh, Controller.askTaken, Controller.askStop] at h
      | skip | halted | unbind => exact absurd h (hdetach _)
      | _ => simp [Controller.askKill] at h

theorem Named.step (h : Named x.controller x.ongoing) {action : Action}
    (hs : x.controller.step x.now action = some (c, effects)) :
    Named c (x.after c effects).ongoing := by
  intro entry hm service hw
  cases ha : action.job? with
  | none =>
      obtain ⟨changes, rfl⟩ := Controller.changesTo_of_step ha hs
      obtain ⟨l, hl, hid⟩ := h entry hm service hw
      refine ⟨l, changes.induct (P := fun c => c.jobs[entry.job]? = some (.launch l))
        (fun hl change => change.sets.jobs_kept hl) hl, hid⟩
  | some id =>
      obtain ⟨old, new, slot, aside, hj, turn, rfl⟩ := Controller.turnsTo_of_step ha hs
      have hlaunch {l : Launch t.size} (hl : x.controller.jobs[entry.job]? = some (.launch l))
          (hid : t.id l.service = service) : ∃ l : Launch t.size,
          (x.controller.after id new old.service slot aside).jobs[entry.job]? = some (.launch l) ∧
            t.id l.service = service := by
        obtain ⟨job, hjob, hkind, hservice, -⟩ := Controller.job_kept turn hj hl
        cases job with
        | start | stop => cases hkind
        | launch l' =>
            have hsame : l'.service = l.service := hservice
            exact ⟨l', hjob, hsame ▸ hid⟩
      rcases mem_ongoing_foldl effects _ hm with hm | ⟨call, state, hasked, htaken⟩
      · obtain ⟨l, hl, hid⟩ := h entry hm service hw
        exact hlaunch hl hid
      · rw [htaken] at hw
        cases call with
        | start asked volumes =>
            obtain ⟨he, l, rfl, rfl⟩ := asks_start turn hasked
            refine hlaunch (he ▸ hj) ?_
            simp only [Engine.Scripted.State.take] at hw
            split at hw
            · cases hw
            · exact Engine.Scripted.Work.start.inj hw
        | stop | kill | probe => cases hw

theorem Named.moves (h : Named x.controller x.ongoing) (hm : Moves x event moments y) :
    Named y.controller y.ongoing := by
  cases hm with
  | act hs => exact (controller_after _ _).symm ▸ h.step hs
  | @ring alarm _ _ _ _ _ hs =>
      have halarms : Named { x with alarms := x.alarms.erase alarm }.controller
        { x with alarms := x.alarms.erase alarm }.ongoing := h
      exact (controller_after _ _).symm ▸ halarms.step hs
  | @reply job _ engine _ _ _ _ _ _ hs =>
      have hothers : Named { x with
          engine
          ongoing := x.others job }.controller (x.others job) :=
        fun entry hm => h entry (List.mem_filter.1 hm).1
      exact (controller_after _ _).symm ▸ hothers.step hs
  | work _ _ he => cases (Prod.mk.inj he).2
  | @deliver place _ _ _ _ _ hs =>
      have hstore : Named { x with
          store := { x.store with answers := x.store.answers.eraseIdx place } }.controller
            x.ongoing := h
      exact (controller_after _ _).symm ▸ hstore.step hs
  | serve | hand | pass => exact h

/-- A container that is handed over for a service is one of it. -/
theorem Named.hands (h : Named x.controller x.ongoing) (hattends : Attends x)
    (hm : Moves x event moments y) (hmem : m ∈ moments) {handle : Handle} (hh : m.hands s handle) :
    handle.service = t.id s := by
  obtain ⟨hworks, hhands⟩ := Bool.and_eq_true_iff.1 hh
  cases hm with
  | @reply id entry engine reply c effects hfind hd hr hs =>
      obtain rfl := List.mem_singleton.1 hmem
      obtain rfl : reply = .start (.ok handle) := by
        unfold Action.hands Setting.moment at hhands
        split at hhands
        next ha =>
          obtain ⟨-, hreply⟩ := Action.answer.inj ha
          rw [Reply.container.inj hreply, of_decide_eq_true hhands]
        next => cases hhands
      have hentry := List.mem_of_find?_eq_some hfind
      obtain rfl : entry.job = id := by simpa using List.find?_some hfind
      obtain ⟨-, call, -, -, hpends⟩ := hattends.engine.works entry hentry
      cases hw : entry.work with
      | answer reply' =>
          rw [hw] at hr hpends
          obtain rfl : reply' = .start (.ok handle) := Engine.Next.answer.inj (Prod.mk.inj hr).2
          exact absurd rfl (Numbering.unnumbered_of_pends hpends handle)
      | start service =>
          obtain ⟨l, hl, rfl⟩ := h entry hentry service hw
          obtain ⟨job, hjob, hdecide⟩ := (Option.any_eq_true _ _).1 hworks
          obtain rfl : Job.launch l = job := Option.some.inj (hl.symm.trans hjob)
          have hservice : l.service = s := of_decide_eq_true hdecide
          rw [hw] at hr
          have hreply := Engine.Next.answer.inj (Prod.mk.inj hr).2
          simp only [Container.Reply.start.injEq] at hreply
          split at hreply
          · cases hreply
          · rw [← Except.ok.inj hreply, hservice]
  | @act action _ _ _ ha =>
      obtain rfl := List.mem_singleton.1 hmem
      cases action with
      | answer job reply => exact absurd rfl (ha job reply)
      | _ => cases hhands
  | ring | deliver =>
      obtain rfl := List.mem_singleton.1 hmem
      cases hhands
  | work | serve | hand | pass => cases hmem

theorem Run.hands_service (h : start.Opening) (run : Run start past x) (hm : m ∈ past)
    {handle : Handle} (hh : m.hands s handle) : handle.service = t.id s := by
  have hnamed {past : List (Moment t)} {x : Setting Engine.Scripted.engine t} (run : Run start past x) :
      Named x.controller x.ongoing :=
    run.invariant (P := fun x => Named x.controller x.ongoing)
      (fun entry hm => by rw [h.ongoing] at hm; cases hm) fun h hm => h.moves hm
  induction run with
  | refl => cases hm
  | tail run hmoves ih =>
      rcases List.mem_append.1 hm with hm | hm
      · exact (hnamed run).hands (run.attends h) hmoves hm hh
      · exact ih hm

/-! ## What is bound -/

/-- The volumes of the service are known, and bound to nobody else. -/
def Registered (table : Bindings) (s : Fin t.size) : Prop :=
  ∀ volume ∈ t.volumesOf s, ∃ binding, table.get? volume.id = some binding ∧
    (binding.owner = none ∨ binding.owner = some (t.id s))

/-- A request of a service for one of its own volumes leaves the volumes of all services registered. -/
theorem Registered.serve (ht : t.Built) {table : Bindings} (h : Registered table s) {s' : Fin t.size}
    {volume : Volume} (hv : volume ∈ t.volumesOf s') {request : Volume.Request}
    (hr : request = .attach volume.id (t.id s') ∨ request = .detach volume.id) :
    Registered (table.serve request).1 s := by
  intro other ho
  obtain ⟨binding, hg, howner⟩ := h other ho
  by_cases hid : other.id = volume.id
  · obtain rfl := ht.owner_unique hv ho hid.symm
    rw [hid] at hg ⊢
    rcases hr with rfl | rfl
    · obtain ⟨bound, hb, ho⟩ := Bindings.owner_attach_self hg howner
      exact ⟨bound, hb, .inr ho⟩
    · exact ⟨_, Bindings.get?_detach_self.trans (congrArg _ hg), .inl rfl⟩
  · refine ⟨binding, ?_, howner⟩
    rcases hr with rfl | rfl
    · rcases table.attach_table volume.id (t.id s') with he | ⟨new, hnew, -, -, he⟩
      · exact (congrArg (Bindings.get? · other.id) he).trans hg
      · refine (congrArg (Bindings.get? · other.id) he).trans ?_
        rw [Bindings.get?_put_of_ne (hnew ▸ hid), hg]
    · exact (Bindings.get?_detach_of_ne hid).trans hg

/-- Nothing has been asked of anybody, no interrupt is to come, and the store, which takes that long over a
request, knows the volumes of the topology, none of them bound. -/
structure Stocked (start : Setting Engine.Scripted.engine t) (delay : Nat) : Prop where
  opening : start.Opening
  alarms : start.alarms = []
  mode : start.store.mode = .serving delay
  volumes : ∀ decl ∈ t.volumes, ∃ binding,
    start.store.table.get? decl.volume.id = some binding ∧ binding.owner = none

/-- Nothing has been asked of anybody, no interrupt is to come, and the store, which answers at once,
knows the volumes of the topology, none of them bound. -/
abbrev Pristine (start : Setting Engine.Scripted.engine t) : Prop := start.Stocked 0

theorem mem_volumes_of_volumesOf {volume : Volume} (h : volume ∈ t.volumesOf s) :
    ∃ decl ∈ t.volumes, decl.volume = volume := by
  obtain ⟨decl, hd, rfl⟩ := List.mem_map.1 h
  exact ⟨decl, (List.mem_filter.1 hd).1, rfl⟩

section

variable {delay : Nat} (ht : t.Built) (h : start.Stocked delay) (run : Run start past x)
  (hclear : ∀ c ∈ Controller.instants x.controller past, c.KeepsClear s)

include ht h run hclear in
/-- The bindings of a service go with its state and its jobs, as long as its starts and stops keep clear
of each other. -/
theorem Run.inStep : Simulation.InStep x.controller x.store s ∧ Registered x.store.table s := by
  have hfree : ∀ volume ∈ t.volumesOf s, ¬ Held start.store.table s volume := by
    intro volume hv hheld
    obtain ⟨decl, hd, rfl⟩ := mem_volumes_of_volumesOf hv
    obtain ⟨binding, hg, hn⟩ := h.volumes decl hd
    rw [Held, Bindings.owner?_of_get? hg, hn] at hheld
    cases hheld
  induction run with
  | refl =>
      obtain ⟨config, hconfig⟩ := h.opening.controller
      have howed : start.store.owed = [] :=
        Store.owed_of_clients (Store.clients_eq_nil.2 ⟨h.opening.queue, h.opening.answers⟩)
      have hsettled : start.store.settled = start.store.table := Store.settled_of_queue h.opening.queue
      refine ⟨⟨⟨delay, h.mode⟩, by simp [h.opening.queue], ?_, ?_, ?_, ?_⟩, ?_⟩
      · rw [howed]
        exact ⟨by simp, by simp⟩
      · rw [hconfig]
        intro i job hj
        simp [Controller.fresh] at hj
      · exact hconfig ▸ Controller.vacant_fresh config s
      · rw [hconfig, hsettled]
        exact agrees_fresh config hfree
      · intro volume hv
        obtain ⟨decl, hd, rfl⟩ := mem_volumes_of_volumesOf hv
        obtain ⟨binding, hg, hn⟩ := h.volumes decl hd
        exact ⟨binding, hg, .inl hn⟩
  | @tail past moments x y event run hm ih =>
      have hbefore : ∀ c ∈ Controller.instants x.controller past, c.KeepsClear s := by
        intro c hc
        refine hclear c ?_
        rcases hm.controller with ⟨rfl, he⟩ | ⟨action, c', effects, -, -, rfl⟩
        · rw [he]
          exact hc
        · exact List.mem_cons_of_mem _ hc
      obtain ⟨hstep, hregistered⟩ := ih hbefore
      refine ⟨hstep.exchange ht (hm.exchange (run.attends h.opening))
        (hbefore _ List.mem_cons_self) (hclear _ List.mem_cons_self), ?_⟩
      rcases hm.table_cases with he | ⟨-, client, request, hq, he⟩
      · rw [he]
        exact hregistered
      · obtain ⟨s', volume, hv, hr⟩ := hstep.asked _ (List.mem_of_mem_head? hq)
        rw [he]
        exact hregistered.serve ht hv hr

end

/-! ## Where all calls have answered -/

/-- A job at its end waits for nothing. -/
theorem idles_of_isFinished {job : Job t.size} (h : job.isFinished) : Idles job := by
  cases job with
  | start job =>
      have hp := Job.isFinished_start.1 h
      exact ⟨fun call => by simp [Job.Expects, hp, StartPhase.Expects],
        by simp [Job.errand?, hp, StartPhase.toBind]⟩
  | stop job =>
      have hp := Job.isFinished_stop.1 h
      exact ⟨fun call => by simp [Job.Expects, hp, StopPhase.Expects],
        by simp [Job.errand?, hp, StopPhase.toUnbind]⟩
  | launch l =>
      have hp := Job.isFinished_launch.1 h
      exact ⟨fun call => by simp [Job.Expects, hp, LaunchPhase.Expects], rfl⟩

/-- Engine and store have nothing to do where all jobs are at their ends. -/
theorem silent_of_finished (h : Attends x) (hfinished : ∀ (id : JobId) (job : Job t.size),
    x.controller.jobs[id]? = some job → job.isFinished) : x.ongoing = [] ∧ x.store.clients = [] := by
  constructor
  · refine List.eq_nil_iff_forall_not_mem.2 fun entry hm => ?_
    obtain ⟨job, call, hj, hexpects, -⟩ := h.engine.works entry hm
    exact (idles_of_isFinished (hfinished _ job hj)).expects call hexpects
  · refine List.eq_nil_iff_forall_not_mem.2 fun client hm => ?_
    obtain ⟨id, job, request, -, hj, hr⟩ := h.store.clients client hm
    rw [(idles_of_isFinished (hfinished id job hj)).errand] at hr
    cases hr

section

variable {e : Engine} {z : Setting e t} {P : e.State → Prop}
  (htake : ∀ state now call, P state → P (e.take state now call).1)

include htake in
/-- What every call to the engine keeps, a turn keeps. -/
theorem engine_after_induct (c : Controller t) (effects : List Effect) (h : P z.engine) :
    P (z.after c effects).engine := by
  have hfold (z : Setting e t) (h : P z.engine) : P (effects.foldl carry z).engine := by
    induction effects generalizing z with
    | nil => exact h
    | cons effect rest ih =>
        refine ih _ ?_
        cases effect with
        | asks job request =>
            cases request with
            | container call => exact htake z.engine z.now call h
            | volume => exact h
        | withdraws | refusedMove => exact h
  exact hfold { z with controller := c } h

include htake in
/-- **What every step of the engine keeps** holds of it at every instant of a run. -/
theorem Run.engine_invariant {start : Setting e t} (run : Run start past z)
    (hresume : ∀ state work, P state → P (e.resume state work).1) (h : P start.engine) :
    P z.engine := by
  refine run.invariant (P := fun z => P z.engine) h fun {z _ _ _} h hm => ?_
  cases hm with
  | act | ring | deliver => exact engine_after_induct htake _ _ h
  | @reply _ call engine _ _ _ _ _ hr =>
      obtain rfl : (e.resume z.engine call.work).1 = engine := congrArg Prod.fst hr
      exact engine_after_induct htake _ _ (hresume z.engine call.work h)
  | @work _ call engine _ _ _ _ hr =>
      obtain rfl : (e.resume z.engine call.work).1 = engine := congrArg Prod.fst hr
      exact hresume z.engine call.work h
  | serve | hand | pass => exact h

end

/-- How long the stops of a service take, and whether they are reported to have failed, never changes. -/
theorem script_take (s : Engine.Scripted.State) (now : Nat) (call : Container.Call) (id : ServiceId) :
    ((s.take now call).1.script id).stopDelay = (s.script id).stopDelay ∧
      ((s.take now call).1.script id).stopFault = (s.script id).stopFault := by
  cases call with
  | probe handle =>
      by_cases hid : id = handle.service
      · subst hid
        show ((s.nextProbe handle.service).1.script handle.service).stopDelay = _ ∧
          ((s.nextProbe handle.service).1.script handle.service).stopFault = _
        have hafter : s.script handle.service = (s.script handle.service).after 0 := by simp
        rw [(Engine.Scripted.State.nextProbe_of_after hafter).2]
        exact ⟨rfl, rfl⟩
      · have he : (s.nextProbe handle.service).1.script id = s.script id :=
          Engine.Scripted.State.script_nextProbe_of_ne hid
        exact ⟨congrArg Engine.Scripted.Script.stopDelay he,
          congrArg Engine.Scripted.Script.stopFault he⟩
  | start | stop | kill => exact ⟨rfl, rfl⟩

/-- What the engines have in store for the stops of the services is the same. -/
def StopsAs (s s' : Engine.Scripted.State) : Prop :=
  ∀ id, (s.script id).stopDelay = (s'.script id).stopDelay ∧
    (s.script id).stopFault = (s'.script id).stopFault

theorem stopsAs_take {s : Engine.Scripted.State} (state : Engine.Scripted.State) (now : Nat)
    (call : Container.Call) (h : StopsAs state s) : StopsAs (state.take now call).1 s := by
  intro id
  obtain ⟨hdelay, hfault⟩ := script_take state now call id
  exact ⟨hdelay.trans (h id).1, hfault.trans (h id).2⟩

theorem StopsAs.finish {state s : Engine.Scripted.State} (h : StopsAs state s)
    (work : Engine.Scripted.Work) : StopsAs (state.finish work).1 s := by
  intro id
  rw [Engine.Scripted.State.script_finish]
  exact h id

theorem StopsAs.after {s : Engine.Scripted.State} (h : StopsAs x.engine s) (c : Controller t)
    (effects : List Effect) : StopsAs (x.after c effects).engine s :=
  engine_after_induct (z := x) (P := (StopsAs · s)) stopsAs_take c effects h

theorem Run.stopsAs (run : Run start past x) : StopsAs x.engine start.engine :=
  run.engine_invariant (P := (StopsAs · start.engine)) stopsAs_take
    (fun _ work h => StopsAs.finish h work) fun _ => ⟨rfl, rfl⟩

/-- Nothing is going on: all calls have answered, all jobs are at their ends, engine and store have
nothing to do, each container in a slot is one of its service, and a service that can be started has none,
and no volume. -/
structure Standstill (x : Setting Engine.Scripted.engine t) : Prop where
  answered : ∀ (k : Nat) (call : Call t.size), x.controller.calls[k]? = some call →
    call.answer?.isSome
  finished : ∀ (id : JobId) (job : Job t.size), x.controller.jobs[id]? = some job → job.isFinished
  ongoing : x.ongoing = []
  clients : x.store.clients = []
  alarms : x.alarms = []
  handles : ∀ (s : Fin t.size) (handle : Handle), (x.controller.slot s).handle = some handle →
    handle.service = t.id s
  vacant : ∀ s : Fin t.size, (x.controller.slot s).state.isStartable →
    (x.controller.slot s).handle = none
  unbound : ∀ s : Fin t.size, (x.controller.slot s).state.isStartable → ∀ volume ∈ t.volumesOf s,
    x.store.table.owner? volume.id = none
  registered : ∀ decl ∈ t.volumes, (x.store.table.get? decl.volume.id).isSome

theorem Standstill.queue (h : x.Standstill) : x.store.queue = [] :=
  (Store.clients_eq_nil.1 h.clients).1

theorem Standstill.settled (h : x.Standstill) : x.store.settled = x.store.table :=
  Store.settled_of_queue h.queue

section

variable {delay : Nat} (ht : t.Built) (h : start.Stocked delay) (run : Run start past x)
  (hturn : ∀ m ∈ past, m.InTurn)
  (hanswered : ∀ (k : Nat) (call : Call t.size), x.controller.calls[k]? = some call →
    call.answer?.isSome) (hlaunches : LaunchesOver x.controller)

include h run hanswered hlaunches in
/-- All jobs are at their ends. -/
theorem Run.finished_of_answered (id : JobId) (job : Job t.size)
    (hj : x.controller.jobs[id]? = some job) : job.isFinished := by
  obtain ⟨config, hrun⟩ := h.opening.controller_run run
  cases job with
  | start job =>
      exact Job.isFinished_start.2 (((quiet_of_launchesOver hanswered hlaunches).finished hrun.ordered
        hrun.linked).1 id job hj)
  | stop job =>
      refine Job.isFinished_stop.2 ?_
      by_contra hn
      obtain ⟨k, call, hk, hw⟩ := hrun.stopsWatched id job hj hn
      obtain ⟨answer, time, hp⟩ := Controller.Call.phase_of_answer (hanswered k call hk)
      rcases hw with ⟨hw, -⟩ | ⟨s, hw⟩ <;> rw [hp] at hw <;> cases hw
  | launch l => exact Job.isFinished_launch.2 (hlaunches id l hj)

include ht h run hturn hanswered hlaunches in
/-- **Where all calls have answered** that were made in turn, and no launch is under way, nothing is
going on. -/
theorem Run.standstill : x.Standstill := by
  obtain ⟨config, hrun⟩ := h.opening.controller_run run
  have hattends := run.attends h.opening
  have hfinished := run.finished_of_answered h hanswered hlaunches
  have hclear (s : Fin t.size) := hrun.keepsClear ht hturn s
  have hremembers (s : Fin t.size) : x.controller.Remembers s :=
    hrun.remembers fun p hp => ⟨(hclear s p hp).under, (hclear s p hp).overlap⟩
  obtain ⟨hongoing, hclients⟩ := silent_of_finished hattends hfinished
  have hsettled : x.store.settled = x.store.table :=
    Store.settled_of_queue (Store.clients_eq_nil.1 hclients).1
  refine ⟨hanswered, hfinished, hongoing, hclients,
    run.invariant (P := fun x => x.alarms = []) h.alarms fun h hm => hm.alarms_eq h, ?_,
    fun s => (hremembers s).vacant.idle, ?_, ?_⟩
  · intro s handle hh
    obtain ⟨m, hm, hhands⟩ := hrun.handed_of_handle hh
    exact run.hands_service h.opening hm hhands
  · intro s hs volume hv
    obtain ⟨hstep, hregistered⟩ := run.inStep ht h (hclear s)
    obtain ⟨binding, hg, howner⟩ := hregistered volume hv
    have hnot : ¬ Held x.store.table s volume := hsettled ▸ hstep.agrees.idle hs volume hv
    rw [Held, Bindings.owner?_of_get? hg] at hnot
    rw [Bindings.owner?_of_get? hg]
    exact howner.resolve_right hnot
  · intro decl hd
    obtain ⟨s, hv⟩ := ht.mem_volumesOf hd
    obtain ⟨binding, hg, -⟩ := (run.inStep ht h (hclear s)).2 _ hv
    rw [hg]
    rfl

end

end Setting

end Bringup.Simulation
