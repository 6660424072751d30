import Bringup.Proofs.Simulation.Vacating

/-!
# The start that a restart ends with

The start job of a restart finds the service stopped and its volumes unbound. If a dependency is not ready
the job records it and leaves. Else it moves the service to starting, binds the volumes one after another,
has the container started and asks it whether it is ready, and ends with what the script has in store. At
every instant it has come as far as it has to (`Reopening.turn`, `Relaunching.turn`).
-/

namespace Bringup

/-- No service depends on itself. -/
theorem Topology.Built.ne_of_dependency {t : Topology} (ht : t.Built) {s d : Fin t.size}
    (hd : d ∈ t.dependencies s) : d ≠ s := by
  rintro rfl
  obtain ⟨order, -, hnodup, hmem, hbefore⟩ := ht.startOrder
  obtain ⟨before, behind, rfl⟩ := List.append_of_mem (hmem d)
  exact (List.disjoint_of_nodup_append hnodup) (hbefore rfl d hd) List.mem_cons_self

namespace Simulation.Setting

open Lifecycle
open Container (Handle)
open Engine.Scripted (Entry)
open Volume (Bindings)

variable {t : Topology}

/-! ## Where the start stands -/

section

variable (x y : Setting Engine.Scripted.engine t) (s : Fin t.size)

/-- The service is starting again, as all its dependencies are ready. -/
structure Reentered : Prop where
  admitted : x.controller.refusal s = none
  state : (y.controller.slot s).state = .starting
  error : (y.controller.slot s).lastError = none

/-- The volumes are bound, the engine has been asked to start the container as soon as they were, and then
so often whether it is ready. -/
def Questioned (n : Nat) : Prop :=
  ∃ probes : List Entry, probes.length = n ∧
    (∀ entry ∈ probes, entry.verb = .probe ∧ entry.service = t.id s) ∧
    x.Traces y s (x.evicts s ++ ⟨x.equips s, .start, t.id s, none⟩ :: probes) (t.volumesOf s)
      (t.volumesOf s)

/-- Where the launch of a restart stands. -/
def Relaunching : LaunchPhase → Prop
  | .calling => y.now = x.equips s ∧ x.Traces y s (x.evicts s) (t.volumesOf s) (t.volumesOf s)
  | .running => x.Questioned y s 0
  | .returned result => (x.scene.prospect.fate s).Starts (t.id s) result ∧ x.Questioned y s 0
  | _ => False

/-- The restart has come to what it has to come to. -/
structure Renewed : Prop where
  sight : (y.controller.slot s).sight = x.comesTo s
  traces : x.controller.refusal s ≠ none ∧ x.Traces y s (x.evicts s) (t.volumesOf s) [] ∨
    x.controller.refusal s = none ∧ ∃ n, x.Questioned y s n

/-- The start job of a restart has come as far as it has to at this instant. -/
def Reopening : StartPhase t.size → Prop
  | .arriving => x.Vacated y s
  | .awaiting left => x.Vacated y s ∧ ∃ seen, t.dependencies s = seen ++ left ∧
    ∀ d ∈ seen, (x.controller.slot d).state = .ready
  | .refusing error => x.Vacated y s ∧ x.controller.refusal s = some error
  | .entering => x.Vacated y s ∧ x.controller.refusal s = none
  | .attaching left => x.Reentered y s ∧ ∃ bound volume rest, left = volume :: rest ∧
    t.volumesOf s = bound ++ volume :: rest ∧
      y.ServedAt (x.clears s + (bound.length + 1) * x.latency) ∧
      x.Traces y s (x.evicts s) (t.volumesOf s) (bound ++ [volume])
  | .launching launch => x.Reentered y s ∧ ∃ l, y.controller.jobs[launch]? = some (.launch l) ∧
    l.service = s ∧ l.orphaned = false ∧ x.Relaunching y s l.phase
  | .recording handle => x.Reentered y s ∧ x.scene.prospect.Started s handle ∧ x.Questioned y s 0
  | .pausing handle attempt _ | .asking handle attempt => x.Reentered y s ∧
    x.scene.prospect.Started s handle ∧ x.scene.prospect.Untold s attempt ∧
      x.Questioned y s (attempt.toNat - 1)
  | .probing handle attempt => x.Reentered y s ∧ x.scene.prospect.Started s handle ∧
    x.scene.prospect.Untold s attempt ∧ x.Questioned y s attempt.toNat
  | .concluding .ready => x.Reentered y s ∧ x.scene.prospect.trial s = none ∧ ∃ n, x.Questioned y s n
  | .concluding (.failed error) => x.Reentered y s ∧ x.scene.prospect.trial s = some error ∧
    ∃ n, x.Questioned y s n
  | .finished => x.Renewed y s
  | .following | .concluding (.cancelled _) | .discarding .. => False

end

variable {x y z : Setting Engine.Scripted.engine t} {s : Fin t.size} {id : JobId} {action : Action}
  {old new : Job t.size} {slot : Slot} {aside : Aside} {effects : List Effect} {c : Controller t}
  {n : Nat}

section

variable (hz : y.Resembles z) (hnow : z.now = y.now)

include hz

theorem Questioned.congr (h : x.Questioned y s n) : x.Questioned z s n := by
  obtain ⟨probes, hlength, hprobes, htraces⟩ := h
  exact ⟨probes, hlength, hprobes, htraces.resembles hz⟩

theorem Reentered.congr (h : x.Reentered y s) : x.Reentered z s :=
  ⟨h.admitted, (congrArg Slot.state (hz.slot s)).trans h.state,
    (congrArg Slot.lastError (hz.slot s)).trans h.error⟩

theorem Renewed.congr (h : x.Renewed y s) : x.Renewed z s where
  sight := (congrArg Slot.sight (hz.slot s)).trans h.sight
  traces := h.traces.imp (And.imp_right (·.resembles hz))
    (And.imp_right fun ⟨n, hquestioned⟩ => ⟨n, hquestioned.congr hz⟩)

include hnow

theorem Relaunching.congr {phase : LaunchPhase} (h : x.Relaunching y s phase) :
    x.Relaunching z s phase := by
  cases phase with
  | calling => exact ⟨hnow.trans h.1, h.2.resembles hz⟩
  | running => exact Questioned.congr hz h
  | returned => exact ⟨h.1, h.2.congr hz⟩
  | halting | finished => exact h.elim

theorem Reopening.congr {phase : StartPhase t.size} (h : x.Reopening y s phase)
    (hserved : ∀ time, y.ServedAt time → z.ServedAt time) : x.Reopening z s phase := by
  cases phase with
  | arriving => exact Vacated.congr hz hnow h
  | following | discarding => exact h.elim
  | awaiting | refusing | entering => exact ⟨h.1.congr hz hnow, h.2⟩
  | attaching =>
      obtain ⟨hentered, bound, volume, rest, he, hv, hover, htraces⟩ := h
      exact ⟨hentered.congr hz, bound, volume, rest, he, hv, hserved _ hover, htraces.resembles hz⟩
  | launching =>
      obtain ⟨hentered, l, hl, hs, ho, hlaunch⟩ := h
      exact ⟨hentered.congr hz, l, hz.jobs ▸ hl, hs, ho, hlaunch.congr hz hnow⟩
  | recording => exact ⟨h.1.congr hz, h.2.1, h.2.2.congr hz⟩
  | pausing | asking | probing => exact ⟨h.1.congr hz, h.2.1, h.2.2.1, h.2.2.2.congr hz⟩
  | concluding verdict =>
      cases verdict with
      | ready | failed =>
          obtain ⟨hentered, htrial, n, hquestioned⟩ := h
          exact ⟨hentered.congr hz, htrial, n, hquestioned.congr hz⟩
      | cancelled => exact h.elim
  | finished => exact Renewed.congr hz h

end

/-! ## Volumes -/

/-- The next volume of the service is bound. -/
theorem Renewable.bind (hx : x.Renewable s) (ht : t.Built) {table : Bindings} {bound rest : List Volume}
    {volume : Volume} (hv : t.volumesOf s = bound ++ volume :: rest)
    (h : x.Shelved s table (t.volumesOf s) bound) :
    x.Shelved s (table.serve (.attach volume.id (t.id s))).1 (t.volumesOf s) (bound ++ [volume]) ∧
      ∃ answer, (table.serve (.attach volume.id (t.id s))).2 = .ok answer := by
  have hm : volume ∈ t.volumesOf s := by simp [hv]
  have hnodup : ((t.volumesOf s).map Volume.id).Nodup := by
    rw [Topology.volumesOf, List.map_map]
    exact ht.volumes_nodup.sublist (List.filter_sublist.map _)
  obtain ⟨binding, hg, -⟩ := hx.registered volume hm
  refine h.attach (Option.isSome_of_mem hg) hm fun hbound => ?_
  rw [hv, List.map_append, List.map_cons] at hnodup
  exact (List.disjoint_of_nodup_append hnodup) hbound List.mem_cons_self

/-! ## Turns -/

/-- The engine is asked whether the container is ready. -/
theorem Questioned.ask (h : x.Questioned y s n) (hmode : y.store.mode = .serving x.latency)
    (turn : Turn y.controller y.now id old action new slot aside effects) {c : Controller t}
    {handle : Handle} (hhandle : handle.service = t.id s) (hengine : (y.after c effects).engine
      = (Engine.Scripted.State.take y.engine y.now (.probe handle)).1) (herrand : new.errand? = none) :
    x.Questioned (y.after c effects) s (n + 1) := by
  obtain ⟨probes, hlength, hprobes, htraces⟩ := h
  let asked : Entry :=
    ⟨y.now, .probe, handle.service, some (Engine.Scripted.State.nextProbe y.engine handle.service).2⟩
  refine ⟨probes ++ [asked], by rw [List.length_append, hlength]; rfl, fun entry hm => ?_, ?_⟩
  · rcases List.mem_append.1 hm with hm | hm
    · exact hprobes entry hm
    · obtain rfl := List.mem_singleton.1 hm
      exact ⟨rfl, hhandle⟩
  · rw [← List.cons_append, ← List.append_assoc]
    refine htraces.after hmode turn ?_ (herrand ▸ htraces.shelf)
    rw [hengine]
    exact Engine.Scripted.State.calls_take_probe handle

/-- A turn in which nothing is asked. -/
theorem Questioned.turned (h : x.Questioned y s n) (hmode : y.store.mode = .serving x.latency)
    (turn : Turn y.controller y.now id old action new slot aside effects) {c : Controller t}
    (hengine : (y.after c effects).engine = y.engine) (herrand : new.errand? = none) :
    x.Questioned (y.after c effects) s n := by
  obtain ⟨probes, hlength, hprobes, htraces⟩ := h
  exact ⟨probes, hlength, hprobes, htraces.turned hmode turn hengine (herrand ▸ htraces.shelf)⟩

/-- A turn in which nothing is asked and the service stays as it is. -/
theorem Vacated.turned (h : x.Vacated y s) (hmode : y.store.mode = .serving x.latency)
    (turn : Turn y.controller y.now id old action new slot aside effects) {c : Controller t}
    (hslot : c.slot s = y.controller.slot s) (hengine : (y.after c effects).engine = y.engine)
    (herrand : new.errand? = none) : x.Vacated (y.after c effects) s where
  now := (now_after c effects).trans h.now
  state := by
    rw [controller_after, hslot]
    exact h.state
  traces := h.traces.turned hmode turn hengine (herrand ▸ h.traces.shelf)

theorem Reentered.turned (h : x.Reentered y s) {c : Controller t}
    (hsight : (c.slot s).sight = (y.controller.slot s).sight) : x.Reentered (y.after c effects) s where
  admitted := h.admitted
  state := by
    rw [controller_after]
    exact (congrArg Prod.fst hsight).trans h.state
  error := by
    rw [controller_after]
    exact (congrArg Prod.snd hsight).trans h.error

/-- The service enters the state of starting. -/
theorem reentered_after (hrefusal : x.controller.refusal s = none)
    (hslot : c.slot s = (y.controller.slot s).entered y.now) : x.Reentered (y.after c effects) s where
  admitted := hrefusal
  state := by
    rw [controller_after, hslot]
    rfl
  error := by
    rw [controller_after, hslot]
    rfl

/-- The service leaves the state of starting. -/
theorem Reentered.leave (h : x.Reentered y s) (job : StartJob t.size) (state : ServiceState)
    (error : Option Error) :
    (job.unclaim ((y.controller.slot s).leaveStarting y.now state error)).sight = (state, error) := by
  simp [Slot.sight, Slot.leaveStarting, Slot.moved, h.state, h.error]

section

variable (ht : t.Built) (hx : x.Renewable s)
  (hslots : ∀ d, d ≠ s → y.controller.slot d = x.controller.slot d)
  (hconfig : y.controller.config = x.controller.config) (hmode : y.store.mode = .serving x.latency)
  (hqueue : y.store.queue = [])

/-- A job that has found the dependencies before the rest of them ready goes on to the rest. -/
theorem Vacated.await (h : x.Vacated y s) {job : StartJob t.size} {seen rest : List (Fin t.size)}
    (he : t.dependencies s = seen ++ rest) (hseen : ∀ d ∈ seen, (x.controller.slot d).state = .ready) :
    x.Reopening y s (job.await rest).phase := by
  rw [StartJob.phase_await]
  split
  next hnil =>
    rw [hnil, List.append_nil] at he
    exact ⟨h, Controller.refusal_eq_none.2 (he ▸ hseen)⟩
  next => exact ⟨h, seen, he, hseen⟩

section

variable (hentered : x.Reentered (y.after c effects) s)
  (turn : Turn y.controller y.now id old action new slot aside effects) {bound : List Volume}
  (hnow : y.now = x.clears s + bound.length * x.latency)
  (htraces : x.Traces y s (x.evicts s) (t.volumesOf s) bound)
  (hengine : (y.after c effects).engine = y.engine)

include ht hx hmode hqueue hentered turn hnow htraces hengine in
/-- The service has some of its volumes bound, and asks for the next one. -/
theorem Reentered.attach {volume : Volume} {rest : List Volume}
    (hv : t.volumesOf s = bound ++ volume :: rest)
    (herrand : new.errand? = some (.attach volume.id (t.id s))) :
    x.Reopening (y.after c effects) s (.attaching (volume :: rest)) := by
  have htime : y.now + x.latency = x.clears s + (bound.length + 1) * x.latency := by
    rw [hnow, Nat.succ_mul, Nat.add_assoc]
  exact ⟨hentered, bound, volume, rest, rfl, hv, .ask hmode hqueue turn herrand htime c,
    htraces.turned hmode turn hengine (herrand ▸ (hx.bind ht hv htraces.shelf).1)⟩

include hmode hentered turn hnow htraces hengine in
/-- The service has all its volumes bound, and has its container started. -/
theorem Reentered.equip {launch : JobId} (hv : t.volumesOf s = bound)
    (hl : c.jobs[launch]? = some (.launch { service := s })) (herrand : new.errand? = none) :
    x.Reopening (y.after c effects) s (.launching launch) := by
  subst hv
  refine ⟨hentered, { service := s }, ?_, rfl, rfl, ?_,
    htraces.turned hmode turn hengine (herrand ▸ htraces.shelf)⟩
  · rw [controller_after, hl]
  · rw [now_after, hnow, equips]

end

include hconfig in
/-- A container that is not ready yet is asked again, as long as there are attempts left. -/
theorem Reentered.retry (h : x.Reentered z s) {handle : Handle} {attempt : UInt32}
    (hstarted : x.scene.prospect.Started s handle) (huntold : x.scene.prospect.Untold s attempt)
    (hn : (x.scene.prospect.fate s).probe (attempt.toNat - 1) ≠ .ready)
    (hquestioned : x.Questioned z s attempt.toNat) :
    x.Reopening z s (y.controller.retryPhase y.now s handle attempt) := by
  have hattempts : y.controller.config.retry.maxAttempts = x.scene.prospect.attempts :=
    congrArg (fun config => config.retry.maxAttempts) hconfig
  rcases y.controller.retryPhase_cases y.now s handle attempt with
    ⟨hlt, deadline, he⟩ | ⟨hlast, he⟩ <;> rw [he]
  · rw [hattempts] at hlt
    refine ⟨h, hstarted, huntold.succ hlt hn, ?_⟩
    rwa [Prospect.toNat_succ hlt, Nat.add_sub_cancel]
  · rw [hattempts] at hlast ⊢
    exact ⟨h, Prospect.trial_timeout hstarted huntold hlast hn, _, hquestioned⟩

/-- The verdict on a service is what it comes to. -/
theorem Reopening.conclude {verdict : Verdict} (h : x.Reopening y s (.concluding verdict))
    (job : StartJob t.size) (hsight : (z.controller.slot s).sight
      = (job.unclaim ((y.controller.slot s).leaveStarting y.now verdict.target
        (verdict.error (t.id s)))).sight)
    (hturned : ∀ {n}, x.Questioned y s n → x.Questioned z s n) : x.Renewed z s := by
  have hrenewed (hentered : x.Reentered y s) (hasked : ∃ n, x.Questioned y s n)
      (hcomes : (verdict.target, verdict.error (t.id s)) = x.comesTo s) : x.Renewed z s := by
    obtain ⟨n, hasked⟩ := hasked
    refine ⟨?_, .inr ⟨hentered.admitted, n, hturned hasked⟩⟩
    rw [hsight, ← hcomes]
    exact hentered.leave ..
  cases verdict with
  | ready | failed =>
      obtain ⟨hentered, htrial, hasked⟩ := h
      exact hrenewed hentered hasked (by simp [comesTo, hentered.admitted, htrial, Verdict.target,
        Verdict.error])
  | cancelled => exact h.elim

include ht hx hslots hconfig hmode hqueue in
/-- **The turn of the start job** of a restart comes when it has to. -/
theorem Reopening.turn {job job' : StartJob t.size} (hj : y.controller.jobs[id]? = some (.start job))
    (turn : StartTurn y.controller y.now id job action job' slot aside effects)
    (hs : job.service = s) (hrun : y.controller.isCancelled job.run = false)
    (htakes : ∀ reply, action = .answer id (.container reply) →
      (Job.start job).Takes x.scene.prospect (.container reply))
    (hgranted : ∀ result, action = .answer id (.volume result) → ∃ answer, result = .ok answer)
    (h : x.Reopening y s job.phase) :
    x.Reopening (y.after (y.controller.after id (.start job') s slot aside) effects) s job'.phase := by
  subst hs
  have hid := Controller.lt_size_of_job hj
  have hdependency {d : Fin t.size} (hd : d ∈ t.dependencies job.service) :
      y.controller.slot d = x.controller.slot d := hslots d (ht.ne_of_dependency hd)
  have hturns : Turn y.controller y.now id (.start job) action (.start job') slot aside effects :=
    .start turn
  obtain ⟨c, hc⟩ : ∃ c, c = y.controller.after id (.start job') job.service slot aside := ⟨_, rfl⟩
  have hslot : c.slot job.service = slot := hc ▸ Controller.slot_after_self
  have hsight (he : slot.sight = (y.controller.slot job.service).sight) :
      (c.slot job.service).sight = (y.controller.slot job.service).sight := hslot ▸ he
  rw [← hc]
  cases turn with
  | arrive hp hs =>
      rw [hp] at h
      exact (h.turned hmode hturns hslot rfl (by simp [Job.errand?])).await
        (List.nil_append _).symm (by simp)
  | follow hp hs =>
      refine absurd ?_ hs
      have hstate : (y.controller.slot job.service).state = .stopped := by
        rcases hp with hp | ⟨hp, -⟩ <;> rw [hp] at h
        · exact h.state
        · exact h.1.state
      rw [hstate]
      rfl
  | cease hp | overrun hp | discarded hp | kill hp =>
      rw [hp] at h
      exact h.elim
  | giveUp _ hcancelled | forgo _ hcancelled | abandon _ hcancelled | heed _ hcancelled
  | heedProbe _ hcancelled =>
      rw [hrun] at hcancelled
      cases hcancelled
  | pass hp =>
      rw [hp] at h
      obtain ⟨hvacated, seen, he, hseen⟩ := h
      rw [List.append_nil] at he
      exact ⟨hvacated.turned hmode hturns hslot rfl rfl,
        Controller.refusal_eq_none.2 (he ▸ hseen)⟩
  | @accept d rest hp _ hd =>
      rw [hp] at h
      obtain ⟨hvacated, seen, he, hseen⟩ := h
      have he' : t.dependencies job.service = (seen ++ [d]) ++ rest := by simp [he]
      refine (hvacated.turned hmode hturns hslot rfl (by simp [Job.errand?])).await he' fun d' hd' => ?_
      rcases List.mem_append.1 hd' with hd' | hd'
      · exact hseen d' hd'
      · obtain rfl := List.mem_singleton.1 hd'
        rwa [hdependency (by simp [he]), hx.published] at hd
  | @decline d rest hp _ hd =>
      rw [hp] at h
      obtain ⟨hvacated, seen, he, hseen⟩ := h
      rw [hdependency (by simp [he]), hx.published] at hd
      exact ⟨hvacated.turned hmode hturns hslot rfl rfl,
        Controller.refusal_eq_some he hseen hd⟩
  | @refuse error hp =>
      rw [hp] at h
      obtain ⟨hvacated, hrefusal⟩ := h
      refine ⟨?_, .inl ⟨by simp [hrefusal], hvacated.traces.turned hmode hturns rfl
        hvacated.traces.shelf⟩⟩
      rw [controller_after, hslot]
      simp [Slot.sight, Slot.recordIfStartable, hvacated.state, ServiceState.isStartable, Slot.record,
        comesTo, hrefusal]
  | enter hp _ _ hv =>
      rw [hp] at h
      obtain ⟨hvacated, hrefusal⟩ := h
      exact (reentered_after hrefusal hslot).attach ht hx hmode hqueue hturns
        (by simpa using hvacated.now) hvacated.traces rfl hv rfl
  | enterBare hp _ _ hv =>
      rw [hp] at h
      obtain ⟨hvacated, hrefusal⟩ := h
      exact (reentered_after hrefusal hslot).equip hmode hturns (by simpa using hvacated.now)
        hvacated.traces rfl hv (hc ▸ Controller.jobs_after_launches hid) rfl
  | collect hp _ hl hr =>
      rw [hp] at h
      obtain ⟨hentered, l, hl', -, -, hlaunch⟩ := h
      obtain rfl := Job.launch.inj (Option.some.inj (hl.symm.trans hl'))
      rw [hr] at hlaunch
      exact ⟨hentered.turned (hsight rfl), ⟨hx.bound, hlaunch.1⟩,
        hlaunch.2.turned hmode hturns rfl rfl⟩
  | lose hp _ hl hr =>
      rw [hp] at h
      obtain ⟨hentered, l, hl', -, -, hlaunch⟩ := h
      obtain rfl := Job.launch.inj (Option.some.inj (hl.symm.trans hl'))
      rw [hr] at hlaunch
      exact ⟨hentered.turned (hsight rfl), Prospect.trial_start hx.bound hlaunch.1, 0,
        hlaunch.2.turned hmode hturns rfl rfl⟩
  | record hp hs =>
      rw [hp] at h
      obtain ⟨hentered, hstarted, hquestioned⟩ := h
      exact ⟨hentered.turned (hsight rfl), hstarted,
        Prospect.untold_one x.controller.config.retry.maxAttempts_pos,
        hquestioned.turned hmode hturns rfl rfl⟩
  | discard hp hs =>
      rw [hp] at h
      exact absurd h.1.state hs
  | @ask handle attempt hp =>
      rw [hp] at h
      obtain ⟨hentered, hstarted, huntold, hquestioned⟩ := h
      have hasked : x.Questioned (y.after c [.asks id (.container (.probe handle))]) job.service
          (attempt.toNat - 1 + 1) := hquestioned.ask hmode hturns hstarted.2.2 rfl rfl
      rw [Nat.sub_add_cancel huntold.1] at hasked
      exact ⟨hentered.turned (hsight rfl), hstarted, huntold, hasked⟩
  | @conclude verdict hp =>
      rw [hp] at h
      refine h.conclude job ?_ fun hasked => hasked.turned hmode hturns rfl rfl
      rw [controller_after, hslot]
  | wake hp hd =>
      rw [hp] at h
      obtain ⟨hentered, hstarted, huntold, hquestioned⟩ := h
      exact ⟨hentered.turned (hsight rfl), hstarted, huntold,
        hquestioned.turned hmode hturns rfl rfl⟩
  | @bind volume next rest answer hp =>
      rw [hp] at h
      obtain ⟨hentered, bound, _, _, he, hv, hserved, htraces⟩ := h
      obtain ⟨rfl, rfl⟩ := List.cons.inj he
      exact (hentered.turned (hsight rfl)).attach ht hx hmode hqueue hturns
        (by simpa using hserved.reached hqueue) htraces rfl (by simp [hv]) rfl
  | @bindLast volume answer hp =>
      rw [hp] at h
      obtain ⟨hentered, bound, _, _, he, hv, hserved, htraces⟩ := h
      obtain ⟨rfl, rfl⟩ := List.cons.inj he
      exact (hentered.turned (hsight rfl)).equip hmode hturns (by simpa using hserved.reached hqueue) htraces
        rfl hv (hc ▸ Controller.jobs_after_launches hid) rfl
  | miss hp =>
      obtain ⟨answer, he⟩ := hgranted _ rfl
      cases he
  | @ready handle attempt hp =>
      rw [hp] at h
      obtain ⟨hentered, hstarted, huntold, hquestioned⟩ := h
      exact ⟨hentered.turned (hsight rfl),
        Prospect.trial_ready hstarted huntold (htakes _ rfl _ _ hp).symm, _,
        hquestioned.turned hmode hturns rfl rfl⟩
  | @retry handle attempt probe hp hr =>
      rw [hp] at h
      obtain ⟨hentered, hstarted, huntold, hquestioned⟩ := h
      have hn := htakes _ rfl _ _ hp ▸ hr
      exact (hentered.turned (hsight rfl)).retry hconfig hstarted huntold hn
        (hquestioned.turned hmode hturns rfl (by simp [Job.errand?, StartJob.goTo]))

include ht hx in
/-- **What the start job asks** of the store is granted. -/
theorem Reopening.granted {job job' : StartJob t.size}
    (turn : StartTurn y.controller y.now id job action job' slot aside effects)
    (hs : job.service = s) (h : x.Reopening y s job.phase) {request : Volume.Request}
    (hr : (Job.start job').errand? = some request) :
    ∃ answer, (y.store.settled.serve request).2 = .ok answer := by
  subst hs
  obtain ⟨volume, hm, rfl⟩ := Option.map_eq_some_iff.1 hr
  obtain ⟨rest, hleft⟩ := List.head?_eq_some_iff.1 hm
  have hgoes : job'.phase.GoesOn := by
    cases hp : job'.phase with
    | attaching => trivial
    | _ =>
        rw [hp] at hleft
        cases hleft
  rw [turn.same.1]
  rcases turn.goesOn_cases hgoes with ⟨-, -, hnone⟩ | ⟨hp, -, hv⟩ | ⟨before, answer, hbefore, -⟩
  · cases hnone.symm.trans hleft
  · rw [hp] at h
    exact (hx.bind ht (hv.symm.trans hleft) h.1.traces.shelf).2
  · rw [hleft] at hbefore
    cases hp : job.phase with
    | attaching left =>
        rw [hp] at h hbefore
        obtain rfl : left = before :: volume :: rest := hbefore
        obtain ⟨-, bound, _, _, he, hv, -, htraces⟩ := h
        obtain ⟨rfl, rfl⟩ := List.cons.inj he
        have hv' : t.volumesOf job.service = (bound ++ [before]) ++ volume :: rest := by simp [hv]
        exact (hx.bind ht hv' htraces.shelf).2
    | _ =>
        rw [hp] at hbefore
        cases hbefore

/-- **The turn of the launch** of a restart comes when it has to. -/
theorem Relaunching.turn {l : Launch t.size} {phase : LaunchPhase}
    (turn : LaunchTurn y.controller y.now id l action phase effects) (hs : l.service = s)
    (ho : l.orphaned = false) (hmode : y.store.mode = .serving x.latency)
    (htakes : ∀ reply, action = .answer id (.container reply) →
      (Job.launch l).Takes x.scene.prospect (.container reply))
    (h : x.Relaunching y s l.phase) (c : Controller t) : x.Relaunching (y.after c effects) s phase := by
  subst hs
  have hturns : Turn y.controller y.now id (.launch l) action (.launch { l with phase })
      (y.controller.slot l.service) .nothing effects := .launch turn
  cases turn with
  | call hp =>
      rw [hp] at h
      obtain ⟨hnow, htraces⟩ := h
      refine ⟨[], rfl, by simp, htraces.after hmode hturns ?_ htraces.shelf⟩
      rw [← hnow]
      exact Engine.Scripted.State.calls_take_start (t.service l.service) (t.volumesOf l.service)
  | «return» hp =>
      rw [hp] at h
      exact ⟨htakes _ rfl, h.turned hmode hturns rfl rfl⟩
  | halt _ horphaned | drop _ horphaned =>
      rw [ho] at horphaned
      cases horphaned
  | overrun hp | halted hp | kill hp =>
      rw [hp] at h
      exact h.elim

end

/-! ## What the engine is going to answer -/

/-- How far the script is used up is told by how often the container was asked. -/
theorem Questioned.script (h : x.Questioned y s n)
    (huses : Engine.Scripted.State.UsesUp x.engine y.engine) :
    Engine.Scripted.State.script y.engine (t.id s)
      = (Engine.Scripted.State.script x.engine (t.id s)).after n := by
  obtain ⟨probes, rfl, hprobes, htraces⟩ := h
  rw [huses.script_eq htraces.calls]
  have hevicts : (x.evicts s).countP (fun entry => entry.verb = .probe && entry.service = t.id s) = 0 := by
    unfold evicts
    split
    next => split <;> rfl
    next => rfl
  have hasked : probes.countP (fun entry => entry.verb = .probe && entry.service = t.id s)
      = probes.length :=
    List.countP_eq_length.2 fun entry hm => by simp [hprobes entry hm]
  rw [List.countP_append, hevicts, Nat.zero_add, List.countP_cons_of_neg (by simp), hasked]

/-- **What the start job asks** of the engine comes to what the scripts have in store. -/
theorem Reopening.promises {job job' : StartJob t.size}
    (turn : StartTurn y.controller y.now id job action job' slot aside effects) (hs : job.service = s)
    (huses : Engine.Scripted.State.UsesUp x.engine y.engine) (h : x.Reopening y s job.phase)
    (hnew : x.Reopening z s job'.phase) {call : Container.Call} (hexpects : (Job.start job').Expects call) :
    x.Promises s ⟨id, y.now + (Engine.Scripted.State.take y.engine y.now call).2.1,
      (Engine.Scripted.State.take y.engine y.now call).2.2⟩ (.start job') := by
  subst hs
  cases turn with
  | @ask handle attempt hp =>
      rw [hp] at h
      obtain ⟨-, hstarted, -, hquestioned⟩ := h
      obtain rfl : call = .probe handle := hexpects
      intro engine _ handle' attempt' hp'
      obtain ⟨rfl, rfl⟩ := StartPhase.probing.inj hp'
      show (Engine.Scripted.State.nextProbe y.engine handle.service).2 = _
      rw [hstarted.2.2]
      exact (Engine.Scripted.State.nextProbe_of_after (hquestioned.script huses)).1
  | discard | overrun | kill => exact hnew.elim
  | arrive | accept =>
      rw [Job.Expects, StartJob.phase_await] at hexpects
      split at hexpects <;> exact hexpects.elim
  | @retry handle attempt =>
      rcases y.controller.retryPhase_cases y.now job.service handle attempt with ⟨-, _, he⟩ | ⟨-, he⟩ <;>
        rw [Job.Expects, StartJob.goTo, he] at hexpects <;> exact hexpects.elim
  | _ => exact hexpects.elim

/-- **What the launch asks** of the engine comes to what the scripts have in store. -/
theorem Relaunching.promises {l : Launch t.size} {phase : LaunchPhase}
    (turn : LaunchTurn y.controller y.now id l action phase effects)
    (huses : Engine.Scripted.State.UsesUp x.engine y.engine) (hnew : x.Relaunching z s phase)
    {call : Container.Call} (hasks : .asks id (.container call) ∈ effects) :
    x.Promises s ⟨id, y.now + (Engine.Scripted.State.take y.engine y.now call).2.1,
      (Engine.Scripted.State.take y.engine y.now call).2.2⟩ (.launch { l with phase }) := by
  cases turn with
  | call hp =>
      obtain rfl : call = .start (t.service l.service) (t.volumesOf l.service) := by
        simpa using hasks
      exact fun engine hkept =>
        takes_start (x := y.scene) (kept_of_usesUp huses) rfl (t.volumesOf l.service) hkept
  | halt | overrun | kill => exact hnew.elim
  | _ => cases hasks

end Simulation.Setting

end Bringup
