import Bringup.Proofs.Simulation.InTime
import Bringup.Proofs.Simulation.Reopening

/-!
# A restart under way

A restart that has nothing beside it goes from its stop job to its start job, and each of the two is where
it has to be at every instant (`Restarting`, `Renewing`). No step takes time (`Renewing.moves`), and the
clock does not move while there is something to do (`Renewing.pass`). As nothing else is going on the store
has nothing to serve when it is asked (`queue_eq_nil_of_busyOnly`), so each request takes as long as the store
takes over one.
-/

namespace Bringup

namespace Lifecycle.Controller

variable {t : Topology} {c d : Controller t} {own : Option JobId} {id : JobId} {old new job : Job t.size}
  {s : Fin t.size} {slot : Slot} {aside : Aside}

/-- All jobs are at their ends but one, and launches that nobody has given up. -/
def BusyOnly (c : Controller t) (own : Option JobId) : Prop :=
  ∀ (id : JobId) (job : Job t.size), c.jobs[id]? = some job →
    own = some id ∨ job.isFinished ∨ ∃ l, job = .launch l ∧ l.orphaned = false

/-- A job that is not at its end is the one that is not, or the launch that it waits for. -/
theorem BusyOnly.cases (h : c.BusyOnly own) (hlink : c.Linked) (hj : c.jobs[id]? = some job)
    (hn : ¬ job.isFinished) : own = some id ∨ ∃ (i : JobId) (l : Launch t.size) (job' : StartJob t.size),
      own = some i ∧ job = .launch l ∧ l.orphaned = false ∧ c.jobs[i]? = some (.start job') ∧
        job'.phase.launch? = some id := by
  refine (h id job hj).imp_right fun hopen => ?_
  obtain ⟨l, rfl, ho⟩ := hopen.resolve_left hn
  obtain ⟨i, job', hi, hw⟩ := hlink.waited hj ho (mt Job.isFinished_launch.2 hn)
  rcases h i _ hi with he | hf | ⟨_, he, -⟩
  · exact ⟨i, l, job', he, rfl, ho, hi, hw⟩
  · rw [Job.isFinished_start.1 hf] at hw
    cases hw
  · cases he

theorem BusyOnly.finished (h : c.BusyOnly none) (hlink : c.Linked) (hj : c.jobs[id]? = some job) :
    job.isFinished := by
  by_contra hn
  rcases h.cases hlink hj hn with he | ⟨_, _, _, he, -⟩ <;> cases he

/-- The one job comes to its end. -/
theorem BusyOnly.done (h : c.BusyOnly (some id)) (hf : c.isFinished id) : c.BusyOnly none := by
  intro i job hi
  rcases h i job hi with he | hopen
  · obtain rfl := Option.some.inj he
    rw [isFinished_of_job hi] at hf
    exact .inr (.inl hf)
  · exact .inr hopen

theorem jobs_spawn_single_cases (h : (c.spawn [new]).jobs[id]? = some job) :
    c.jobs[id]? = some job ∨ id = c.jobs.size ∧ job = new := by
  by_cases hlt : id < c.jobs.size
  · rw [jobs_spawn_of_lt _ hlt] at h
    exact .inl h
  · rw [jobs_spawn_of_ge _ (Nat.not_lt.1 hlt), List.getElem?_singleton] at h
    split at h
    next he => exact .inr ⟨Nat.le_antisymm (Nat.sub_eq_zero_iff_le.1 he) (Nat.not_lt.1 hlt),
      (Option.some.inj h).symm⟩
    next => cases h

theorem jobs_spawn_single : (c.spawn [new]).jobs[c.jobs.size]? = some new := by
  rw [jobs_spawn_of_ge _ (Nat.le_refl _), Nat.sub_self]
  rfl

/-- A job is set to work. -/
theorem BusyOnly.spawn (h : c.BusyOnly none) (hd : d.jobs = (c.spawn [new]).jobs) :
    d.BusyOnly (some c.jobs.size) := by
  intro i job hi
  rw [hd] at hi
  rcases jobs_spawn_single_cases hi with hi | ⟨rfl, -⟩
  · exact .inr ((h i job hi).resolve_left (by simp))
  · exact .inl rfl

/-- A turn in which no launch is given up. -/
theorem BusyOnly.after (h : c.BusyOnly own) (hj : c.jobs[id]? = some old)
    (hnew : own = some id ∨ ∃ l, new = .launch l ∧ l.orphaned = false)
    (hleaves : ∀ launch, aside ≠ .leaves launch) : (c.after id new s slot aside).BusyOnly own := by
  intro i job hi
  rcases jobs_after_cases (lt_size_of_job hj) hi with
    ⟨rfl, rfl⟩ | ⟨-, hi⟩ | ⟨-, -, rfl⟩ | ⟨-, l, -, ⟨-, rfl⟩ | ⟨rfl, -⟩⟩
  · exact hnew.imp_right .inr
  · exact h i job hi
  · exact .inr (.inr ⟨_, rfl, rfl⟩)
  · exact .inr (.inl (Job.isFinished_launch.2 rfl))
  · exact absurd rfl (hleaves i)

/-- A launch that is taken is not worked on any more. -/
theorem not_expects_of_takes {now : Nat} {action : Action} {effects : List Effect}
    (turn : Turn c now id old action new slot aside effects) {launch : JobId} (ha : aside = .takes launch)
    (hj : c.jobs[launch]? = some job) (call : Container.Call) : ¬ job.Expects call := by
  subst ha
  cases turn with
  | start turn =>
      rcases turn.launch_cases with ⟨ha, -⟩ | ⟨ha, -⟩ | ⟨_, l, result, ha, hl, hr, -⟩ | ⟨_, ha, -⟩
      · cases ha
      · cases ha
      · obtain rfl := Aside.takes.inj ha
        obtain rfl := Option.some.inj (hj.symm.trans hl)
        rw [Job.Expects, hr]
        exact not_false
      · cases ha

end Lifecycle.Controller

namespace Simulation.Setting

open Lifecycle
open Engine.Scripted (Entry)

variable {t : Topology}

/-- The store has nothing to serve where all jobs are at their ends but one, which it owes nothing. -/
theorem queue_eq_nil_of_busyOnly {c : Controller t} {store : Store} {id : JobId} {answered : Option JobId}
    (h : c.BusyOnly (some id)) (howing : Owing c store answered) (hclient : .job 0 id ∉ store.clients) :
    store.queue = [] := by
  refine (Store.clients_eq_nil.1 (List.eq_nil_iff_forall_not_mem.2 fun client hm => ?_)).1
  obtain ⟨i, job, request, rfl, hi, hr⟩ := howing.clients client hm
  rcases h i job hi with he | hf | ⟨l, rfl, -⟩
  · exact hclient (Option.some.inj he ▸ hm)
  · rw [(idles_of_isFinished hf).errand] at hr
    cases hr
  · cases hr

/-! ## How far a restart has come -/

section

variable (x y : Setting Engine.Scripted.engine t) (s : Fin t.size)

/-- What holds of `y` as it comes after `x`: nothing has been changed but the scripts, by questions. -/
structure Subsequent : Prop where
  config : y.controller.config = x.controller.config
  opened : y.controller.cancelledRuns ≤ y.controller.currentRun + 1
  linked : y.controller.Linked
  mode : y.store.mode = .serving x.latency
  scripts : StopsAs y.engine x.engine
  uses : Engine.Scripted.State.UsesUp x.engine y.engine

/-- The call that restarts the service has come as far as it has to at this instant. -/
def Restarting : CallPhase t.size → Prop
  | .checking s' => s' = s ∧ y.controller.BusyOnly none ∧ x.Unbegun y s
  | .stopping s' own => s' = s ∧ y.controller.BusyOnly (some own) ∧ ∃ phase,
    y.controller.jobs[own]? = some (.stop ⟨s, phase⟩) ∧ x.Vacating y s phase
  | .starting s' own => s' = s ∧ y.controller.BusyOnly (some own) ∧ ∃ job,
    y.controller.jobs[own]? = some (.start job) ∧ job.service = s ∧
      y.controller.isCancelled job.run = false ∧ x.Reopening y s job.phase
  | .reading s' => s' = s ∧ y.controller.BusyOnly none ∧ x.Renewed y s
  | .answered answer _ => y.controller.BusyOnly none ∧ x.Renewed y s ∧
    answer = .restarted (y.controller.restartResult s)
  | _ => False

/-- A restart of the service is under way, and nothing else. -/
structure Renewing : Prop where
  slots : ∀ d, d ≠ s → y.controller.slot d = x.controller.slot d
  /-- No start is refused a volume. -/
  granted : ∀ {id : JobId} {job : StartJob t.size} {result : Store.Result},
    y.controller.jobs[id]? = some (.start job) → (.job 0 id, result) ∈ y.store.owed →
      ∃ answer, result = .ok answer
  due : ∀ entry ∈ y.ongoing, ∃ job call, y.controller.jobs[entry.job]? = some job ∧
    job.Expects call ∧ x.Promises s entry job
  call : ∃ call, y.controller.calls[x.controller.calls.size]? = some call ∧
    x.Restarting y s call.phase
  /-- All other calls have answered. -/
  lone : ∀ (k : Nat) (call : Call t.size), y.controller.calls[k]? = some call →
    k ≠ x.controller.calls.size → call.answer?.isSome

end

variable {start x y z : Setting Engine.Scripted.engine t} {past later : List (Moment t)} {s : Fin t.size}

theorem Run.subsequent {delay : Nat} (h : start.Stocked delay) (run : Run start past x)
    (rest : Run x later y) : Subsequent x y := by
  obtain ⟨config, hcontroller⟩ := h.opening.controller_run (run.trans rest)
  have hmode : x.store.mode = .serving delay := run.mode.trans h.mode
  have hlatency : y.store.mode = .serving x.latency := by rw [rest.mode, latency_of_serving hmode, hmode]
  refine ⟨?_, hcontroller.opened, hcontroller.linked, hlatency, rest.stopsAs, rest.usesUp⟩
  refine rest.invariant (P := fun y => y.controller.config = x.controller.config) rfl
    fun hconfig hm => ?_
  rcases hm.controller with ⟨-, he⟩ | ⟨action, c, effects, hs, rfl, -⟩
  · rw [he, hconfig]
  · rw [Controller.config_step hs, hconfig]

theorem Restarting.congr {phase : CallPhase t.size} (h : x.Restarting y s phase)
    (hc : z.controller = y.controller) (hz : y.Resembles z) (hnow : z.now = y.now)
    (hserved : ∀ time, y.ServedAt time → z.ServedAt time) : x.Restarting z s phase := by
  cases phase with
  | checking => exact ⟨h.1, hc ▸ h.2.1, h.2.2.congr hz hnow⟩
  | stopping =>
      obtain ⟨he, honly, phase, hj, hvacating⟩ := h
      exact ⟨he, hc ▸ honly, phase, hc ▸ hj, hvacating.congr hz hnow hserved⟩
  | starting =>
      obtain ⟨he, honly, job, hj, hs, hrun, hreopening⟩ := h
      exact ⟨he, hc ▸ honly, job, hc ▸ hj, hs, hc ▸ hrun, hreopening.congr hz hnow hserved⟩
  | reading => exact ⟨h.1, hc ▸ h.2.1, h.2.2.congr hz⟩
  | answered => exact ⟨hc ▸ h.1, h.2.1.congr hz, hc ▸ h.2.2⟩
  | _ => exact h.elim

/-- What engine and store do between two turns. -/
theorem Renewing.congr (h : x.Renewing y s) (hc : z.controller = y.controller) (hnow : z.now = y.now)
    (hcalls : Engine.Scripted.State.calls z.engine = Engine.Scripted.State.calls y.engine)
    (hongoing : ∀ entry ∈ z.ongoing, entry ∈ y.ongoing) (hsettled : z.store.settled = y.store.settled)
    (howed : ∀ entry ∈ z.store.owed, entry ∈ y.store.owed)
    (hserved : ∀ time, y.ServedAt time → z.ServedAt time) : x.Renewing z s where
  slots := hc ▸ h.slots
  granted hj hm := h.granted (hc ▸ hj) (howed _ hm)
  due entry hm := hc ▸ h.due entry (hongoing entry hm)
  call := by
    obtain ⟨call, hk, hrestarting⟩ := h.call
    exact ⟨call, hc ▸ hk,
      hrestarting.congr hc ⟨fun s => by rw [hc], by rw [hc], hcalls, hsettled⟩ hnow hserved⟩
  lone := hc ▸ h.lone

/-! ## Turns -/

section

variable {id : JobId} {old new : Job t.size} {action : Action} {slot : Slot} {aside : Aside}
  {effects : List Effect} {call : Call t.size}

/-- What a turn of a job leaves as it is. -/
theorem Renewing.frame (h : x.Renewing y s) (hmode : y.store.mode = .serving x.latency)
    (hj : y.controller.jobs[id]? = some old)
    (turn : Turn y.controller y.now id old action new slot aside effects) (hs : old.service = s)
    (hleaves : ∀ launch, aside ≠ .leaves launch)
    (hgranted : ∀ {job request}, new = .start job → new.errand? = some request →
      ∃ answer, (y.store.settled.serve request).2 = .ok answer)
    (hown : ∀ entry ∈ y.ongoing, entry.job = id → ∀ reply, action ≠ .answer id (.container reply))
    (hpromises : ∀ {call}, new.Expects call → .asks id (.container call) ∈ effects →
      x.Promises s ⟨id, y.now + (Engine.Scripted.State.take y.engine y.now call).2.1,
        (Engine.Scripted.State.take y.engine y.now call).2.2⟩ new)
    (hk : y.controller.calls[x.controller.calls.size]? = some call)
    (hrestarting : x.Restarting (y.after (y.controller.after id new s slot aside) effects) s call.phase) :
    x.Renewing (y.after (y.controller.after id new s slot aside) effects) s where
  slots d hd := by rw [controller_after, Controller.slot_after_of_ne hd, h.slots d hd]
  granted {i job result} hi hm := by
    rw [store_after, (hear_turn hmode turn).2.1] at hm
    rw [controller_after] at hi
    subst hs
    rcases Controller.start_after_cases (Controller.lt_size_of_job hj) hi with ⟨rfl, hnew⟩ | ⟨hne, hi⟩
    · obtain ⟨before, rfl⟩ : ∃ before, old = .start before := by
        cases turn with
        | start => exact ⟨_, rfl⟩
        | stop | launch => cases hnew
      cases herrand : new.errand? with
      | none => exact h.granted hj (by rwa [herrand] at hm)
      | some request =>
          rw [herrand] at hm
          rcases List.mem_append.1 hm with hm | hm
          · exact h.granted hj hm
          · rw [(Prod.mk.inj (List.mem_singleton.1 hm)).2]
            exact hgranted hnew herrand
    · exact h.granted hi (mem_of_owedAfter hne hm)
  due entry hm := by
    rw [controller_after]
    have hasked : ∀ entry ∈ y.ongoing, entry.job = id → (∃ call, old.Expects call) ∧
        ∀ reply, action ≠ .answer id (.container reply) := by
      intro entry hm he
      obtain ⟨job, call, hj', hexpects, -⟩ := h.due entry hm
      rw [he, hj] at hj'
      obtain rfl := Option.some.inj hj'
      exact ⟨⟨call, hexpects⟩, hown entry hm he⟩
    rcases ongoing_after_cases turn hasked hm with ⟨hm, hne⟩ | ⟨call, hexpects, hasks, rfl⟩
    · obtain ⟨job, call, hj', hexpects, hpromises⟩ := h.due entry hm
      refine ⟨job, call, ?_, hexpects, hpromises⟩
      rw [Controller.jobs_after_of_ne hne (Controller.lt_size_of_job hj') ?_ (hleaves _), hj']
      exact fun ha => Controller.not_expects_of_takes turn ha hj' call hexpects
    · exact ⟨new, call, Controller.jobs_after_self (Controller.lt_size_of_job hj), hexpects,
        hpromises hexpects hasks⟩
  call := ⟨call, by rw [controller_after, Controller.calls_after, hk], hrestarting⟩
  lone k call hk hne := by
    rw [controller_after, Controller.calls_after] at hk
    exact h.lone k call hk hne

variable (ht : t.Built) (hx : x.Renewable s) (hsub : Subsequent x y) (h : x.Renewing y s)
  (hown : ∀ entry ∈ y.ongoing, entry.job = id → ∀ reply, action ≠ .answer id (.container reply))
  (hk : y.controller.calls[x.controller.calls.size]? = some call)

include hx hsub h hown hk

/-- The turn of the stop job. -/
theorem Renewing.stop_turn {phase phase' : StopPhase}
    (hj : y.controller.jobs[id]? = some (.stop ⟨s, phase⟩))
    (turn : StopTurn y.controller y.now id ⟨s, phase⟩ action phase' slot effects)
    (hp : call.phase = .stopping s id) (honly : y.controller.BusyOnly (some id))
    (hqueue : y.store.queue = []) (hvacating : x.Vacating y s phase) (hin : HaltsInTime x y s id action phase) :
    x.Renewing (y.after (y.controller.after id (.stop ⟨s, phase'⟩) s slot .nothing) effects) s := by
  have hnew := hvacating.turn hx hsub.config hsub.mode hqueue turn hin
  refine h.frame hsub.mode hj (.stop turn) rfl (by simp) (by simp) hown
    (fun hexpects _ => hvacating.promises turn hnew hsub.scripts hexpects) hk ?_
  rw [hp]
  refine ⟨rfl, ?_, phase', ?_, hnew⟩ <;> rw [controller_after]
  · exact honly.after hj (.inl rfl) (by simp)
  · exact Controller.jobs_after_self (Controller.lt_size_of_job hj)

include ht in
/-- The turn of the start job. -/
theorem Renewing.start_turn {job job' : StartJob t.size}
    (hj : y.controller.jobs[id]? = some (.start job))
    (turn : StartTurn y.controller y.now id job action job' slot aside effects) (hs : job.service = s)
    (hp : call.phase = .starting s id) (honly : y.controller.BusyOnly (some id))
    (hqueue : y.store.queue = []) (hrun : y.controller.isCancelled job.run = false)
    (hreopening : x.Reopening y s job.phase)
    (htakes : ∀ reply, action = .answer id (.container reply) →
      (Job.start job).Takes x.scene.prospect (.container reply))
    (hgranted : ∀ result, action = .answer id (.volume result) → ∃ answer, result = .ok answer) :
    x.Renewing (y.after (y.controller.after id (.start job') s slot aside) effects) s := by
  have hnew := hreopening.turn ht hx h.slots hsub.config hsub.mode hqueue hj turn hs hrun htakes hgranted
  have hleaves (launch : JobId) : aside ≠ .leaves launch := by
    rintro rfl
    rcases turn.launch_cases with ⟨ha, -⟩ | ⟨ha, -⟩ | ⟨_, _, _, ha, -⟩ | ⟨_, -, -, -, hphase, -⟩
    · cases ha
    · cases ha
    · cases ha
    · rw [hphase] at hreopening
      exact hreopening
  refine h.frame hsub.mode hj (.start turn) hs hleaves (fun hjob hr => ?_) hown
    (fun hexpects _ => hreopening.promises turn hs hsub.uses hnew hexpects) hk ?_
  · obtain rfl := Job.start.inj hjob
    exact hreopening.granted ht hx turn hs hr
  · rw [hp]
    refine ⟨rfl, ?_, job', ?_, turn.same.1.trans hs, ?_, hnew⟩ <;> rw [controller_after]
    · exact honly.after hj (.inl rfl) hleaves
    · exact Controller.jobs_after_self (Controller.lt_size_of_job hj)
    · rw [turn.same.2, Controller.isCancelled, Controller.cancelledRuns_after]
      exact hrun

omit hx in
/-- The turn of the launch that the start job waits for. -/
theorem Renewing.launch_turn {i : JobId} {job : StartJob t.size} {l : Launch t.size} {phase : LaunchPhase}
    (hj : y.controller.jobs[id]? = some (.launch l))
    (turn : LaunchTurn y.controller y.now id l action phase effects)
    (hi : y.controller.jobs[i]? = some (.start job)) (hw : job.phase.launch? = some id)
    (hs : job.service = s) (hp : call.phase = .starting s i) (honly : y.controller.BusyOnly (some i))
    (hrun : y.controller.isCancelled job.run = false) (hreopening : x.Reopening y s job.phase)
    (htakes : ∀ reply, action = .answer id (.container reply) →
      (Job.launch l).Takes x.scene.prospect (.container reply)) :
    x.Renewing (y.after (y.controller.after id (.launch { l with phase }) l.service
      (y.controller.slot l.service) .nothing) effects) s := by
  obtain hphase : job.phase = .launching id := by
    cases hphase : job.phase with
    | launching launch =>
        rw [hphase] at hw
        exact congrArg _ (Option.some.inj hw)
    | concluding verdict =>
        rw [hphase] at hw hreopening
        cases verdict with
        | ready | failed => cases hw
        | cancelled => exact hreopening.elim
    | _ =>
        rw [hphase] at hw
        cases hw
  rw [hphase] at hreopening
  obtain ⟨hentered, l', hl', rfl, ho, hlaunch⟩ := hreopening
  obtain rfl := Job.launch.inj (Option.some.inj (hj.symm.trans hl'))
  have hnew := hlaunch.turn turn rfl ho hsub.mode htakes (y.controller.after id
    (.launch { l with phase }) l.service (y.controller.slot l.service) .nothing)
  have hne : i ≠ id := by
    rintro rfl
    cases hi.symm.trans hj
  refine h.frame hsub.mode hj (.launch turn) rfl (by simp) (by simp) hown
    (fun _ hasks => Relaunching.promises turn hsub.uses hnew hasks) hk ?_
  rw [hp]
  have hlaunching : x.Reopening (y.after (y.controller.after id (.launch { l with phase }) l.service
      (y.controller.slot l.service) .nothing) effects) l.service (.launching id) := by
    refine ⟨hentered.turned (congrArg Slot.sight Controller.slot_after_self), { l with phase }, ?_, rfl, ho,
      hnew⟩
    rw [controller_after]
    exact Controller.jobs_after_self (Controller.lt_size_of_job hj)
  refine ⟨rfl, ?_, job, ?_, hs, ?_, hphase ▸ hlaunching⟩ <;> rw [controller_after]
  · exact honly.after hj (.inr ⟨{ l with phase }, rfl, ho⟩) (by simp)
  · exact Controller.start_after_of_ne hne hi
  · rw [Controller.isCancelled, Controller.cancelledRuns_after]
    exact hrun

include ht in
omit hk in
/-- **The turn of a job** leaves the restart where it has to be. -/
theorem Renewing.turn {c : Controller t} {answered : Option JobId} (ha : action.job? = some id)
    (hs : y.controller.step y.now action = some (c, effects)) (howing : Owing y.controller y.store answered)
    (hclient : .job 0 id ∉ y.store.clients)
    (hin : ∀ phase, y.controller.jobs[id]? = some (.stop ⟨s, phase⟩) →
      HaltsInTime x y s id action phase)
    (htakes : ∀ {job reply}, y.controller.jobs[id]? = some job → action = .answer id (.container reply) →
      job.Takes x.scene.prospect (.container reply))
    (hgranted : ∀ {job result}, y.controller.jobs[id]? = some (.start job) →
      action = .answer id (.volume result) → ∃ answer, result = .ok answer) :
    x.Renewing (y.after c effects) s := by
  obtain ⟨old, new, slot, aside, hj, turn, hc⟩ := Controller.turnsTo_of_step ha hs
  obtain rfl := hc
  obtain ⟨call, hk, hrestarting⟩ := h.call
  have hopen : ¬ old.isFinished := turn.not_isFinished
  cases hp : call.phase with
  | stopping s' own =>
      rw [hp] at hrestarting
      obtain ⟨rfl, honly, phase, hj', hvacating⟩ := hrestarting
      rcases honly.cases hsub.linked hj hopen with he | ⟨i, _, _, he, -, -, hi, -⟩ <;>
        obtain rfl := Option.some.inj he
      · obtain rfl := Option.some.inj (hj.symm.trans hj')
        cases turn with
        | stop stop =>
            exact h.stop_turn hx hsub hown hk hj stop hp honly
              (queue_eq_nil_of_busyOnly honly howing hclient) hvacating (hin _ hj)
      · cases hi.symm.trans hj'
  | starting s' own =>
      rw [hp] at hrestarting
      obtain ⟨rfl, honly, job, hj', hs', hrun, hreopening⟩ := hrestarting
      rcases honly.cases hsub.linked hj hopen with he | ⟨i, l, job', he, rfl, -, hi, hw⟩ <;>
        obtain rfl := Option.some.inj he
      · obtain rfl := Option.some.inj (hj.symm.trans hj')
        cases turn with
        | start start =>
            subst hs'
            exact h.start_turn ht hx hsub hown hk hj start rfl hp honly
              (queue_eq_nil_of_busyOnly honly howing hclient) hrun hreopening (fun _ => htakes hj)
              fun _ => hgranted hj
      · obtain rfl := Job.start.inj (Option.some.inj (hi.symm.trans hj'))
        cases turn with
        | launch launch =>
            exact h.launch_turn hsub hown hk hj launch hi hw hs' hp honly hrun hreopening
              fun _ => htakes hj
  | checking | reading =>
      rw [hp] at hrestarting
      exact absurd (hrestarting.2.1.finished hsub.linked hj) hopen
  | answered =>
      rw [hp] at hrestarting
      exact absurd (hrestarting.1.finished hsub.linked hj) hopen
  | _ =>
      rw [hp] at hrestarting
      exact hrestarting.elim

end

/-! ## The call -/

section

variable {c : Controller t} {call : Call t.size} {phase : CallPhase t.size} {effects : List Effect}

/-- What a step of the call leaves as it is. -/
theorem Renewing.call_frame (h : x.Renewing y s)
    (hk : y.controller.calls[x.controller.calls.size]? = some call)
    (hcalls : c.calls = y.controller.calls)
    (hslots : ∀ d, d ≠ s → c.slot d = y.controller.slot d)
    (hjobs : ∀ {id : JobId} {job : Job t.size}, y.controller.jobs[id]? = some job → c.jobs[id]? = some job)
    (hstarts : ∀ {id : JobId} {job : StartJob t.size}, c.jobs[id]? = some (.start job) →
      y.controller.jobs[id]? = some (.start job) ∨ y.store.owed = [])
    (hrestarting : x.Restarting (y.after (c.setCallPhase x.controller.calls.size phase) []) s phase) :
    x.Renewing (y.after (c.setCallPhase x.controller.calls.size phase) []) s where
  slots d hd := (Controller.slot_setCallPhase _ _ d).trans ((hslots d hd).trans (h.slots d hd))
  granted {id job result} hj hm := by
    rw [controller_after, Controller.jobs_setCallPhase] at hj
    rcases hstarts hj with hj | hnone
    · exact h.granted hj hm
    · have hm : (.job 0 id, result) ∈ y.store.owed := hm
      rw [hnone] at hm
      cases hm
  due entry hm := by
    obtain ⟨job, call, hj, hpromises⟩ := h.due entry hm
    exact ⟨job, call, by rw [controller_after, Controller.jobs_setCallPhase, hjobs hj], hpromises⟩
  call := ⟨_, Controller.calls_setCallPhase_self (hcalls ▸ hk) phase, hrestarting⟩
  lone k call' hk' hne := by
    rw [controller_after, Controller.calls_setCallPhase_of_ne hne, hcalls] at hk'
    exact h.lone k call' hk' hne

/-- The call gives the service a stop job. -/
theorem Renewing.spawn_stop (h : x.Renewing y s)
    (hk : y.controller.calls[x.controller.calls.size]? = some call) (hnone : y.controller.BusyOnly none)
    (hbegun : x.Unbegun y s) :
    x.Renewing (y.after ((y.controller.spawn [.stop { service := s }]).setCallPhase
      x.controller.calls.size (.stopping s y.controller.jobs.size)) []) s := by
  refine h.call_frame hk rfl (fun _ _ => rfl) (fun hj => ?_) (fun hj => ?_)
    ⟨rfl, hnone.spawn (Controller.jobs_setCallPhase _ _), .taking, ?_, hbegun.now, ?_,
      hbegun.traces.congr rfl rfl⟩
  · rw [Controller.jobs_spawn_of_lt _ (Controller.lt_size_of_job hj), hj]
  · rcases Controller.jobs_spawn_single_cases hj with hj | ⟨-, hj⟩
    · exact .inl hj
    · cases hj
  · rw [controller_after, Controller.jobs_setCallPhase, Controller.jobs_spawn_single]
  · rw [controller_after, Controller.slot_setCallPhase, Controller.slot_spawn, hbegun.slot]

/-- The call gives the service a start job of a run that is not cancelled. -/
theorem Renewing.spawn_start (hsub : Subsequent x y) (hattends : Attends y) (h : x.Renewing y s)
    (hk : y.controller.calls[x.controller.calls.size]? = some call) (hnone : y.controller.BusyOnly none)
    (hvacated : x.Vacated y s) :
    x.Renewing (y.after ((y.controller.arm.spawnStarts [s]).setCallPhase x.controller.calls.size
      (.starting s y.controller.jobs.size)) []) s := by
  have howed : y.store.owed = [] := Store.owed_of_clients
    (silent_of_finished hattends fun id job hj => hnone.finished hsub.linked hj).2
  have hjobs : (y.controller.arm.spawnStarts [s]).jobs
      = (y.controller.spawn [.start { service := s, run := y.controller.arm.currentRun }]).jobs := by
    rw [Controller.jobs_spawnStarts, Controller.jobs_spawn_congr (Controller.jobs_arm _)]
    rfl
  have hslot (d : Fin t.size) : (y.controller.arm.spawnStarts [s]).slot d
      = { y.controller.slot d with claims := (y.controller.slot d).claims + [s].count d } := by
    rw [Controller.slot_spawnStarts, Controller.slot_arm]
  refine h.call_frame hk ?_ (fun d hd => ?_) (fun hj => ?_) (fun _ => .inr howed)
    ⟨rfl, hnone.spawn ((Controller.jobs_setCallPhase _ _).trans hjobs),
      { service := s, run := y.controller.arm.currentRun }, ?_, rfl, ?_, hvacated.now, ?_,
      hvacated.traces.congr rfl rfl⟩
  · rw [Controller.calls_spawnStarts, Controller.calls_arm]
  · rw [hslot, List.count_cons_of_ne (Ne.symm hd)]
    rfl
  · rw [hjobs, Controller.jobs_spawn_of_lt _ (Controller.lt_size_of_job hj), hj]
  · rw [controller_after, Controller.jobs_setCallPhase, hjobs, Controller.jobs_spawn_single]
  · rw [controller_after, Controller.isCancelled, Controller.cancelledRuns_setCallPhase,
      (Controller.runs_spawnStarts _).2, Controller.cancelledRuns_arm]
    simpa using Controller.cancelledRuns_le_arm hsub.opened
  · rw [controller_after, Controller.slot_setCallPhase, hslot]
    exact hvacated.state

/-- **The call** goes on when what it waits for is over. -/
theorem Renewing.proceed (hx : x.Renewable s) (hsub : Subsequent x y) (hattends : Attends y)
    (h : x.Renewing y s) {k : CallId} (hs : y.controller.step y.now (.proceed k) = some (c, effects)) :
    x.Renewing (y.after c effects) s := by
  obtain ⟨rfl, call, hk, hproceed⟩ := Controller.proceed_of_lone h.lone hs
  obtain ⟨call', hk', hrestarting⟩ := h.call
  obtain rfl := Option.some.inj (hk.symm.trans hk')
  have hstill (phase : CallPhase t.size) : y.Resembles
      (y.after (y.controller.setCallPhase x.controller.calls.size phase) []) :=
    ⟨Controller.slot_setCallPhase _ _, Controller.jobs_setCallPhase _ _, rfl, rfl⟩
  have honly {phase : CallPhase t.size} (honly : y.controller.BusyOnly none) :
      (y.after (y.controller.setCallPhase x.controller.calls.size phase) []).controller.BusyOnly none := by
    intro id job hj
    rw [controller_after, Controller.jobs_setCallPhase] at hj
    exact honly id job hj
  cases hp : call.phase with
  | checking s' =>
      rw [hp] at hrestarting
      obtain ⟨rfl, hnone, hbegun⟩ := hrestarting
      have hstate := hx.state
      rw [← hbegun.slot] at hstate
      simp only [Controller.proceed, hp, if_pos hstate] at hproceed
      obtain ⟨rfl, rfl⟩ := Prod.mk.inj (Option.some.inj hproceed)
      exact h.spawn_stop hk hnone hbegun
  | stopping s' own =>
      rw [hp] at hrestarting
      obtain ⟨rfl, hbusy, phase, hj, hvacating⟩ := hrestarting
      simp only [Controller.proceed, hp] at hproceed
      split at hproceed
      next hf =>
        obtain ⟨rfl, rfl⟩ := Prod.mk.inj (Option.some.inj hproceed)
        obtain rfl : phase = .finished := by
          rw [Controller.isFinished_of_job hj] at hf
          exact Job.isFinished_stop.1 hf
        exact h.spawn_start hsub hattends hk (hbusy.done hf) hvacating
      next => cases hproceed
  | starting s' own =>
      rw [hp] at hrestarting
      obtain ⟨rfl, hbusy, job, hj, -, -, hreopening⟩ := hrestarting
      simp only [Controller.proceed, hp] at hproceed
      split at hproceed
      next hf =>
        obtain ⟨rfl, rfl⟩ := Prod.mk.inj (Option.some.inj hproceed)
        have hfinished : job.phase = .finished := by
          rw [Controller.isFinished_of_job hj] at hf
          exact Job.isFinished_start.1 hf
        rw [hfinished] at hreopening
        exact h.call_frame hk rfl (fun _ _ => rfl) id .inl
          ⟨rfl, honly (hbusy.done hf), Renewed.congr (hstill _) hreopening⟩
      next => cases hproceed
  | reading s' =>
      rw [hp] at hrestarting
      obtain ⟨rfl, hnone, hrenewed⟩ := hrestarting
      simp only [Controller.proceed, hp] at hproceed
      obtain ⟨rfl, rfl⟩ := Prod.mk.inj (Option.some.inj hproceed)
      refine h.call_frame hk rfl (fun _ _ => rfl) id .inl ⟨honly hnone, hrenewed.congr (hstill _), ?_⟩
      rw [controller_after, Controller.restartResult, Controller.restartResult, Controller.status,
        Controller.status, Controller.slot_setCallPhase]
  | answered => simp [Controller.proceed, hp] at hproceed
  | _ =>
      rw [hp] at hrestarting
      exact hrestarting.elim

end

/-! ## What happens in time -/

section

variable {moments : List (Moment t)} {event : Event} (ht : t.Built) (hx : x.Renewable s)
  (hsub : Subsequent x y) (hattends : Attends y) (h : x.Renewing y s)

include ht hx hsub hattends h

/-- **What happens in time** leaves the restart where it has to be. -/
theorem Renewing.moves (halarms : y.alarms = []) (hm : Moves y event moments z) (hi : event.Inner)
    (hin : ∀ job, event = .control 0 (.timeout job) → ¬ y.world.Due 0 job) : x.Renewing z s := by
  cases hm with
  | @act action c effects hs ha =>
      cases hj : action.job? with
      | none =>
          cases action with
          | proceed k => exact h.proceed hx hsub hattends hs
          | invoke | interrupt => exact hi.elim
          | run | heed | timeout | answer => cases hj
      | some id =>
          obtain ⟨_, _, _, _, hold, turn, -⟩ := Controller.turnsTo_of_step hj hs
          have hclient := hattends.store.not_client hold turn fun _ => ha id _
          refine h.turn ht hx hsub (fun _ _ _ reply => ha id _) hj hs hattends.store hclient
            (fun phase hid => ?_) (fun _ he => absurd he (ha _ _)) fun _ he => absurd he (ha _ _)
          constructor
          · rintro handle deadline reply - rfl
            exact absurd rfl (ha _ _)
          · rintro handle deadline rfl rfl
            -- The engine works on the stop of the container, and is not to go on with it yet.
            have hexpects : (Job.stop ⟨s, .halting handle (.stopping deadline)⟩ : Job t.size).Expects
                (.stop handle default) := rfl
            obtain ⟨entry, hm, he, hdue⟩ := undue_of_expects hattends hid hexpects (hin id rfl)
            obtain ⟨job, call, hj', -, hpromises⟩ := h.due entry hm
            rw [he, hid] at hj'
            obtain rfl := Option.some.inj hj'
            exact (hpromises _ _ rfl).1 ▸ hdue
  | ring hm =>
      rw [halarms] at hm
      cases hm
  | @reply job entry engine reply c effects hm hd hr hs =>
      obtain ⟨job', call, hj, hexpects, hpromises⟩ := h.due entry (List.mem_of_find?_eq_some hm)
      obtain rfl : entry.job = job := by simpa using List.find?_some hm
      obtain ⟨rfl, hanswer⟩ := Prod.mk.inj hr
      obtain rfl := Engine.Next.answer.inj hanswer
      let done : Setting Engine.Scripted.engine t := { y with
        engine := (Engine.Scripted.State.finish y.engine entry.work).1
        ongoing := y.others entry.job }
      have hdone : x.Renewing done s := h.congr rfl rfl (Engine.Scripted.State.calls_finish _)
        (fun _ hm => (List.mem_filter.1 hm).1) rfl (fun _ hm => hm) fun _ h => h.congr rfl rfl rfl
      obtain ⟨_, _, _, _, hold, turn, -⟩ := Controller.turnsTo_of_step rfl hs
      have hclient := hattends.store.not_client hold turn (by simp)
      refine hdone.turn ht hx (y := done) ⟨hsub.config, hsub.opened, hsub.linked, hsub.mode,
        hsub.scripts.finish _, hsub.uses.finish _⟩ (fun entry' hm' he' => ?_) rfl hs hattends.store hclient
        (fun phase hid => ?_) (fun hid he => ?_) (by simp)
      · exact absurd he' (of_decide_eq_true (List.mem_filter.1 hm').2)
      · obtain rfl := Option.some.inj (hj.symm.trans hid)
        constructor
        · rintro handle deadline reply rfl he
          obtain ⟨-, rfl⟩ := Action.answer.inj he
          obtain ⟨hdue, hwork⟩ := hpromises _ _ rfl
          exact ⟨hdue ▸ hd, by rw [hwork]⟩
        · rintro _ _ - he
          cases he
      · obtain rfl := Option.some.inj (hj.symm.trans hid)
        obtain ⟨-, he⟩ := Action.answer.inj he
        obtain rfl := Reply.container.inj he
        cases job' with
        | start | launch => exact hpromises _ (kept_of_usesUp hsub.uses)
        | stop => trivial
  | work _ _ hr => cases (Prod.mk.inj hr).2
  | serve hs =>
      obtain ⟨hsettled, howed⟩ := Store.settled_serve hs
      exact h.congr rfl rfl rfl (fun _ hm => hm) hsettled (fun _ hm => howed ▸ hm) fun _ h => h.serve hs
  | @deliver place job result c effects ha hs =>
      obtain ⟨howed, hleft⟩ := Store.owed_eraseIdx ha
      let given : Setting Engine.Scripted.engine t :=
        { y with store := { y.store with answers := y.store.answers.eraseIdx place } }
      have hgiven : x.Renewing given s :=
        h.congr rfl rfl rfl (fun _ hm => hm) rfl (fun _ hm => List.mem_of_mem_eraseIdx (hleft ▸ hm))
          fun _ h => h.congr rfl rfl rfl
      obtain ⟨howing, hclient⟩ := hattends.store.deliver ha
      refine hgiven.turn ht hx (y := given) ⟨hsub.config, hsub.opened, hsub.linked, hsub.mode, hsub.scripts,
        hsub.uses⟩ (by simp) rfl hs howing hclient (fun phase hid => ?_) (by simp) fun hid he => ?_
      · constructor
        · rintro handle deadline reply rfl -
          cases hs.symm.trans (step_volume_of_halting hid)
        · rintro _ _ - he
          cases he
      · obtain ⟨-, he⟩ := Action.answer.inj he
        obtain rfl := Reply.volume.inj he
        exact h.granted hid (List.mem_of_getElem? howed)
  | hand ha => exact absurd rfl (hattends.no_visitor _ (List.mem_of_getElem? ha))
  | pass => exact hi.elim

end

/-! ## Time passes -/

section

variable {time : Nat} {id : JobId} (hattends : Attends y) (hidle : y.world.Idle)
  (hh : y.world.horizon? = some time) (h : x.Renewing y s)

theorem resembles_pass : y.Resembles { y with now := time } := ⟨fun _ => rfl, rfl, rfl, rfl⟩

include hattends hidle hh h

/-- A stop job that waits for time to pass has not missed anything. -/
theorem Renewing.stop_pass {phase : StopPhase} (hj : y.controller.jobs[id]? = some (.stop ⟨s, phase⟩))
    (hvacating : x.Vacating y s phase) (hopen : phase ≠ .finished) :
    x.Vacating { y with now := time } s phase := by
  obtain ⟨-, hfirst⟩ := World.horizon?_eq_some.1 hh
  cases Controller.stopBlock_of_stuck hj (own_of_idle hidle trivial) with
  | finished hp => exact absurd hp hopen
  | job hp =>
      obtain rfl : phase = _ := hp
      exact hvacating.elim
  | store hp =>
      obtain rfl : phase = _ := hp
      obtain ⟨gone, volume, rest, rfl, hv, hready, hserved, hstate, htraces⟩ := hvacating
      exact ⟨gone, volume, rest, rfl, hv, hready, hserved.pass hattends hidle hj rfl hh, hstate,
        htraces.resembles resembles_pass⟩
  | @halt handle halt hp =>
      obtain rfl : phase = .halting handle halt := hp
      obtain ⟨call, hexpects⟩ := Halt.exists_expects handle halt
      have hexpects : (Job.stop ⟨s, .halting handle halt⟩ : Job t.size).Expects call := hexpects
      obtain ⟨entry, hm, he, hdue⟩ := due_of_expects Engine.Scripted.answering hattends hidle hj hexpects
      obtain ⟨job, -, hj', -, hpromises⟩ := h.due entry hm
      rw [he, hj] at hj'
      obtain rfl := Option.some.inj hj'
      have hends := hpromises _ _ rfl
      cases halt with
      | killing =>
          -- A kill takes no time.
          have hnow := hvacating.2.1
          have hover : entry.due = x.vacates s := hends
          omega
      | stopping deadline =>
          obtain ⟨hready, hservice, rfl, -, hstate, htraces⟩ := hvacating
          have hstopped : time ≤ entry.due := hfirst _ (mem_deadlines.2 (.inl ⟨entry, hm, rfl⟩)) hdue
          have hdeadline := due_of_deadline hidle hj rfl
          have hpatience := hfirst _ (mem_deadlines.2 (.inr (.inl ⟨_, _, hj, rfl⟩))) hdeadline
          have hdelay := hends.1
          refine ⟨hready, hservice, rfl, ?_, hstate, htraces.resembles resembles_pass⟩
          rw [vacates_of_ready hready]
          show time ≤ _
          omega

/-- A start job that waits for time to pass has not missed anything. -/
theorem Renewing.start_pass (ht : t.Built) (hx : x.Renewable s) {job : StartJob t.size}
    (hj : y.controller.jobs[id]? = some (.start job)) (hreopening : x.Reopening y s job.phase)
    (hopen : job.phase ≠ .finished) : x.Reopening { y with now := time } s job.phase := by
  have hz : y.Resembles { y with now := time } := resembles_pass
  cases Controller.startBlock_of_stuck hj (own_of_idle hidle trivial) (own_of_idle hidle trivial) with
  | following hp | halt hp =>
      rw [hp] at hreopening
      exact hreopening.elim
  | @dependency d rest hp _ hs =>
      rw [hp] at hreopening
      obtain ⟨-, seen, he, -⟩ := hreopening
      refine absurd (Slot.progress_settled_iff.2 (.inr ?_)) hs
      rw [h.slots d (ht.ne_of_dependency (by simp [he]))]
      exact hx.unclaimed d
  | store hp =>
      rw [hp] at hreopening ⊢
      obtain ⟨hentered, bound, volume, rest, rfl, hv, hserved, htraces⟩ := hreopening
      have herrand : (Job.start job).errand? = some (.attach volume.id (t.id job.service)) := by
        simp [Job.errand?, hp, StartPhase.toBind]
      exact ⟨hentered.congr hz, bound, volume, rest, rfl, hv, hserved.pass hattends hidle hj herrand hh,
        htraces.resembles hz⟩
  | launch hp =>
      rw [hp] at hreopening ⊢
      obtain ⟨hentered, l, hl, hs, ho, hrelaunching⟩ := hreopening
      refine ⟨hentered.congr hz, l, hl, hs, ho, ?_⟩
      cases Controller.launchBlock_of_stuck hl (own_of_idle hidle trivial) with
      | engine hphase =>
          rw [hphase] at hrelaunching ⊢
          exact Questioned.congr hz hrelaunching
      | kept hphase =>
          rw [hphase] at hrelaunching ⊢
          exact ⟨hrelaunching.1, hrelaunching.2.congr hz⟩
      | halt hphase | finished hphase =>
          rw [hphase] at hrelaunching
          exact hrelaunching.elim
  | pause hp | probe hp =>
      rw [hp] at hreopening ⊢
      exact ⟨hreopening.1.congr hz, hreopening.2.1, hreopening.2.2.1, hreopening.2.2.2.congr hz⟩
  | finished hp => exact absurd hp hopen

/-- **Time passes**, and the restart has not missed anything. -/
theorem Renewing.pass (ht : t.Built) (hx : x.Renewable s) : x.Renewing { y with now := time } s where
  slots := h.slots
  granted := h.granted
  due := h.due
  lone := h.lone
  call := by
    obtain ⟨call, hk, hrestarting⟩ := h.call
    refine ⟨call, hk, ?_⟩
    -- Where nothing happens by itself the call waits for its job, or it has answered.
    have hstuck := proceed_of_idle hidle hk
    cases hp : call.phase with
    | checking s' =>
        rw [hp] at hrestarting
        obtain ⟨rfl, -, hbegun⟩ := hrestarting
        have hstate := hx.state
        rw [← hbegun.slot] at hstate
        simp [Controller.proceed, hp, hstate] at hstuck
    | stopping s' own =>
        rw [hp] at hrestarting
        obtain ⟨rfl, honly, phase, hj, hvacating⟩ := hrestarting
        refine ⟨rfl, honly, phase, hj, h.stop_pass hattends hidle hh hj hvacating ?_⟩
        rintro rfl
        simp [Controller.proceed, hp, Controller.isFinished_of_job hj, Job.isFinished] at hstuck
    | starting s' own =>
        rw [hp] at hrestarting
        obtain ⟨rfl, honly, job, hj, hs, hrun, hreopening⟩ := hrestarting
        refine ⟨rfl, honly, job, hj, hs, hrun,
          h.start_pass hattends hidle hh ht hx hj hreopening fun hfinished => ?_⟩
        have hf : (Job.start job).isFinished := Job.isFinished_start.2 hfinished
        simp [Controller.proceed, hp, Controller.isFinished_of_job hj, hf] at hstuck
    | reading => simp [Controller.proceed, hp] at hstuck
    | answered =>
        rw [hp] at hrestarting
        exact ⟨hrestarting.1, hrestarting.2.1.congr resembles_pass, hrestarting.2.2⟩
    | _ =>
        rw [hp] at hrestarting
        exact hrestarting.elim

end

end Simulation.Setting

end Bringup
