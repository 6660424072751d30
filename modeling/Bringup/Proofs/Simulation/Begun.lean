import Bringup.Proofs.Lifecycle.Anew
import Bringup.Proofs.Simulation.Chart
import Bringup.Proofs.Simulation.CriticalPath

/-!
# Starts that nobody has cancelled yet

A fresh controller that is only told to start its services and to cancel (`Steered`). Whatever was cancelled
before the first start leaves no trace but in the numbers of the runs (`Unmarked`). From the first start on
until something is cancelled, the setting looks anew as if nobody had ever cancelled anything
(`Setting.anew`, `Moves.anew`), so all services are in step with the pace that the first start sets
(`Begun.moves`, `Begun.pass`, `Begun.startAll`).
-/

namespace Bringup.Simulation

open Lifecycle
open Lifecycle.Controller (StartsOrCancels TurnsTo)
open Engine.Scripted (Entry)

variable {t : Topology} {e : Engine}

namespace Setting

/-! ## The log -/

section

variable {x y : Setting Engine.Scripted.engine t} {event : Event} {moments : List (Moment t)}

/-- The engine has had new calls, and each of them at this time. -/
def AskedAt (time : Nat) (before after : Engine.Scripted.State) : Prop :=
  ∃ news, after.calls = before.calls ++ news ∧ ∀ entry ∈ news, entry.time = time

theorem AskedAt.refl (time : Nat) (engine : Engine.Scripted.State) : AskedAt time engine engine :=
  ⟨[], by simp, by simp⟩

theorem AskedAt.trans {time : Nat} {a b c : Engine.Scripted.State} (h : AskedAt time a b)
    (h' : AskedAt time b c) : AskedAt time a c := by
  obtain ⟨news, he, htimes⟩ := h
  obtain ⟨more, he', htimes'⟩ := h'
  refine ⟨news ++ more, by rw [he', he, List.append_assoc], fun entry hm => ?_⟩
  exact (List.mem_append.1 hm).elim (htimes entry) (htimes' entry)

theorem askedAt_after (x : Setting Engine.Scripted.engine t) (c : Controller t)
    (effects : List Effect) : AskedAt x.now x.engine (x.after c effects).engine := by
  have hfold (x : Setting Engine.Scripted.engine t) :
      AskedAt x.now x.engine (effects.foldl carry x).engine := by
    induction effects generalizing x with
    | nil => exact .refl _ _
    | cons effect rest ih =>
        have hcarry : AskedAt x.now x.engine (x.carry effect).engine := by
          cases effect with
          | asks job request =>
              cases request with
              | container call =>
                  cases call with
                  | start declared volumes =>
                      exact ⟨_, Engine.Scripted.State.calls_take_start declared volumes, by simp⟩
                  | stop handle timeout =>
                      exact ⟨_, Engine.Scripted.State.calls_take_stop handle timeout, by simp⟩
                  | kill handle => exact ⟨_, Engine.Scripted.State.calls_take_kill handle, by simp⟩
                  | probe handle =>
                      exact ⟨_, Engine.Scripted.State.calls_take_probe handle, by simp⟩
              | volume => exact .refl _ _
          | withdraws | refusedMove => exact .refl _ _
        have hrest := ih (x.carry effect)
        rw [now_carry] at hrest
        exact hcarry.trans hrest
  exact hfold { x with controller := c }

/-- **What happens by itself** asks the engine at this instant if at all. -/
theorem Moves.askedAt (hm : Moves x event moments y) : AskedAt x.now x.engine y.engine := by
  cases hm with
  | act => exact askedAt_after _ _ _
  | @ring alarm => exact askedAt_after { x with alarms := x.alarms.erase alarm } _ _
  | @reply job call engine reply c effects hm hd he hs =>
      obtain ⟨rfl, -⟩ := Prod.mk.inj he
      have hfinish : AskedAt x.now x.engine (Engine.Scripted.State.finish x.engine call.work).1 :=
        ⟨[], by cases call.work <;> simp [Engine.Scripted.State.finish, Engine.Scripted.State.calls],
          by simp⟩
      exact hfinish.trans (askedAt_after { x with
        engine := (Engine.Scripted.State.finish x.engine call.work).1
        ongoing := x.others job } _ _)
  | work hm hd he => cases (Prod.mk.inj he).2
  | @deliver place =>
      exact askedAt_after { x with
        store := { x.store with answers := x.store.answers.eraseIdx place } } _ _
  | serve | hand | pass => exact .refl _ _

theorem Logged.moves {start : Scene t} (h : Logged start x) (hm : Moves x event moments y) :
    Logged start y := by
  obtain ⟨news, he, htimes⟩ := h
  obtain ⟨more, he', htimes'⟩ := hm.askedAt
  refine ⟨news ++ more, by rw [he', he, List.append_assoc], fun entry hmem => ?_⟩
  refine Nat.le_trans ?_ hm.now_le
  exact (List.mem_append.1 hmem).elim (htimes entry) fun hmem => Nat.le_of_eq (htimes' entry hmem)

end

/-! ## Starts and cancels -/

/-- A fresh controller has been told to start its services and to cancel, and nothing else. -/
structure Steered (start : Scene t) (x : Setting Engine.Scripted.engine t) : Prop where
  run : ∃ past, Run start.setting past x
  alarms : x.alarms = []
  calls : x.controller.StartsOrCancels
  /-- No run is cancelled before it is opened. -/
  opened : x.controller.cancelledRuns ≤ x.controller.currentRun + 1

section

variable {start : Scene t} {x y : Setting Engine.Scripted.engine t} {event : Event}
  {moments : List (Moment t)} (hx : start.Fresh) (h : Steered start x)

include hx in
theorem steered_setting : Steered start start.setting := by
  obtain ⟨config, hc⟩ := hx.controller
  refine ⟨⟨[], .refl⟩, rfl, fun k call hk => ?_, ?_⟩
  · simp [Scene.setting, hc, Controller.fresh] at hk
  · simp [Scene.setting, hc, Controller.fresh]

include hx h in
theorem Steered.controller_run : ∃ config past,
    Controller.Run (Controller.fresh t config) past x.controller := by
  obtain ⟨past, run⟩ := h.run
  obtain ⟨config, run⟩ := hx.opening.controller_run run
  exact ⟨config, past, run⟩

include hx h in
theorem Steered.attends : Attends x := by
  obtain ⟨past, run⟩ := h.run
  exact run.attends hx.opening

include hx h in
theorem Steered.prompt (hstore : start.store.mode = .serving 0) : x.store.Prompt x.now := by
  obtain ⟨past, run⟩ := h.run
  exact run.prompt hx.opening hstore

include hx h in
theorem Steered.fits : x.controller.Fits := by
  obtain ⟨config, past, run⟩ := h.controller_run hx
  exact run.invariant (Controller.fits_fresh config) fun hf hs => hf.step hs

include hx h in
/-- **What the controller may do by itself**: nothing, a turn of a job, a call that moves on, or a cancel
that takes a service out of the state of starting. -/
theorem Steered.controller_cases (hm : Moves x event moments y) (hi : event.Inner) :
    y.controller = x.controller ∨
    (∃ id action effects, TurnsTo x.controller x.now id action y.controller effects) ∨
    (∃ k phase, y.controller = x.controller.setCallPhase k phase ∧
      ∀ left, phase ≠ .sweeping left) ∨
    ∃ k call s rest, x.controller.calls[k]? = some call ∧ call.phase = .sweeping (s :: rest) ∧
      y.controller = (x.controller.setSlot s ((x.controller.slot s).leaveStarting x.now .stopping
        (some (.cancelled (t.id s))))).setCallPhase k (.sweeping rest) := by
  have hstep {action : Action} {c : Controller t} {effects : List Effect}
      (hs : x.controller.step x.now action = some (c, effects))
      (hinvoke : ∀ operation, action ≠ .invoke operation) (hinterrupt : ∀ k, action ≠ .interrupt k) :
      (∃ id action effects, TurnsTo x.controller x.now id action c effects) ∨
      (∃ k phase, c = x.controller.setCallPhase k phase ∧ ∀ left, phase ≠ .sweeping left) ∨
      ∃ k call s rest, x.controller.calls[k]? = some call ∧ call.phase = .sweeping (s :: rest) ∧
        c = (x.controller.setSlot s ((x.controller.slot s).leaveStarting x.now .stopping
          (some (.cancelled (t.id s))))).setCallPhase k (.sweeping rest) := by
    cases ha : action.job? with
    | some id => exact .inl ⟨id, action, effects, Controller.turnsTo_of_step ha hs⟩
    | none =>
        cases action with
        | proceed k =>
            obtain ⟨call, hk, hs⟩ := Option.bind_eq_some_iff.1 hs
            obtain ⟨-, ⟨phase, rfl, hp⟩ | ⟨s, rest, hp, rfl⟩⟩ :=
              h.calls.proceed_cases (h.fits hx) hk hs
            · exact .inr (.inl ⟨k, phase, rfl, hp⟩)
            · exact .inr (.inr ⟨k, call, s, rest, hk, hp, rfl⟩)
        | invoke operation => exact absurd rfl (hinvoke operation)
        | interrupt k => exact absurd rfl (hinterrupt k)
        | run | heed | timeout | answer => cases ha
  cases hm with
  | @act action c effects hs ha =>
      rw [controller_after]
      refine .inr (hstep hs ?_ ?_)
      · rintro operation rfl
        exact hi
      · rintro k rfl
        exact hi
  | ring hm =>
      rw [h.alarms] at hm
      cases hm
  | reply _ _ _ hs | deliver _ hs =>
      rw [controller_after]
      exact .inr (hstep hs (by simp) (by simp))
  | work | serve | hand => exact .inl rfl
  | pass => exact hi.elim

include hx h in
theorem Steered.moves (hm : Moves x event moments y) (hi : event.Inner) : Steered start y := by
  obtain ⟨past, run⟩ := h.run
  suffices y.controller.StartsOrCancels ∧ y.controller.currentRun = x.controller.currentRun ∧
      y.controller.cancelledRuns = x.controller.cancelledRuns from
    ⟨⟨_, run.tail hm⟩, hm.alarms_eq h.alarms, this.1, by rw [this.2.1, this.2.2]; exact h.opened⟩
  rcases h.controller_cases hx hm hi with he | ⟨id, action, effects, old, new, slot, aside, -, -, he⟩ |
    ⟨k, phase, he, -⟩ | ⟨k, call, s, rest, -, -, he⟩ <;> rw [he]
  · exact ⟨h.calls, rfl, rfl⟩
  · refine ⟨fun k call hk => ?_, Controller.currentRun_after, Controller.cancelledRuns_after⟩
    rw [Controller.calls_after] at hk
    exact h.calls k call hk
  · exact ⟨h.calls.setCallPhase k phase, Controller.currentRun_setCallPhase _ _,
      Controller.cancelledRuns_setCallPhase _ _⟩
  · exact ⟨StartsOrCancels.setCallPhase (c := x.controller.setSlot s _) h.calls k _,
      Controller.currentRun_setCallPhase _ _, Controller.cancelledRuns_setCallPhase _ _⟩

include h in
theorem Steered.pass {time : Nat} (hlt : x.now < time) : Steered start { x with now := time } := by
  obtain ⟨past, run⟩ := h.run
  exact ⟨⟨_, run.tail (.pass hlt)⟩, h.alarms, h.calls, h.opened⟩

/-- The setting with a start of all services called. -/
def called (x : Setting e t) : Setting e t := { x with controller := x.controller.startAll.1 }

theorem moves_called (x : Setting e t) : Moves x (.control 0 (.invoke .startAll))
    [x.moment (.invoke .startAll) [] x.called.controller] x.called :=
  have hs : x.controller.step x.now (.invoke .startAll) = some (x.called.controller, []) := rfl
  .act hs (by simp)

omit hx in
include h in
/-- The next start belongs to a run that nobody has cancelled. -/
theorem Steered.arm_le : x.controller.currentRun ≤ x.controller.arm.currentRun ∧
    x.controller.cancelledRuns ≤ x.controller.arm.currentRun := by
  have hopened := h.opened
  unfold Controller.arm
  split
  next => exact ⟨Nat.le_succ _, hopened⟩
  next hc => exact ⟨Nat.le_refl _, by simpa [Controller.isCancelled] using hc⟩

omit hx in
include h in
theorem Steered.called (ht : t.Built) : Steered start x.called := by
  obtain ⟨past, run⟩ := h.run
  have hstarts := Controller.startsAll_startAll ht x.controller
  refine ⟨⟨_, run.tail x.moves_called⟩, h.alarms, h.calls.startAll, ?_⟩
  show x.controller.startAll.1.cancelledRuns ≤ x.controller.startAll.1.currentRun + 1
  rw [hstarts.current, hstarts.cancelled]
  exact Nat.le_succ_of_le h.arm_le.2

include h in
theorem Steered.cancelled : Steered start x.cancelled := by
  obtain ⟨past, run⟩ := h.run
  exact ⟨⟨_, run.tail x.moves_cancelled⟩, h.alarms, h.calls.cancel, Nat.le_refl _⟩

end

/-! ## Anew -/

/-- The setting with its controller anew. -/
def anew (x : Setting e t) (run : Nat) : Setting e t := { x with controller := x.controller.anew run }

section

variable {x y : Setting e t} {event : Event} {moments : List (Moment t)} {run : Nat}

theorem anew_after (c : Controller t) (effects : List Effect) :
    (x.after c effects).anew run = (x.anew run).after (c.anew run) effects := by
  have hcarry (x : Setting e t) (effect : Effect) :
      (x.carry effect).anew run = (x.anew run).carry effect := by
    cases effect with
    | asks job request => cases request <;> rfl
    | withdraws | refusedMove => rfl
  have hfold (x : Setting e t) :
      (effects.foldl carry x).anew run = effects.foldl carry (x.anew run) := by
    induction effects generalizing x with
    | nil => rfl
    | cons effect rest ih => rw [List.foldl_cons, List.foldl_cons, ih, hcarry]
  exact hfold { x with controller := c }

/-- No cancel has anything left to do. -/
def Swept (x : Setting e t) : Prop :=
  ∀ (k : Nat) (call : Call t.size), x.controller.calls[k]? = some call →
    ∀ left, call.phase ≠ .sweeping left

/-- All start jobs belong to the run, which nobody has cancelled. -/
structure Live (run : Nat) (x : Setting e t) : Prop where
  current : x.controller.currentRun = run
  uncancelled : x.controller.cancelledRuns ≤ run
  jobs : ∀ {id : Nat} {job : StartJob t.size}, x.controller.jobs[id]? = some (.start job) →
    job.run = run

theorem Live.isCancelled (h : x.Live run) {id : Nat} {job : StartJob t.size}
    (hj : x.controller.jobs[id]? = some (.start job)) :
    x.controller.isCancelled job.run = false := by
  simpa [Controller.isCancelled, h.jobs hj] using h.uncancelled

end

section

variable {start : Scene t} {x y : Setting Engine.Scripted.engine t} {event : Event}
  {moments : List (Moment t)} {run : Nat} (hx : start.Fresh) (h : Steered start x)
  (hlive : x.Live run) (hswept : x.Swept)
  (hstop : ∀ (id : Nat) (job : StopJob t.size), x.controller.jobs[id]? ≠ some (.stop job))

include hx h hlive hswept hstop

/-- **What happens by itself happens anew**, but for calls that move on. -/
theorem Moves.anew (hm : Moves x event moments y) (hi : event.Inner) :
    (∃ moments, Moves (x.anew run) event moments (y.anew run)) ∨ y.anew run = x.anew run := by
  have hstep {action : Action} {id : JobId} (ha : action.job? = some id) {c : Controller t}
      {effects : List Effect} (hs : x.controller.step x.now action = some (c, effects)) :
      (x.controller.anew run).step x.now action = some (c.anew run, effects) := by
    rw [Controller.step_anew ha (hstop id) fun job hj => hlive.isCancelled hj, hs]
    rfl
  cases hm with
  | @act action c effects hs ha =>
      rw [anew_after]
      cases haction : action.job? with
      | some id => exact .inl ⟨_, .act (x := x.anew run) (hstep haction hs) ha⟩
      | none =>
          cases action with
          | proceed k =>
              obtain ⟨call, hk, hs⟩ := Option.bind_eq_some_iff.1 hs
              obtain ⟨rfl, ⟨phase, rfl, -⟩ | ⟨s, rest, hp, -⟩⟩ :=
                h.calls.proceed_cases (h.fits hx) hk hs
              · rw [Controller.anew_setCallPhase]
                exact .inr rfl
              · exact absurd hp (hswept k call hk _)
          | invoke | interrupt => exact hi.elim
          | run | heed | timeout | answer => cases haction
  | ring hm =>
      rw [h.alarms] at hm
      cases hm
  | @reply job call engine reply c effects hm hd he hs =>
      rw [anew_after]
      exact .inl ⟨_, .reply (x := x.anew run) hm hd he (hstep rfl hs)⟩
  | work hm hd he => cases (Prod.mk.inj he).2
  | serve hs => exact .inl ⟨_, .serve (x := x.anew run) hs⟩
  | deliver ha hs =>
      rw [anew_after]
      exact .inl ⟨_, .deliver (x := x.anew run) ha (hstep rfl hs)⟩
  | hand ha => exact .inl ⟨_, .hand (x := x.anew run) ha⟩
  | pass => exact hi.elim

omit hstop in
/-- The run goes on as long as nobody cancels it. -/
theorem Live.moves (hm : Moves x event moments y) (hi : event.Inner) : y.Live run := by
  rcases h.controller_cases hx hm hi with he | ⟨id, action, effects, old, new, slot, aside, hj, turn, he⟩ |
    ⟨k, phase, he, -⟩ | ⟨k, call, s, rest, hk, hp, -⟩
  · exact ⟨he ▸ hlive.current, he ▸ hlive.uncancelled, fun hj => hlive.jobs (he ▸ hj)⟩
  · refine ⟨?_, ?_, fun hi => ?_⟩
    · rw [he, Controller.currentRun_after, hlive.current]
    · rw [he, Controller.cancelledRuns_after]
      exact hlive.uncancelled
    · rw [he] at hi
      rcases Controller.start_after_cases (Controller.lt_size_of_job hj) hi with ⟨-, rfl⟩ | ⟨-, hi⟩
      · cases turn with
        | start turn => exact turn.same.2 ▸ hlive.jobs hj
      · exact hlive.jobs hi
  · refine ⟨?_, ?_, fun hi => ?_⟩
    · rw [he, Controller.currentRun_setCallPhase, hlive.current]
    · rw [he, Controller.cancelledRuns_setCallPhase]
      exact hlive.uncancelled
    · rw [he, Controller.jobs_setCallPhase] at hi
      exact hlive.jobs hi
  · exact absurd hp (hswept k call hk _)

omit hlive hstop in
/-- No cancel comes from nowhere. -/
theorem Swept.moves (hm : Moves x event moments y) (hi : event.Inner) : y.Swept := by
  intro i call' hi'
  rcases h.controller_cases hx hm hi with he | ⟨id, action, effects, old, new, slot, aside, -, -, he⟩ |
    ⟨k, phase, he, hp⟩ | ⟨k, call, s, rest, hk, hp, -⟩
  · exact hswept i call' (he ▸ hi')
  · rw [he, Controller.calls_after] at hi'
    exact hswept i call' hi'
  · rw [he] at hi'
    rcases Controller.calls_setCallPhase_cases hi' with ⟨-, hi'⟩ | ⟨old, -, -, rfl⟩
    · exact hswept i call' hi'
    · exact hp
  · exact absurd hp (hswept k call hk _)

end

end Setting

namespace Tied

variable {start : Scene t} {x : Setting Engine.Scripted.engine t} (h : Tied start x.scene)

include h

/-- What is tied to the prospect is so anew. -/
theorem anew (run : Nat) : Tied start (x.anew run).scene where
  told := h.told.anew run
  scripts := ⟨h.scripts.kept, h.scripts.unasked, h.scripts.asked⟩
  awaited := ⟨h.awaited.working, h.awaited.asking, h.awaited.answering, h.awaited.sole⟩
  serving := h.serving
  table := h.table

/-- A start that is called leaves everything tied. -/
theorem called (ht : t.Built) : Tied start x.called.scene :=
  have hs : x.scene.controller.step x.scene.now (.invoke .startAll)
      = some (x.called.controller, []) := rfl
  h.moves ht (.act (x := x.scene) hs (by simp) fun operation he => (Action.invoke.inj he).symm)

end Tied

namespace Setting

/-! ## Before the first start -/

/-- Nothing has happened but cancels. -/
def Unmarked (start : Scene t) (x : Setting Engine.Scripted.engine t) : Prop :=
  x.anew 0 = { start.setting with now := x.now }

section

variable {start : Scene t} {x y : Setting Engine.Scripted.engine t} {event : Event}
  {moments : List (Moment t)} (hx : start.Fresh) (h : Steered start x) (hu : Unmarked start x)

include hx in
theorem unmarked_setting : Unmarked start start.setting := by
  obtain ⟨config, hc⟩ := hx.controller
  unfold Unmarked anew Scene.setting
  rw [hc]
  rfl

include hx hu in
/-- What there is before the first start: services that are pending, and no jobs. -/
theorem Unmarked.bare : x.controller.jobs = #[] ∧ (∀ s, x.controller.slot s = {}) ∧
    x.ongoing = [] ∧ x.store.queue = [] ∧ x.store.answers = [] := by
  obtain ⟨config, hc⟩ := hx.controller
  have hcontroller : x.controller.anew 0 = start.controller := congrArg Setting.controller hu
  have hongoing : x.ongoing = start.ongoing := congrArg Setting.ongoing hu
  have hstore : x.store = start.store := congrArg Setting.store hu
  refine ⟨?_, fun s => ?_, hongoing.trans hx.ongoing, hstore ▸ hx.queue, hstore ▸ hx.answers⟩
  · show (x.controller.anew 0).jobs = #[]
    rw [hcontroller, hc]
    rfl
  · show (x.controller.anew 0).slot s = {}
    rw [hcontroller, hc]
    simp [Controller.fresh, Controller.slot]

include hx h hu in
theorem Unmarked.moves (hm : Moves x event moments y) (hi : event.Inner) : Unmarked start y := by
  obtain ⟨hjobs, hslots, hongoing, hqueue, hanswers⟩ := hu.bare hx
  cases hm with
  | @act action c effects hs ha =>
      cases haction : action.job? with
      | some id =>
          obtain ⟨old, -, -, -, hj, -⟩ := Controller.turnsTo_of_step haction hs
          simp [hjobs] at hj
      | none =>
          cases action with
          | proceed k =>
              obtain ⟨call, hk, hs⟩ := Option.bind_eq_some_iff.1 hs
              have hanew : effects = [] ∧ c.anew 0 = x.controller.anew 0 := by
                obtain ⟨he, ⟨phase, rfl, -⟩ | ⟨s, rest, -, rfl⟩⟩ :=
                  h.calls.proceed_cases (h.fits hx) hk hs
                · exact ⟨he, Controller.anew_setCallPhase _ _⟩
                · -- A service that is pending stays so.
                  have hstays : (x.controller.slot s).leaveStarting x.now .stopping
                      (some (.cancelled (t.id s))) = x.controller.slot s := by
                    rw [hslots s]
                    rfl
                  have hset : x.controller.setSlot s (x.controller.slot s) = x.controller := by
                    simp [Controller.setSlot, Controller.slot]
                  rw [hstays, hset, Controller.anew_setCallPhase]
                  exact ⟨he, rfl⟩
              obtain ⟨rfl, hanew⟩ := hanew
              show ({ x with controller := c.anew 0 } : Setting Engine.Scripted.engine t) = _
              rw [hanew]
              exact hu
          | invoke | interrupt => exact hi.elim
          | run | heed | timeout | answer => cases haction
  | ring hm =>
      rw [h.alarms] at hm
      cases hm
  | reply hm | work hm =>
      rw [hongoing] at hm
      cases hm
  | serve hs =>
      obtain ⟨client, request, queue, hq, -⟩ := Store.serve?_eq_some hs
      rw [hqueue] at hq
      cases hq
  | deliver ha | hand ha =>
      rw [hanswers] at ha
      cases ha
  | pass => exact hi.elim

end

/-! ## From the first start on -/

/-- Services have been started since this scene, nothing has been cancelled since, and everything is in
step. -/
structure Begun (start : Scene t) (run : Nat) (x : Setting Engine.Scripted.engine t) : Prop where
  tied : Tied start (x.anew run).scene
  inStep : InStep start (x.anew run)
  logged : Logged start x
  live : x.Live run
  swept : x.Swept

section

variable {opening start : Scene t} {x y : Setting Engine.Scripted.engine t} {event : Event}
  {moments : List (Moment t)} {run : Nat} (ht : t.Built) (hx : opening.Fresh) (h : Steered opening x)
  (hb : Begun start run x)

include hx h hb in
theorem Begun.follows : (x.anew run).Follows start := by
  obtain ⟨config, past, hrun⟩ := h.controller_run hx
  exact hb.inStep.follows hb.tied fun s => hrun.course s

include ht hx h hb in
/-- **What happens by itself** leaves everything in step. -/
theorem Begun.moves (hprobes : ∀ s, (start.engine.script (t.id s)).probeDelay = 0)
    (hm : Moves x event moments y) (hi : event.Inner) : Begun start run y := by
  have hstop : ∀ (id : Nat) (job : StopJob t.size), x.controller.jobs[id]? ≠ some (.stop job) :=
    hb.tied.told.foretold.stop
  have hstep : Tied start (y.anew run).scene ∧ InStep start (y.anew run) := by
    rcases hm.anew hx h hb.live hb.swept hstop hi with ⟨_, hanew⟩ | he
    · refine ⟨hb.tied.moves ht (hanew.scene (.inl hi) h.alarms fun entry hm => ?_),
        hb.inStep.moves ht hprobes hb.tied (hb.follows hx h).course rfl h.alarms hanew hi⟩
      obtain ⟨id, job, hclient, -⟩ := hb.tied.awaited.answering entry hm
      rw [hclient]
      simp
    · rw [he]
      exact ⟨hb.tied, hb.inStep⟩
  exact ⟨hstep.1, hstep.2, hb.logged.moves hm, hb.live.moves hx h hb.swept hm hi,
    hb.swept.moves hx h hm hi⟩

/-- A lull is one anew. -/
theorem Lull.anew {x : Setting Engine.Scripted.engine t} {run : Nat} (h : x.Lull) (hlive : x.Live run)
    (hstop : ∀ (id : Nat) (job : StopJob t.size), x.controller.jobs[id]? ≠ some (.stop job)) :
    (x.anew run).Lull := by
  have hstep {action : Action} {id : JobId} (ha : action.job? = some id)
      (hs : x.controller.step x.now action = none) :
      (x.controller.anew run).step x.now action = none := by
    rw [Controller.step_anew ha (hstop id) fun job hj => hlive.isCancelled hj, hs]
    rfl
  exact ⟨fun id => hstep rfl (h.run id), fun id => hstep rfl (h.heed id), fun hj => h.errand hj,
    fun hj => h.expects hj, fun hj => h.deadline hj⟩

variable (hstore : opening.store.mode = .serving 0) (hidle : x.world.Idle)

include hx h hstore hidle in
theorem Steered.lull : x.Lull :=
  lull_of_idle Engine.Scripted.answering (h.attends hx) (h.prompt hx hstore) hidle

include hx h hb hstore hidle in
theorem Begun.lull : (x.anew run).Lull :=
  (h.lull hx hstore hidle).anew hb.live hb.tied.told.foretold.stop

include ht hx h in
theorem Steered.proper : x.controller.AllProper := by
  obtain ⟨config, past, hrun⟩ := h.controller_run hx
  exact hrun.proper ht

include ht hx h hb hstore hidle in
/-- **Time passes**, and everything stays in step. -/
theorem Begun.pass {time : Nat} (hu : x.Until time) : Begun start run { x with now := time } := by
  refine ⟨hb.tied.moves ht .pass, ?_, hb.logged.moves (.pass hu.later), ⟨hb.live.current,
    hb.live.uncancelled, hb.live.jobs⟩, hb.swept⟩
  have hproper : x.controller.AllProper := h.proper ht hx
  exact hb.inStep.pass (hb.follows hx h) ht (hb.lull hx h hstore hidle) hproper
    ⟨hu.later, hu.works, hu.deadline⟩

include h in
/-- All start jobs belong to the run of the start that was called last, if they did before. -/
theorem Steered.live (ht : t.Built)
    (hjobs : ∀ {id : Nat} {job : StartJob t.size}, x.controller.jobs[id]? = some (.start job) →
      job.run = x.controller.arm.currentRun) : x.called.Live x.controller.arm.currentRun := by
  have hstarts := Controller.startsAll_startAll ht x.controller
  refine ⟨hstarts.current, ?_, fun {id job} hj => ?_⟩
  · rw [show x.called.controller.cancelledRuns = _ from hstarts.cancelled]
    exact h.arm_le.2
  · rcases hstarts.new hj with hj | ⟨-, s, he⟩
    · exact hjobs hj
    · rw [Job.start.inj he]

/-- A start that is called sweeps nothing. -/
theorem Swept.called {x : Setting e t} (h : x.Swept) (ht : t.Built) : x.called.Swept := by
  intro k call hk
  obtain ⟨order, ho, -⟩ := ht.startOrder
  have hk : x.controller.startAll.1.calls[k]? = some call := hk
  rw [Controller.startAll, ho] at hk
  rcases Controller.calls_openCall_cases hk with hk | ⟨-, rfl⟩
  · rw [Controller.calls_spawnStarts, Controller.calls_arm] at hk
    exact h k call hk
  · simp

/-- A start that is called does the same in the run that is put anew. -/
theorem called_anew (harm : x.controller.arm.currentRun = run) :
    (x.anew run).called.anew run = x.called.anew run := by
  show ({ x with controller := ((x.controller.anew run).startAll.1).anew run } :
    Setting Engine.Scripted.engine t) = _
  rw [Controller.startAll_anew harm]
  rfl

include ht hx in
/-- The first start is called in the scene as it was set, at its instant. -/
theorem Unmarked.tied (hu : Unmarked opening x) :
    Tied { opening with now := x.now } (x.called.anew x.controller.arm.currentRun).scene := by
  have hfirst : x.anew 0 = { opening.setting with now := x.now } := hu
  have htied : Tied { opening with now := x.now } (x.anew 0).scene := by
    rw [hfirst]
    exact Scene.Fresh.tied (x := { opening with now := x.now })
      ⟨hx.controller, hx.ongoing, hx.serving, hx.queue, hx.answers⟩
  have hcalled := ((htied.anew x.controller.arm.currentRun).called ht).anew
    x.controller.arm.currentRun
  have he : ((x.anew 0).anew x.controller.arm.currentRun).called.anew x.controller.arm.currentRun
      = x.called.anew x.controller.arm.currentRun := called_anew (x := x) rfl
  rwa [he] at hcalled

include ht hx in
/-- When the first start has just been called everything is in step. -/
theorem Unmarked.inStep (hu : Unmarked opening x) :
    InStep { opening with now := x.now } (x.called.anew x.controller.arm.currentRun) := by
  obtain ⟨hjobs, hslots, hongoing, -⟩ := hu.bare hx
  have hstarts := Controller.startsAll_startAll ht x.controller
  have hconfig : x.controller.config = opening.controller.config :=
    congrArg (fun y : Setting Engine.Scripted.engine t => y.controller.config) hu
  have hengine : x.engine = opening.engine :=
    congrArg (fun y : Setting Engine.Scripted.engine t => y.engine) hu
  have hslot (s : Fin t.size) : ∃ claims, x.called.controller.slot s = { claims } := by
    obtain ⟨claims, he⟩ := hstarts.slot s
    exact ⟨claims, he.trans (by rw [hslots])⟩
  have hjob {id : Nat} {job : StartJob t.size}
      (hj : (x.called.anew x.controller.arm.currentRun).controller.jobs[id]? = some (.start job)) :
      job.phase = .arriving := by
    rcases hstarts.new hj with hj | ⟨-, s, he⟩
    · simp [hjobs] at hj
    · rw [Job.start.inj he]
  refine ⟨Nat.le_refl _, hstarts.config.trans hconfig, fun s => ?_, fun hj => ?_, fun hj => ?_,
    fun s _ => ?_, fun s hp => ?_, fun entry hm => ?_⟩
  · obtain ⟨id, -, hj⟩ := hstarts.all s
    exact ⟨id, _, hj, rfl⟩
  · rw [hjob hj]
    trivial
  · rw [hjob hj]
    trivial
  · obtain ⟨claims, he⟩ := hslot s
    refine ⟨⟨?_, ?_⟩, fun _ => ?_, fun hn => absurd ?_ hn⟩
    · exact congrArg Slot.transitions he
    · rw [List.append_nil]
      exact congrArg (fun engine => Engine.Scripted.State.callsFor engine (t.id s)) hengine
    · exact Pace.called_le_enter (p := ({ opening with now := x.now } : Scene t).pace)
    · exact congrArg Slot.lastError he
  · obtain ⟨claims, he⟩ := hslot s
    exact absurd (congrArg Slot.state he) hp
  · have hm : entry ∈ x.ongoing := hm
    rw [hongoing] at hm
    cases hm

include ht hx h in
/-- **The first start** sets the pace. -/
theorem Unmarked.begun (hu : Unmarked opening x) (hswept : x.Swept) :
    Begun { opening with now := x.now } x.controller.arm.currentRun x.called := by
  have hengine : x.engine = opening.engine :=
    congrArg (fun y : Setting Engine.Scripted.engine t => y.engine) hu
  refine ⟨hu.tied ht hx, hu.inStep ht hx, ?_, h.live ht (by simp [(hu.bare hx).1]), hswept.called ht⟩
  exact ⟨[], by rw [List.append_nil]; exact congrArg Engine.Scripted.State.calls hengine, by simp⟩

include ht h hb in
/-- **Another start** finds everything in step, and leaves it so. -/
theorem Begun.called : Begun start run x.called := by
  have hstarts := Controller.startsAll_startAll ht x.controller
  have harm : x.controller.arm.currentRun = run := by
    rw [← hb.live.current]
    unfold Controller.arm
    rw [if_neg]
    simpa [Controller.isCancelled, hb.live.current] using hb.live.uncancelled
  refine ⟨called_anew harm ▸ (hb.tied.called ht).anew run, ?_, hb.logged.moves x.moves_called, ?_,
    hb.swept.called ht⟩
  · refine hb.inStep.extend rfl hstarts.config hstarts.old (fun hj => ?_) (fun s => ?_) (fun s => ?_)
      (fun _ => rfl) fun _ hm => hm
    · rcases hstarts.new hj with hj | ⟨-, s, he⟩
      · exact .inl hj
      · exact .inr (by rw [Job.start.inj he])
    · obtain ⟨claims, he⟩ := hstarts.slot s
      exact (congrArg Slot.sight he).trans rfl
    · obtain ⟨claims, he⟩ := hstarts.slot s
      exact (congrArg Slot.transitions he).trans rfl
  · have hlive := h.live ht fun hj => (hb.live.jobs hj).trans harm.symm
    rwa [harm] at hlive

end

end Setting

end Bringup.Simulation
