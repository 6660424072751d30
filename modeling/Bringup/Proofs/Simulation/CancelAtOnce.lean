import Bringup.Proofs.Lifecycle.CancelHolds
import Bringup.Proofs.Simulation.Instants

/-!
# A cancel on the virtual clock

With a store that answers at once, a cancel and all starts under way answer at the very instant at which
the cancel is called, whatever start delays, pauses and dependencies the starts had before them. The one
exception is a start with a job that halts a container: it came after its service had left the state of
starting, and the start waits for its halt (`AnsweredAtOnce`).

The instant is not over as long as something happens by itself. Where nothing does, no start job waits
for a service, for the store, or for anything that a job of a cancelled run leaves
(`start_ended_of_idle`), so only those are left that halt a container. `Setting.Run.cancel_takes_hold`
puts this together with what holds on every run after a cancel.
-/

namespace Bringup.Simulation

open Lifecycle
open Lifecycle.Controller (front front_built)

variable {t : Topology} {e : Engine}

/-! ## What has answered -/

/-- The job halts a container that came after the service had left the state of starting. -/
def Discards (c : Controller t) (id : JobId) : Prop :=
  ∃ job handle halt, c.jobs[id]? = some (.start job) ∧ job.phase = .discarding handle halt

/-- After a cancel that was called on the first controller at the given time, the cancel and all starts
that were under way have answered at that time, but for those with a job that halts a container. -/
structure AnsweredAtOnce (start : Controller t) (now : Nat) (c : Controller t) : Prop where
  cancel : c.answer? start.calls.size = some (.cancelled, now)
  starts : ∀ (k : Nat) (call : Call t.size), start.calls[k]? = some call →
    call.operation = .startAll → start.answer? k = none →
      (∃ report, c.answer? k = some (.report report, now)) ∨ ∃ id ∈ call.jobs, Discards c id

theorem Event.Inner.ne_invoke {event : Event} (h : event.Inner) (operation : Operation) :
    event ≠ .control 0 (.invoke operation) := by
  rintro rfl
  exact h

namespace Setting

variable {start x y z : Setting e t} {past later moments : List (Moment t)} {event : Event}

/-- The setting with a cancel called. -/
def cancelled (x : Setting e t) : Setting e t := { x with controller := x.controller.cancel.1 }

theorem moves_cancelled (x : Setting e t) : Moves x (.control 0 (.invoke .cancel))
    [x.moment (.invoke .cancel) [] x.cancelled.controller] x.cancelled :=
  have hs : x.controller.step x.now (.invoke .cancel) = some (x.cancelled.controller, []) := rfl
  .act hs (by simp)

/-- What happens is a call only if somebody outside makes one. -/
theorem Moves.not_invokes (hm : Moves x event moments y)
    (he : ∀ operation, event ≠ .control 0 (.invoke operation)) : ∀ m ∈ moments, ¬ m.Invokes := by
  rintro m hmem ⟨operation, ha⟩
  cases hm with
  | act =>
      obtain rfl := List.mem_singleton.1 hmem
      rw [action_moment] at ha
      exact he operation (by rw [ha])
  | ring | reply | deliver =>
      obtain rfl := List.mem_singleton.1 hmem
      simp at ha
  | work | serve | hand | pass => cases hmem

/-- Nothing that happens by itself is a call. -/
theorem Moves.not_callsAnyStart (hm : Moves x event moments y) (hi : event.Inner) :
    ∀ m ∈ moments, ¬ m.CallsAnyStart :=
  fun m hmem => Moment.not_callsAnyStart (hm.not_invokes hi.ne_invoke m hmem)

/-! ## Where nothing happens by itself -/

/-- **A start job of a cancelled run** has come to its end where nothing happens by itself, or halts a
container. -/
theorem start_ended_of_idle (hidle : x.world.Idle) (hquelled : x.controller.Quelled)
    (hproper : x.controller.AllProper) (h : Attends x) (hprompt : x.store.Prompt x.now) {id : Nat}
    {job : StartJob t.size} (hj : x.controller.jobs[id]? = some (.start job)) :
    job.phase = .finished ∨ ∃ handle halt, job.phase = .discarding handle halt := by
  have hcancelled : x.controller.isCancelled job.run := hquelled.isCancelled hj
  have hrun : x.controller.step x.now (.run id) = none := own_of_idle hidle trivial
  have hheed : x.controller.step x.now (.heed id) = none := own_of_idle hidle trivial
  cases Controller.startBlock_of_stuck hj hrun hheed with
  | following _ hc | dependency _ hc | launch _ hc | pause _ hc | probe _ hc =>
      rw [hcancelled] at hc
      cases hc
  | @store volumes hp =>
      have hne : volumes ≠ [] := fun he => (hproper id _ hj).2.2 (he ▸ hp)
      have herrand := errand_eq_none_of_idle h hprompt hidle hj
      simp [Job.errand?, hp, StartPhase.toBind] at herrand
      exact absurd herrand hne
  | halt hp => exact .inr ⟨_, _, hp⟩
  | finished hp => exact .inl hp

/-- A call that reports has answered where nothing happens by itself, once its jobs have come to their
ends. -/
theorem report_answered_of_idle (hidle : x.world.Idle) (hfits : x.controller.Fits) {k : Nat}
    {call : Call t.size} (hk : x.controller.calls[k]? = some call) (hr : call.operation.Reports)
    (hjobs : ∀ id ∈ call.jobs, x.controller.isFinished id) :
    ∃ report time, x.controller.answer? k = some (.report report, time) := by
  have hstuck := proceed_of_idle hidle hk
  rcases hr.allows (hfits k call hk) with hp | ⟨services, taken, hp⟩ | ⟨report, time, hp⟩
  · have hall : call.jobs.all x.controller.isFinished := List.all_eq_true.2 hjobs
    simp [Controller.proceed, hp, hall] at hstuck
  · cases services <;> simp [Controller.proceed, hp] at hstuck
  · exact ⟨report, time, by rw [Controller.answer?_of_call hk, Call.answer?, hp]⟩

/-- A cancel has answered where nothing happens by itself. -/
theorem cancel_answered_of_idle (hidle : x.world.Idle) (hfits : x.controller.Fits) {k : Nat}
    {call : Call t.size} (hk : x.controller.calls[k]? = some call) (ho : call.operation = .cancel) :
    ∃ time, x.controller.answer? k = some (.cancelled, time) := by
  have hstuck := proceed_of_idle hidle hk
  have hphase := hfits k call hk
  rw [ho] at hphase
  cases hp : call.phase with
  | sweeping services => cases services <;> simp [Controller.proceed, hp] at hstuck
  | answered answer time =>
      rw [hp] at hphase
      cases answer with
      | cancelled => exact ⟨time, by rw [Controller.answer?_of_call hk, Call.answer?, hp]⟩
      | _ => exact hphase.elim
  | _ => simp [hp, Operation.Allows] at hphase

section

variable {config : Config} (ht : t.Built) (h : start.Opening)
  (hstore : start.store.mode = .serving 0) (run : Run start past x)
  (hrestarts : x.controller.NoneToStart)

include h in
theorem Opening.controller_run (run : Run start past x) : ∃ config,
    Controller.Run (Controller.fresh t config) past x.controller := by
  obtain ⟨config, hconfig⟩ := h.controller
  exact ⟨config, hconfig ▸ run.controller⟩

include ht h hstore run hrestarts in
/-- **Where nothing happens by itself after a cancel**, the cancel and all starts that were under way
have answered, but for those with a job that halts a container. -/
theorem answeredAtOnce_of_idle (rest : Run x.cancelled later z)
    (hlater : ∀ m ∈ later, ¬ m.CallsAnyStart) (hnow : z.now = x.now) (hidle : z.world.Idle) :
    AnsweredAtOnce x.controller x.now z.controller := by
  have whole : Run start (later ++ ([x.moment (.invoke .cancel) [] x.cancelled.controller] ++ past))
      z := (run.tail x.moves_cancelled).trans rest
  obtain ⟨config, before⟩ := h.controller_run run
  obtain ⟨config, hrun⟩ := h.controller_run whole
  have hcancelling : z.controller.Cancelling x.controller.calls.size :=
    before.cancelling hrestarts rest.controller hlater
  -- What has answered since the cancel was called has answered at that instant.
  have htime {k : CallId} (hk : k < x.cancelled.controller.calls.size)
      (hb : x.cancelled.controller.answer? k = none) {answer : Answer} {time : Nat}
      (ha : z.controller.answer? k = some (answer, time)) : time = x.now := by
    obtain ⟨hle, hle'⟩ := rest.answer_between hk hb ha
    exact Nat.le_antisymm (hnow ▸ hle') hle
  constructor
  · obtain ⟨call, hk, ho, -⟩ := hcancelling.covered
    obtain ⟨time, ha⟩ := cancel_answered_of_idle hidle hcancelling.fits hk ho
    have hcall : x.cancelled.controller.calls[x.controller.calls.size]? = some _ :=
      Controller.calls_openCall_size
    have hb : x.cancelled.controller.answer? x.controller.calls.size = none := by
      rw [Controller.answer?_of_call hcall]
      rfl
    rwa [htime (Array.getElem?_eq_some_iff.1 hcall).1 hb ha] at ha
  · intro k call hk ho hb
    have hlt := (Array.getElem?_eq_some_iff.1 hk).1
    have hk' : x.cancelled.controller.calls[k]? = some call :=
      (Controller.calls_cancel_of_lt hlt).trans hk
    have hb' : x.cancelled.controller.answer? k = none := by
      rw [Controller.answer?_of_call hk', ← Controller.answer?_of_call hk]
      exact hb
    obtain ⟨now, hnow, ho', hjobs⟩ := rest.controller.call_kept hk'
    by_cases hall : ∀ id ∈ now.jobs, z.controller.isFinished id
    · obtain ⟨report, time, ha⟩ :=
        report_answered_of_idle hidle hcancelling.fits hnow (by rw [ho'.trans ho]; trivial) hall
      obtain rfl := htime (Array.getElem?_eq_some_iff.1 hk').1 hb' ha
      exact .inl ⟨report, ha⟩
    · simp only [not_forall] at hall
      obtain ⟨id, hid, hunfinished⟩ := hall
      obtain ⟨job, hj, hkind, -⟩ := hrun.jobsFit k now hnow id hid
      obtain ⟨job, rfl⟩ : ∃ start, job = .start start := by
        cases job with
        | start job => exact ⟨job, rfl⟩
        | stop | launch => cases hkind (ho'.trans ho)
      refine .inr ⟨id, hjobs ▸ hid, ?_⟩
      rcases start_ended_of_idle hidle hcancelling.ended.quelled (hrun.proper ht)
        (whole.attends h) (whole.prompt h hstore) hj with hf | ⟨handle, halt, hp⟩
      · refine absurd ?_ hunfinished
        rw [Controller.isFinished_of_job hj]
        exact Job.isFinished_start.2 hf
      · exact ⟨job, handle, halt, hj, hp⟩

end

/-! ## Every run -/

/-- **A cancel takes hold and stays.** In a setting with a fresh controller of a built topology let
anything happen, and then let a cancel be called while no restart has its start before it; nobody calls
for a start or a restart later. Then the cancel only takes services out of the state of starting; once
it has answered nothing starts, gets ready or fails any more; and services that could be started and
waited for a dependency can be started still and were cancelled (`CancelHolds`). If the store answers at
once, then at the very instant of the cancel, whatever else happens first of what can happen, the cancel
and all starts under way answer, but for those with a job that halts a container
(`AnsweredAtOnce`). -/
theorem Run.cancel_takes_hold (ht : t.Built) (h : start.Opening) (run : Run start past x)
    (hrestarts : x.controller.NoneToStart) (rest : Run x.cancelled later y)
    (hlater : ∀ m ∈ later, ¬ m.CallsAnyStart) :
    x.controller.CancelHolds x.now later y.controller ∧
    (e.Answering → start.store.mode = .serving 0 → y.now = x.now →
      Inevitably World.Ticks (fun w => ∃ z : Setting e t, w = z.world ∧ z.now = x.now ∧ w.Idle ∧
        AnsweredAtOnce x.controller x.now z.controller) y.world) := by
  obtain ⟨config, hrun⟩ := h.controller_run run
  refine ⟨hrun.cancel_holds hrestarts rest.controller hlater, fun he hstore hnow => ?_⟩
  refine inevitably_of_wf (I := fun z => z.now = x.now ∧ ∃ later, Run x.cancelled later z ∧
    ∀ m ∈ later, ¬ m.CallsAnyStart) wellFounded_less measure ?_ ?_ ⟨hnow, later, rest, hlater⟩
  · rintro z w ⟨hnow, later, rest, hlater⟩ hnot hticks
    obtain ⟨event, moments, z', hm, rfl, hi⟩ := ticks_cases hticks
    have hinner : event.Inner := hi.resolve_right fun ⟨hidle, _⟩ =>
      hnot ⟨z, rfl, hnow, hidle, answeredAtOnce_of_idle ht h hstore run hrestarts rest hlater hnow hidle⟩
    have whole := (run.tail x.moves_cancelled).trans rest
    obtain ⟨config, hwhole⟩ := h.controller_run whole
    refine ⟨z', rfl, ⟨(hm.now_eq hinner).trans hnow, _, rest.tail hm, ?_⟩,
      less_of_ticks he (whole.attends h) hwhole.linked hm hi⟩
    intro m hmem
    rcases List.mem_append.1 hmem with hmem | hmem
    · exact hm.not_callsAnyStart hinner m hmem
    · exact hlater m hmem
  · rintro z ⟨hnow, later, rest, hlater⟩
    by_cases hidle : z.world.Idle
    · exact .inl ⟨z, rfl, hnow, hidle,
        answeredAtOnce_of_idle ht h hstore run hrestarts rest hlater hnow hidle⟩
    · simp only [World.Idle, not_forall] at hidle
      obtain ⟨event, hinner, hs⟩ := hidle
      obtain ⟨w, hw⟩ := Option.ne_none_iff_exists'.1 hs
      exact .inr ⟨w, .inner hinner hw⟩

/-! ### A cancel while the database starts -/

/-- A shop front and its database, whose container takes 20 milliseconds to start. -/
def slowOpening : Setting Engine.Scripted.engine front where
  controller := .fresh front default
  engine := { scripts := [(⟨"db"⟩, { startTime := .ofMillis 20 })] }

/-- The database has been starting for 5 milliseconds, and the front waits for it. -/
def slowStart : List Event :=
  [.control 0 (.invoke .startAll), .control 0 (.run 0), .control 0 (.run 0), .control 0 (.run 2),
    .control 0 (.run 1), .pass 5]

/-- The cancel goes through both services and answers. -/
def slowCancel : List Event := List.replicate 3 (.control 0 (.proceed 1))

/-- The theorem where the cancel has answered and the start has not. -/
theorem cancel_takes_hold_front : ∃ (past later : List (Moment front))
    (x y : Setting Engine.Scripted.engine front), front.Built ∧ Engine.Scripted.engine.Answering ∧
      slowOpening.Opening ∧ slowOpening.store.mode = .serving 0 ∧ Run slowOpening past x ∧
      x.controller.NoneToStart ∧ Run x.cancelled later y ∧ (∀ m ∈ later, ¬ m.CallsAnyStart) ∧
      y.now = x.now ∧ (y.controller.answer? 1).isSome ∧ y.controller.answer? 0 = none ∧
      x.controller.CancelHolds x.now later y.controller ∧
      Inevitably World.Ticks (fun w => ∃ z : Setting Engine.Scripted.engine front, w = z.world ∧
        z.now = x.now ∧ w.Idle ∧ AnsweredAtOnce x.controller x.now z.controller) y.world := by
  have opening : slowOpening.Opening := ⟨⟨default, rfl⟩, rfl, rfl, rfl⟩
  obtain ⟨past, x, run, shown⟩ := exists_run slowOpening slowStart
    (fun w => w.now = 5 && (w.members.toList.all fun stack =>
      stack.controller.calls.toList.all fun call => decide ¬ call.phase.ToStart) &&
      ((w.step (.control 0 (.invoke .cancel))).any fun w => (World.play [] w slowCancel).any
        fun (_, w) => w.now = 5 && (w.answer? 0 1).isSome && (w.answer? 0 0).isNone))
    (by decide +kernel)
  rw [step_of_moves x.moves_cancelled] at shown
  simp only [Option.any_some, Bool.and_eq_true, decide_eq_true_iff] at shown
  obtain ⟨⟨xnow, xcalls⟩, played⟩ := shown
  have restarts : x.controller.NoneToStart :=
    Controller.noneToStart_of_getElem (by simpa [world, stack] using xcalls)
  obtain ⟨later, y, rest, uncalled, shown⟩ := exists_run_all (Q := fun m => ¬ m.CallsAnyStart)
    x.cancelled slowCancel (fun he hm => hm.not_callsAnyStart (by
      obtain rfl := List.eq_of_mem_replicate he
      trivial)) (fun w => w.now = 5 && (w.answer? 0 1).isSome && (w.answer? 0 0).isNone) played
  simp only [Bool.and_eq_true, decide_eq_true_iff, Option.isNone_iff_eq_none] at shown
  obtain ⟨⟨ynow, cancelled⟩, started⟩ := shown
  have instant : y.now = x.now := Eq.trans ynow xnow.symm
  obtain ⟨holds, ends⟩ := run.cancel_takes_hold front_built opening restarts rest uncalled
  exact ⟨past, later, x, y, front_built, Engine.Scripted.answering, opening, rfl, run, restarts, rest,
    uncalled, instant, cancelled, started, holds, ends Engine.Scripted.answering rfl instant⟩

/-! ### What a cancel does not cut short -/

/-- The front takes longer to stop than the database does. -/
def lingeringOpening : Setting Engine.Scripted.engine front where
  controller := .fresh front default
  engine := { scripts := [(⟨"db"⟩, { startTime := .ofMillis 300, stopTime := .ofMillis 200 }),
    (⟨"front"⟩, { stopTime := .ofMillis 300 })] }

/-- All is started and stopped, by two stops that overlap. After the second one has answered all is
started again, and while the database starts the first stop takes it. The container of the database
comes after that, and is being halted when a cancel is called. -/
def lingering : World Engine.Scripted.engine :=
  let started := (lingeringOpening.world.invoke 0 .startAll).1.await 0 0
  let stopping := (started.invoke 0 .stopAll).1.sleep 10
  let stopped := (stopping.invoke 0 .stopAll).1.await 0 2
  (((stopped.invoke 0 .startAll).1.sleep 340).invoke 0 .cancel).1

/-- Two starts under way: one has found that the database failed, the other waits for it still. Then a
cancel is called, and both record what they know, the first one last. -/
def foundSteps : List (Nat × Action) :=
  [(0, .invoke .startAll), (0, .invoke .startAll), (0, .run 0), (0, .run 0), (0, .run 4),
    (5, .answer 4 (.container (.start (.error (.start "no image"))))), (5, .run 0), (5, .run 0),
    (5, .run 2), (5, .run 1), (5, .run 3), (5, .run 1), (6, .invoke .cancel), (6, .run 3),
    (6, .run 3), (6, .run 1)]

/-- A cancel is called after which no call is made, and a job that waited for a dependency then has come
to its end with the failure of the dependency. -/
def showsFound (later : List (Moment front)) (m : Moment front) (c : Controller front) : Bool :=
  (match m.action with
    | .invoke .cancel => true
    | _ => false) &&
  (m.before.calls.toList.all fun call => decide ¬ call.phase.ToStart) &&
  (later.all fun m => match m.action with
    | .invoke _ => false
    | _ => true) &&
  (m.before.jobs[3]?.any fun
    | .start job => (match job.phase with
        | .awaiting _ => true
        | _ => false) && decide ((m.before.slot job.service).state = .pending) && c.isFinished 3 &&
      decide ((c.slot job.service).lastError = some (.dependencyFailed ⟨"front"⟩ ⟨"db"⟩))
    | _ => false)

/-- On the virtual clock a start that was under way answers later than at the instant of the cancel, for
it halts a container first. And a start that waited for a dependency when the cancel was called leaves
its service with the failure of the dependency, which another start had found before. -/
theorem cancel_late_front :
    (lingering.now = 850 ∧ lingering.answer? 0 3 = none ∧
      ((lingering.await 0 3).answer? 0 3).map Prod.snd = some 1010) ∧
    ∃ (later : List (Moment front)) (m : Moment front) (earlier : List (Moment front))
      (c : Controller front) (job : StartJob front.size) (left : List (Fin front.size)),
      Controller.Run (Controller.fresh front {}) (later ++ m :: earlier) c ∧
        m.action = .invoke .cancel ∧ m.before.NoneToStart ∧ (∀ m' ∈ later, ¬ m'.CallsAnyStart) ∧
        m.before.jobs[3]? = some (.start job) ∧ job.phase = .awaiting left ∧
        (m.before.slot job.service).state = .pending ∧ c.isFinished 3 ∧
        (c.slot job.service).lastError = some (.dependencyFailed ⟨"front"⟩ ⟨"db"⟩) := by
  refine ⟨⟨by decide +kernel, by decide +kernel, by decide +kernel⟩, ?_⟩
  obtain ⟨later, m, earlier, c, run, shown⟩ :=
    Controller.exists_run_at (Controller.fresh front {}) foundSteps 3
    (fun later m _ c => showsFound later m c) (by decide +kernel)
  simp only [showsFound, Bool.and_eq_true, Option.any_eq_true] at shown
  obtain ⟨⟨⟨cancels, restarts⟩, uncalled⟩, job, hj, shown⟩ := shown
  have cancel : m.action = .invoke .cancel := by
    split at cancels
    next h => exact h
    next => cases cancels
  have starts : ∀ m' ∈ later, ¬ m'.CallsAnyStart := by
    intro m' hm'
    have hm' := List.all_eq_true.1 uncalled m' hm'
    rintro (h | h | ⟨_, h⟩) <;> simp [h] at hm'
  cases job with
  | start job =>
      obtain ⟨service, run', claimed, phase⟩ := job
      cases phase with
      | awaiting left =>
          simp only [Bool.and_eq_true, decide_eq_true_iff] at shown
          exact ⟨later, m, earlier, c, _, left, run, cancel,
            Controller.noneToStart_of_getElem (by simpa using restarts), starts, hj, rfl,
            shown.1.1.2, shown.1.2, shown.2⟩
      | _ => simp at shown
  | stop | launch => cases shown

end Setting

end Bringup.Simulation
