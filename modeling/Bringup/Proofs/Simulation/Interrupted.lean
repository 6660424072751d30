import Bringup.Proofs.Lifecycle.Interrupts
import Bringup.Proofs.Simulation.CancelAtOnce
import Bringup.Proofs.Simulation.Numbering
import Bringup.Proofs.Simulation.Unbinding

/-!
# An interrupted deployment leaves nothing behind

On a fresh deployment a start of all services is called that may be interrupted, and it is interrupted
before it has answered, at whatever instant. Then on the virtual clock the call answers, with the report
of a stop in which every service is stopped or failed (`Setting.Run.interrupted_leaves_nothing`). A
container that comes later is halted by its launch. So once no launch is under way any more, every
container that came was asked to stop exactly once, and no volume is bound (`CleanedUp`).

If the start had begun, no service enters the state of starting any more. An interrupt that comes before
that cancels what is not there yet, and then every service is started (`Setting.forestalled_starts`).
-/

namespace Bringup.Simulation

open Lifecycle
open Engine.Scripted (engine)

variable {t : Topology} {e : Engine}

/-- Every launch is at its end: no start of a container is outstanding, and none that came late is being
halted. -/
def LaunchesOver (c : Controller t) : Prop :=
  ∀ (id : JobId) (l : Launch t.size), c.jobs[id]? = some (.launch l) → l.phase = .finished

/-- Each container that was handed over was asked to stop once, and no volume of the topology is
bound. -/
structure CleanedUp (past : List (Moment t)) (store : Store) : Prop where
  stopped : ∀ handle ∈ handedOver past,
    weigh (fun m => m.effects.countP (Effect.stops handle)) past = 1
  unbound : ∀ decl ∈ t.volumes, store.table.owner? decl.volume.id = none

/-- The report names every service, and each one as stopped or failed. -/
structure AllDown (t : Topology) (report : Report) : Prop where
  named : ∀ s, t.id s ∈ report.services.map Status.id
  down : ∀ status ∈ report.services, status.state = .stopped ∨ status.state = .failed

namespace Setting

variable {start x y : Setting e t} {past later earlier moments : List (Moment t)} {event : Event}
  {delay : Nat} {m : Moment t} {k : CallId}

/-- The setting with a start of all services called that may be interrupted. -/
def interruptible (x : Setting e t) : Setting e t :=
  { x with controller := (x.controller.invoke x.now .upUntil).1 }

theorem moves_interruptible (x : Setting e t) : Moves x (.control 0 (.invoke .upUntil))
    [x.moment (.invoke .upUntil) [] x.interruptible.controller] x.interruptible :=
  have hs : x.controller.step x.now (.invoke .upUntil)
    = some (x.interruptible.controller, []) := rfl
  .act hs (by simp)

/-- What happens in a setting is an exchange of its controller and its store. -/
theorem Moves.exchange (hm : Moves x event moments y) (h : Attends x) :
    Exchange x.now x.controller x.store y.controller y.store := by
  have hsees (x : Setting e t) : x.world.Sees x.controller x.store :=
    ⟨⟨x.engine, x.ongoing, rfl⟩, rfl⟩
  have hjobs : ∀ entry ∈ x.store.answers, entry.1 ≠ .visitor := by
    intro entry hentry hv
    have hclient : entry.1 ∈ x.store.clients :=
      List.mem_append_right _ (List.mem_map_of_mem hentry)
    obtain ⟨id, job, request, hjob, -⟩ := h.store.clients _ hclient
    rw [hv] at hjob
    cases hjob
  obtain ⟨c, store, hsees', hx⟩ := (hsees x).exchange hjobs (step_of_moves hm)
  obtain ⟨rfl, rfl⟩ := (hsees y).unique hsees'
  exact hx

/-! ## Along the run -/

section

variable (ht : t.Built) (h : start.Opening) (run : Run start.interruptible past x)
  (hcalls : ∀ m ∈ past, ¬ m.Invokes)

/-- The run from where nobody had called anything. -/
theorem Run.since_opening (run : Run start.interruptible past x) :
    Run start (past ++ [start.moment (.invoke .upUntil) [] start.interruptible.controller]) x :=
  (Run.refl.tail start.moves_interruptible).trans run

include ht h run hcalls in
theorem Run.windDown : WindDown x.controller.standing ∧ x.controller.Fits := by
  obtain ⟨config, hconfig⟩ := h.controller
  have hstart : start.interruptible.controller
      = ((Controller.fresh t config).invoke start.now .upUntil).1 := by
    rw [← hconfig]
    rfl
  have hfits : start.interruptible.controller.Fits := by
    have hs : (Controller.fresh t config).step start.now (.invoke .upUntil)
      = some (((Controller.fresh t config).invoke start.now .upUntil).1, []) := rfl
    rw [hstart]
    exact (Controller.fits_fresh config).step hs
  exact run.controller.windDown ht hfits (hstart ▸ Controller.windDown_fresh config start.now) hcalls

include ht h run hcalls in
theorem Run.lasting : x.controller.Lasting := by
  obtain ⟨config, hrun⟩ := h.controller_run run.since_opening
  exact (hrun.lasting ht (Controller.fits_fresh config) (Controller.lasting_fresh config)
    (run.windDown ht h hcalls).1.stopsLast).2

include ht h run hcalls in
theorem Run.stopsAlone : StopsAlone x.controller := by
  obtain ⟨config, hrun⟩ := h.controller_run run.since_opening
  obtain ⟨hwind, hfits⟩ := run.windDown ht h hcalls
  intro i id stop job hstop hj
  exact hwind.starts_over hfits (run.lasting ht h hcalls).closes hrun.jobsFit hrun.ordered hstop hj

include ht h run hcalls in
/-- The stop jobs free the volumes of their services. -/
theorem Run.unbinding (hstore : start.store.mode = .serving delay) :
    Unbinding x.controller x.store := by
  induction run with
  | refl =>
      obtain ⟨config, hconfig⟩ := h.controller
      have hfresh : Unbinding start.controller start.store :=
        hconfig ▸ ⟨⟨delay, hstore⟩, fun s => frees_fresh config _⟩
      have hnone : StopsAlone start.controller := by
        rw [hconfig]
        intro i id stop job hi
        simp [Controller.fresh] at hi
      exact hfresh.exchange hnone (start.moves_interruptible.exchange h.attends)
  | tail run hm ih =>
      have hearlier := fun m hmem => hcalls m (List.mem_append_right _ hmem)
      exact (ih hearlier).exchange (run.stopsAlone ht h hearlier)
        (hm.exchange (run.since_opening.attends h))

end

/-! ## Where all calls have answered -/

section

variable (ht : t.Built) (h : start.Opening) (hstore : start.store.mode = .serving delay)
  (run : Run start.interruptible past x) (hcalls : ∀ m ∈ past, ¬ m.Invokes)
  (hanswered : ∀ (k : Nat) (call : Call t.size), x.controller.calls[k]? = some call →
    call.answer?.isSome) (hlaunches : LaunchesOver x.controller)

include hanswered hlaunches in
theorem quiet_of_launchesOver : x.controller.Quiet x.now where
  answered := hanswered
  idle id l hl := by
    have hfinished := hlaunches id l hl
    refine ⟨by simp [hfinished], by simp [hfinished, LaunchPhase.halt?], ?_⟩
    rw [Option.eq_none_iff_forall_ne_some]
    rintro ⟨c, effects⟩ hs
    obtain ⟨old, new, slot, aside, hj, turn, -⟩ :=
      Controller.turnsTo_of_step (rfl : Action.job? _ = some id) hs
    obtain rfl : Job.launch l = old := Option.some.inj (hl.symm.trans hj)
    exact turn.not_isFinished (Job.isFinished_launch.2 hfinished)

include h run hanswered hlaunches in
/-- No job asks the store for anything. -/
theorem Run.queue_eq_nil : x.store.queue = [] ∧ ∀ (id : JobId) (job : StopJob t.size),
    x.controller.jobs[id]? = some (.stop job) → job.phase = .finished := by
  obtain ⟨config, hrun⟩ := h.controller_run run.since_opening
  have hquiet := quiet_of_launchesOver hanswered hlaunches
  obtain ⟨hstarts, -⟩ := hquiet.finished hrun.ordered hrun.linked
  have hstops (id : JobId) (job : StopJob t.size)
      (hj : x.controller.jobs[id]? = some (.stop job)) : job.phase = .finished := by
    by_contra hn
    obtain ⟨k, call, hk, hw⟩ := hrun.stopsWatched id job hj hn
    obtain ⟨answer, time, hp⟩ := Controller.Call.phase_of_answer (hanswered k call hk)
    rcases hw with ⟨hw, -⟩ | ⟨s, hw⟩ <;> rw [hp] at hw <;> cases hw
  refine ⟨?_, hstops⟩
  have hclients : x.store.clients = [] := by
    refine List.eq_nil_iff_forall_not_mem.2 fun client hm => ?_
    obtain ⟨id, job, request, -, hj, hr⟩ := (run.since_opening.attends h).store.clients client hm
    cases job with
    | start job => simp [Job.errand?, hstarts id job hj, StartPhase.toBind] at hr
    | stop job => simp [Job.errand?, hstops id job hj, StopPhase.toUnbind] at hr
    | launch => cases hr
  exact (Store.clients_eq_nil.1 hclients).1

include ht h hstore run hcalls hanswered hlaunches in
/-- **Where the stop has answered and no launch is under way** everything is cleaned up. -/
theorem Run.cleanedUp (hstop : x.controller.Stopping) (hone : (handedOver past).Nodup) :
    CleanedUp past x.store := by
  obtain ⟨config, hrun⟩ := h.controller_run run.since_opening
  obtain ⟨hwind, hfits⟩ := run.windDown ht h hcalls
  have hlasting := run.lasting ht h hcalls
  have hquiet := quiet_of_launchesOver hanswered hlaunches
  obtain ⟨hqueue, hdone⟩ := run.queue_eq_nil h hanswered hlaunches
  constructor
  · refine fun handle => run.controller.stopped_once hone fun s handle => ?_
    -- The call itself asks for nothing.
    have hcall : (start.moment (.invoke .upUntil) [] start.interruptible.controller).job? = none := rfl
    have hall := (hrun.emptied ht hwind.stopsLast hstop hquiet).2 s handle
    simpa [stopsAsked, weigh_append, List.countP_append, Moment.stops, Moment.hands,
      Moment.worksFor, hcall] using hall
  · intro decl hd
    obtain ⟨s, hv⟩ := ht.mem_volumesOf hd
    obtain ⟨k, call, hk, ho⟩ := hstop
    obtain ⟨i, job, hi, hkind, rfl, -⟩ := hlasting.ended hfits hk ho (hanswered k call hk) s
    have hsettled : x.store.settled = x.store.table := Store.settled_of_queue hqueue
    cases job with
    | stop job => exact hsettled ▸ (run.unbinding ht h hcalls hstore).owner?_settled hi hdone hv
    | start | launch => cases hkind

end

/-! ## Every interrupt -/

section

variable (ht : t.Built) (h : start.Opening) (run : Run start.interruptible past x)
  (hcalls : ∀ m ∈ past, ¬ m.Invokes) (hpast : past = later ++ m :: earlier)
  (hm : m.action = .interrupt k)

include ht h run hcalls hpast hm in
/-- The interrupted call is the first one, and one of the calls after the interrupt is a cancel. If the
start had begun, no service enters the state of starting from the interrupt on. -/
theorem Run.over_since_interrupt : k = 0 ∧
    (∃ (i : CallId) (call : Call t.size), x.controller.calls[i]? = some call ∧
      call.operation = .cancel) ∧
    ((∃ m' ∈ earlier, m'.action = .proceed k) → ∀ m' ∈ later, ∀ s, ¬ m'.Enters s) := by
  subst hpast
  have hrefl : Run start.interruptible [] start.interruptible := .refl
  obtain ⟨config, hrun⟩ := h.controller_run hrefl.since_opening
  obtain ⟨hwind₀, hfits₀⟩ := hrefl.windDown ht h (by simp)
  obtain ⟨before, rest⟩ := run.controller.split rfl
  have hs := run.controller.step_of_mem (List.mem_append_right _ List.mem_cons_self)
  have hearlier (m' : Moment t) (hm' : m' ∈ earlier) : ¬ m'.Invokes :=
    hcalls m' (List.mem_append_right _ (List.mem_cons_of_mem _ hm'))
  obtain ⟨hwind, hfits⟩ := before.windDown ht hfits₀ hwind₀ hearlier
  obtain ⟨rfl, ⟨i, call, hi, ho⟩, hover⟩ :=
    Controller.over_interrupt hwind hfits (hrun.trans before).runsOpened hm hs
  obtain ⟨call', hi', ho', -⟩ := rest.call_kept hi
  refine ⟨rfl, ⟨i, call', hi', ho'.trans ho⟩, ?_⟩
  rintro ⟨m₀, hm₀, ha₀⟩ m' hm'
  -- The first step of the call made a second one, before the interrupt.
  have hlt : 1 < m.before.calls.size := by
    obtain ⟨back, front, rfl⟩ := List.append_of_mem hm₀
    obtain ⟨begun, since⟩ := before.split rfl
    obtain ⟨hwind, -⟩ := begun.windDown ht hfits₀ hwind₀ fun m' hm' =>
      hearlier m' (List.mem_append_right _ (List.mem_cons_of_mem _ hm'))
    have hs₀ := before.step_of_mem hm₀
    rw [ha₀] at hs₀
    have hsize := hwind.lt_size_of_proceed ht hs₀
    obtain ⟨second, hk, -⟩ := since.call_kept (Array.getElem?_eq_getElem hsize)
    exact (Array.getElem?_eq_some_iff.1 hk).1
  obtain ⟨front, back, rfl⟩ := List.append_of_mem hm'
  have hover' := (rest.split rfl).1.over (hover hlt) fun m'' hm'' => Moment.not_callsAnyStart
    (hcalls m'' (List.mem_append_left _ (List.mem_append_right _ (List.mem_cons_of_mem _ hm''))))
  exact hover'.not_enters (rest.step_of_mem (List.mem_append_right _ List.mem_cons_self))

include ht h run hcalls hpast hm in
/-- What the interrupted call answers is the report of a stop, when all calls have answered. -/
theorem Run.answer_of_interrupted {answer : Answer} {time : Nat}
    (ha : x.controller.answer? k = some (answer, time)) :
    (∃ report, answer = .interrupted report ∧ AllDown t report) ∧ x.controller.Stopping ∧
      ∀ (k : Nat) (call : Call t.size), x.controller.calls[k]? = some call →
        call.answer?.isSome := by
  obtain ⟨rfl, ⟨i, cancel, hi, hcancel⟩, -⟩ := run.over_since_interrupt ht h hcalls hpast hm
  obtain ⟨hwind, hfits⟩ := run.windDown ht h hcalls
  obtain ⟨report, stop, rfl, hk, ho, ⟨stopped, hstop⟩, hanswered⟩ :=
    hwind.answer_of_interrupted hi hcancel ha
  obtain ⟨report', he, -, hnamed, hdown⟩ :=
    (run.lasting ht h hcalls).report ht hfits hk ho hstop
  obtain rfl := Answer.report.inj he
  exact ⟨⟨report, rfl, hnamed, hdown⟩, ⟨5, stop, hk, ho⟩, hanswered⟩

end

/-- **An interrupted deployment leaves nothing behind.** In a setting with a fresh controller of a built
topology, a scripted engine and a store that serves requests, however long it takes, let a start of all
services be called that may be interrupted, let it be interrupted before it has answered, whenever that
is, and let nobody call anything else. Then an answer of the interrupted call is a report in which every
service is stopped or failed; if the call had begun the start, which is its first step, no service enters
the state of starting after the interrupt; and once the call has answered and no launch is under way,
each container that was handed over was asked to stop exactly once, and no volume of the topology is
bound. On the virtual clock, whatever happens first of what can happen, it comes to that. -/
theorem Run.interrupted_leaves_nothing {start x : Setting Engine.Scripted.engine t} (ht : t.Built)
    (h : start.Opening) (hstore : start.store.mode = .serving delay)
    (run : Run start.interruptible past x) (hcalls : ∀ m ∈ past, ¬ m.Invokes)
    (hpast : past = later ++ m :: earlier) (hm : m.action = .interrupt k) :
    (∀ answer time, x.controller.answer? k = some (answer, time) →
      ∃ report, answer = .interrupted report ∧ AllDown t report) ∧
    ((∃ m' ∈ earlier, m'.action = .proceed k) → ∀ m' ∈ later, ∀ s, ¬ m'.Enters s) ∧
    ((x.controller.answer? k).isSome → LaunchesOver x.controller → CleanedUp past x.store) ∧
    Inevitably World.Ticks (fun w => w.AtRest ∧ ∃ (next : List (Moment t))
      (y : Setting Engine.Scripted.engine t) (report : Report) (time : Nat), w = y.world ∧
        Run x next y ∧ y.controller.answer? k = some (.interrupted report, time) ∧
        AllDown t report ∧
        ((∃ m' ∈ earlier, m'.action = .proceed k) → ∀ m' ∈ next, ∀ s, ¬ m'.Enters s) ∧
        LaunchesOver y.controller ∧ CleanedUp (next ++ past) y.store) x.world := by
  have hcleaned {past later : List (Moment t)} {x : Setting Engine.Scripted.engine t}
      (run : Run start.interruptible past x) (hcalls : ∀ m ∈ past, ¬ m.Invokes)
      (hpast : past = later ++ m :: earlier) (ha : (x.controller.answer? k).isSome)
      (hlaunches : LaunchesOver x.controller) : CleanedUp past x.store := by
    obtain ⟨⟨answer, time⟩, ha⟩ := Option.isSome_iff_exists.1 ha
    obtain ⟨-, hstop, hanswered⟩ := run.answer_of_interrupted ht h hcalls hpast hm ha
    have hone := run.since_opening.handedOver_nodup h
    rw [handedOver, List.filterMap_append] at hone
    exact run.cleanedUp ht h hstore hcalls hanswered hlaunches hstop (List.nodup_append.1 hone).1
  refine ⟨fun answer time ha => (run.answer_of_interrupted ht h hcalls hpast hm ha).1,
    (run.over_since_interrupt ht h hcalls hpast hm).2.2, hcleaned run hcalls hpast, ?_⟩
  -- Every tick leads to a lesser setting, still without a call, and where there is none all have answered.
  refine inevitably_of_wf (I := fun y => ∃ next, Run x next y ∧ ∀ m ∈ next, ¬ m.Invokes)
    wellFounded_less measure ?_ ?_ ⟨[], .refl, by simp⟩
  · rintro y w ⟨next, rest, hnext⟩ - hticks
    obtain ⟨event, moments, z, hmoves, rfl, hi⟩ := ticks_cases hticks
    have whole := (run.trans rest).since_opening
    obtain ⟨config, hrun⟩ := h.controller_run whole
    refine ⟨z, rfl, ⟨_, rest.tail hmoves, ?_⟩,
      less_of_ticks Engine.Scripted.answering (whole.attends h) hrun.linked hmoves hi⟩
    have hevent (operation : Operation) : event ≠ .control 0 (.invoke operation) := by
      rcases hi with hi | ⟨-, time, rfl, -⟩
      · exact hi.ne_invoke operation
      · simp
    intro m' hm'
    exact (List.mem_append.1 hm').elim (hmoves.not_invokes hevent m') (hnext m')
  · rintro y ⟨next, rest, hnext⟩
    by_cases hrest : y.world.AtRest
    · refine .inl ⟨hrest, ?_⟩
      have whole := run.trans rest
      have hcalls' : ∀ m ∈ next ++ past, ¬ m.Invokes := fun m' hm' =>
        (List.mem_append.1 hm').elim (hnext m') (hcalls m')
      have hpast' : next ++ past = (next ++ later) ++ m :: earlier := by
        rw [hpast, List.append_assoc]
      obtain ⟨config, hrun⟩ := h.controller_run whole.since_opening
      obtain ⟨hjobs, hanswers⟩ := hrun.no_deadlock ht
        (stuck_of_atRest Engine.Scripted.answering (whole.since_opening.attends h) hrest)
      obtain ⟨rfl, ⟨i, cancel, hi, -⟩, hentered⟩ :=
        whole.over_since_interrupt ht h hcalls' hpast' hm
      obtain ⟨call, hk⟩ : ∃ call, y.controller.calls[0]? = some call :=
        ⟨_, Array.getElem?_eq_getElem (Nat.zero_lt_of_lt (Array.getElem?_eq_some_iff.1 hi).1)⟩
      obtain ⟨answer, time, hp⟩ := hanswers hk
      have ha : y.controller.answer? 0 = some (answer, time) := by
        rw [Controller.answer?_of_call hk, Call.answer?, hp]
      obtain ⟨⟨report, rfl, hdown⟩, -⟩ := whole.answer_of_interrupted ht h hcalls' hpast' hm ha
      have hlaunches : LaunchesOver y.controller := by
        intro id l hl
        have hfinished := hjobs id (Controller.lt_size_of_job hl)
        rw [Controller.isFinished_of_job hl] at hfinished
        exact Job.isFinished_launch.1 hfinished
      exact ⟨next, y, report, time, rfl, rest, ha, hdown,
        fun hbegun m' hm' => hentered hbegun m' (List.mem_append_left _ hm'), hlaunches,
        hcleaned whole hcalls' hpast' (by rw [ha]; rfl) hlaunches⟩
    · exact .inr (by simpa [World.AtRest] using hrest)

/-! ### A container that comes late -/

/-- A database with two volumes, whose container takes 20 milliseconds to start, and a store that takes
a millisecond over each request. -/
def stockedOpening : Setting Engine.Scripted.engine stocked where
  controller := .fresh stocked default
  engine := { scripts := [(⟨"db"⟩, { startTime := .ofMillis 20 })] }
  store := {
    mode := .serving 1
    table := .ofVolumes [dataVolume, logsVolume] }

/-- The volumes are bound, and the container is on its way. -/
def stockedStart : List Event :=
  [.control 0 (.run 0), .control 0 (.run 0), .pass 1, .serve 0, .deliver 0 0, .pass 2, .serve 0,
    .deliver 0 0, .control 0 (.run 1), .pass 5]

/-- The start is cancelled, all calls answer, and then the container comes and is halted. -/
def stockedEnd : List Event :=
  [.control 0 (.proceed 2), .control 0 (.proceed 2), .control 0 (.proceed 0), .control 0 (.run 0),
    .control 0 (.run 0), .control 0 (.proceed 1), .control 0 (.proceed 1), .control 0 (.proceed 1),
    .control 0 (.proceed 0), .control 0 (.proceed 3), .control 0 (.proceed 3),
    .control 0 (.proceed 4), .control 0 (.run 2), .control 0 (.run 2), .pass 6, .serve 0,
    .deliver 0 0, .pass 7, .serve 0, .deliver 0 0, .control 0 (.run 2), .control 0 (.proceed 5),
    .control 0 (.proceed 5), .control 0 (.proceed 5), .control 0 (.proceed 4),
    .control 0 (.proceed 0), .pass 22, .resume 0 1, .control 0 (.run 1), .resume 0 1]

/-- The call has answered, all jobs are at their ends, and one container was started and stopped. -/
def showsCleanedUp (w : World Engine.Scripted.engine) : Bool :=
  (w.answer? 0 0).isSome && w.members.toList.all fun stack =>
    stack.controller.jobs.toList.all Job.isFinished &&
    Engine.Scripted.State.count stack.engine .start ⟨"db"⟩ = 1 &&
    Engine.Scripted.State.count stack.engine .stop ⟨"db"⟩ = 1

/-- Everything is cleaned up at the end. -/
def showsEnded (w : World Engine.Scripted.engine) : Bool :=
  (World.play [] w stockedEnd).any fun (_, w) => showsCleanedUp w

/-- Everything is cleaned up at the end of what comes of an interrupt. -/
def showsInterrupted (w : World Engine.Scripted.engine) : Bool :=
  (w.step (.control 0 (.interrupt 0))).any showsEnded

/-- A step of the controller whose end shows something that was looked up by taking it. -/
theorem exists_act (x : Setting e t) (action : Action) (shows : World e → Bool)
    (h : (x.world.step (.control 0 action)).any shows) : ∃ (effects : List Effect) (y : Setting e t),
      Moves x (.control 0 action) [x.moment action effects y.controller] y ∧ shows y.world := by
  obtain ⟨w, hw, hshows⟩ := (Option.any_eq_true _ _).1 h
  obtain ⟨moments, y, hm, rfl⟩ := moves_of_step hw
  cases hm with
  | @act _ c effects hs ha =>
      refine ⟨effects, x.after c effects, ?_, hshows⟩
      rw [controller_after]
      exact .act hs ha

/-- The theorem where the container comes after the call has answered. -/
theorem interrupted_leaves_nothing_late : ∃ (past later earlier : List (Moment stocked))
    (m : Moment stocked) (x : Setting Engine.Scripted.engine stocked) (report : Report) (time : Nat),
    stocked.Built ∧ stockedOpening.Opening ∧ stockedOpening.store.mode = .serving 1 ∧
      Run stockedOpening.interruptible past x ∧ (∀ m ∈ past, ¬ m.Invokes) ∧
      past = later ++ m :: earlier ∧ m.action = .interrupt 0 ∧
      (∃ m' ∈ earlier, m'.action = .proceed 0) ∧
      Engine.Scripted.State.count x.engine .start ⟨"db"⟩ = 1 ∧
      Engine.Scripted.State.count x.engine .stop ⟨"db"⟩ = 1 ∧
      x.controller.answer? 0 = some (.interrupted report, time) ∧ AllDown stocked report ∧
      (∀ m' ∈ later, ∀ s, ¬ m'.Enters s) ∧ LaunchesOver x.controller ∧ CleanedUp past x.store := by
  have opening : stockedOpening.Opening := ⟨⟨default, rfl⟩, rfl, rfl, rfl⟩
  have uncalled {events : List Event} (h : ∀ event ∈ events, ∀ operation,
      event ≠ .control 0 (.invoke operation)) {x y : Setting Engine.Scripted.engine stocked}
      {event : Event} {moments : List (Moment stocked)} (he : event ∈ events)
      (hm : Moves x event moments y) : ∀ m ∈ moments, ¬ m.Invokes := hm.not_invokes (h event he)
  obtain ⟨effects₀, y₀, first, played⟩ := exists_act stockedOpening.interruptible (.proceed 0)
    (fun w => (World.play [] w stockedStart).any fun (_, w) => showsInterrupted w) (by decide +kernel)
  obtain ⟨middle, w, before, quiet, played⟩ := exists_run_all y₀ stockedStart
    (uncalled (by simp [stockedStart])) showsInterrupted played
  obtain ⟨effects, y, hit, played⟩ := exists_act w (.interrupt 0) showsEnded played
  obtain ⟨later, x, rest, quiet', shown⟩ := exists_run_all y stockedEnd
    (uncalled (by simp [stockedEnd])) showsCleanedUp played
  have whole := (((Run.refl.tail first).trans before).tail hit).trans rest
  have begun : ∃ m' ∈ middle ++ ([stockedOpening.interruptible.moment (.proceed 0) effects₀
      y₀.controller] ++ []), m'.action = .proceed 0 :=
    ⟨_, List.mem_append_right _ List.mem_cons_self, rfl⟩
  have hcalls : ∀ m ∈ later ++ ([w.moment (.interrupt 0) effects y.controller] ++ (middle ++
      ([stockedOpening.interruptible.moment (.proceed 0) effects₀ y₀.controller] ++ []))),
      ¬ m.Invokes := by
    intro m hm
    simp only [List.mem_append, List.mem_singleton, List.not_mem_nil, or_false] at hm
    rcases hm with hm | rfl | hm | rfl
    · exact quiet' m hm
    · exact hit.not_invokes (by simp) _ List.mem_cons_self
    · exact quiet m hm
    · exact first.not_invokes (by simp) _ List.mem_cons_self
  obtain ⟨answers, enters, cleaned, -⟩ :=
    whole.interrupted_leaves_nothing stocked_built opening rfl hcalls rfl rfl
  simp only [showsCleanedUp, world, stack, Bool.and_eq_true, List.all_cons, List.all_nil,
    Bool.and_true, decide_eq_true_iff] at shown
  obtain ⟨answered, ⟨launches, started⟩, stopped⟩ := shown
  have ended : LaunchesOver x.controller := by
    intro id l hl
    have hl' := List.all_eq_true.1 launches _ (Array.mem_toList_iff.2 (Array.mem_of_getElem? hl))
    exact Job.isFinished_launch.1 hl'
  obtain ⟨⟨answer, time⟩, ha⟩ := Option.isSome_iff_exists.1 answered
  obtain ⟨report, rfl, down⟩ := answers answer time ha
  exact ⟨_, later, _, _, x, report, time, stocked_built, opening, rfl, whole, hcalls, rfl, rfl, begun,
    started, stopped, ha, down, enters begun, ended, cleaned answered ended⟩

/-! ### An interrupt that comes before the start -/

/-- The cancel goes through the one service and answers, the start begins, and its job is about to take
the service. -/
def forestalledStart : List Event :=
  [.control 0 (.proceed 1), .control 0 (.proceed 1), .control 0 (.proceed 0), .control 0 (.run 0)]

/-- Whether all services of a world are in a state. -/
def showsAll (state : ServiceState) (w : World Engine.Scripted.engine) : Bool :=
  w.members.toList.all fun stack => stack.controller.slots.toList.all fun slot => slot.state = state

/-- Everything goes from pending to starting when the first job goes on. -/
def showsEntered (w : World Engine.Scripted.engine) : Bool :=
  showsAll .pending w && (w.step (.control 0 (.run 0))).any (showsAll .starting)

/-- An interrupt that is due when the call is made, and comes before its first step, does not keep the
database from being started. -/
theorem forestalled_starts : ∃ (past later earlier : List (Moment stocked)) (m : Moment stocked)
    (x : Setting Engine.Scripted.engine stocked), stocked.Built ∧ stockedOpening.Opening ∧
      stockedOpening.store.mode = .serving 1 ∧ Run stockedOpening.interruptible past x ∧
      (∀ m ∈ past, ¬ m.Invokes) ∧ past = later ++ m :: earlier ∧ m.action = .interrupt 0 ∧
      ¬ ∀ m' ∈ later, ∀ s, ¬ m'.Enters s := by
  have opening : stockedOpening.Opening := ⟨⟨default, rfl⟩, rfl, rfl, rfl⟩
  obtain ⟨effects, y, hit, played⟩ := exists_act stockedOpening.interruptible (.interrupt 0)
    (fun w => (World.play [] w forestalledStart).any fun (_, w) => showsEntered w) (by decide +kernel)
  obtain ⟨middle, z, rest, quiet, shown⟩ := exists_run_all y forestalledStart
    (fun he hm => hm.not_invokes fun operation heq => by simp [heq, forestalledStart] at he)
    showsEntered played
  obtain ⟨pending, played⟩ := Bool.and_eq_true_iff.1 shown
  obtain ⟨effects', x, last, starting⟩ := exists_act z (.run 0) (showsAll .starting) played
  have state {state : ServiceState} {x : Setting Engine.Scripted.engine stocked}
      (h : showsAll state x.world) : (x.controller.slot keeper).state = state := by
    have hall : ∀ s (hs : s < stocked.size), x.controller.slots[s].state = state := by
      simpa [showsAll, world, stack] using h
    exact hall keeper keeper.isLt
  refine ⟨_, [z.moment (.run 0) effects' x.controller] ++ middle, [],
    stockedOpening.interruptible.moment (.interrupt 0) effects y.controller, x, stocked_built, opening,
    rfl, ((Run.refl.tail hit).trans rest).tail last, ?_, by simp, rfl, fun hall => ?_⟩
  · intro m hm
    simp only [List.mem_append, List.mem_singleton, List.not_mem_nil, or_false] at hm
    rcases hm with rfl | hm | rfl
    · exact last.not_invokes (by simp) _ List.mem_cons_self
    · exact quiet m hm
    · exact hit.not_invokes (by simp) _ List.mem_cons_self
  · refine hall _ (List.mem_append_left _ List.mem_cons_self) keeper ⟨?_, state starting⟩
    rw [show ((z.moment (.run 0) effects' x.controller).before.slot keeper).state = .pending from
      state pending]
    simp

end Setting

end Bringup.Simulation
