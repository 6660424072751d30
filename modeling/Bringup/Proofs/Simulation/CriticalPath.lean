import Bringup.Proofs.Simulation.Lull

/-!
# A start takes its critical path

A fresh controller, an engine that answers from scripts, a store that answers at once, and one start of
all services. On the virtual clock every service enters and leaves the state of starting at the instant
that the pace at the beginning has for it, and its container is started and asked at just the instants in
between; and the start returns when the last service has left (`Scene.Fresh.critical_path`).

No step takes time, so what is left to show is that the clock never moves too far. Where nothing happens
by itself, a start job waits for its engine, for the next attempt, or for a dependency
(`Paced.start_cases`). The moments for which the first two wait are those of the pace, and by induction
along the dependencies the clock is never past the moment for which a service waits that waits for
another one (`Paced.time_le`).
-/

namespace Bringup.Simulation

open Lifecycle

variable {t : Topology}

/-- The scene as a setting. -/
def Scene.setting (x : Scene t) : Setting Engine.Scripted.engine t where
  controller := x.controller
  engine := x.engine
  ongoing := x.ongoing
  store := x.store
  now := x.now

theorem Scene.Fresh.opening {x : Scene t} (h : x.Fresh) : x.setting.Opening :=
  ⟨h.controller, h.ongoing, h.queue, h.answers⟩

namespace Setting

variable {start : Scene t} {x y : Setting Engine.Scripted.engine t} {event : Event}
  {moments : List (Moment t)}

/-- One start has been called since the beginning, and everything is on time. -/
structure Paced (start : Scene t) (x : Setting Engine.Scripted.engine t) : Prop where
  run : ∃ past, Run start.setting past x
  tied : Tied start x.scene
  alarms : x.alarms = []
  onTime : OnTime start x

section

variable (ht : t.Built) (hx : start.Fresh) (h : Paced start x)

include hx h in
theorem Paced.controller_run : ∃ config past,
    Controller.Run (Controller.fresh t config) past x.controller := by
  obtain ⟨past, run⟩ := h.run
  obtain ⟨config, run⟩ := hx.opening.controller_run run
  exact ⟨config, past, run⟩

include hx h in
theorem Paced.attends : Attends x := by
  obtain ⟨past, run⟩ := h.run
  exact run.attends hx.opening

include hx h in
theorem Paced.course (s : Fin t.size) :
    Course .pending (x.controller.slot s).transitions (x.controller.slot s).state := by
  obtain ⟨config, past, run⟩ := h.controller_run hx
  exact run.course s

include ht hx h in
theorem Paced.follows : x.Follows start := h.onTime.follows ht h.tied (h.course hx)

/-! ## Time passes -/

variable (hstore : start.store.mode = .serving 0) (hidle : x.world.Idle) {time : Nat}
  (hh : x.world.horizon? = some time)

include ht hx h in
/-- Who is waited for has a start job that has not come to its end. -/
theorem Paced.waited_for {id : Nat} {job : StartJob t.size} {d : Fin t.size}
    {rest : List (Fin t.size)} (hj : x.controller.jobs[id]? = some (.start job))
    (hp : job.phase = .awaiting (d :: rest)) (hs : ¬ (x.controller.slot d).progress.settled) :
    d ∈ t.dependencies job.service ∧ ∃ (holder : Nat) (job : StartJob t.size),
      x.controller.jobs[holder]? = some (.start job) ∧ job.service = d ∧ job.phase ≠ .finished := by
  obtain ⟨config, past, run⟩ := h.controller_run hx
  obtain ⟨holder, job', hj', hservice, hclaimed⟩ := run.counts.holder hs
  refine ⟨(run.proper ht id _ hj).2.1 _ hp List.mem_cons_self, holder, job', hj', hservice, ?_⟩
  intro hp'
  rw [(run.proper ht holder _ hj').1.2 (.inr hp')] at hclaimed
  cases hclaimed

include hx h hstore hidle in
theorem Paced.lull : x.Lull := by
  obtain ⟨past, run⟩ := h.run
  exact lull_of_idle Engine.Scripted.answering (h.attends hx) (run.prompt hx.opening hstore) hidle

include ht hx h hstore hidle hh in
/-- **Where nothing happens by itself**, a start job has come to its end, or waits for a dependency, or
the clock does not move past the moment for which it waits. -/
theorem Paced.start_cases {id : Nat} {job : StartJob t.size}
    (hj : x.controller.jobs[id]? = some (.start job)) :
    job.phase = .finished ∨
    (∃ d rest, job.phase = .awaiting (d :: rest) ∧ ¬ (x.controller.slot d).progress.settled) ∨
    (start.pace.blocker? job.service = none ∧ time ≤ start.pace.leave job.service ∧
      Timely start { x with now := time } job.service job.phase) := by
  have hf := h.follows ht hx
  have hlull := h.lull hx hstore hidle
  have hu := until_of_horizon hh
  have htimely := h.onTime.timely hj
  cases Controller.startBlock_of_stuck hj (hlull.run id) (hlull.heed id) with
  | finished hp => exact .inl hp
  | dependency hp _ hs => exact .inr (.inl ⟨_, _, hp, hs⟩)
  | following hp | halt hp =>
      rw [hp] at htimely
      exact htimely.elim
  | @store volumes hp =>
      obtain ⟨config, past, run⟩ := h.controller_run hx
      have hne : volumes ≠ [] := fun he => (run.proper ht id _ hj).2.2 (he ▸ hp)
      have herrand := hlull.errand hj
      simp [Job.errand?, hp, StartPhase.toBind] at herrand
      exact absurd herrand hne
  | launch hp _ hl =>
      have hunblocked := hf.unblocked hj (by rw [hp]; trivial)
      rw [hp]
      exact .inr (.inr ⟨hunblocked, hf.launch_lull ht hlull h.onTime.due hj hu hp hl htimely⟩)
  | pause hp =>
      have hunblocked := hf.unblocked hj (by rw [hp]; trivial)
      rw [hp]
      exact .inr (.inr ⟨hunblocked, hf.pause_lull ht hlull hj hu hp htimely⟩)
  | probe hp => exact absurd hp (hlull.not_probing h.onTime.due hj)

include ht hx h hstore hidle hh in
/-- **The clock does not move past the end of a start job** that has not come to its end, by induction
along the dependencies, nor past the end of the whole start. -/
theorem Paced.time_le (s : Fin t.size) : ∀ (id : Nat) (job : StartJob t.size),
    x.controller.jobs[id]? = some (.start job) → job.service = s → job.phase ≠ .finished →
      (start.pace.blocker? s = none → time ≤ start.pace.leave s) ∧ time ≤ start.pace.returns := by
  refine ht.induct (P := fun s => ∀ (id : Nat) (job : StartJob t.size),
    x.controller.jobs[id]? = some (.start job) → job.service = s → job.phase ≠ .finished →
      (start.pace.blocker? s = none → time ≤ start.pace.leave s) ∧ time ≤ start.pace.returns) ?_ s
  rintro s ih id job hj rfl hopen
  rcases h.start_cases ht hx hstore hidle hh hj with
    hp | ⟨d, rest, hp, hs⟩ | ⟨hunblocked, hle, -⟩
  · exact absurd hp hopen
  · obtain ⟨hd, holder, job', hj', hservice, hopen'⟩ := h.waited_for ht hx hj hp hs
    obtain ⟨hleave, hreturns⟩ := ih d hd holder job' hj' hservice hopen'
    refine ⟨fun hb => ?_, hreturns⟩
    exact Nat.le_trans (hleave (Prospect.blocker?_of_dependency ht hb hd))
      (Nat.le_trans (Pace.leave_le_enter hd) (Pace.enter_le_leave ht))
  · exact ⟨fun _ => hle, Nat.le_trans hle (Pace.leave_le_returns hunblocked)⟩

include ht hx h hstore hidle hh in
/-- **Time passes**, and everything stays on time. -/
theorem Paced.pass : OnTime start { x with now := time } := by
  obtain ⟨config, past, hrun⟩ := h.controller_run hx
  obtain ⟨⟨-, hlt⟩, -⟩ := World.horizon?_eq_some.1 hh
  have hle := Nat.le_of_lt hlt
  have hon := h.onTime
  refine ⟨Nat.le_trans hon.called hle, hon.config, hon.one, hon.sole, hon.all, ?_, ?_, ?_,
    hon.answered⟩
  · intro id job hj
    have htimely := hon.timely hj
    rcases h.start_cases ht hx hstore hidle hh hj with
      hp | ⟨d, rest, hp, hs⟩ | ⟨-, -, htimely⟩
    · rw [hp] at htimely ⊢
      exact ⟨fun hb => Nat.le_trans (htimely.1 hb) hle, htimely.2.congr rfl rfl⟩
    · obtain ⟨hd, holder, job', hj', hservice, hopen⟩ := h.waited_for ht hx hj hp hs
      obtain ⟨hleave, -⟩ := h.time_le ht hx hstore hidle hh d holder job' hj' hservice hopen
      rw [hp] at htimely ⊢
      obtain ⟨hseen, -, hshows⟩ := htimely
      refine ⟨fun d hd => (hseen d hd).imp_right fun hd => Nat.le_trans hd hle, fun hb => ?_,
        hshows.congr rfl rfl⟩
      exact Nat.le_trans (hleave (Prospect.blocker?_of_dependency ht hb hd))
        (Pace.leave_le_enter hd)
    · exact htimely
  · intro entry hm
    obtain ⟨job, hj, hlaunch, hprobe⟩ := hon.due entry hm
    exact ⟨job, hj, hlaunch, fun hk => Nat.le_trans (hprobe hk) hle⟩
  · intro hnone
    have hnone : x.controller.answer? 0 = none := hnone
    -- As long as the call has not answered, one of its jobs has not come to its end.
    by_contra hn
    obtain ⟨call, hk⟩ : ∃ call, x.controller.calls[0]? = some call :=
      ⟨_, Array.getElem?_eq_getElem (by rw [hon.one]; exact Nat.one_pos)⟩
    have ho := h.tied.told.foretold.calls 0 call hk
    obtain ⟨report, time', ha⟩ := report_answered_of_idle hidle h.tied.told.fits hk
      (by rw [ho]; trivial) fun id hid => by
        obtain ⟨job, hj, hstart, -⟩ := hrun.jobsFit 0 call hk id hid
        have hkind := hstart ho
        cases job with
        | stop | launch => cases hkind
        | start job =>
            rw [Controller.isFinished_of_job hj, Job.isFinished_start]
            by_contra hopen
            exact hn (h.time_le ht hx hstore hidle hh job.service id job hj rfl hopen).2
    rw [hnone] at ha
    cases ha

/-! ## The whole start -/

/-- Nobody outside interrupts a call, whatever happens by itself. -/
theorem Moves.alarms_eq (hm : Moves x event moments y) (halarms : x.alarms = []) : y.alarms = [] := by
  cases hm with
  | act | reply | deliver => rw [alarms_after]; exact halarms
  | work | serve | hand | pass => exact halarms
  | ring hm =>
      rw [halarms] at hm
      cases hm

include ht hx h hstore in
/-- **Each tick** leaves everything on time. -/
theorem Paced.ticks (hprobes : ∀ s, (start.engine.script (t.id s)).probeDelay = 0)
    (hm : Moves x event moments y) (hi : event.Inner ∨ x.world.Idle ∧
      ∃ time, event = .pass time ∧ x.world.horizon? = some time) : Paced start y := by
  obtain ⟨past, run⟩ := h.run
  have hscene : Simulation.Moves x.scene y.scene := by
    refine hm.scene (hi.imp_right fun ⟨_, time, he, _⟩ => ⟨time, he⟩) h.alarms fun entry hentry => ?_
    obtain ⟨id, job, hclient, -⟩ := h.tied.awaited.answering entry hentry
    rw [hclient]
    simp
  refine ⟨⟨_, run.tail hm⟩, h.tied.moves ht hscene, hm.alarms_eq h.alarms, ?_⟩
  rcases hi with hi | ⟨hidle, time, rfl, hh⟩
  · exact h.onTime.moves ht hprobes h.tied (h.course hx) h.alarms hm hi
  · cases hm
    exact h.pass ht hx hstore hidle hh

include ht hx in
/-- When a start has just been called there is one job for each service, and none has taken a step. -/
theorem onTime_called {order : List (Fin t.size)} (ho : t.startOrder = .ok order) :
    OnTime start (start.setting.after ((start.controller.arm.spawnStarts order).openCall .startAll
      ((List.range order.length).map (start.controller.jobs.size + ·)) .joining).1 []) := by
  obtain ⟨⟨config, hconfig⟩, hongoing, -⟩ := hx
  have hnone : start.controller.jobs = #[] ∧ start.controller.calls = #[] ∧
      ∀ s, (start.controller.slot s).transitions = [] := by
    simp [hconfig, Controller.fresh, Controller.slot]
  obtain ⟨hnojobs, hnocalls, hunmoved⟩ := hnone
  obtain ⟨order', ho', hnodup, hmem, -⟩ := ht.startOrder
  obtain rfl := Except.ok.inj (ho.symm.trans ho')
  generalize hc : ((start.controller.arm.spawnStarts order).openCall .startAll
    ((List.range order.length).map (start.controller.jobs.size + ·)) .joining).1 = c
  have hjobs (i : Nat) : c.jobs[i]? = (order[i]?).map fun s =>
      .start { service := s, run := start.controller.arm.currentRun } := by
    have hspawned := @Controller.job_spawnStarts t start.controller order i
    rw [hnojobs] at hspawned
    simpa [← hc, Controller.openCall] using hspawned
  have hjob {i : Nat} {job : StartJob t.size} (hi : c.jobs[i]? = some (.start job)) :
      order[i]? = some job.service ∧ job.phase = .arriving := by
    rw [hjobs] at hi
    obtain ⟨s, hs, he⟩ := Option.map_eq_some_iff.1 hi
    obtain rfl := Job.start.inj he
    exact ⟨hs, rfl⟩
  have hmoves (s : Fin t.size) : (c.slot s).transitions = [] := by
    have hslot : c.slot s = { start.controller.slot s with
        claims := (start.controller.slot s).claims + order.count s } := by
      rw [← hc]
      exact (Controller.slot_spawnStarts order s).trans (by rw [Controller.slot_arm])
    rw [hslot]
    exact hunmoved s
  have hanswer : c.answer? 0 = none := by
    have hcall := @Controller.calls_openCall_size t (start.controller.arm.spawnStarts order) .startAll
      ((List.range order.length).map (start.controller.jobs.size + ·)) .joining
    rw [hc, Controller.calls_spawnStarts, Controller.calls_arm, hnocalls] at hcall
    exact Controller.answer?_of_call hcall
  constructor
  case called => exact Nat.le_refl _
  case config =>
    show c.config = start.controller.config
    rw [← hc]
    exact (Controller.config_spawnStarts order).trans Controller.config_arm
  case one =>
    show c.calls.size = 1
    rw [← hc]
    simp [hnocalls]
  case sole =>
    intro i i' job job' hi hi' hs
    have hi := (hjob hi).1
    exact (List.getElem?_inj (List.getElem?_eq_some_iff.1 hi).1 hnodup).1
      (hi.trans (hs ▸ (hjob hi').1.symm))
  case all =>
    intro s
    obtain ⟨i, hi⟩ := List.getElem?_of_mem (hmem s)
    refine ⟨i, { service := s, run := start.controller.arm.currentRun }, ?_, rfl⟩
    show c.jobs[i]? = _
    rw [hjobs, hi]
    rfl
  case timely =>
    intro i job hi
    rw [(hjob hi).2]
    exact ⟨rfl, hmoves _, (List.append_nil _).symm⟩
  case due =>
    intro entry hm
    have hm : entry ∈ start.ongoing := hm
    rw [hongoing] at hm
    cases hm
  case unanswered => exact fun _ => start.pace.called_le_returns
  case answered =>
    intro answer time ha
    have ha : c.answer? 0 = some (answer, time) := ha
    rw [hanswer] at ha
    cases ha

include ht hx in
/-- **A start is called** in a fresh scene, and everything is on time. -/
theorem paced_invoke :
    ∃ x, (start.world.invoke 0 .startAll).1 = x.world ∧ Paced start x := by
  obtain ⟨config, hconfig⟩ := hx.controller
  have hstep : start.setting.controller.step start.setting.now (.invoke .startAll)
      = some ((start.controller.invoke start.now .startAll).1, []) := rfl
  generalize (start.controller.invoke start.now .startAll).1 = c at hstep
  have hm : Moves start.setting (.control 0 (.invoke .startAll))
      [start.setting.moment (.invoke .startAll) [] c] (start.setting.after c []) :=
    .act hstep (by simp)
  have htied : Tied start (start.after c []) :=
    hx.tied.moves ht (.act hstep (by simp) fun operation he => (Action.invoke.inj he).symm)
  have hcontrol : start.world.control 0 (.invoke .startAll)
      = some (start.setting.after c []).world := control_of_step hstep
  have hfair : (Action.invoke .startAll).Fair start.prospect start.controller := rfl
  have htold := hx.tied.told
  refine ⟨start.setting.after c [], by rw [World.invoke, hcontrol]; rfl, ⟨_, .tail .refl hm⟩, htied,
    rfl, ?_⟩
  rcases htold.foretold.called ht htold.fits rfl hfair hstep with ⟨order, ho, rfl⟩ | ⟨k, call, -, hk, -⟩
  · exact onTime_called ht hx ho
  · simp [hconfig, Controller.fresh] at hk

end

/-- Everything has happened when the pace has it, and nothing else: the moves of the services, the calls
to the engine, and the answer to the call. -/
structure Punctual (start : Scene t) (x : Setting Engine.Scripted.engine t) : Prop where
  moves : ∀ s, (x.controller.slot s).transitions = start.pace.history s
  calls : ∀ s, x.engine.callsFor (t.id s)
    = start.engine.callsFor (t.id s) ++ callsOf start.pace s
  answer : ∃ report, x.controller.answer? 0 = some (.report report, start.pace.returns)

/-- Where everything is at rest, everything has happened on time. -/
theorem Paced.punctual (ht : t.Built) (hx : start.Fresh) (h : Paced start x)
    (hrest : x.world.AtRest) : Punctual start x := by
  obtain ⟨config, past, run⟩ := h.controller_run hx
  have hstuck := stuck_of_atRest Engine.Scripted.answering (h.attends hx) hrest
  obtain ⟨hfinished, hanswered⟩ := run.no_deadlock ht hstuck
  have hshows (s : Fin t.size) :
      x.Shows start s (start.pace.history s) (callsOf start.pace s) := by
    obtain ⟨id, job, hj, rfl⟩ := h.onTime.all s
    have hp := hfinished id (Controller.lt_size_of_job hj)
    rw [Controller.isFinished_of_job hj, Job.isFinished_start] at hp
    have htimely := h.onTime.timely hj
    rw [hp] at htimely
    exact htimely.2
  refine ⟨fun s => (hshows s).moves, fun s => (hshows s).calls, ?_⟩
  obtain ⟨call, hk⟩ : ∃ call, x.controller.calls[0]? = some call :=
    ⟨_, Array.getElem?_eq_getElem (by rw [h.onTime.one]; exact Nat.one_pos)⟩
  obtain ⟨answer, time, hp⟩ := hanswered hk
  have ha : x.controller.answer? 0 = some (answer, time) := by
    rw [Controller.answer?_of_call hk, Call.answer?, hp]
  obtain ⟨-, report, rfl, -⟩ := h.tied.told.report ha
  exact ⟨report, by rw [ha, h.onTime.answered _ _ ha]⟩

end Setting

/-! ## The theorem -/

/-- **A start takes its critical path.** In a scene with a built topology, a fresh controller with any
settings, an engine with any scripts that says at once whether a container is ready, and a store that
answers at once, let all services be started. Those are started whose dependencies all get ready. The
pace at the beginning has each of them enter the state of starting when the last of its dependencies has
left it, or at the call, and leave it after as long as the start of its own container, and then the waits
between the questions to it, take. How often it is asked is told by its volumes and its script. The waits
are those of the retry policy; they and the time of a start count in milliseconds, rounded up. And on the
virtual clock, whatever happens first of what can happen, everything comes to rest, with the moves of all
services, the calls for them, and the answer to the start just when the pace has them: each question after
the waits before it, and the answer when the last of the services that are started has left. -/
theorem Scene.Fresh.critical_path {start : Scene t} (ht : t.Built) (hx : start.Fresh)
    (hstore : start.store.mode = .serving 0)
    (hprobes : ∀ s, (start.engine.script (t.id s)).probeDelay = 0) :
    (∀ s, (start.pace.blocker? s = none ↔
        ∀ d ∈ t.dependencies s, (start.pace.outcome d).1 = .ready) ∧
      start.pace.enter s = start.pace.latest start.pace.leave (t.dependencies s) ∧
      start.pace.leave s = start.pace.enter s + start.pace.span s) ∧
    (∀ s, (¬ start.pace.Bound s ∧ start.pace.asked? s = none) ∨
      (start.pace.Bound s ∧ (start.engine.script (t.id s)).fault ≠ none ∧
        start.pace.asked? s = some 0) ∨
      (start.pace.Bound s ∧ (start.engine.script (t.id s)).fault = none ∧
        ∃ n, start.pace.asked? s = some n ∧ 0 < n ∧
          n ≤ start.controller.config.retry.maxAttempts.toNat ∧
          (∀ i, i + 1 < n → (start.engine.script (t.id s)).answer i ≠ .ready) ∧
          (n = start.controller.config.retry.maxAttempts.toNat ∨
            (start.engine.script (t.id s)).answer (n - 1) = .ready))) ∧
    (1_000_000 ∣ start.controller.config.retry.baseDelay.nanos →
      1_000_000 ∣ start.controller.config.retry.maxDelay.nanos →
        ∀ i, start.pace.pause i * 1_000_000
          = (start.controller.config.retry.delayFor (.ofNat i)).nanos) ∧
    Inevitably World.Ticks (fun w => w.AtRest ∧ ∃ x, w = x.world ∧ Setting.Punctual start x)
      (start.world.invoke 0 .startAll).1 := by
  refine ⟨fun s => ⟨?_, rfl, Pace.leave_eq ht⟩,
    fun s => Pace.asked?_cases (RetryPolicy.maxAttempts_pos _),
    fun hbase hmax i => RetryPolicy.delayFor_whole hbase hmax _, ?_⟩
  · simp only [Prospect.blocker?_eq_none, Prospect.outcome_ready ht]
  obtain ⟨x, hworld, hpaced⟩ := Setting.paced_invoke ht hx
  rw [hworld]
  refine inevitably_of_wf (I := Setting.Paced start) Setting.wellFounded_less Setting.measure ?_ ?_
    hpaced
  · intro x w h _ hticks
    obtain ⟨event, moments, y, hm, rfl, hi⟩ := Setting.ticks_cases hticks
    obtain ⟨config, past, run⟩ := h.controller_run hx
    exact ⟨y, rfl, h.ticks ht hx hstore hprobes hm hi,
      Setting.less_of_ticks Engine.Scripted.answering (h.attends hx) run.linked hm hi⟩
  · intro x h
    by_cases hrest : x.world.AtRest
    · exact .inl ⟨hrest, x, rfl, h.punctual ht hx hrest⟩
    · exact .inr (by simpa [World.AtRest] using hrest)

/-! ### Two branches -/

/-- A stall whose front needs a database, with a cache that nobody needs. -/
def stallServices : List Service :=
  [{ id := ⟨"db"⟩, image := "db:img" },
    { id := ⟨"cache"⟩, image := "cache:img" },
    { id := ⟨"front"⟩, image := "front:img", dependsOn := .ofList [⟨"db"⟩] }]

/-- The volume of the database. -/
def stallVolume : Volume := { id := ⟨"data"⟩, mountPath := "/data" }

def stall : Topology where
  services := stallServices
  index := [(⟨"front"⟩, 2), (⟨"cache"⟩, 1), (⟨"db"⟩, 0)]
  graph := { nodes := [⟨"db"⟩, ⟨"cache"⟩, ⟨"front"⟩], edges := [(0, 2)] }
  volumes := [⟨stallVolume, ⟨"db"⟩⟩]

theorem stall_built : stall.Built :=
  ⟨_, .volume (.services .empty stallServices) stallVolume ⟨"db"⟩, rfl⟩

/-- The database is ready when it is asked the third time, the front cannot be started, and the cache
takes longer than both. -/
def stallOpening : Scene stall where
  controller := .fresh stall default
  engine := { scripts := [(⟨"db"⟩, { probes := [.notReady, .notReady], startTime := .ofMillis 100 }),
    (⟨"cache"⟩, { startTime := .ofMillis 2700 }),
    (⟨"front"⟩, { startError := some (.start "no image"), startTime := .ofMillis 30 })] }
  store := { mode := .serving 0, table := .ofVolumes [stallVolume] }
  now := 1000

/-- The theorem there. -/
theorem critical_path_stall : stall.Built ∧ stallOpening.Fresh ∧
    stallOpening.store.mode = .serving 0 ∧
    (∀ s, (stallOpening.engine.script (stall.id s)).probeDelay = 0) ∧
    Inevitably World.Ticks (fun w => w.AtRest ∧ ∃ x : Setting Engine.Scripted.engine stall,
      w = x.world ∧
      (List.finRange stall.size).map (fun s => (x.controller.slot s).transitions) =
        [[⟨.pending, .starting, 1000⟩, ⟨.starting, .ready, 1850⟩],
          [⟨.pending, .starting, 1000⟩, ⟨.starting, .ready, 3700⟩],
          [⟨.pending, .starting, 1850⟩, ⟨.starting, .failed, 1880⟩]] ∧
      x.engine.callsFor ⟨"db"⟩ = [⟨1000, .start, ⟨"db"⟩, none⟩,
        ⟨1100, .probe, ⟨"db"⟩, some .notReady⟩, ⟨1350, .probe, ⟨"db"⟩, some .notReady⟩,
        ⟨1850, .probe, ⟨"db"⟩, some .ready⟩] ∧
      ∃ report, x.controller.answer? 0 = some (.report report, 3700))
      (stallOpening.world.invoke 0 .startAll).1 := by
  have fresh : stallOpening.Fresh := ⟨⟨default, rfl⟩, rfl, ⟨0, rfl⟩, rfl, rfl⟩
  have probes : ∀ s, (stallOpening.engine.script (stall.id s)).probeDelay = 0 := by decide +kernel
  obtain ⟨-, -, -, ends⟩ := Scene.Fresh.critical_path stall_built fresh rfl probes
  refine ⟨stall_built, fresh, rfl, probes, ends.mono ?_⟩
  rintro w ⟨hrest, x, rfl, punctual⟩
  refine ⟨hrest, x, rfl, ?_, ?_, ?_⟩
  · simp only [punctual.moves]
    decide +kernel
  · refine (punctual.calls ⟨0, by decide⟩).trans ?_
    decide +kernel
  · have returns : stallOpening.pace.returns = 3700 := by decide +kernel
    exact returns ▸ punctual.answer

end Bringup.Simulation
