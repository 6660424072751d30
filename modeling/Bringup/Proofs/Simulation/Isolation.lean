import Bringup.Proofs.Simulation.Steering

/-!
# A service and those that do not need it

Two runs of starts and cancels with the same calls at the same instants, over scripts that differ for one
service only. Services that do not need that one are `Spared` the difference: their paces agree, so they
look the same in both runs as long as nothing is cancelled (`Charted.same`). A cancel severs them from their
starts at the same instant and finds the same launches under way, and later starts find the same
dependencies not ready (`Aftermath.same_refusal`). So they look the same at the end of every instant
(`Steers.isolated`).
-/

namespace Bringup

/-- What is known of a service tells what is known of it once it has been severed from its start. -/
theorem Lifecycle.Slot.status_severed {id : ServiceId} {slot slot' : Slot}
    (h : slot'.status id = slot.status id) (now : Nat) :
    (slot'.severed id now).status id = (slot.severed id now).status id := by
  obtain ⟨hs, he, ht⟩ : slot'.state = slot.state ∧ slot'.lastError = slot.lastError ∧
      slot'.transitions = slot.transitions := by simpa [Slot.status] using h
  unfold Slot.severed Slot.leaveStarting
  rw [hs, he]
  split <;> try split
  all_goals simp [Slot.status, Slot.record, Slot.moved, hs, he, ht]

namespace Simulation

open Lifecycle
open Lifecycle.Controller (Faces StartsEnded)

variable {t : Topology}

/-! ## Paces that agree -/

section

variable {p q : Pace t} {among : Fin t.size → Prop} {s : Fin t.size} (h : p.Agrees q among)
  (ht : t.Built) (hs : among s)

include h ht hs

theorem callsOf_of_agrees : callsOf p s = callsOf q s := by
  have hentries (n : Nat) : entries p s n = entries q s n := by
    simp only [entries, h.enter ht hs, h.probed ht hs, h.fate hs]
  have hentries : entries p s = entries q s := funext hentries
  rw [callsOf, callsOf, h.blocker? ht hs, h.asked? hs, hentries]

theorem launching_iff_of_agrees (time : Nat) : Launching p time s ↔ Launching q time s := by
  rw [Launching, Launching, h.blocker? ht hs, h.asked? hs, h.enter ht hs, h.probed ht hs]

end

/-! ## Scenes that differ for one service -/

namespace Scene

/-- The scenes differ at most in what the engine has in store for one service. -/
structure AlikeBut (x : Fin t.size) (a b : Scene t) : Prop where
  controller : b.controller = a.controller
  store : b.store = a.store
  now : b.now = a.now
  log : b.engine.log = a.engine.log
  script : ∀ s, s ≠ x → b.engine.script (t.id s) = a.engine.script (t.id s)

end Scene

/-- The service is another one, and does not need it. -/
def Spared (x s : Fin t.size) : Prop := s ≠ x ∧ ¬ t.DependsOn s x

section

variable {x s : Fin t.size} {a b : Scene t} (h : a.AlikeBut x b)

theorem Spared.dependency (hs : Spared x s) {d : Fin t.size} (hd : d ∈ t.dependencies s) :
    Spared x d :=
  ⟨fun he => hs.2 (.single (he ▸ hd)), fun hx => hs.2 (.head hd hx)⟩

include h

theorem Scene.AlikeBut.callsFor (id : ServiceId) : b.engine.callsFor id = a.engine.callsFor id := by
  rw [Engine.Scripted.State.callsFor, Engine.Scripted.State.callsFor, Engine.Scripted.State.calls,
    Engine.Scripted.State.calls, h.log]

/-- **The paces of those that are spared agree**, whenever the start is called. -/
theorem Scene.AlikeBut.agrees (called : Nat) :
    ({ a with now := called } : Scene t).pace.Agrees ({ b with now := called } : Scene t).pace
      (Spared x) where
  closed hs _ hd := hs.dependency hd
  attempts := by
    show a.controller.config.retry.maxAttempts = b.controller.config.retry.maxAttempts
    rw [h.controller]
  called := rfl
  pause := by
    funext i
    show (a.controller.config.retry.delayFor (.ofNat i)).ceilMillis
      = (b.controller.config.retry.delayFor (.ofNat i)).ceilMillis
    rw [h.controller]
  fate {s} hs := by
    show a.prospect.fate s = b.prospect.fate s
    rw [Scene.prospect, Scene.prospect, h.store]
    simp only [h.script s hs.1]
  startDelay {s} hs := by
    show (a.engine.script (t.id s)).startDelay = (b.engine.script (t.id s)).startDelay
    rw [h.script s hs.1]

/-- The same is asked in both for a container that nobody takes. -/
theorem Scene.AlikeBut.strayed (ht : t.Built) (hs : Spared x s) (called now : Nat) :
    ({ a with now := called } : Scene t).strayed s now
      = ({ b with now := called } : Scene t).strayed s now := by
  have hagrees := h.agrees called
  have hcomes : ({ a with now := called } : Scene t).comes s
      = ({ b with now := called } : Scene t).comes s := hagrees.probed ht hs 0
  have hpatience : ({ a with now := called } : Scene t).patience
      = ({ b with now := called } : Scene t).patience := by
    show a.controller.config.stopTimeout.ceilMillis = b.controller.config.stopTimeout.ceilMillis
    rw [h.controller]
  have hdelay : ({ a with now := called } : Scene t).stopDelay s
      = ({ b with now := called } : Scene t).stopDelay s := by
    show (a.engine.script (t.id s)).stopDelay = (b.engine.script (t.id s)).stopDelay
    rw [h.script s hs.1]
  simp only [Scene.strayed, Scene.strays, Scene.stray, Scene.goes, hcomes, hpatience, hdelay,
    hagrees.fate hs]

end

namespace Setting

/-! ## Services that look the same -/

/-- The same is known of the service, and the engine has had the same calls for it at the same instants. -/
structure SameOf (s : Fin t.size) (y z : Setting Engine.Scripted.engine t) : Prop where
  status : z.controller.status s = y.controller.status s
  calls : z.engine.callsFor (t.id s) = y.engine.callsFor (t.id s)

section

variable {start : Scene t} {x y z : Setting Engine.Scripted.engine t} {s : Fin t.size}

theorem sameOf_iff : SameOf s y z ↔ ((z.controller.slot s).state = (y.controller.slot s).state ∧
    (z.controller.slot s).lastError = (y.controller.slot s).lastError ∧
    (z.controller.slot s).transitions = (y.controller.slot s).transitions) ∧
      z.engine.callsFor (t.id s) = y.engine.callsFor (t.id s) := by
  have hstatus : z.controller.status s = y.controller.status s ↔
      (z.controller.slot s).state = (y.controller.slot s).state ∧
      (z.controller.slot s).lastError = (y.controller.slot s).lastError ∧
      (z.controller.slot s).transitions = (y.controller.slot s).transitions := by
    simp [Controller.status, Slot.status]
  exact ⟨fun h => ⟨hstatus.1 h.status, h.calls⟩, fun h => ⟨hstatus.2 h.1, h.2⟩⟩

/-- Before the first start nothing is to be seen of any service. -/
theorem Unmarked.same {a b : Scene t} {x : Fin t.size} (ha : a.Fresh) (hb : b.Fresh)
    (h : a.AlikeBut x b) (hy : Unmarked a y) (hz : Unmarked b z) : SameOf s y z := by
  have hengine : y.engine = a.engine :=
    congrArg (fun y : Setting Engine.Scripted.engine t => y.engine) hy
  have hengine' : z.engine = b.engine :=
    congrArg (fun y : Setting Engine.Scripted.engine t => y.engine) hz
  refine sameOf_iff.2 ⟨?_, by rw [hengine, hengine', h.callsFor]⟩
  rw [(hy.bare ha).2.1, (hz.bare hb).2.1]
  exact ⟨rfl, rfl, rfl⟩

/-- **Services whose paces agree look the same** in two lulls at one instant. -/
theorem Charted.same {a b : Scene t} {among : Fin t.size → Prop} (ht : t.Built)
    (hagrees : a.pace.Agrees b.pace among) (hs : among s)
    (hlog : b.engine.callsFor (t.id s) = a.engine.callsFor (t.id s)) (hnow : z.now = y.now)
    (hy : y.Charted a s) (hz : z.Charted b s)
    (hcourse : Course .pending (y.controller.slot s).transitions (y.controller.slot s).state)
    (hcourse' : Course .pending (z.controller.slot s).transitions (z.controller.slot s).state) :
    SameOf s y z := by
  have hmoves : (z.controller.slot s).transitions = (y.controller.slot s).transitions := by
    rw [hy.shows.moves, hz.shows.moves, hnow, hagrees.history ht hs]
  refine sameOf_iff.2 ⟨⟨?_, ?_, hmoves⟩, ?_⟩
  · rw [hmoves] at hcourse'
    exact hcourse'.unique hcourse
  · by_cases hsettled : a.pace.Settled y.now s
    · have hsettled' : b.pace.Settled z.now s := hnow ▸ (hagrees.settled ht hs).1 hsettled
      rw [hy.error hsettled, hz.error hsettled', hagrees.outcome ht hs]
    · have hunsettled : ¬ b.pace.Settled z.now s := fun h =>
        hsettled ((hagrees.settled ht hs).2 (hnow ▸ h))
      rw [hy.unsettled hsettled, hz.unsettled hunsettled]
  · rw [hy.shows.calls, hz.shows.calls, hlog, hnow, callsOf_of_agrees hagrees ht hs]

end

/-! ## Runs -/

section

variable {opening start : Scene t} {x y : Setting Engine.Scripted.engine t} {run : Nat}
  (ht : t.Built) (hx : opening.Fresh) (h : Steered opening y) (hstore : opening.store.mode = .serving 0)
  (hb : Begun start run y) (hidle : y.world.Idle)

include hx h in
theorem Steered.course (s : Fin t.size) :
    Course .pending (y.controller.slot s).transitions (y.controller.slot s).state := by
  obtain ⟨config, past, hrun⟩ := h.controller_run hx
  exact hrun.course s

include ht hx h hstore hb hidle

/-- What is to be seen of a service since the first start is on the chart. -/
theorem Begun.charted (s : Fin t.size) : y.Charted start s := by
  have hproper : y.controller.AllProper := h.proper ht hx
  have hcharted := hb.inStep.charted (hb.follows hx h) ht (hb.lull hx h hstore hidle) hproper
    hb.logged s
  exact ⟨⟨hcharted.shows.moves, hcharted.shows.calls⟩, hcharted.error, hcharted.unsettled⟩

/-- A launch is waited for just while the pace has the container being started. -/
theorem Begun.awaitsLaunch_iff (s : Fin t.size) :
    (∃ launch, y.controller.AwaitsLaunch s launch) ↔ Launching start.pace y.now s := by
  have hproper : y.controller.AllProper := h.proper ht hx
  have hlaunching := hb.inStep.launching_iff (hb.follows hx h) ht (hb.lull hx h hstore hidle) hproper
    hb.logged s
  refine Iff.trans ?_ hlaunching.symm
  exact ⟨fun ⟨launch, id, job, hj⟩ => ⟨id, job, launch, hj⟩,
    fun ⟨id, job, launch, hj⟩ => ⟨launch, id, job, hj⟩⟩

end

section

variable {a b : Scene t} {x s : Fin t.size} {calls : List (Operation × Nat)} {called cut : Nat}
  {v w y z : Setting Engine.Scripted.engine t} (ht : t.Built) (ha : a.Fresh) (hb : b.Fresh)
  (hstore : a.store.mode = .serving 0) (h : a.AlikeBut x b) (hs : Spared x s)

include ht ha hb hstore h hs

/-- Services that are spared look the same as long as nothing was cancelled since the first start. -/
theorem Begun.same (hy : Steered a y) (hz : Steered b z)
    (hby : ∃ run, Begun { a with now := called } run y)
    (hbz : ∃ run, Begun { b with now := called } run z) (hiy : y.world.Idle) (hiz : z.world.Idle)
    (hnow : z.now = y.now) : SameOf s y z := by
  obtain ⟨run, hby⟩ := hby
  obtain ⟨run', hbz⟩ := hbz
  have hstore' : b.store.mode = .serving 0 := by rw [h.store, hstore]
  exact (hby.charted ht ha hy hstore hiy s).same ht (h.agrees called) hs (h.callsFor _) hnow
    (hbz.charted ht hb hz hstore' hiz s) (hy.course ha s) (hz.course hb s)

section

variable (hv : CutOff a called cut v) (hw : CutOff b called cut w)

include hv hw

/-- They look the same when everything is cancelled, -/
theorem CutOff.same : SameOf s v w :=
  Begun.same ht ha hb hstore h hs hv.steered hw.steered hv.begun hw.begun hv.idle hw.idle
    (hw.now.trans hv.now.symm)

/-- and so do the launches for them. -/
theorem CutOff.awaitsLaunch_iff : (∃ launch, w.controller.AwaitsLaunch s launch) ↔
    ∃ launch, v.controller.AwaitsLaunch s launch := by
  obtain ⟨run, hbv⟩ := hv.begun
  obtain ⟨run', hbw⟩ := hw.begun
  have hstore' : b.store.mode = .serving 0 := by rw [h.store, hstore]
  rw [hbv.awaitsLaunch_iff ht ha hv.steered hstore hv.idle,
    hbw.awaitsLaunch_iff ht hb hw.steered hstore' hw.idle, hv.now, hw.now,
    launching_iff_of_agrees (h.agrees called) ht hs]

/-- They are severed from their starts in the same way. -/
theorem CutOff.severed : ((w.controller.slot s).severed (t.id s) cut).status (t.id s)
    = ((v.controller.slot s).severed (t.id s) cut).status (t.id s) :=
  Slot.status_severed (CutOff.same ht ha hb hstore h hs hv hw).status cut

variable (hy : Aftermath { a with now := called } v y) (hz : Aftermath { b with now := called } w z)

include hy hz

/-- They show the same ever after. -/
theorem Aftermath.same_state : (z.controller.slot s).state = (y.controller.slot s).state ∧
    (z.controller.slot s).transitions = (y.controller.slot s).transitions := by
  have hsevered := CutOff.severed ht ha hb hstore h hs hv hw
  rw [hz.severed.state, hy.severed.state, hz.severed.transitions, hy.severed.transitions, hv.now,
    hw.now]
  exact ⟨congrArg Status.state hsevered, congrArg Status.transitions hsevered⟩

/-- The engine is asked the same for them. -/
theorem Aftermath.same_calls (hly : y.Lull) (hlz : z.Lull) (hnow : z.now = y.now) :
    z.engine.callsFor (t.id s) = y.engine.callsFor (t.id s) := by
  have hbefore := (CutOff.same ht ha hb hstore h hs hv hw).calls
  have hiff := CutOff.awaitsLaunch_iff ht ha hb hstore h hs hv hw
  by_cases hawaits : ∃ launch, v.controller.AwaitsLaunch s launch
  · obtain ⟨launch, hv'⟩ := hawaits
    obtain ⟨launch', hw'⟩ := hiff.2 ⟨launch, hv'⟩
    rw [hy.drifting.asked hly hv', hz.drifting.asked hlz hw', hbefore, hnow,
      h.strayed ht hs called y.now]
  · rw [hy.drifting.calm (not_exists.1 hawaits), hz.drifting.calm (not_exists.1 (mt hiff.1 hawaits)),
      hbefore]

/-- Those that were never started are refused for the same dependency. -/
theorem Aftermath.same_refusal : z.controller.refusal s = y.controller.refusal s := by
  have hstate (d : Fin t.size) (hd : d ∈ t.dependencies s) :
      decide ((z.controller.slot d).state ≠ .ready) = decide ((y.controller.slot d).state ≠ .ready) := by
    rw [(Aftermath.same_state ht ha hb hstore h (hs.dependency hd) hv hw hy hz).1]
  rw [Controller.refusal, Controller.refusal, ← List.head?_filter, ← List.head?_filter,
    List.filter_congr hstate]

/-- They look the same if their errors agree. -/
theorem Aftermath.same (hly : y.Lull) (hlz : z.Lull) (hnow : z.now = y.now)
    (herror : (z.controller.slot s).lastError = (y.controller.slot s).lastError) : SameOf s y z := by
  obtain ⟨hstate, hmoves⟩ := Aftermath.same_state ht ha hb hstore h hs hv hw hy hz
  exact sameOf_iff.2 ⟨⟨hstate, herror, hmoves⟩,
    Aftermath.same_calls ht ha hb hstore h hs hv hw hy hz hly hlz hnow⟩

end

end

/-- What has become of the error of a service once starts were called after the cancel. -/
theorem Aftermath.error {start : Scene t} {x y : Setting Engine.Scripted.engine t}
    (h : Aftermath start x y) (hended : StartsEnded y.controller)
    (hfaces : ∀ s, (y.controller.slot s).state = .pending → Faces y.controller s) (s : Fin t.size) :
    (y.controller.slot s).lastError = if (y.controller.slot s).state = .pending
      then y.controller.refusal s else ((x.controller.slot s).severed (t.id s) x.now).lastError := by
  split
  next hp => exact (hfaces s hp).refused hended
  next hp => exact (h.severed.error s).resolve_right fun hr => hp hr.1

/-! ## The theorem -/

/-- **A service makes no difference to those that do not need it.** Let two fresh controllers of a built
topology be told to start all services and to cancel at the same instants, with a store that answers at
once, and with engines whose scripts differ for one service only; what is scripted are the delays of starts
and stops, the outcomes of starts, and whether a container is ready. Let no cancel come at one instant with
anything else. Then every other service that does not depend on it, directly or through others, has at the
end of every instant the same state, the same last error and the same history in both runs, and the engines
have had the same calls for it, at the same instants. -/
theorem Steers.isolated {a b : Scene t} {x s : Fin t.size} {calls : List (Operation × Nat)}
    {y z : Setting Engine.Scripted.engine t} (ht : t.Built) (ha : a.Fresh) (hb : b.Fresh)
    (hstore : a.store.mode = .serving 0) (h : a.AlikeBut x b)
    (hprobes : ∀ s, (a.engine.script (t.id s)).probeDelay = 0 ∧
      (b.engine.script (t.id s)).probeDelay = 0)
    (hfaults : ∀ s, (a.engine.script (t.id s)).stopFault = none ∧
      (b.engine.script (t.id s)).stopFault = none)
    (hne : s ≠ x) (hneeds : ¬ t.DependsOn s x) (hy : Steers a.setting calls y)
    (hz : Steers b.setting calls z) (hnow : z.now = y.now) (hiy : y.world.Idle)
    (hiz : z.world.Idle) : SameOf s y z := by
  have hs : Spared x s := ⟨hne, hneeds⟩
  have hstore' : b.store.mode = .serving 0 := by rw [h.store, hstore]
  obtain ⟨hsy, hstands⟩ := hy.stands ht ha hstore (fun s => (hprobes s).1) fun s => (hfaults s).1
  obtain ⟨hsz, hstands'⟩ := hz.stands ht hb hstore' (fun s => (hprobes s).2) fun s => (hfaults s).2
  have hly := hsy.lull ha hstore hiy
  have hlz := hsz.lull hb hstore' hiz
  cases hstage : Stage.after calls with
  | waiting =>
      rw [hstage] at hstands hstands'
      exact hstands.1.same ha hb h hstands'.1
  | begun called =>
      rw [hstage] at hstands hstands'
      exact Begun.same ht ha hb hstore h hs hsy hsz hstands hstands' hiy hiz hnow
  | severed called cut =>
      rw [hstage] at hstands hstands'
      obtain ⟨v, hv, hy, -, herror⟩ := hstands.settle ht ha hsy hstore hiy
      obtain ⟨w, hw, hz, -, herror'⟩ := hstands'.settle ht hb hsz hstore' hiz
      refine Aftermath.same ht ha hb hstore h hs hv hw hy hz hly hlz hnow ?_
      rw [herror, herror']
      exact congrArg Status.lastError (CutOff.severed ht ha hb hstore h hs hv hw)
  | again called cut =>
      rw [hstage] at hstands hstands'
      obtain ⟨v, hv, hy, hfaces⟩ := hstands
      obtain ⟨w, hw, hz, hfaces'⟩ := hstands'
      have hsame : ((w.controller.slot s).severed (t.id s) cut).lastError
          = ((v.controller.slot s).severed (t.id s) cut).lastError :=
        congrArg Status.lastError (CutOff.severed ht ha hb hstore h hs hv hw)
      refine Aftermath.same ht ha hb hstore h hs hv hw hy hz hly hlz hnow ?_
      rw [hy.error (hy.startsEnded ht ha hsy hstore hiy) hfaces,
        hz.error (hz.startsEnded ht hb hsz hstore' hiz) hfaces', hv.now, hw.now, hsame,
        (Aftermath.same_state ht ha hb hstore h hs hv hw hy hz).1,
        Aftermath.same_refusal ht ha hb hstore h hs hv hw hy hz]

/-! ### A stall whose cache makes no difference -/

/-- The database comes up soon; the front takes a while to start and to stop, and the cache longer. -/
def slowCache : Scene stall where
  controller := .fresh stall default
  engine := { scripts := [(⟨"db"⟩, { startTime := .ofMillis 3 }), (⟨"cache"⟩, { startTime := .ofMillis 40 }),
    (⟨"front"⟩, { startTime := .ofMillis 10, stopTime := .ofMillis 4 })] }
  store := { mode := .serving 0, table := .ofVolumes [stallVolume] }

/-- The same stall, but the cache cannot be started. -/
def noCache : Scene stall :=
  { slowCache with
    engine := slowCache.engine.edit ⟨"cache"⟩ fun _ =>
      { startError := some (.start "no image"), startTime := .ofMillis 1 } }

/-- All is started, cancelled while the front starts, and started again. -/
def stallSteers : List Event :=
  [.control 0 (.invoke .startAll), .pass 1, .pass 3, .pass 5, .control 0 (.invoke .cancel), .pass 13,
    .pass 17, .pass 20, .control 0 (.invoke .startAll)]

/-- The calls have come, and the states are these. -/
def showsCache (states : List ServiceState) (calls : List (Operation × Nat))
    (w : World Engine.Scripted.engine) : Bool :=
  calls = [(.startAll, 20), (.cancel, 5), (.startAll, 0)] && w.now = 20 &&
    w.members.toList.all fun stack => stack.controller.slots.toList.map (·.state) = states

/-- The theorem for the front there, where the cache is being stopped in one run and has failed in the
other. -/
theorem isolated_stall : stall.Built ∧ slowCache.Fresh ∧ noCache.Fresh ∧
    slowCache.store.mode = .serving 0 ∧ slowCache.AlikeBut ⟨1, by decide⟩ noCache ∧
    (∀ s, (slowCache.engine.script (stall.id s)).probeDelay = 0 ∧
      (noCache.engine.script (stall.id s)).probeDelay = 0) ∧
    (∀ s, (slowCache.engine.script (stall.id s)).stopFault = none ∧
      (noCache.engine.script (stall.id s)).stopFault = none) ∧
    ¬ stall.DependsOn ⟨2, by decide⟩ ⟨1, by decide⟩ ∧
    ∃ y z : Setting Engine.Scripted.engine stall,
      Steers slowCache.setting [(.startAll, 20), (.cancel, 5), (.startAll, 0)] y ∧
      Steers noCache.setting [(.startAll, 20), (.cancel, 5), (.startAll, 0)] z ∧
      y.now = 20 ∧ z.now = 20 ∧ y.world.Idle ∧ z.world.Idle ∧
      y.controller.slots.toList.map (·.state) = [.ready, .stopping, .stopping] ∧
      z.controller.slots.toList.map (·.state) = [.ready, .failed, .stopping] ∧
      SameOf ⟨2, by decide⟩ y z := by
  have fresh : slowCache.Fresh := ⟨⟨default, rfl⟩, rfl, ⟨0, rfl⟩, rfl, rfl⟩
  have fresh' : noCache.Fresh := ⟨⟨default, rfl⟩, rfl, ⟨0, rfl⟩, rfl, rfl⟩
  have alike : slowCache.AlikeBut ⟨1, by decide⟩ noCache := ⟨rfl, rfl, rfl, rfl, by decide +kernel⟩
  have probes : ∀ s, (slowCache.engine.script (stall.id s)).probeDelay = 0 ∧
      (noCache.engine.script (stall.id s)).probeDelay = 0 := by decide +kernel
  have faults : ∀ s, (slowCache.engine.script (stall.id s)).stopFault = none ∧
      (noCache.engine.script (stall.id s)).stopFault = none := by decide +kernel
  have needs : ¬ stall.DependsOn ⟨2, by decide⟩ ⟨1, by decide⟩ := by
    intro h
    have unneeded : ∀ s : Fin stall.size, ⟨1, by decide⟩ ∉ stall.dependencies s := by decide +kernel
    cases h with
    | single h | tail _ h => exact unneeded _ h
  obtain ⟨calls, y, run, idle, shown⟩ := exists_steers Engine.Scripted.answering fresh.opening 60
    stallSteers (showsCache [.ready, .stopping, .stopping]) (by decide +kernel)
  obtain ⟨calls', z, run', idle', shown'⟩ := exists_steers Engine.Scripted.answering fresh'.opening 60
    stallSteers (showsCache [.ready, .failed, .stopping]) (by decide +kernel)
  simp only [showsCache, world, stack, Bool.and_eq_true, decide_eq_true_iff, List.all_cons,
    List.all_nil, Bool.and_true] at shown shown'
  obtain ⟨⟨rfl, shownow⟩, states⟩ := shown
  obtain ⟨⟨rfl, shownow'⟩, states'⟩ := shown'
  have now : y.now = 20 := of_decide_eq_true shownow
  have now' : z.now = 20 := of_decide_eq_true shownow'
  exact ⟨stall_built, fresh, fresh', rfl, alike, probes, faults, needs, y, z, run, run', now, now', idle,
    idle', states, states', run.isolated stall_built fresh fresh' rfl alike probes faults (by decide)
      needs run' (now'.trans now.symm) idle idle'⟩

end Setting

end Simulation

end Bringup
