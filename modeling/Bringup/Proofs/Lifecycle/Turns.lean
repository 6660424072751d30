import Bringup.Lifecycle.Step
import Bringup.Proofs.Lifecycle.Writing

/-!
# Turns of jobs

Everything a job can do in one step, told once. A turn takes a job from one phase to the next,
leaves a new slot for the service it works for, and may touch one launch beside itself. `StartTurn`,
`StopTurn` and `LaunchTurn` list the turns of the three kinds of job with their guards and with what
they show to the outside; `Controller.after` says what is left of the controller.

Every step of a job is a turn (`Controller.turnsTo_of_step`), so an invariant of the jobs is proved by
cases on a turn. What is read of a controller after a turn is collected at the end.
-/

namespace Bringup.Lifecycle

/-! ## Slots -/

namespace Slot

/-- The slot after a move that is allowed. -/
def moved (slot : Slot) (now : Nat) (target : ServiceState) : Slot :=
  { slot with
    state := target
    published := target
    transitions := slot.transitions ++ [⟨slot.state, target, now⟩] }

/-- The slot once its service is starting. -/
def entered (slot : Slot) (now : Nat) : Slot := { slot.moved now .starting with lastError := none }

/-- The slot after its service left the state of starting; any other state stays. -/
def leaveStarting (slot : Slot) (now : Nat) (target : ServiceState) (error : Option Error) : Slot :=
  if slot.state = .starting then
    { slot.moved now target with lastError := error.or slot.lastError }
  else slot

/-- The slot with an error, where its service can be started. -/
def recordIfStartable (slot : Slot) (error : Error) : Slot :=
  if slot.state.isStartable then slot.record error else slot

theorem move?_eq_moved {slot : Slot} {now : Nat} {target : ServiceState}
    (h : slot.state.canMoveTo target) : slot.move? now target = some (slot.moved now target) := by
  simp [move?, moved, h]

theorem progress_settled_iff {slot : Slot} :
    slot.progress.settled ↔ slot.published = .ready ∨ slot.claims = 0 := by
  rw [Progress.settled, Bool.or_eq_true, decide_eq_true_iff, decide_eq_true_iff]
  rfl

end Slot

/-! ## What the jobs do -/

/-- What a turn of a job does to a launch. -/
inductive Aside where
  | nothing
  /-- Creates a launch. -/
  | launches
  /-- Takes what the launch returned. -/
  | takes (launch : JobId)
  /-- Gives the launch up. -/
  | leaves (launch : JobId)
  deriving DecidableEq

namespace Verdict

/-- Where the verdict on a start moves the service. -/
def target : Verdict → ServiceState
  | .ready => .ready
  | .failed _ => .failed
  | .cancelled _ => .stopping

/-- What the verdict on a start of a service records. -/
def error (service : ServiceId) : Verdict → Option Error
  | .ready => none
  | .failed error => some error
  | .cancelled _ => some (.cancelled service)

/-- The launch that a cancelled start leaves behind. -/
def aside : Verdict → Aside
  | .cancelled (some launch) => .leaves launch
  | _ => .nothing

end Verdict

variable {n : Nat}

namespace StartJob

/-- The slot of the service after the job has given up its claim, if it holds one. -/
def unclaim (job : StartJob n) (slot : Slot) : Slot := if job.claimed then slot.release else slot

/-- The job at its end. -/
def finish (job : StartJob n) : StartJob n := { job with claimed := false, phase := .finished }

/-- The job once it follows another one. -/
def follow (job : StartJob n) : StartJob n := { job with claimed := false, phase := .following }

/-- The job in another phase. -/
def goTo (job : StartJob n) (phase : StartPhase n) : StartJob n := { job with phase }

/-- The job that waits for the dependencies that are left. -/
def await (job : StartJob n) (dependencies : List (Fin n)) : StartJob n :=
  job.goTo (if dependencies = [] then .entering else .awaiting dependencies)

end StartJob

namespace Controller

variable {t : Topology} (c : Controller t) (now : Nat) (id : JobId)

/-- The phase after an attempt at which the container was not ready. -/
def retryPhase (s : Fin t.size) (handle : Container.Handle) (attempt : UInt32) :
    StartPhase t.size :=
  let policy := c.config.retry
  if attempt < policy.maxAttempts then
    .pausing handle (attempt + 1) (now + (policy.delayFor (attempt - 1)).ceilMillis)
  else .concluding (.failed (.probeTimeout (t.id s) policy.maxAttempts))

theorem retryPhase_cases (s : Fin t.size) (handle : Container.Handle) (attempt : UInt32) :
    (attempt < c.config.retry.maxAttempts ∧
      ∃ deadline, c.retryPhase now s handle attempt = .pausing handle (attempt + 1) deadline) ∨
    (¬ attempt < c.config.retry.maxAttempts ∧ c.retryPhase now s handle attempt
      = .concluding (.failed (.probeTimeout (t.id s) c.config.retry.maxAttempts))) := by
  unfold retryPhase
  dsimp only
  split
  next h => exact .inl ⟨h, _, rfl⟩
  next h => exact .inr ⟨h, rfl⟩

/-- The question for the first of the volumes to bind. -/
def askAttach (s : Fin t.size) (volume : Volume) : Effect :=
  .asks id (.volume (.attach volume.id (t.id s)))

end Controller

open Controller in
/-- A turn of a start job: what happens, the job afterwards, the slot of its service afterwards,
what it does to a launch, and what it shows. -/
inductive StartTurn {t : Topology} (c : Controller t) (now : Nat) (id : JobId)
    (job : StartJob t.size) :
    Action → StartJob t.size → Slot → Aside → List Effect → Prop where
  /-- The service can be started: the job goes on to its dependencies. -/
  | arrive (hp : job.phase = .arriving) (hs : (c.slot job.service).state.isStartable) :
    StartTurn c now id job (.run id) (job.await (t.dependencies job.service))
      (c.slot job.service) .nothing []
  /-- The service cannot be started: the job follows whoever starts it. -/
  | follow (hp : job.phase = .arriving ∨ job.phase = .entering ∧ c.isCancelled job.run = false)
    (hs : ¬ (c.slot job.service).state.isStartable) :
    StartTurn c now id job (.run id) job.follow (job.unclaim (c.slot job.service)) .nothing []
  | cease (hp : job.phase = .following)
    (hs : c.isCancelled job.run ∨ (c.slot job.service).progress.settled) :
    StartTurn c now id job (.run id) job.finish (job.unclaim (c.slot job.service)) .nothing []
  | pass (hp : job.phase = .awaiting []) :
    StartTurn c now id job (.run id) (job.goTo .entering) (c.slot job.service) .nothing []
  /-- The run ended while the job waited for a dependency. -/
  | giveUp {d : Fin t.size} {rest : List (Fin t.size)} (hp : job.phase = .awaiting (d :: rest))
    (hc : c.isCancelled job.run) :
    StartTurn c now id job (.run id) (job.goTo (.refusing (.cancelled (t.id job.service))))
      (c.slot job.service) .nothing []
  /-- The dependency is ready. -/
  | accept {d : Fin t.size} {rest : List (Fin t.size)} (hp : job.phase = .awaiting (d :: rest))
    (hc : c.isCancelled job.run = false) (hd : (c.slot d).published = .ready) :
    StartTurn c now id job (.run id) (job.await rest) (c.slot job.service) .nothing []
  /-- The dependency is settled and not ready. -/
  | decline {d : Fin t.size} {rest : List (Fin t.size)} (hp : job.phase = .awaiting (d :: rest))
    (hc : c.isCancelled job.run = false) (hd : (c.slot d).published ≠ .ready)
    (hn : (c.slot d).claims = 0) :
    StartTurn c now id job (.run id)
      (job.goTo (.refusing (.dependencyFailed (t.id job.service) (t.id d))))
      (c.slot job.service) .nothing []
  | refuse {error : Error} (hp : job.phase = .refusing error) :
    StartTurn c now id job (.run id) job.finish
      (job.unclaim ((c.slot job.service).recordIfStartable error)) .nothing []
  /-- The run ended before the service was moved to starting. -/
  | forgo (hp : job.phase = .entering) (hc : c.isCancelled job.run) :
    StartTurn c now id job (.run id) job.finish
      (job.unclaim ((c.slot job.service).recordIfStartable (.cancelled (t.id job.service))))
      .nothing []
  /-- The service moves to starting, and its first volume is asked for. -/
  | enter {volume : Volume} {rest : List Volume} (hp : job.phase = .entering)
    (hc : c.isCancelled job.run = false) (hs : (c.slot job.service).state.isStartable)
    (hv : t.volumesOf job.service = volume :: rest) :
    StartTurn c now id job (.run id) (job.goTo (.attaching (volume :: rest)))
      ((c.slot job.service).entered now) .nothing [askAttach id job.service volume]
  /-- The service has no volumes and is launched at once. -/
  | enterBare (hp : job.phase = .entering) (hc : c.isCancelled job.run = false)
    (hs : (c.slot job.service).state.isStartable) (hv : t.volumesOf job.service = []) :
    StartTurn c now id job (.run id) (job.goTo (.launching c.jobs.size))
      ((c.slot job.service).entered now) .launches []
  /-- The run ended during the launch. -/
  | abandon {launch : JobId} (hp : job.phase = .launching launch) (hc : c.isCancelled job.run) :
    StartTurn c now id job (.run id) (job.goTo (.concluding (.cancelled (some launch))))
      (c.slot job.service) .nothing []
  | collect {launch : JobId} {l : Launch t.size} {handle : Container.Handle}
    (hp : job.phase = .launching launch) (hc : c.isCancelled job.run = false)
    (hl : c.jobs[launch]? = some (.launch l)) (hr : l.phase = .returned (.ok handle)) :
    StartTurn c now id job (.run id) (job.goTo (.recording handle)) (c.slot job.service)
      (.takes launch) []
  /-- The launch came to nothing. -/
  | lose {launch : JobId} {l : Launch t.size} {error : Container.Error}
    (hp : job.phase = .launching launch) (hc : c.isCancelled job.run = false)
    (hl : c.jobs[launch]? = some (.launch l)) (hr : l.phase = .returned (.error error)) :
    StartTurn c now id job (.run id)
      (job.goTo (.concluding (.failed (.startFailed (t.id job.service) error))))
      (c.slot job.service) (.takes launch) []
  | record {handle : Container.Handle} (hp : job.phase = .recording handle)
    (hs : (c.slot job.service).state = .starting) :
    StartTurn c now id job (.run id) (job.goTo (.asking handle 1))
      { c.slot job.service with handle := some handle } .nothing []
  /-- The service left the state of starting before its container came. -/
  | discard {handle : Container.Handle} (hp : job.phase = .recording handle)
    (hs : (c.slot job.service).state ≠ .starting) :
    StartTurn c now id job (.run id) (job.goTo (.discarding handle (c.beginHalt now)))
      (c.slot job.service) .nothing [c.askStop id handle]
  | ask {handle : Container.Handle} {attempt : UInt32} (hp : job.phase = .asking handle attempt) :
    StartTurn c now id job (.run id) (job.goTo (.probing handle attempt)) (c.slot job.service)
      .nothing [.asks id (.container (.probe handle))]
  | conclude {verdict : Verdict} (hp : job.phase = .concluding verdict) :
    StartTurn c now id job (.run id) job.finish
      (job.unclaim ((c.slot job.service).leaveStarting now verdict.target
        (verdict.error (t.id job.service)))) verdict.aside []
  | heed (hp : (∃ handle attempt deadline, job.phase = .pausing handle attempt deadline) ∨
      ∃ handle attempt, job.phase = .asking handle attempt) (hc : c.isCancelled job.run) :
    StartTurn c now id job (.heed id) (job.goTo (.concluding (.cancelled none)))
      (c.slot job.service) .nothing []
  | heedProbe {handle : Container.Handle} {attempt : UInt32}
    (hp : job.phase = .probing handle attempt) (hc : c.isCancelled job.run) :
    StartTurn c now id job (.heed id) (job.goTo (.concluding (.cancelled none)))
      (c.slot job.service) .nothing [.withdraws id]
  | wake {handle : Container.Handle} {attempt : UInt32} {deadline : Nat}
    (hp : job.phase = .pausing handle attempt deadline) (hd : deadline ≤ now) :
    StartTurn c now id job (.timeout id) (job.goTo (.asking handle attempt)) (c.slot job.service)
      .nothing []
  /-- The container to discard has not stopped in time. -/
  | overrun {handle : Container.Handle} {halt : Halt} (hp : job.phase = .discarding handle halt)
    (hh : halt.timedOut now) :
    StartTurn c now id job (.timeout id) (job.goTo (.discarding handle .killing))
      (c.slot job.service) .nothing [.withdraws id, askKill id handle]
  /-- A volume is bound, and there are more. -/
  | bind {volume next : Volume} {rest : List Volume} {answer : Volume.Answer}
    (hp : job.phase = .attaching (volume :: next :: rest)) :
    StartTurn c now id job (.answer id (.volume (.ok answer)))
      (job.goTo (.attaching (next :: rest))) (c.slot job.service) .nothing
      [askAttach id job.service next]
  /-- The last volume is bound. -/
  | bindLast {volume : Volume} {answer : Volume.Answer} (hp : job.phase = .attaching [volume]) :
    StartTurn c now id job (.answer id (.volume (.ok answer)))
      (job.goTo (.launching c.jobs.size)) (c.slot job.service) .launches []
  | miss {volume : Volume} {rest : List Volume} {error : Volume.BindingError}
    (hp : job.phase = .attaching (volume :: rest)) :
    StartTurn c now id job (.answer id (.volume (.error error)))
      (job.goTo (.concluding (.failed (.volume (t.id job.service) error))))
      (c.slot job.service) .nothing []
  | ready {handle : Container.Handle} {attempt : UInt32}
    (hp : job.phase = .probing handle attempt) :
    StartTurn c now id job (.answer id (.container (.probe .ready)))
      (job.goTo (.concluding .ready)) (c.slot job.service) .nothing []
  | retry {handle : Container.Handle} {attempt : UInt32} {probe : Container.Probe}
    (hp : job.phase = .probing handle attempt) (hr : probe ≠ .ready) :
    StartTurn c now id job (.answer id (.container (.probe probe)))
      (job.goTo (c.retryPhase now job.service handle attempt)) (c.slot job.service) .nothing []
  /-- The halt of the discarded container is over. -/
  | discarded {handle : Container.Handle} {halt : Halt} {reply : Reply}
    (hp : job.phase = .discarding handle halt) (hr : halt.answered reply = some .over) :
    StartTurn c now id job (.answer id reply) job.finish (job.unclaim (c.slot job.service))
      .nothing []
  | kill {handle : Container.Handle} {halt : Halt} {reply : Reply}
    (hp : job.phase = .discarding handle halt) (hr : halt.answered reply = some .kill) :
    StartTurn c now id job (.answer id reply) (job.goTo (.discarding handle .killing))
      (c.slot job.service) .nothing [askKill id handle]

namespace Controller

variable {t : Topology} (c : Controller t) (now : Nat) (id : JobId)

/-- The phase of a stop job that has volumes left to unbind. -/
def detachPhase : List Volume → StopPhase
  | [] => .retiring
  | volume :: rest => .detaching (volume :: rest)

/-- The question for the first of the volumes to unbind. -/
def askDetach : List Volume → List Effect
  | [] => []
  | volume :: _ => [.asks id (.volume (.detach volume.id))]

/-- The phase of a stop job that has taken its service out of use. -/
def takenPhase (s : Fin t.size) : Option Container.Handle → StopPhase
  | some handle => .halting handle (c.beginHalt now)
  | none => detachPhase (t.volumesOf s)

/-- The question with which a stop job goes on. -/
def askTaken (s : Fin t.size) : Option Container.Handle → List Effect
  | some handle => [c.askStop id handle]
  | none => askDetach id (t.volumesOf s)

end Controller

open Controller in
/-- A turn of a stop job: what happens, the phase afterwards, the slot of the service afterwards, and
what it shows. -/
inductive StopTurn {t : Topology} (c : Controller t) (now : Nat) (id : JobId)
    (job : StopJob t.size) : Action → StopPhase → Slot → List Effect → Prop where
  | go (hp : job.phase = .awaiting []) :
    StopTurn c now id job (.run id) .taking (c.slot job.service) []
  /-- One of the jobs it waits for has finished. -/
  | pass {other : JobId} {rest : List JobId} (hp : job.phase = .awaiting (other :: rest))
    (hf : c.isFinished other) :
    StopTurn c now id job (.run id) (.awaiting rest) (c.slot job.service) []
  | idle (hp : job.phase = .taking) (hs : (c.slot job.service).state = .stopped) :
    StopTurn c now id job (.run id) .finished (c.slot job.service) []
  /-- A service that was never started is stopped at once. -/
  | skip (hp : job.phase = .taking) (hs : (c.slot job.service).state = .pending) :
    StopTurn c now id job (.run id) (detachPhase (t.volumesOf job.service))
      ((c.slot job.service).moved now .stopped) (askDetach id (t.volumesOf job.service))
  | take (hp : job.phase = .taking)
    (hs : (c.slot job.service).state = .starting ∨ (c.slot job.service).state = .ready) :
    StopTurn c now id job (.run id) (c.takenPhase now job.service (c.slot job.service).handle)
      { (c.slot job.service).moved now .stopping with handle := none }
      (c.askTaken id job.service (c.slot job.service).handle)
  /-- The state stays, and only the container is taken. -/
  | takeLeft (hp : job.phase = .taking)
    (hs : (c.slot job.service).state = .stopping ∨ (c.slot job.service).state = .failed) :
    StopTurn c now id job (.run id) (c.takenPhase now job.service (c.slot job.service).handle)
      { c.slot job.service with handle := none }
      (c.askTaken id job.service (c.slot job.service).handle)
  | retire (hp : job.phase = .retiring) (hs : (c.slot job.service).state = .stopping) :
    StopTurn c now id job (.run id) .finished ((c.slot job.service).moved now .stopped) []
  | leave (hp : job.phase = .retiring) (hs : (c.slot job.service).state ≠ .stopping) :
    StopTurn c now id job (.run id) .finished (c.slot job.service) []
  /-- The container has not stopped in time. -/
  | overrun {handle : Container.Handle} {halt : Halt} (hp : job.phase = .halting handle halt)
    (hh : halt.timedOut now) :
    StopTurn c now id job (.timeout id) (.halting handle .killing) (c.slot job.service)
      [.withdraws id, askKill id handle]
  | halted {handle : Container.Handle} {halt : Halt} {reply : Reply}
    (hp : job.phase = .halting handle halt) (hr : halt.answered reply = some .over) :
    StopTurn c now id job (.answer id reply) (detachPhase (t.volumesOf job.service))
      (c.slot job.service) (askDetach id (t.volumesOf job.service))
  | kill {handle : Container.Handle} {halt : Halt} {reply : Reply}
    (hp : job.phase = .halting handle halt) (hr : halt.answered reply = some .kill) :
    StopTurn c now id job (.answer id reply) (.halting handle .killing) (c.slot job.service)
      [askKill id handle]
  /-- A volume is unbound, or cannot be. -/
  | unbind {volume : Volume} {rest : List Volume}
    {result : Except Volume.BindingError Volume.Answer}
    (hp : job.phase = .detaching (volume :: rest)) :
    StopTurn c now id job (.answer id (.volume result)) (detachPhase rest) (c.slot job.service)
      (askDetach id rest)

open Controller in
/-- A turn of a launch: what happens, the phase afterwards, and what it shows. -/
inductive LaunchTurn {t : Topology} (c : Controller t) (now : Nat) (id : JobId)
    (job : Launch t.size) : Action → LaunchPhase → List Effect → Prop where
  | call (hp : job.phase = .calling) :
    LaunchTurn c now id job (.run id) .running
      [.asks id (.container (.start (t.service job.service) (t.volumesOf job.service)))]
  /-- Nobody takes the container any more. -/
  | halt {handle : Container.Handle} (hp : job.phase = .returned (.ok handle))
    (ho : job.orphaned) :
    LaunchTurn c now id job (.run id) (.halting handle (c.beginHalt now)) [c.askStop id handle]
  | drop {error : Container.Error} (hp : job.phase = .returned (.error error))
    (ho : job.orphaned) : LaunchTurn c now id job (.run id) .finished []
  | overrun {handle : Container.Handle} {halt : Halt} (hp : job.phase = .halting handle halt)
    (hh : halt.timedOut now) :
    LaunchTurn c now id job (.timeout id) (.halting handle .killing)
      [.withdraws id, askKill id handle]
  | return {result : Except Container.Error Container.Handle} (hp : job.phase = .running) :
    LaunchTurn c now id job (.answer id (.container (.start result))) (.returned result) []
  | halted {handle : Container.Handle} {halt : Halt} {reply : Reply}
    (hp : job.phase = .halting handle halt) (hr : halt.answered reply = some .over) :
    LaunchTurn c now id job (.answer id reply) .finished []
  | kill {handle : Container.Handle} {halt : Halt} {reply : Reply}
    (hp : job.phase = .halting handle halt) (hr : halt.answered reply = some .kill) :
    LaunchTurn c now id job (.answer id reply) (.halting handle .killing) [askKill id handle]

/-! ## What is left of the controller -/

namespace Controller

variable {t : Topology} (c : Controller t)

/-- Ends a launch whose result was taken. -/
def endLaunch (launch : JobId) : Controller t :=
  match c.jobs[launch]? with
  | some (.launch value) => c.setJob launch (.launch { value with phase := .finished })
  | _ => c

/-- What a turn does to a launch. -/
def aside (s : Fin t.size) : Aside → Controller t
  | .nothing => c
  | .launches => c.spawn [.launch { service := s }]
  | .takes launch => c.endLaunch launch
  | .leaves launch => c.orphan launch

/-- The controller after a turn of a job for a service. -/
def after (id : JobId) (job : Job t.size) (s : Fin t.size) (slot : Slot) (aside : Aside) :
    Controller t :=
  ((c.aside s aside).setSlot s slot).setJob id job

end Controller

/-- The job that an action is about. -/
def Action.job? : Action → Option JobId
  | .run job | .heed job | .timeout job | .answer job _ => some job
  | _ => none

/-- A turn of a job of any kind. -/
inductive Turn {t : Topology} (c : Controller t) (now : Nat) (id : JobId) :
    Job t.size → Action → Job t.size → Slot → Aside → List Effect → Prop where
  | start {job job' : StartJob t.size} {action : Action} {slot : Slot} {aside : Aside}
    {effects : List Effect} (turn : StartTurn c now id job action job' slot aside effects) :
    Turn c now id (.start job) action (.start job') slot aside effects
  | stop {job : StopJob t.size} {phase : StopPhase} {action : Action} {slot : Slot}
    {effects : List Effect} (turn : StopTurn c now id job action phase slot effects) :
    Turn c now id (.stop job) action (.stop { job with phase }) slot .nothing effects
  | launch {job : Launch t.size} {phase : LaunchPhase} {action : Action}
    {effects : List Effect} (turn : LaunchTurn c now id job action phase effects) :
    Turn c now id (.launch job) action (.launch { job with phase }) (c.slot job.service) .nothing
      effects

/-! ## Reading after a turn -/

namespace Controller

variable {t : Topology} {c : Controller t} {id : JobId} {new : Job t.size} {s : Fin t.size}
  {slot : Slot} {aside : Aside}

theorem aside_eq (aside : Aside) : (c.aside s aside).slots = c.slots ∧
    (c.aside s aside).config = c.config ∧ (c.aside s aside).currentRun = c.currentRun ∧
    (c.aside s aside).cancelledRuns = c.cancelledRuns ∧ (c.aside s aside).calls = c.calls := by
  cases aside with
  | nothing | launches => exact ⟨rfl, rfl, rfl, rfl, rfl⟩
  | takes launch =>
      simp only [Controller.aside, endLaunch]
      split <;> exact ⟨rfl, rfl, rfl, rfl, rfl⟩
  | leaves launch =>
      simp only [Controller.aside, orphan]
      split <;> exact ⟨rfl, rfl, rfl, rfl, rfl⟩

@[simp] theorem config_after : (c.after id new s slot aside).config = c.config :=
  (aside_eq aside).2.1

@[simp] theorem currentRun_after : (c.after id new s slot aside).currentRun = c.currentRun :=
  (aside_eq aside).2.2.1

@[simp] theorem cancelledRuns_after :
    (c.after id new s slot aside).cancelledRuns = c.cancelledRuns :=
  (aside_eq aside).2.2.2.1

@[simp] theorem calls_after : (c.after id new s slot aside).calls = c.calls :=
  (aside_eq aside).2.2.2.2

theorem slot_aside (s' : Fin t.size) : (c.aside s aside).slot s' = c.slot s' := by
  simp [Controller.slot, (aside_eq aside).1]

@[simp] theorem slot_after_self : (c.after id new s slot aside).slot s = slot := by
  simp [after]

theorem slot_after_of_ne {s' : Fin t.size} (h : s' ≠ s) :
    (c.after id new s slot aside).slot s' = c.slot s' := by
  rw [after, slot_setJob, slot_setSlot_of_ne _ h, slot_aside]

/-- A slot after a turn: the one of the service that the turn was for, or one that it left alone. -/
theorem slot_after_cases (s' : Fin t.size) :
    (s' = s ∧ (c.after id new s slot aside).slot s' = slot) ∨
      (s' ≠ s ∧ (c.after id new s slot aside).slot s' = c.slot s') := by
  by_cases h : s' = s
  · subst h
    exact .inl ⟨rfl, slot_after_self⟩
  · exact .inr ⟨h, slot_after_of_ne h⟩

theorem size_jobs_aside_le : c.jobs.size ≤ (c.aside s aside).jobs.size := by
  cases aside with
  | nothing => exact Nat.le_refl _
  | launches => simp [Controller.aside]
  | takes launch =>
      simp only [Controller.aside, endLaunch]
      split <;> simp
  | leaves launch =>
      simp only [Controller.aside, orphan]
      split <;> simp

theorem size_jobs_le_after : c.jobs.size ≤ (c.after id new s slot aside).jobs.size := by
  simpa [after] using size_jobs_aside_le

theorem jobs_after_self (h : (id : Nat) < c.jobs.size) :
    (c.after id new s slot aside).jobs[id]? = some new :=
  jobs_setJob_self _ (Nat.lt_of_lt_of_le h size_jobs_aside_le) new

theorem endLaunch_eq {launch : JobId} {l : Launch t.size}
    (h : c.jobs[launch]? = some (.launch l)) :
    c.endLaunch launch = c.setJob launch (.launch { l with phase := .finished }) := by
  simp [endLaunch, h]

theorem orphan_eq {launch : JobId} {l : Launch t.size} (h : c.jobs[launch]? = some (.launch l)) :
    c.orphan launch = c.setJob launch (.launch { l with orphaned := true }) := by
  simp [orphan, h]

/-- A turn leaves every job but its own alone, except that it may create, take or give up a
launch. -/
theorem jobs_aside_cases {i : Nat} {job : Job t.size} (h : (c.aside s aside).jobs[i]? = some job) :
    c.jobs[i]? = some job ∨
    (aside = .launches ∧ i = c.jobs.size ∧ job = .launch { service := s }) ∨
    (∃ l, c.jobs[i]? = some (.launch l) ∧
      (aside = .takes i ∧ job = .launch { l with phase := .finished } ∨
        aside = .leaves i ∧ job = .launch { l with orphaned := true })) := by
  cases aside with
  | nothing => exact .inl h
  | launches =>
      rw [Controller.aside] at h
      by_cases hi : i < c.jobs.size
      · rw [jobs_spawn_of_lt _ hi] at h
        exact .inl h
      · have hs := lt_size_of_job h
        rw [size_jobs_spawn, List.length_singleton] at hs
        have he : i = c.jobs.size := by omega
        rw [jobs_spawn_of_ge _ (by omega), he, Nat.sub_self] at h
        exact .inr (.inl ⟨rfl, he, by simpa using h.symm⟩)
  | takes launch =>
      simp only [Controller.aside, endLaunch] at h
      split at h
      next l hl =>
        by_cases hi : i = launch
        · subst hi
          rw [jobs_setJob_self _ (lt_size_of_job hl)] at h
          exact .inr (.inr ⟨l, hl, .inl ⟨rfl, by simpa using h.symm⟩⟩)
        · rw [jobs_setJob_of_ne _ hi] at h
          exact .inl h
      next => exact .inl h
  | leaves launch =>
      simp only [Controller.aside, orphan] at h
      split at h
      next l hl =>
        by_cases hi : i = launch
        · subst hi
          rw [jobs_setJob_self _ (lt_size_of_job hl)] at h
          exact .inr (.inr ⟨l, hl, .inr ⟨rfl, by simpa using h.symm⟩⟩)
        · rw [jobs_setJob_of_ne _ hi] at h
          exact .inl h
      next => exact .inl h

/-- **What a job looks like after a turn**: it is the one whose turn it was, one that the turn left
alone, or the launch that the turn created, took or gave up. -/
theorem jobs_after_cases {i : Nat} {job : Job t.size} (hid : id < c.jobs.size)
    (h : (c.after id new s slot aside).jobs[i]? = some job) :
    (i = id ∧ job = new) ∨ (i ≠ id ∧ c.jobs[i]? = some job) ∨
    (aside = .launches ∧ i = c.jobs.size ∧ job = .launch { service := s }) ∨
    (i ≠ id ∧ ∃ l, c.jobs[i]? = some (.launch l) ∧
      (aside = .takes i ∧ job = .launch { l with phase := .finished } ∨
        aside = .leaves i ∧ job = .launch { l with orphaned := true })) := by
  by_cases hi : i = id
  · subst hi
    rw [jobs_after_self hid] at h
    exact .inl ⟨rfl, by simpa using h.symm⟩
  · rw [after, jobs_setJob_of_ne _ hi, jobs_setSlot] at h
    rcases jobs_aside_cases h with h | h | h
    · exact .inr (.inl ⟨hi, h⟩)
    · exact .inr (.inr (.inl h))
    · exact .inr (.inr (.inr ⟨hi, h⟩))

/-- A start job after a turn: the one whose turn it was, or one that the turn left alone. -/
theorem start_after_cases {i : Nat} {job : StartJob t.size} (hid : id < c.jobs.size)
    (h : (c.after id new s slot aside).jobs[i]? = some (.start job)) :
    (i = id ∧ new = .start job) ∨ (i ≠ id ∧ c.jobs[i]? = some (.start job)) := by
  rcases jobs_after_cases hid h with ⟨hi, hn⟩ | h | ⟨-, -, hn⟩ | ⟨-, l, -, ⟨-, hn⟩ | ⟨-, hn⟩⟩
  · exact .inl ⟨hi, hn.symm⟩
  · exact .inr h
  all_goals cases hn

/-- A stop job after a turn: the one whose turn it was, or one that the turn left alone. -/
theorem stop_after_cases {i : Nat} {job : StopJob t.size} (hid : id < c.jobs.size)
    (h : (c.after id new s slot aside).jobs[i]? = some (.stop job)) :
    (i = id ∧ new = .stop job) ∨ (i ≠ id ∧ c.jobs[i]? = some (.stop job)) := by
  rcases jobs_after_cases hid h with ⟨hi, hn⟩ | h | ⟨-, -, hn⟩ | ⟨-, l, -, ⟨-, hn⟩ | ⟨-, hn⟩⟩
  · exact .inl ⟨hi, hn.symm⟩
  · exact .inr h
  all_goals cases hn

/-- A start job after the turn of one: the job at its new phase, or one that the turn left alone. -/
theorem start_after_start_cases {i : Nat} {job job' : StartJob t.size} (hid : id < c.jobs.size)
    (h : (c.after id (.start job') s slot aside).jobs[i]? = some (.start job)) :
    (i = id ∧ job' = job) ∨ (i ≠ id ∧ c.jobs[i]? = some (.start job)) :=
  (start_after_cases hid h).imp_left fun h => ⟨h.1, Job.start.inj h.2⟩

/-- The turn of a job of another kind leaves the start jobs alone. -/
theorem start_of_after {i : Nat} {job : StartJob t.size} (hid : id < c.jobs.size)
    (hn : ∀ job, new ≠ .start job)
    (h : (c.after id new s slot aside).jobs[i]? = some (.start job)) :
    c.jobs[i]? = some (.start job) :=
  ((start_after_cases hid h).resolve_left fun h => hn job h.2).2

/-- The turn of a job of another kind leaves the stop jobs alone. -/
theorem stop_of_after {i : Nat} {job : StopJob t.size} (hid : id < c.jobs.size)
    (hn : ∀ job, new ≠ .stop job)
    (h : (c.after id new s slot aside).jobs[i]? = some (.stop job)) :
    c.jobs[i]? = some (.stop job) :=
  ((stop_after_cases hid h).resolve_left fun h => hn job h.2).2

theorem jobs_after_of_ne {i : Nat} (hi : i ≠ id) (hlt : i < c.jobs.size)
    (ht : aside ≠ .takes i) (hl : aside ≠ .leaves i) :
    (c.after id new s slot aside).jobs[i]? = c.jobs[i]? := by
  rw [after, jobs_setJob_of_ne _ hi, jobs_setSlot]
  cases aside with
  | nothing => rfl
  | launches => exact jobs_spawn_of_lt _ hlt _
  | takes launch =>
      have hne : i ≠ launch := fun e => ht (e ▸ rfl)
      simp only [Controller.aside, endLaunch]
      split
      next => exact jobs_setJob_of_ne _ hne _
      next => rfl
  | leaves launch =>
      have hne : i ≠ launch := fun e => hl (e ▸ rfl)
      simp only [Controller.aside, orphan]
      split
      next => exact jobs_setJob_of_ne _ hne _
      next => rfl

/-- A turn leaves the jobs alone whose turn it is not, unless they are launches. -/
theorem other_after_of_ne {i : Nat} {job : Job t.size} (hi : i ≠ id) (h : c.jobs[i]? = some job)
    (hl : ∀ l, job ≠ .launch l) : (c.after id new s slot aside).jobs[i]? = some job := by
  have hlt := lt_size_of_job h
  by_cases ht : aside = .takes i ∨ aside = .leaves i
  · rw [after, jobs_setJob_of_ne _ hi, jobs_setSlot]
    cases job with
    | launch l => exact absurd rfl (hl l)
    | start | stop => rcases ht with rfl | rfl <;> simp [Controller.aside, endLaunch, orphan, h]
  · rw [jobs_after_of_ne hi hlt (fun e => ht (.inl e)) (fun e => ht (.inr e)), h]

theorem start_after_of_ne {i : Nat} {job : StartJob t.size} (hi : i ≠ id)
    (h : c.jobs[i]? = some (.start job)) :
    (c.after id new s slot aside).jobs[i]? = some (.start job) :=
  other_after_of_ne hi h fun _ he => by cases he

theorem stop_after_of_ne {i : Nat} {job : StopJob t.size} (hi : i ≠ id)
    (h : c.jobs[i]? = some (.stop job)) :
    (c.after id new s slot aside).jobs[i]? = some (.stop job) :=
  other_after_of_ne hi h fun _ he => by cases he

theorem jobs_after_launches (hid : id < c.jobs.size) :
    (c.after id new s slot .launches).jobs[c.jobs.size]? = some (.launch { service := s }) := by
  rw [after, jobs_setJob_of_ne _ (Nat.ne_of_gt hid), jobs_setSlot, Controller.aside,
    jobs_spawn_of_ge _ (Nat.le_refl _), Nat.sub_self]
  rfl

theorem jobs_after_takes {launch : Nat} {l : Launch t.size} (hne : launch ≠ id)
    (hl : c.jobs[launch]? = some (.launch l)) :
    (c.after id new s slot (.takes launch)).jobs[launch]?
      = some (.launch { l with phase := .finished }) := by
  rw [after, jobs_setJob_of_ne _ hne, jobs_setSlot, Controller.aside, endLaunch_eq hl,
    jobs_setJob_self _ (lt_size_of_job hl)]

theorem jobs_after_leaves {launch : Nat} {l : Launch t.size} (hne : launch ≠ id)
    (hl : c.jobs[launch]? = some (.launch l)) :
    (c.after id new s slot (.leaves launch)).jobs[launch]?
      = some (.launch { l with orphaned := true }) := by
  rw [after, jobs_setJob_of_ne _ hne, jobs_setSlot, Controller.aside, orphan_eq hl,
    jobs_setJob_self _ (lt_size_of_job hl)]

/-- A launch after a turn: the one whose turn it was, the one that the turn created, one that the turn
left alone, or one that it took or gave up. -/
theorem launch_after_cases {i : Nat} {l : Launch t.size} (hid : id < c.jobs.size)
    (h : (c.after id new s slot aside).jobs[i]? = some (.launch l)) :
    (i = id ∧ new = .launch l) ∨ (aside = .launches ∧ i = c.jobs.size ∧ l = { service := s }) ∨
    (i ≠ id ∧ ∃ l', c.jobs[i]? = some (.launch l') ∧ l.service = l'.service ∧
      (l = l' ∧ aside ≠ .takes i ∧ aside ≠ .leaves i ∨
        aside = .takes i ∧ l = { l' with phase := .finished } ∨
        aside = .leaves i ∧ l = { l' with orphaned := true })) := by
  by_cases hi : i = id
  · subst hi
    rw [jobs_after_self hid, Option.some.injEq] at h
    exact .inl ⟨rfl, h⟩
  · rcases jobs_after_cases hid h with ⟨he, -⟩ | ⟨-, hl⟩ | ⟨ha, hi, hn⟩ | ⟨-, l', hl, he⟩
    · exact absurd he hi
    · by_cases ht : aside = .takes i
      · subst ht
        rw [jobs_after_takes hi hl, Option.some.injEq, Job.launch.injEq] at h
        exact .inr (.inr ⟨hi, l, hl, rfl, .inr (.inl ⟨rfl, h.symm⟩)⟩)
      · by_cases hn : aside = .leaves i
        · subst hn
          rw [jobs_after_leaves hi hl, Option.some.injEq, Job.launch.injEq] at h
          exact .inr (.inr ⟨hi, l, hl, rfl, .inr (.inr ⟨rfl, h.symm⟩)⟩)
        · exact .inr (.inr ⟨hi, l, hl, rfl, .inl ⟨rfl, ht, hn⟩⟩)
    · exact .inr (.inl ⟨ha, hi, Job.launch.inj hn⟩)
    · rcases he with ⟨ht, he⟩ | ⟨hn, he⟩
      · cases he
        exact .inr (.inr ⟨hi, l', hl, rfl, .inr (.inl ⟨ht, rfl⟩)⟩)
      · cases he
        exact .inr (.inr ⟨hi, l', hl, rfl, .inr (.inr ⟨hn, rfl⟩)⟩)

/-! ### Totals after a turn -/

variable {old : Job t.size} (new s slot) (weight : Job t.size → Nat)

theorem total_after_nothing (hj : c.jobs[id]? = some old) :
    (c.after id new s slot .nothing).total weight + weight old = c.total weight + weight new :=
  total_setJob weight (c := c.setSlot s slot) hj new

theorem total_after_launches (hj : c.jobs[id]? = some old) :
    (c.after id new s slot .launches).total weight + weight old
      = c.total weight + weight new + weight (.launch { service := s }) := by
  have hl : ((c.spawn [.launch { service := s }]).setSlot s slot).jobs[id]? = some old := by
    rw [jobs_setSlot, jobs_spawn_of_lt _ (lt_size_of_job hj), hj]
  have := total_setJob weight hl new
  simp only [total_setSlot, total_spawn, weigh_cons, weigh_nil] at this
  simp only [after, Controller.aside]
  omega

/-- A turn that changes a launch beside the job whose turn it is. -/
theorem total_setJob_setJob {launch : JobId} {l l' : Job t.size} (hne : id ≠ launch)
    (hj : c.jobs[id]? = some old) (hl : c.jobs[launch]? = some l) :
    (((c.setJob launch l').setSlot s slot).setJob id new).total weight + weight old + weight l
      = c.total weight + weight new + weight l' := by
  have h : ((c.setJob launch l').setSlot s slot).jobs[id]? = some old := by
    rw [jobs_setSlot, jobs_setJob_of_ne _ hne, hj]
  have h₁ := total_setJob weight h new
  have h₂ := total_setJob weight hl l'
  rw [total_setSlot] at h₁
  omega

theorem total_after_takes {launch : JobId} {l : Launch t.size} (hne : id ≠ launch)
    (hj : c.jobs[id]? = some old) (hl : c.jobs[launch]? = some (.launch l)) :
    (c.after id new s slot (.takes launch)).total weight + weight old + weight (.launch l)
      = c.total weight + weight new + weight (.launch { l with phase := .finished }) := by
  rw [after, Controller.aside, endLaunch_eq hl]
  exact total_setJob_setJob new s slot weight hne hj hl

theorem total_after_leaves {launch : JobId} {l : Launch t.size} (hne : id ≠ launch)
    (hj : c.jobs[id]? = some old) (hl : c.jobs[launch]? = some (.launch l)) :
    (c.after id new s slot (.leaves launch)).total weight + weight old + weight (.launch l)
      = c.total weight + weight new + weight (.launch { l with orphaned := true }) := by
  rw [after, Controller.aside, orphan_eq hl]
  exact total_setJob_setJob new s slot weight hne hj hl

end Controller

end Bringup.Lifecycle
