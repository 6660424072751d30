import Bringup.Proofs.Engine.Answering
import Bringup.Proofs.Lifecycle.Errands
import Bringup.Proofs.Lifecycle.Launches

/-!
# What jobs wait for

A job that cannot take a step of its own waits for something: for the engine or the store to answer,
for a moment in time, or for another job. `StartBlock`, `StopBlock` and `LaunchBlock` list the waits
of the three kinds of job.

What a job waits for the engine to do is told by its phase (`Job.Expects`), like what it waits for the
store to do (`Job.errand?`): each turn asks the engine for just what the job waits for afterwards
(`Turn.asking`). And a job never refuses what it waits for: the answer of the engine in its kind
(`step_of_expects`), any answer of the store (`step_of_errand`), and the moment at which it is due
(`step_of_deadline`).
-/

namespace Bringup.Lifecycle

open Container (Handle)

variable {t : Topology} {n : Nat}

/-! ## What a job waits for the engine to do -/

/-- The halt of the container waits for the answer to the call. -/
def Halt.Expects (handle : Handle) : Halt → Container.Call → Prop
  | .stopping _, .stop handle' _ => handle' = handle
  | .killing, .kill handle' => handle' = handle
  | _, _ => False

/-- The start waits for the answer to the call. -/
def StartPhase.Expects : StartPhase n → Container.Call → Prop
  | .probing handle _, call => call = .probe handle
  | .discarding handle halt, call => halt.Expects handle call
  | _, _ => False

/-- The stop waits for the answer to the call. -/
def StopPhase.Expects : StopPhase → Container.Call → Prop
  | .halting handle halt, call => halt.Expects handle call
  | _, _ => False

/-- The launch waits for the answer to the call. -/
def LaunchPhase.Expects : LaunchPhase → Container.Call → Prop
  | .running, call => ∃ service volumes, call = .start service volumes
  | .halting handle halt, call => halt.Expects handle call
  | _, _ => False

/-- The job waits for the answer of the engine to the call. -/
def Job.Expects : Job n → Container.Call → Prop
  | .start job => job.phase.Expects
  | .stop job => job.phase.Expects
  | .launch job => job.phase.Expects

theorem Halt.exists_expects (handle : Handle) (halt : Halt) : ∃ call, halt.Expects handle call := by
  cases halt with
  | stopping deadline => exact ⟨.stop handle default, rfl⟩
  | killing => exact ⟨.kill handle, rfl⟩

@[simp] theorem StopPhase.not_expects_detachPhase (volumes : List Volume) (call : Container.Call) :
    ¬ (Controller.detachPhase volumes).Expects call := by
  cases volumes <;> exact id

@[simp] theorem StartJob.not_expects_await (job : StartJob n) (dependencies : List (Fin n))
    (call : Container.Call) : ¬ (job.await dependencies).phase.Expects call := by
  rw [StartJob.phase_await]
  split <;> exact id

section Turns

open Controller (askAttach askDetach detachPhase askKill)

variable {c : Controller t} {now : Nat} {id : JobId} {action : Action} {slot : Slot} {aside : Aside}
  {effects : List Effect}

@[simp] theorem StartPhase.not_expects_retryPhase (s : Fin t.size) (handle : Handle)
    (attempt : UInt32) (call : Container.Call) :
    ¬ (c.retryPhase now s handle attempt).Expects call := by
  rcases c.retryPhase_cases now s handle attempt with ⟨-, _, he⟩ | ⟨-, he⟩ <;> rw [he] <;> exact not_false

/-- How a turn of a job leaves the engine. -/
inductive Asking (id : JobId) (action : Action) (old new : Job n) (effects : List Effect) : Prop where
  /-- The job asks the engine, and has withdrawn first what it may have asked before. -/
  | asks {call : Container.Call} {before : List Effect} (hb : before = [] ∨ before = [.withdraws id])
    (he : effects = before ++ [.asks id (.container call)]) (hn : new.Expects call)
  /-- The job withdraws what it asked. -/
  | withdraws (he : effects = [.withdraws id]) (hn : ∀ call, ¬ new.Expects call)
  /-- The engine does not hear of the turn, of which it may be the cause. -/
  | leaves (ha : ∀ asker call, .asks asker (.container call) ∉ effects)
    (hw : ∀ asker, .withdraws asker ∉ effects) (hn : ∀ call, ¬ new.Expects call)
    (ho : (∀ call, ¬ old.Expects call) ∨ ∃ reply, action = .answer id (.container reply))

theorem StartTurn.asking {job job' : StartJob t.size}
    (turn : StartTurn c now id job action job' slot aside effects) :
    Asking id action (.start job) (.start job') effects := by
  have hno {phase : StartPhase t.size} (hp : job.phase = phase)
      (h : ∀ call, ¬ phase.Expects call) (call) : ¬ (Job.start job).Expects call := by
    rw [Job.Expects, hp]
    exact h call
  cases turn with
  | discard hp hs => exact .asks (.inl rfl) rfl rfl
  | ask hp => exact .asks (.inl rfl) rfl rfl
  | overrun hp hh => exact .asks (.inr rfl) rfl rfl
  | kill hp hr => exact .asks (.inl rfl) rfl rfl
  | heedProbe hp hc => exact .withdraws rfl fun _ => not_false
  | ready hp => exact .leaves (by simp) (by simp) (fun _ => not_false) (.inr ⟨_, rfl⟩)
  | retry hp hr =>
      exact .leaves (by simp) (by simp) (StartPhase.not_expects_retryPhase _ _ _) (.inr ⟨_, rfl⟩)
  | @discarded handle halt reply hp hr =>
      refine .leaves (by simp) (by simp) (fun _ => not_false) (.inr ?_)
      cases reply with
      | container reply => exact ⟨reply, rfl⟩
      | volume result => cases halt <;> cases hr
  | arrive hp | accept hp =>
      exact .leaves (by simp) (by simp) (StartJob.not_expects_await _ _)
        (.inl (hno hp fun _ => not_false))
  | follow hp =>
      refine .leaves (by simp) (by simp) (fun _ => not_false) (.inl ?_)
      rcases hp with hp | ⟨hp, -⟩ <;> exact hno hp fun _ => not_false
  | heed hp =>
      refine .leaves (by simp) (by simp) (fun _ => not_false) (.inl ?_)
      rcases hp with ⟨_, _, _, hp⟩ | ⟨_, _, hp⟩ <;> exact hno hp fun _ => not_false
  | cease hp | pass hp | giveUp hp | decline hp | refuse hp | forgo hp | enter hp | enterBare hp
  | abandon hp | collect hp | lose hp | record hp | conclude hp | wake hp | bind hp | bindLast hp
  | miss hp =>
      exact .leaves (by simp [askAttach]) (by simp [askAttach]) (fun _ => not_false)
        (.inl (hno hp fun _ => not_false))

theorem StopTurn.asking {job : StopJob t.size} {phase : StopPhase}
    (turn : StopTurn c now id job action phase slot effects) :
    Asking id action (.stop job) (.stop { job with phase }) effects := by
  have hno {phase : StopPhase} (hp : job.phase = phase)
      (h : ∀ call, ¬ phase.Expects call) (call) : ¬ (Job.stop job).Expects call := by
    rw [Job.Expects, hp]
    exact h call
  have hdetach (volumes : List Volume) (asker : JobId) :
      (∀ call, .asks asker (.container call) ∉ askDetach id volumes) ∧
        .withdraws asker ∉ askDetach id volumes := by
    cases volumes <;> simp [askDetach]
  -- Whether the engine is asked depends on whether there is a container to halt.
  have htaken (hp : job.phase = .taking) : Asking id action (.stop job)
      (.stop { job with phase := c.takenPhase now job.service (c.slot job.service).handle })
      (c.askTaken id job.service (c.slot job.service).handle) := by
    cases (c.slot job.service).handle with
    | some handle => exact .asks (.inl rfl) rfl rfl
    | none =>
        exact .leaves (fun asker => (hdetach _ asker).1) (fun asker => (hdetach _ asker).2)
          (StopPhase.not_expects_detachPhase _) (.inl (hno hp fun _ => not_false))
  cases turn with
  | take hp hs | takeLeft hp hs => exact htaken hp
  | overrun hp hh => exact .asks (.inr rfl) rfl rfl
  | kill hp hr => exact .asks (.inl rfl) rfl rfl
  | skip hp hs =>
      exact .leaves (fun asker => (hdetach _ asker).1) (fun asker => (hdetach _ asker).2)
        (StopPhase.not_expects_detachPhase _) (.inl (hno hp fun _ => not_false))
  | unbind hp =>
      exact .leaves (fun asker => (hdetach _ asker).1) (fun asker => (hdetach _ asker).2)
        (StopPhase.not_expects_detachPhase _) (.inl (hno hp fun _ => not_false))
  | @halted handle halt reply hp hr =>
      refine .leaves (fun asker => (hdetach _ asker).1) (fun asker => (hdetach _ asker).2)
        (StopPhase.not_expects_detachPhase _) (.inr ?_)
      cases reply with
      | container reply => exact ⟨reply, rfl⟩
      | volume result => cases halt <;> cases hr
  | go hp | pass hp | idle hp | retire hp | leave hp =>
      exact .leaves (by simp) (by simp) (fun _ => not_false) (.inl (hno hp fun _ => not_false))

theorem LaunchTurn.asking {l : Launch t.size} {phase : LaunchPhase}
    (turn : LaunchTurn c now id l action phase effects) :
    Asking id action (.launch l) (.launch { l with phase }) effects := by
  have hno {phase : LaunchPhase} (hp : l.phase = phase)
      (h : ∀ call, ¬ phase.Expects call) (call) : ¬ (Job.launch l).Expects call := by
    rw [Job.Expects, hp]
    exact h call
  cases turn with
  | call hp => exact .asks (.inl rfl) rfl ⟨_, _, rfl⟩
  | halt hp ho => exact .asks (.inl rfl) rfl rfl
  | overrun hp hh => exact .asks (.inr rfl) rfl rfl
  | kill hp hr => exact .asks (.inl rfl) rfl rfl
  | drop hp ho => exact .leaves (by simp) (by simp) (fun _ => not_false) (.inl (hno hp fun _ => not_false))
  | «return» hp => exact .leaves (by simp) (by simp) (fun _ => not_false) (.inr ⟨_, rfl⟩)
  | @halted handle halt reply hp hr =>
      refine .leaves (by simp) (by simp) (fun _ => not_false) (.inr ?_)
      cases reply with
      | container reply => exact ⟨reply, rfl⟩
      | volume result => cases halt <;> cases hr

/-- **What a turn asks of the engine** is what the job waits for afterwards. -/
theorem Turn.asking {old new : Job t.size}
    (turn : Turn c now id old action new slot aside effects) : Asking id action old new effects := by
  cases turn with
  | start turn => exact turn.asking
  | stop turn => exact turn.asking
  | launch turn => exact turn.asking

end Turns

/-! ## Nothing that is waited for is refused -/

/-- A halt goes on with every answer to what it asked. -/
theorem Halt.answered_of_expects {handle : Handle} {halt : Halt} {call : Container.Call}
    {reply : Container.Reply} (he : halt.Expects handle call) (hr : call.Takes reply) :
    ∃ next, halt.answered (.container reply) = some next := by
  cases halt with
  | stopping deadline =>
      cases call with
      | stop =>
          cases reply with
          | stop result => cases result <;> exact ⟨_, rfl⟩
          | _ => exact hr.elim
      | _ => exact he.elim
  | killing =>
      cases call with
      | kill =>
          cases reply with
          | kill result => exact ⟨_, rfl⟩
          | _ => exact hr.elim
      | _ => exact he.elim

namespace Controller

variable {c : Controller t} {now : Nat} {id : Nat} {job : Job t.size}

/-- **A job takes every answer of the engine** to what it asked. -/
theorem step_of_expects (hj : c.jobs[id]? = some job) {call : Container.Call}
    {reply : Container.Reply} (he : job.Expects call) (hr : call.Takes reply) :
    ∃ step, c.step now (.answer id (.container reply)) = some step := by
  cases job with
  | start job =>
      obtain ⟨service, run, claimed, phase⟩ := job
      cases phase with
      | probing handle attempt =>
          obtain rfl : call = .probe handle := he
          cases reply with
          | probe status => cases status <;> simp [step, hj, answerStart]
          | _ => exact hr.elim
      | discarding handle halt =>
          obtain ⟨next, hn⟩ := Halt.answered_of_expects he hr
          cases next <;> simp [step, hj, answerStart, hn]
      | _ => exact he.elim
  | stop job =>
      obtain ⟨service, phase⟩ := job
      cases phase with
      | halting handle halt =>
          obtain ⟨next, hn⟩ := Halt.answered_of_expects he hr
          cases next <;> simp [step, hj, answerStop, hn]
      | _ => exact he.elim
  | launch l =>
      obtain ⟨service, orphaned, phase⟩ := l
      cases phase with
      | running =>
          obtain ⟨service, volumes, rfl⟩ := he
          cases reply with
          | start result => simp [step, hj, answerLaunch]
          | _ => exact hr.elim
      | halting handle halt =>
          obtain ⟨next, hn⟩ := Halt.answered_of_expects he hr
          cases next <;> simp [step, hj, answerLaunch, hn]
      | _ => exact he.elim

/-- **A job takes every answer of the store** to what it asked. -/
theorem step_of_errand (hj : c.jobs[id]? = some job) {request : Volume.Request}
    (he : job.errand? = some request) (result : Except Volume.BindingError Volume.Answer) :
    ∃ step, c.step now (.answer id (.volume result)) = some step := by
  cases job with
  | start job =>
      obtain ⟨service, run, claimed, phase⟩ := job
      cases phase with
      | attaching volumes =>
          cases volumes with
          | nil => cases he
          | cons volume rest => cases result <;> simp [step, hj, answerStart]
      | _ => cases he
  | stop job =>
      obtain ⟨service, phase⟩ := job
      cases phase with
      | detaching volumes =>
          cases volumes with
          | nil => cases he
          | cons volume rest => simp [step, hj, answerStop]
      | _ => cases he
  | launch l => cases he

/-- **A job goes on once it is due.** -/
theorem step_of_deadline (hj : c.jobs[id]? = some job) {due : Nat} (hd : job.deadline? = some due)
    (hle : due ≤ now) : ∃ step, c.step now (.timeout id) = some step := by
  have htimed {halt : Halt} (h : halt.deadline? = some due) : halt.timedOut now := by
    cases halt with
    | stopping deadline =>
        obtain rfl := Option.some.inj h
        simpa [Halt.timedOut] using hle
    | killing => cases h
  cases job with
  | start job =>
      obtain ⟨service, run, claimed, phase⟩ := job
      cases phase with
      | pausing handle attempt deadline =>
          obtain rfl := Option.some.inj hd
          simp [step, hj, timeoutStart, hle]
      | discarding handle halt => simp [step, hj, timeoutStart, htimed hd]
      | _ => cases hd
  | stop job =>
      obtain ⟨service, phase⟩ := job
      cases phase with
      | halting handle halt => simp [step, hj, timeoutStop, htimed hd]
      | _ => cases hd
  | launch l =>
      obtain ⟨service, orphaned, phase⟩ := l
      cases phase with
      | halting handle halt => simp [step, hj, timeoutLaunch, htimed hd]
      | _ => cases hd

/-! ## What keeps a job from its next step -/

/-- What a start job waits for that can neither take a step of its own nor leave. -/
inductive StartBlock (c : Controller t) (job : StartJob t.size) : Prop where
  | following (hp : job.phase = .following) (hc : c.isCancelled job.run = false)
    (hs : ¬ (c.slot job.service).progress.settled)
  | dependency {d : Fin t.size} {rest : List (Fin t.size)} (hp : job.phase = .awaiting (d :: rest))
    (hc : c.isCancelled job.run = false) (hs : ¬ (c.slot d).progress.settled)
  | store {volumes : List Volume} (hp : job.phase = .attaching volumes)
  | launch {launch : JobId} (hp : job.phase = .launching launch)
    (hc : c.isCancelled job.run = false) (hl : c.takeLaunch? launch = none)
  | halt {handle : Handle} {halt : Halt} (hp : job.phase = .discarding handle halt)
  | pause {handle : Handle} {attempt : UInt32} {deadline : Nat}
    (hp : job.phase = .pausing handle attempt deadline) (hc : c.isCancelled job.run = false)
  | probe {handle : Handle} {attempt : UInt32} (hp : job.phase = .probing handle attempt)
    (hc : c.isCancelled job.run = false)
  | finished (hp : job.phase = .finished)

/-- **A start job is stuck** only where it waits. -/
theorem startBlock_of_stuck {job : StartJob t.size} (hj : c.jobs[id]? = some (.start job))
    (hrun : c.step now (.run id) = none) (hheed : c.step now (.heed id) = none) :
    StartBlock c job := by
  simp only [step, hj] at hrun hheed
  obtain ⟨service, run, claimed, phase⟩ := job
  have hkeeps (h : (c.isCancelled run = true) → c.heedStart id ⟨service, run, claimed, phase⟩ ≠ none) :
      c.isCancelled run = false := by
    cases hc : c.isCancelled run with
    | false => rfl
    | true => exact absurd hheed (h hc)
  cases phase with
  | following =>
      simp only [runStart] at hrun
      split at hrun
      next => cases hrun
      next h =>
        simp only [Bool.or_eq_true, not_or, Bool.not_eq_true] at h
        exact .following rfl h.1 (by simp [h.2])
  | awaiting dependencies =>
      cases dependencies with
      | nil => cases hrun
      | cons d rest =>
          simp only [runStart] at hrun
          split at hrun
          next => cases hrun
          next hc =>
            split at hrun
            next => split at hrun <;> cases hrun
            next hs => exact .dependency rfl (by simpa using hc) hs
  | attaching volumes => exact .store rfl
  | launching launch =>
      simp only [runStart] at hrun
      split at hrun
      next => cases hrun
      next hc =>
        refine .launch rfl (by simpa using hc) ?_
        split at hrun <;> first | assumption | cases hrun
  | discarding handle halt => exact .halt rfl
  | pausing handle attempt deadline =>
      exact .pause rfl (hkeeps fun hc => by simp [heedStart, hc])
  | probing handle attempt =>
      exact .probe rfl (hkeeps fun hc => by simp [heedStart, hc])
  | finished => exact .finished rfl
  | arriving | recording =>
      simp only [runStart] at hrun
      split at hrun <;> cases hrun
  | refusing | entering | asking | concluding => cases hrun

/-- What a stop job waits for that cannot take a step of its own. -/
inductive StopBlock (c : Controller t) (job : StopJob t.size) : Prop where
  | job {other : JobId} {rest : List JobId} (hp : job.phase = .awaiting (other :: rest))
    (hf : ¬ c.isFinished other)
  | halt {handle : Handle} {halt : Halt} (hp : job.phase = .halting handle halt)
  | store {volumes : List Volume} (hp : job.phase = .detaching volumes)
  | finished (hp : job.phase = .finished)

/-- **A stop job is stuck** only where it waits. -/
theorem stopBlock_of_stuck {job : StopJob t.size} (hj : c.jobs[id]? = some (.stop job))
    (hrun : c.step now (.run id) = none) : StopBlock c job := by
  simp only [step, hj] at hrun
  obtain ⟨service, phase⟩ := job
  cases phase with
  | awaiting jobs =>
      cases jobs with
      | nil => cases hrun
      | cons other rest =>
          simp only [runStop] at hrun
          split at hrun
          next => cases hrun
          next hf => exact .job rfl hf
  | halting handle halt => exact .halt rfl
  | detaching volumes => exact .store rfl
  | finished => exact .finished rfl
  | taking | retiring => cases hrun

/-- What a launch waits for that cannot take a step of its own. -/
inductive LaunchBlock (l : Launch n) : Prop where
  | engine (hp : l.phase = .running)
  /-- Its start job has yet to take what it returned. -/
  | kept {result : Except Container.Error Handle} (hp : l.phase = .returned result)
    (ho : l.orphaned = false)
  | halt {handle : Handle} {halt : Halt} (hp : l.phase = .halting handle halt)
  | finished (hp : l.phase = .finished)

/-- **A launch is stuck** only where it waits. -/
theorem launchBlock_of_stuck {l : Launch t.size} (hj : c.jobs[id]? = some (.launch l))
    (hrun : c.step now (.run id) = none) : LaunchBlock l := by
  simp only [step, hj] at hrun
  obtain ⟨service, orphaned, phase⟩ := l
  cases phase with
  | calling => cases hrun
  | running => exact .engine rfl
  | returned result =>
      refine .kept rfl ?_
      cases result <;> cases orphaned <;> first | rfl | cases hrun
  | halting handle halt => exact .halt rfl
  | finished => exact .finished rfl

end Controller

end Bringup.Lifecycle
