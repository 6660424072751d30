import Bringup.Proofs.Lifecycle.LastErrors
import Bringup.Proofs.Lifecycle.RestartsEnd

/-!
# What a restart answers

A restart reads its answer off its service once its start job is at its end: a service that is not
ready counts as failed only if somebody has recorded an error with it. The start job itself always
leaves the service ready or an error behind, and so does a cancel. So a restart that answers that all
is well although its service is not ready was crossed by a job of another call: a stop job took the
service out of use, which records nothing (`Moment.Overtakes`), or another start job moved the service
to starting and is not done (`Moment.Outruns`).

What the jobs of a restart still have before them is kept by every turn of every job (`Slot.Fares`),
and `Run.restart_answers` reads it where the restart answers. `restarted_stopping` is a restart that
is overtaken by a stop of all services and answers that all is well.
-/

namespace Bringup.Lifecycle

variable {t : Topology}

/-! ## What a restart has answered -/

/-- The error that a restart has answered, and when. -/
def Call.restartError? {n : Nat} (call : Call n) : Option (Error × Nat) :=
  match call.phase with
  | .answered (.restarted (.error e)) time => some (e, time)
  | _ => none

/-- The status with which a restart has answered that all is well, and when. -/
def Call.restartStatus? {n : Nat} (call : Call n) : Option (Status × Nat) :=
  match call.phase with
  | .answered (.restarted (.ok status)) time => some (status, time)
  | _ => none

theorem Call.restartError?_eq_some {n : Nat} {call : Call n} {e : Error} {time : Nat} :
    call.restartError? = some (e, time) ↔ call.answer? = some (.restarted (.error e), time) := by
  unfold restartError? Call.answer?
  grind

theorem Call.restartStatus?_eq_some {n : Nat} {call : Call n} {status : Status} {time : Nat} :
    call.restartStatus? = some (status, time) ↔
      call.answer? = some (.restarted (.ok status), time) := by
  unfold restartStatus? Call.answer?
  grind

/-! ## Who crosses a restart -/

/-- The operation restarts the service. -/
def Operation.Restarts (t : Topology) (operation : Operation) (s : Fin t.size) : Prop :=
  ∃ id, operation = .restart id ∧ t.position? id = some s

/-- The call is restarting the service, and it is not the given job that it waits for. -/
def CallPhase.CrossedBy {n : Nat} (id : JobId) (s : Fin n) : CallPhase n → Prop
  | .stopping s' own | .starting s' own => s' = s ∧ id ≠ own
  | .reading s' => s' = s
  | _ => False

namespace Moment

variable (m : Moment t) (k : CallId) (s : Fin t.size)

/-- A job of another call takes its turn while the call restarts the service. -/
def Crosses (id : JobId) : Prop :=
  m.action.job? = some id ∧ ∃ call, m.before.calls[k]? = some call ∧ call.phase.CrossedBy id s

/-- While the call restarts the service, the start job of another call moves it to starting. -/
def Outruns : Prop :=
  ∃ (id : Nat) (job : StartJob t.size), m.Crosses k s id ∧
    m.before.jobs[id]? = some (.start job) ∧ job.service = s ∧ m.Enters s

/-- While the call restarts the service, the stop job of another call takes it out of use. -/
def Overtakes : Prop :=
  ∃ (id : Nat) (job : StopJob t.size), m.Crosses k s id ∧
    m.before.jobs[id]? = some (.stop job) ∧ job.service = s ∧
      ((m.before.slot s).state = .starting ∨ (m.before.slot s).state = .ready) ∧
      (m.after.slot s).state = .stopping

end Moment

/-- The start job has yet to see whether it starts the service itself. -/
def StartPhase.Heads {n : Nat} : StartPhase n → Prop
  | .arriving | .awaiting _ | .refusing _ | .entering => True
  | _ => False

/-- The start job has moved the service to starting, and does not know of anybody who has taken the
service from it. -/
def StartPhase.Works {n : Nat} : StartPhase n → Prop
  | .attaching _ | .launching _ | .recording _ | .pausing .. | .asking .. | .probing ..
  | .concluding _ => True
  | _ => False

/-- What is known of a service that is being restarted: any state in which it is neither ready nor
failed is due to a job of the restart that is not done, to somebody who has recorded an error, or to
somebody who crossed the restart. -/
structure Slot.Fares (slot : Slot) (starts stops heads outrun overtaken : Prop) : Prop where
  begun : slot.state ≠ .pending
  starting : slot.state = .starting → starts ∨ outrun
  stopping : slot.state = .stopping → stops ∨ slot.lastError ≠ none ∨ overtaken
  stopped : slot.state = .stopped → heads ∨ slot.lastError ≠ none ∨ overtaken

namespace Slot.Fares

variable {slot slot' : Slot} {starts stops heads outrun overtaken : Prop}

/-- Only state and error count, and what has crossed the restart stays. -/
theorem mono (h : slot.Fares starts stops heads outrun overtaken) {outrun' overtaken' : Prop}
    (hs : slot'.state = slot.state) (he : slot'.lastError = slot.lastError)
    (hr : outrun → outrun') (ht : overtaken → overtaken') :
    slot'.Fares starts stops heads outrun' overtaken' where
  begun := hs ▸ h.begun
  starting hst := (h.starting (hs ▸ hst)).imp_right hr
  stopping hst := he ▸ (h.stopping (hs ▸ hst)).imp_right (Or.imp_right ht)
  stopped hst := he ▸ (h.stopped (hs ▸ hst)).imp_right (Or.imp_right ht)

/-- In a state that nobody has to account for. -/
theorem of_settled (h : slot.state = .ready ∨ slot.state = .failed) :
    slot.Fares starts stops heads outrun overtaken := by
  constructor <;> intro hs <;> rw [hs] at h <;> simp at h

/-- With an error, being stopped is accounted for. -/
theorem of_recorded {error : Error} (he : slot.lastError = some error)
    (h : slot.state = .stopping ∨ slot.state = .stopped) :
    slot.Fares starts stops heads outrun overtaken := by
  constructor
  case begun | starting => intro hs; rw [hs] at h; simp at h
  case stopping | stopped => exact fun _ => .inr (.inl (by simp [he]))

end Slot.Fares

/-! ## What every turn keeps -/

section Turns

variable {c c' : Controller t} {now : Nat} {id : JobId} {action : Action} {slot : Slot}
  {aside : Aside} {effects : List Effect} {starts stops heads outrun overtaken : Prop}

/-- A start job moves the service to starting, leaves a verdict or an error, or goes on with what was
there. -/
theorem StartTurn.fares {job job' : StartJob t.size} {starts' heads' : Prop}
    (turn : StartTurn c now id job action job' slot aside effects)
    (h : (c.slot job.service).Fares starts stops heads outrun overtaken)
    (hr : slot.state = .starting → (c.slot job.service).state ≠ .starting → starts' ∨ outrun)
    (hstarts : slot.state = .starting → starts → starts')
    (hheads : slot.state = .stopped → slot.lastError = none → heads → heads') :
    slot.Fares starts' stops heads' outrun overtaken := by
  rcases turn.error_cases with
    ⟨hs, he⟩ | ⟨hb, hs, -⟩ | ⟨hb, hs, error, he, -⟩ | ⟨hb, verdict, -, hs, he⟩
  · refine ⟨hs ▸ h.begun, fun hst => (h.starting (hs ▸ hst)).imp_left (hstarts hst),
      fun hst => he ▸ h.stopping (hs ▸ hst), fun hst => ?_⟩
    by_cases hn : slot.lastError = none
    · exact (h.stopped (hs ▸ hst)).imp (hheads hst hn) (Or.imp_left (he ▸ ·))
    · exact .inr (.inl hn)
  · have hout := hr hs fun he => by rw [he] at hb; cases hb
    constructor <;> intro he <;> rw [hs] at he <;> cases he
    exact hout
  · -- A service that can be started and has begun before is stopped.
    have hstopped : (c.slot job.service).state = .stopped := by
      have hbegun := h.begun
      revert hb hbegun
      cases (c.slot job.service).state <;> simp [ServiceState.isStartable]
    exact .of_recorded he (.inr (hs.trans hstopped))
  · cases verdict with
    | ready => exact .of_settled (.inl hs)
    | failed error => exact .of_settled (.inr hs)
    | cancelled launch => exact .of_recorded he (.inl hs)

/-- A stop job of another call overtakes the restart, or goes on with what was stopped. -/
theorem StopTurn.fares_other {job : StopJob t.size} {phase : StopPhase}
    (turn : StopTurn c now id job action phase slot effects)
    (h : (c.slot job.service).Fares starts stops heads outrun overtaken) (hsh : stops → heads)
    (ho : slot.state = .stopping → ((c.slot job.service).state = .starting ∨
      (c.slot job.service).state = .ready) → overtaken) :
    slot.Fares starts stops heads outrun overtaken := by
  have he := turn.lastError_eq
  rcases turn.state_cases with hs | ⟨-, hb, -⟩ | ⟨-, hb, hs⟩ | ⟨-, hb, hs⟩
  · exact h.mono hs he (fun h => h) fun h => h
  · exact absurd hb h.begun
  · have hover : overtaken := ho hs hb
    constructor <;> intro hst <;> rw [hs] at hst <;> cases hst
    exact .inr (.inr hover)
  · constructor <;> intro hst <;> rw [hs] at hst <;> cases hst
    exact he ▸ (h.stopping hb).imp_left hsh

/-- The stop job of the restart leaves the service stopped. -/
theorem StopTurn.fares_own {job : StopJob t.size} {phase : StopPhase}
    (turn : StopTurn c now id job action phase slot effects)
    (h : (c.slot job.service).Fares starts (job.phase ≠ .finished) True outrun overtaken) :
    slot.Fares starts (phase ≠ .finished) True outrun overtaken := by
  have hbegun : slot.state ≠ .pending := by
    rcases turn.state_cases with hs | ⟨-, -, hs⟩ | ⟨-, -, hs⟩ | ⟨-, -, hs⟩ <;> rw [hs]
    · exact h.begun
    all_goals simp
  have hstarting (hs : slot.state = .starting) : starts ∨ outrun := by
    rcases turn.state_cases with he | ⟨-, -, he⟩ | ⟨-, -, he⟩ | ⟨-, -, he⟩ <;> rw [hs] at he
    · exact h.starting he.symm
    all_goals cases he
  refine ⟨hbegun, hstarting, fun hs => .inl ?_, fun _ => .inl trivial⟩
  cases turn with
  | idle hp hb => rw [hb] at hs; cases hs
  | retire hp hb => cases hs
  | leave hp hb => exact absurd hs hb
  | skip hp hb => cases hs
  | take | takeLeft => exact Controller.takenPhase_ne_finished _ _ _
  | halted | unbind => exact Controller.detachPhase_ne_finished _
  | go | pass | overrun | kill => simp

/-- A start job that moves its service to starting is at work on it. -/
theorem StartTurn.works_of_enter {job job' : StartJob t.size}
    (turn : StartTurn c now id job action job' slot aside effects)
    (hs : slot.state = .starting) (hb : (c.slot job.service).state ≠ .starting) :
    job'.phase.Works := by
  rcases turn.state_cases with he | ⟨-, hp, -⟩ | ⟨-, -, he, -⟩
  · exact absurd (he ▸ hs) hb
  · cases turn with
    | enter | enterBare => trivial
    | _ => simp_all
  · exact absurd he hb

/-- A start job is at work on its service until the service leaves the state of starting. -/
theorem StartTurn.works_kept {job job' : StartJob t.size}
    (turn : StartTurn c now id job action job' slot aside effects) (hw : job.phase.Works)
    (hs : slot.state = .starting) : job'.phase.Works := by
  cases turn with
  | discard hp hb => exact absurd hs hb
  | @conclude verdict hp =>
      rw [StartJob.state_unclaim, Slot.state_leaveStarting] at hs
      split at hs
      next => cases verdict <;> cases hs
      next hn => exact absurd hs hn
  | @retry handle attempt probe hp hr =>
      rw [StartJob.goTo]
      rcases c.retryPhase_cases now job.service handle attempt with ⟨-, _, he⟩ | ⟨-, he⟩ <;>
        rw [he] <;> trivial
  | follow hp => rcases hp with hp | ⟨hp, -⟩ <;> rw [hp] at hw <;> cases hw
  | heed => trivial
  | arrive hp | cease hp | pass hp | giveUp hp | accept hp | decline hp | refuse hp | forgo hp
  | discarded hp | kill hp | overrun hp => rw [hp] at hw; cases hw
  | _ => trivial

/-- A start job that has yet to see whether it starts its service lets go of a stopped one only with
an error. -/
theorem StartTurn.heads_kept {job job' : StartJob t.size}
    (turn : StartTurn c now id job action job' slot aside effects) (hh : job.phase.Heads)
    (hs : slot.state = .stopped) (he : slot.lastError = none) : job'.phase.Heads := by
  cases turn with
  | arrive hp hb | accept hp =>
      rw [StartJob.phase_await]
      split <;> trivial
  | follow hp hb =>
      rw [StartJob.state_unclaim] at hs
      rw [hs] at hb
      exact absurd rfl hb
  | refuse hp | forgo hp =>
      rw [StartJob.state_unclaim, Slot.state_recordIfStartable] at hs
      rw [StartJob.lastError_unclaim, Slot.recordIfStartable, hs] at he
      cases he
  | enter | enterBare => cases hs
  | heed hp =>
      rcases hp with ⟨_, _, _, hp⟩ | ⟨_, _, hp⟩ <;> rw [hp] at hh <;> cases hh
  | pass | giveUp | decline => trivial
  | cease hp | abandon hp | collect hp | lose hp | record hp | discard hp | ask hp | conclude hp
  | heedProbe hp | wake hp | overrun hp | bind hp | bindLast hp | miss hp | ready hp | retry hp
  | discarded hp | kill hp => rw [hp] at hh; cases hh

/-- The start job of the restart leaves a verdict or an error, unless it leaves the service to
somebody else. -/
theorem StartTurn.fares_own {job job' : StartJob t.size}
    (turn : StartTurn c now id job action job' slot aside effects)
    (h : (c.slot job.service).Fares job.phase.Works stops job.phase.Heads outrun overtaken) :
    slot.Fares job'.phase.Works stops job'.phase.Heads outrun overtaken :=
  turn.fares h (fun hs hb => .inl (turn.works_of_enter hs hb)) (fun hs hw => turn.works_kept hw hs)
    fun hs he hh => turn.heads_kept hh hs he

end Turns

/-! ## The steps of a restart -/

/-- What a call is about that is not under way with a restart: nothing that concerns restarts, a
restart that has just been made, or one of a service that does not exist. -/
def Operation.Idles (t : Topology) (operation : Operation) : CallPhase t.size → Prop
  | .checking s => operation.Restarts t s
  | .stopping .. | .starting .. | .reading _ => False
  | .answered (.restarted result) _ =>
    ∃ id, operation = .restart id ∧ t.position? id = none ∧ result = .error (.unknownService id)
  | _ => True

namespace Controller

variable {c c' d e : Controller t} {now : Nat} {id : JobId} {action : Action} {effects : List Effect}
  {operation : Operation} {k : Nat} {call call' : Call t.size} {phase : CallPhase t.size}
  {s : Fin t.size}

/-- What a step of a restart sets to work, and the phase to which it moves on. -/
inductive Redoes (now : Nat) (c : Controller t) :
    CallPhase t.size → CallPhase t.size → Controller t → Prop where
  | refuse {s : Fin t.size} (hs : (c.slot s).state ≠ .ready ∧ (c.slot s).state ≠ .stopped) :
    Redoes now c (.checking s)
      (.answered (.restarted (.error (.notRestartable (t.id s) (c.slot s).state))) now) c
  | stop {s : Fin t.size} (hs : (c.slot s).state = .ready ∨ (c.slot s).state = .stopped) :
    Redoes now c (.checking s) (.stopping s c.jobs.size) (c.spawn [.stop { service := s }])
  | start {s : Fin t.size} {job : JobId} (hf : c.isFinished job) :
    Redoes now c (.stopping s job) (.starting s c.jobs.size) (c.arm.spawnStarts [s])
  | read {s : Fin t.size} {job : JobId} (hf : c.isFinished job) :
    Redoes now c (.starting s job) (.reading s) c
  | answer {s : Fin t.size} :
    Redoes now c (.reading s) (.answered (.restarted (c.restartResult s)) now) c

theorem Redoes.calls_eq {before : CallPhase t.size} (h : Redoes now c before phase d) :
    d.calls = c.calls := by
  cases h <;> simp

/-- The calls of `d` that are under way with a restart, or are done with it, stand in `c` as they do
in `d`. -/
def KeepsRestarts (c d : Controller t) : Prop :=
  ∀ (k : Nat) (call : Call t.size), d.calls[k]? = some call →
    c.calls[k]? = some call ∨ call.operation.Idles t call.phase

namespace KeepsRestarts

theorem of_calls (h : d.calls = c.calls) : KeepsRestarts c d := fun _ _ hk => .inl (h ▸ hk)

theorem trans_calls (h : KeepsRestarts c d) (he : e.calls = d.calls) : KeepsRestarts c e :=
  fun k call hk => h k call (he ▸ hk)

theorem openCall (h : KeepsRestarts c d) {jobs : List JobId} (hp : operation.Idles t phase) :
    KeepsRestarts c (d.openCall operation jobs phase).1 := by
  intro k call hk
  rcases calls_openCall_cases hk with hk | ⟨-, rfl⟩
  · exact h k call hk
  · exact .inr hp

theorem startAll (h : KeepsRestarts c d) : KeepsRestarts c d.startAll.1 := by
  unfold Controller.startAll
  split
  next => exact h.openCall trivial
  next order _ => exact openCall (h.trans_calls (e := d.arm.spawnStarts order) (by simp)) trivial

theorem stopAll (h : KeepsRestarts c d) : KeepsRestarts c d.stopAll.1 := by
  unfold Controller.stopAll
  dsimp only
  split
  next => exact openCall (d := d.cancelRuns) h trivial
  next order _ => exact openCall (d := d.cancelRuns.spawnStops order) h trivial

theorem cancel (h : KeepsRestarts c d) : KeepsRestarts c d.cancel.1 :=
  openCall (d := d.cancelRuns) h trivial

theorem invoke (operation : Operation) : KeepsRestarts c (c.invoke now operation).1 := by
  have h : KeepsRestarts c c := .of_calls rfl
  cases operation with
  | startAll => exact h.startAll
  | stopAll => exact h.stopAll
  | restart id =>
      simp only [Controller.invoke, Controller.restart]
      split
      next s hs => exact h.openCall ⟨id, rfl, hs⟩
      next hs => exact h.openCall ⟨id, rfl, hs, rfl⟩
  | cancel => exact h.cancel
  | status => exact h.openCall trivial
  | shutDown => exact h.cancel.openCall trivial
  | upUntil => exact h.openCall trivial

theorem setCallPhase (h : KeepsRestarts c d) (i : CallId)
    (hp : ∀ operation : Operation, operation.Idles t phase) :
    KeepsRestarts c (d.setCallPhase i phase) := by
  intro k call hk
  rcases calls_setCallPhase_cases hk with ⟨-, hk⟩ | ⟨old, -, -, rfl⟩
  · exact h k call hk
  · exact .inr (hp _)

theorem follow (i : CallId) (sequel : Sequel) (answer : Answer) :
    KeepsRestarts c (c.follow now i sequel answer) := by
  have h : KeepsRestarts c c := .of_calls rfl
  cases sequel with
  | startAll => exact h.startAll.setCallPhase i fun _ => trivial
  | stopAll => exact h.stopAll.setCallPhase i fun _ => trivial
  | report | finish | interrupt | drain => exact h.setCallPhase i fun _ => trivial
  | shutDown =>
      have opened : KeepsRestarts c (c.invoke now .shutDown).1 := invoke .shutDown
      exact opened.setCallPhase i fun _ => trivial

end KeepsRestarts

/-- A step of a call keeps the restarts, or is one of a restart. -/
theorem proceed_restarts
    (h : c.proceed now k call = some (c', effects)) :
    KeepsRestarts c c' ∨
      ∃ phase d, c.Redoes now call.phase phase d ∧ c' = d.setCallPhase k phase := by
  have keep : KeepsRestarts c c := .of_calls rfl
  unfold proceed at h
  -- One case for each phase, in the order of `proceed`.
  split at h
  next =>
    split at h <;> cases h
    exact .inl (keep.setCallPhase k fun _ => trivial)
  next => cases h; exact .inl (keep.setCallPhase k fun _ => trivial)
  next => cases h; exact .inl (keep.setCallPhase k fun _ => trivial)
  next s hp =>
    rw [hp]
    dsimp only at h
    split at h <;> cases h
    next hs => exact .inr ⟨_, _, .stop hs, rfl⟩
    next hs => exact .inr ⟨_, _, .refuse (not_or.1 hs), rfl⟩
  next s job hp =>
    rw [hp]
    split at h <;> cases h
    next hf => exact .inr ⟨_, _, .start hf, rfl⟩
  next s job hp =>
    rw [hp]
    split at h <;> cases h
    next hf => exact .inr ⟨_, _, .read hf, rfl⟩
  next s hp =>
    rw [hp]
    cases h
    exact .inr ⟨_, _, .answer, rfl⟩
  next => cases h; exact .inl (keep.setCallPhase k fun _ => trivial)
  next s rest hp =>
    rw [moveFromStarting_eq _ _ _ (by rfl)] at h
    cases h
    exact .inl (.setCallPhase (.of_calls (calls_setSlot _ _)) k fun _ => trivial)
  next =>
    cases h
    exact .inl (.setCallPhase (KeepsRestarts.startAll (.of_calls rfl)) k fun _ => trivial)
  next other sequel hp =>
    split at h <;> cases h
    exact .inl (.follow k sequel _)
  next => cases h

/-- **What a step of the calls does to the restarts**: it leaves them alone, or is one of theirs. -/
theorem restarts_of_step (hj : action.job? = none)
    (h : c.step now action = some (c', effects)) :
    KeepsRestarts c c' ∨ ∃ (k : Nat) (call : Call t.size) (phase : CallPhase t.size)
      (d : Controller t), action = .proceed k ∧ c.calls[k]? = some call ∧
        c.Redoes now call.phase phase d ∧ c' = d.setCallPhase k phase := by
  cases action with
  | invoke operation =>
      cases h
      exact .inl (.invoke operation)
  | proceed k =>
      obtain ⟨call, hc, h⟩ := Option.bind_eq_some_iff.1 h
      exact (proceed_restarts h).imp_right fun ⟨phase, d, hr, he⟩ =>
        ⟨k, call, phase, d, rfl, hc, hr, he⟩
  | interrupt k =>
      obtain ⟨call, hc, h⟩ := Option.bind_eq_some_iff.1 h
      unfold interrupt at h
      split at h <;> cases h
      all_goals exact .inl (.setCallPhase (KeepsRestarts.cancel (.of_calls rfl)) k fun _ => trivial)
  | run _ | heed _ | timeout _ | answer _ _ => cases hj

/-! ## What is known of a restart -/

/-- What is known of a service that the call restarts, after the given steps. -/
def Fares (past : List (Moment t)) (c : Controller t) (k : CallId) (s : Fin t.size)
    (starts stops heads : Prop) : Prop :=
  (c.slot s).Fares starts stops heads (∃ m ∈ past, m.Outruns k s) (∃ m ∈ past, m.Overtakes k s)

/-- What a restart of a service answers to what it reads after the given steps. -/
inductive RestartAnswer (past : List (Moment t)) (c : Controller t) (k : CallId) (s : Fin t.size) :
    Except Error Status → Prop where
  /-- The service is neither ready nor stopped when the restart comes to it. -/
  | refused (hp : (c.calls[k]?).map Call.phase = some (.checking s))
    (hs : (c.slot s).state ≠ .ready ∧ (c.slot s).state ≠ .stopped) :
    RestartAnswer past c k s (.error (.notRestartable (t.id s) (c.slot s).state))
  | ready (hp : (c.calls[k]?).map Call.phase = some (.reading s))
    (hs : (c.slot s).state = .ready) : RestartAnswer past c k s (.ok (c.status s))
  /-- An error is recorded that fits the state. -/
  | failed {error : Error} (hp : (c.calls[k]?).map Call.phase = some (.reading s))
    (hs : (c.slot s).state ≠ .ready) (he : (c.slot s).lastError = some error)
    (hfits : ErrorFits t c.config.retry.maxAttempts s (some error) (c.slot s).state) :
    RestartAnswer past c k s (.error error)
  /-- Somebody else is starting the service. -/
  | outrun (hp : (c.calls[k]?).map Call.phase = some (.reading s))
    (hs : (c.slot s).state = .starting) (h : ∃ m ∈ past, m.Outruns k s) :
    RestartAnswer past c k s (.ok (c.status s))
  /-- Somebody else has taken the service out of use, and no error is recorded. -/
  | overtaken (hp : (c.calls[k]?).map Call.phase = some (.reading s))
    (hs : (c.slot s).state = .stopping ∨ (c.slot s).state = .stopped)
    (he : (c.slot s).lastError = none) (h : ∃ m ∈ past, m.Overtakes k s) :
    RestartAnswer past c k s (.ok (c.status s))

/-- What is known of a call after the given steps, if it is a restart. -/
def Accounted (past : List (Moment t)) (c : Controller t) (k : CallId) (operation : Operation) :
    CallPhase t.size → Prop
  | .checking s => operation.Restarts t s
  | .stopping s own => operation.Restarts t s ∧ ∃ job, c.jobs[own]? = some (.stop job) ∧
      job.service = s ∧ c.Fares past k s False (job.phase ≠ .finished) True
  | .starting s own => operation.Restarts t s ∧ ∃ job, c.jobs[own]? = some (.start job) ∧
      job.service = s ∧ c.Fares past k s job.phase.Works False job.phase.Heads
  | .reading s => operation.Restarts t s ∧ c.Fares past k s False False False
  | .answered (.restarted result) time => ∃ id, operation = .restart id ∧
      (t.position? id = none ∧ result = .error (.unknownService id) ∨
        ∃ (s : Fin t.size) (later : List (Moment t)) (m : Moment t) (earlier : List (Moment t)),
          t.position? id = some s ∧ past = later ++ m :: earlier ∧ m.action = .proceed k ∧
            m.now = time ∧ m.before.RestartAnswer earlier k s result)
  | _ => True

variable {past : List (Moment t)} {m : Moment t} {starts stops heads : Prop}

theorem accounted_of_idles (h : operation.Idles t phase) : c.Accounted past k operation phase := by
  cases phase with
  | checking => exact h
  | stopping | starting | reading => exact h.elim
  | answered answer time =>
      cases answer with
      | restarted result =>
          obtain ⟨id, ho, hn, hr⟩ := h
          exact ⟨id, ho, .inl ⟨hn, hr⟩⟩
      | _ => trivial
  | _ => trivial

theorem Fares.mono (h : c.Fares past k s starts stops heads)
    (hs : (c'.slot s).state = (c.slot s).state) (he : (c'.slot s).lastError = (c.slot s).lastError) :
    c'.Fares (m :: past) k s starts stops heads :=
  Slot.Fares.mono h hs he (fun ⟨m, hm, h⟩ => ⟨m, List.mem_cons_of_mem _ hm, h⟩)
    fun ⟨m, hm, h⟩ => ⟨m, List.mem_cons_of_mem _ hm, h⟩

theorem Fares.weaken (h : c.Fares past k s starts stops heads) {starts' stops' heads' : Prop}
    (hstarts : starts → starts') (hstops : stops → stops') (hheads : heads → heads') :
    c.Fares past k s starts' stops' heads' where
  begun := h.begun
  starting hst := (h.starting hst).imp_left hstarts
  stopping hst := (h.stopping hst).imp_left hstops
  stopped hst := (h.stopped hst).imp_left hheads

/-! ### Steps of other calls -/

/-- What calls do to a service: they leave it alone, or cancel it and say so. -/
theorem ChangesTo.error_cases (h : ChangesTo now c c') (s : Fin t.size) :
    ((c'.slot s).state = (c.slot s).state ∧ (c'.slot s).lastError = (c.slot s).lastError) ∨
    ((c'.slot s).state = .stopping ∧ (c'.slot s).lastError = some (.cancelled (t.id s))) := by
  refine h.induct (P := fun d =>
    ((d.slot s).state = (c.slot s).state ∧ (d.slot s).lastError = (c.slot s).lastError) ∨
    ((d.slot s).state = .stopping ∧ (d.slot s).lastError = some (.cancelled (t.id s))))
    (fun hd change => ?_) (.inl ⟨rfl, rfl⟩)
  rcases change.sets.error_cases s with ⟨hs, he⟩ | ⟨-, hs, he⟩
  · rwa [hs, he]
  · exact .inr ⟨hs, he⟩

theorem ChangesTo.jobs_kept (h : ChangesTo now c c') {id : Nat} {job : Job t.size}
    (hj : c.jobs[id]? = some job) : c'.jobs[id]? = some job :=
  h.induct (P := fun d => d.jobs[id]? = some job) (fun hd change => change.sets.jobs_kept hd) hj

theorem Fares.change (h : c.Fares past k s starts stops heads) (hc : ChangesTo now c c') :
    c'.Fares (m :: past) k s starts stops heads := by
  rcases hc.error_cases s with ⟨hs, he⟩ | ⟨hs, he⟩
  · exact h.mono hs he
  · exact .of_recorded he (.inl hs)

/-- What is known of a restart stays so while other calls take their steps. -/
theorem Accounted.change (h : c.Accounted past k operation phase) (hc : ChangesTo now c c') :
    c'.Accounted (m :: past) k operation phase := by
  cases phase with
  | checking => exact h
  | stopping s own | starting s own =>
      obtain ⟨ho, job, hj, hs, hf⟩ := h
      exact ⟨ho, job, hc.jobs_kept hj, hs, hf.change hc⟩
  | reading s => exact ⟨h.1, h.2.change hc⟩
  | answered answer time =>
      cases answer with
      | restarted result =>
          obtain ⟨id, ho, hn | ⟨s, later, m', earlier, hs, rfl, hread⟩⟩ := h
          · exact ⟨id, ho, .inl hn⟩
          · exact ⟨id, ho, .inr ⟨s, m :: later, m', earlier, hs, rfl, hread⟩⟩
      | _ => trivial
  | _ => trivial

/-! ### Turns of jobs -/

/-- A job that the restart does not wait for keeps what is known, or crosses the restart. -/
theorem Fares.cross (h : c.Fares past k s starts stops heads) (hsh : stops → heads)
    (hk : c.calls[k]? = some call) (hx : call.phase.CrossedBy id s) (ha : action.job? = some id)
    (ht : TurnsTo c now id action c' effects) :
    c'.Fares (⟨c, now, action, effects, c'⟩ :: past) k s starts stops heads := by
  obtain ⟨old, new, slot, aside, hj, turn, rfl⟩ := ht
  by_cases hs : s = old.service
  · subst hs
    have crosses : Moment.Crosses ⟨c, now, action, effects, c.after id new old.service slot aside⟩ k
        old.service id := ⟨ha, call, hk, hx⟩
    have hm := Fares.mono (m := ⟨c, now, action, effects, c.after id new old.service slot aside⟩)
      h rfl rfl
    unfold Fares
    rw [slot_after_self]
    cases turn with
    | @start job job' =>
        rename_i turn
        refine turn.fares hm (fun hst hb =>
          .inr ⟨_, List.mem_cons_self, id, job, crosses, hj, rfl, hb, ?_⟩) (fun _ h => h) fun _ _ h => h
        rwa [slot_after_self]
    | @stop job phase =>
        rename_i turn
        refine turn.fares_other hm hsh fun hst hb =>
          ⟨_, List.mem_cons_self, id, job, crosses, hj, rfl, hb, ?_⟩
        rwa [slot_after_self]
    | launch => exact hm
  · exact h.mono (by rw [slot_after_of_ne hs]) (by rw [slot_after_of_ne hs])

/-- The stop job of a restart takes its turn. -/
theorem Fares.own_stop {job : StopJob t.size}
    (h : c.Fares past k s starts (job.phase ≠ .finished) True)
    (hj : c.jobs[id]? = some (.stop job)) (hs : job.service = s)
    (ht : TurnsTo c now id action c' effects) :
    ∃ job', c'.jobs[id]? = some (.stop job') ∧ job'.service = s ∧
      c'.Fares (m :: past) k s starts (job'.phase ≠ .finished) True := by
  obtain ⟨old, new, slot, aside, hj', turn, rfl⟩ := ht
  obtain rfl := Option.some.inj (hj'.symm.trans hj)
  subst hs
  cases turn with
  | stop turn =>
      refine ⟨_, jobs_after_self (lt_size_of_job hj), rfl, ?_⟩
      unfold Fares
      rw [Job.service_stop, slot_after_self]
      exact turn.fares_own (h.mono rfl rfl)

/-- The start job of a restart takes its turn. -/
theorem Fares.own_start {job : StartJob t.size}
    (h : c.Fares past k s job.phase.Works stops job.phase.Heads)
    (hj : c.jobs[id]? = some (.start job)) (hs : job.service = s)
    (ht : TurnsTo c now id action c' effects) :
    ∃ job', c'.jobs[id]? = some (.start job') ∧ job'.service = s ∧
      c'.Fares (m :: past) k s job'.phase.Works stops job'.phase.Heads := by
  obtain ⟨old, new, slot, aside, hj', turn, rfl⟩ := ht
  obtain rfl := Option.some.inj (hj'.symm.trans hj)
  subst hs
  cases turn with
  | start turn =>
      refine ⟨_, jobs_after_self (lt_size_of_job hj), turn.same.1, ?_⟩
      unfold Fares
      rw [Job.service_start, slot_after_self]
      exact turn.fares_own (h.mono rfl rfl)

/-- What is known of a restart stays so when a job takes its turn. -/
theorem Accounted.turn (h : c.Accounted past k operation call.phase) (hk : c.calls[k]? = some call)
    (ha : action.job? = some id) (ht : TurnsTo c now id action c' effects) :
    c'.Accounted (⟨c, now, action, effects, c'⟩ :: past) k operation call.phase := by
  have crossed {s : Fin t.size} (hx : call.phase.CrossedBy id s) {starts stops heads : Prop}
      (hf : c.Fares past k s starts stops heads) (hsh : stops → heads) :=
    hf.cross hsh hk hx ha ht
  generalize call.phase = phase at h crossed ⊢
  cases phase with
  | checking => exact h
  | stopping s own =>
      obtain ⟨ho, job, hj, hs, hf⟩ := h
      refine ⟨ho, ?_⟩
      by_cases he : id = own
      · subst he
        exact hf.own_stop hj hs ht
      · refine ⟨job, ?_, hs, crossed ⟨rfl, he⟩ hf fun _ => trivial⟩
        obtain ⟨old, new, slot, aside, -, -, rfl⟩ := ht
        exact stop_after_of_ne (Ne.symm he) hj
  | starting s own =>
      obtain ⟨ho, job, hj, hs, hf⟩ := h
      refine ⟨ho, ?_⟩
      by_cases he : id = own
      · subst he
        exact hf.own_start hj hs ht
      · refine ⟨job, ?_, hs, crossed ⟨rfl, he⟩ hf False.elim⟩
        obtain ⟨old, new, slot, aside, -, -, rfl⟩ := ht
        exact start_after_of_ne (Ne.symm he) hj
  | reading s => exact ⟨h.1, crossed rfl h.2 False.elim⟩
  | answered answer time =>
      cases answer with
      | restarted result =>
          obtain ⟨name, ho, hn | ⟨s, later, m, earlier, hs, rfl, hread⟩⟩ := h
          · exact ⟨name, ho, .inl hn⟩
          · exact ⟨name, ho, .inr ⟨s, _ :: later, m, earlier, hs, rfl, hread⟩⟩
      | _ => trivial
  | _ => trivial

/-! ### Steps of the restart itself -/

theorem restartResult_of_some {error : Error} (he : (c.slot s).lastError = some error) :
    c.restartResult s = if (c.slot s).state = .ready then .ok (c.status s) else .error error := by
  simp [restartResult, status, Slot.status, he]

theorem restartResult_of_none (he : (c.slot s).lastError = none) :
    c.restartResult s = .ok (c.status s) := by
  simp [restartResult, status, Slot.status, he]

/-- What a restart answers is read off its service. -/
theorem RestartAnswer.of_fares (hp : (c.calls[k]?).map Call.phase = some (.reading s))
    (h : c.Fares past k s False False False) (hc : c.Consistent) :
    c.RestartAnswer past k s (c.restartResult s) := by
  have hfits := hc.slot s
  cases he : (c.slot s).lastError with
  | some error =>
      rw [restartResult_of_some he]
      split
      next hs => exact .ready hp hs
      next hs => exact .failed hp hs he (he ▸ hfits)
  | none =>
      rw [restartResult_of_none he]
      cases hs : (c.slot s).state with
      | pending => exact absurd hs h.begun
      | starting => exact .outrun hp hs ((h.starting hs).resolve_left False.elim)
      | ready => exact .ready hp hs
      | stopping =>
          exact .overtaken hp (.inl hs) he
            (((h.stopping hs).resolve_left False.elim).resolve_left fun hn => hn he)
      | stopped =>
          exact .overtaken hp (.inr hs) he
            (((h.stopped hs).resolve_left False.elim).resolve_left fun hn => hn he)
      | failed =>
          rw [hs, he] at hfits
          obtain ⟨error, hn, -⟩ := hfits
          cases hn

/-- What is known of a restart when it takes its own next step. -/
theorem Accounted.redo (h : c.Accounted past k operation call.phase) (hk : c.calls[k]? = some call)
    (hc : c.Consistent) (hr : c.Redoes now call.phase phase d) :
    (d.setCallPhase k phase).Accounted (⟨c, now, .proceed k, effects, d.setCallPhase k phase⟩ :: past) k
      operation phase := by
  have hp : (c.calls[k]?).map Call.phase = some call.phase := by rw [hk]; rfl
  generalize call.phase = before at h hp hr
  cases hr with
  | @refuse s hs =>
      obtain ⟨id, ho, hpos⟩ := h
      exact ⟨id, ho, .inr ⟨s, [], _, past, hpos, rfl, rfl, rfl, .refused hp hs⟩⟩
  | @stop s hs =>
      refine ⟨h, { service := s }, ?_, rfl, ?_⟩
      · rw [jobs_setCallPhase, jobs_spawn_of_ge _ (Nat.le_refl _), Nat.sub_self]
        rfl
      · unfold Fares
        rw [slot_setCallPhase, slot_spawn]
        constructor <;> intro hst <;> rw [hst] at hs <;> simp at hs
        exact .inl trivial
  | @start s own hf =>
      obtain ⟨ho, job, hj, hs, hfares⟩ := h
      rw [isFinished_of_job hj, Job.isFinished_stop] at hf
      refine ⟨ho, { service := s, run := c.arm.currentRun }, ?_, rfl, ?_⟩
      · rw [jobs_setCallPhase]
        exact job_spawnStarts [s] 0
      · exact (hfares.weaken False.elim (fun hn => hn hf) fun _ => trivial).mono
          (by simp [slot_spawnStarts]) (by simp [slot_spawnStarts])
  | @read s own hf =>
      obtain ⟨ho, job, hj, hs, hfares⟩ := h
      rw [isFinished_of_job hj, Job.isFinished_start] at hf
      rw [hf] at hfares
      exact ⟨ho, hfares.mono (by rw [slot_setCallPhase]) (by rw [slot_setCallPhase])⟩
  | @answer s =>
      obtain ⟨⟨id, ho, hpos⟩, hfares⟩ := h
      exact ⟨id, ho, .inr ⟨s, [], _, past, hpos, rfl, rfl, rfl, .of_fares hp hfares hc⟩⟩

/-! ## The answers of all runs -/

/-- What is known of restarts holds of every call of a run. -/
theorem Run.accounted {config : Config} {past : List (Moment t)} (run : Run (fresh t config) past c) :
    ∀ (k : Nat) (call : Call t.size), c.calls[k]? = some call →
      c.Accounted past k call.operation call.phase := by
  induction run with
  | refl => simp [fresh]
  | @tail past c c' now action effects run hs ih =>
      intro k call hk
      cases hj : action.job? with
      | some id =>
          have turns := turnsTo_of_step hj hs
          have hk' : c.calls[k]? = some call := by
            obtain ⟨old, new, slot, aside, -, -, rfl⟩ := turns
            rwa [calls_after] at hk
          exact (ih k call hk').turn hk' hj turns
      | none =>
          have changes := (changesTo_of_step hj hs).1
          rcases restarts_of_step hj hs with keeps | ⟨i, old, phase, d, rfl, hi, hr, rfl⟩
          · rcases keeps k call hk with hk | hidle
            · exact (ih k call hk).change changes
            · exact accounted_of_idles hidle
          · rcases calls_setCallPhase_cases hk with ⟨-, hk⟩ | ⟨old', rfl, hold, rfl⟩
            · exact (ih k call (hr.calls_eq ▸ hk)).change changes
            · rw [hr.calls_eq] at hold
              obtain rfl := Option.some.inj (hold.symm.trans hi)
              exact (ih k old' hi).redo hi run.consistent hr

/-- **What a restart answers.** In every run, with any other calls at the same time and whatever the
engine and the store do, a restart answers that the service is unknown only if it is, that it cannot
be restarted only with the state in which it found it, and otherwise by what it reads of its service
at the end: that all is well if the service is ready, and the error that is recorded and fits the
state if one is. It answers that all is well with a service that is not ready only where a job of
another call has moved the service to starting in the meantime, or a stop job of another call has
taken it out of use. -/
theorem Run.restart_answers {config : Config} {past : List (Moment t)}
    (run : Run (fresh t config) past c) {result : Except Error Status} {time : Nat}
    (hk : c.calls[k]? = some call) (ha : call.answer? = some (.restarted result, time)) :
    ∃ id, call.operation = .restart id ∧
      (t.position? id = none ∧ result = .error (.unknownService id) ∨
        ∃ (s : Fin t.size) (later : List (Moment t)) (m : Moment t) (earlier : List (Moment t)),
          t.position? id = some s ∧ past = later ++ m :: earlier ∧ m.action = .proceed k ∧
            m.now = time ∧ m.before.RestartAnswer earlier k s result) := by
  have haccounted := run.accounted k call hk
  obtain ⟨answer, time', hp⟩ := Call.phase_of_answer (Option.isSome_of_mem ha)
  rw [Call.answer?, hp, Option.some.injEq, Prod.mk.injEq] at ha
  obtain ⟨rfl, rfl⟩ := ha
  rwa [hp] at haccounted

/-! ### A restart that is cancelled, and one that is overtaken -/

/-- All starts are cancelled while the new container of the database is on its way. -/
def cancelledSteps : List (Nat × Action) :=
  restartSteps ++ ([(45, .answer 2 (.container (.stop (.ok ())))), (45, .run 2), (45, .proceed 1),
    (45, .run 3), (45, .run 3), (45, .run 4), (50, .invoke .cancel), (50, .proceed 2), (50, .run 3),
    (50, .run 3), (50, .proceed 1), (50, .proceed 1)] : List (Nat × Action))

/-- The theorem at the end of that run: the restart answers that it was cancelled. -/
theorem restart_answers_cancelled :
    ∃ (past : List (Moment solo)) (c : Controller solo) (call : Call solo.size),
      Run (fresh solo {}) past c ∧ c.calls[1]? = some call ∧
        call.answer? = some (.restarted (.error (.cancelled ⟨"db"⟩)), 50) ∧
        ∃ (s : Fin solo.size) (later : List (Moment solo)) (m : Moment solo)
          (earlier : List (Moment solo)), past = later ++ m :: earlier ∧ m.now = 50 ∧
            m.before.RestartAnswer earlier 1 s (.error (.cancelled ⟨"db"⟩)) := by
  obtain ⟨past, c, run, shown⟩ := exists_run (fresh solo {}) cancelledSteps
    (fun _ c => (c.calls[1]?).any fun call =>
      call.restartError? = some (.cancelled ⟨"db"⟩, 50))
    (by decide +kernel)
  obtain ⟨call, hk, hanswer⟩ := (Option.any_eq_true _ _).1 shown
  have ha := Call.restartError?_eq_some.1 (of_decide_eq_true hanswer)
  obtain ⟨id, -, ⟨-, he⟩ | ⟨s, later, m, earlier, -, hpast, -, hnow, hread⟩⟩ :=
    run.restart_answers hk ha
  · cases he
  · exact ⟨past, c, call, run, hk, ha, s, later, m, earlier, hpast, hnow, hread⟩

/-- A database that keeps its data in a volume. -/
def vault : Topology where
  services := [{ id := ⟨"db"⟩, image := "db:img" }]
  index := [(⟨"db"⟩, 0)]
  graph := { nodes := [⟨"db"⟩] }
  volumes := [⟨{ id := ⟨"data"⟩, mountPath := "/data" }, ⟨"db"⟩⟩]

theorem vault_built : vault.Built :=
  ⟨_, .volume (.service .empty { id := ⟨"db"⟩, image := "db:img" })
    { id := ⟨"data"⟩, mountPath := "/data" } ⟨"db"⟩, rfl⟩

/-- The store is slow: all services are stopped while the restart of the database waits for its
volume. -/
def crossedSteps : List (Nat × Action) :=
  [(0, .invoke .startAll), (0, .run 0), (0, .run 0),
    (100, .answer 0 (.volume (.ok (.attached true)))), (100, .run 1),
    (100, .answer 1 (.container (.start (.ok ⟨⟨"db"⟩, "1"⟩)))), (100, .run 0), (100, .run 0),
    (100, .run 0), (100, .answer 0 (.container (.probe .ready))), (100, .run 0), (100, .proceed 0),
    (100, .proceed 0), (100, .proceed 0), (100, .invoke (.restart ⟨"db"⟩)), (100, .proceed 1),
    (100, .run 2), (100, .answer 2 (.container (.stop (.ok ())))),
    (200, .answer 2 (.volume (.ok (.detached (some ⟨"db"⟩))))), (200, .run 2), (200, .proceed 1),
    (200, .run 3), (200, .run 3), (250, .invoke .stopAll), (250, .run 4), (250, .run 4),
    (300, .answer 3 (.volume (.ok (.attached true)))), (300, .run 3), (300, .run 3),
    (300, .proceed 1), (300, .proceed 1)]

/-- A restart is overtaken by a stop of all services while its start waits for a volume, and answers
that all is well, with a database that is being stopped. -/
theorem restarted_stopping :
    ∃ (past : List (Moment vault)) (c : Controller vault) (call : Call vault.size) (status : Status)
      (time : Nat), vault.Built ∧ Run (fresh vault {}) past c ∧ c.calls[1]? = some call ∧
        call.operation = .restart ⟨"db"⟩ ∧ call.answer? = some (.restarted (.ok status), time) ∧
        status.state = .stopping := by
  obtain ⟨past, c, run, shown⟩ := exists_run (fresh vault {}) crossedSteps
    (fun _ c => (c.calls[1]?).any fun call => call.operation = .restart ⟨"db"⟩ &&
      call.restartStatus?.any fun answer => answer.1.state = .stopping)
    (by decide +kernel)
  obtain ⟨call, hk, hshown⟩ := (Option.any_eq_true _ _).1 shown
  rw [Bool.and_eq_true, decide_eq_true_iff] at hshown
  obtain ⟨hop, hanswer⟩ := hshown
  obtain ⟨⟨status, time⟩, hstatus, hstopping⟩ := (Option.any_eq_true _ _).1 hanswer
  exact ⟨past, c, call, status, time, vault_built, run, hk, hop,
    Call.restartStatus?_eq_some.1 hstatus, of_decide_eq_true hstopping⟩

end Controller

end Bringup.Lifecycle
