import Bringup.Proofs.Lifecycle.Custody
import Bringup.Proofs.Lifecycle.DependencyOrder

/-!
# State and last error agree

What is recorded with a service fits where the service stands (`ErrorFits`): while it is starting or
ready there is no error, a failed service says why it could not be started, one that is stopping was
at most cancelled, and one that can be started was at most cancelled or refused because of a
dependency.

The errors are recorded by start jobs, long after they were found, so the invariant (`Consistent`) also
says which errors a start job carries with it (`Carries`). A turn of a start job then touches state
and error in one of three ways (`StartTurn.error_cases`), each guarded by the state it writes over; no
write is allowed over failed, which is why a failed service never changes again (`failed_of_step`).
-/

namespace Bringup.Lifecycle

variable {t : Topology}

/-- The error says why the service itself could not be started. -/
def Error.Fails (service : ServiceId) (attempts : UInt32) : Error → Prop
  | .startFailed id _ | .volume id _ => id = service
  | .probeTimeout id n => id = service ∧ n = attempts
  | _ => False

/-- The error leaves the service to be started again: its run was cancelled, or one of its direct
dependencies was not ready. -/
def Error.Defers (t : Topology) (s : Fin t.size) : Error → Prop
  | .cancelled id => id = t.id s
  | .dependencyFailed id dependency => id = t.id s ∧ ∃ d ∈ t.dependencies s, dependency = t.id d
  | _ => False

/-- The last error fits the state of the service. -/
def ErrorFits (t : Topology) (attempts : UInt32) (s : Fin t.size) (error : Option Error) :
    ServiceState → Prop
  | .starting | .ready => error = none
  | .failed => ∃ e, error = some e ∧ e.Fails (t.id s) attempts
  | .stopping => error = none ∨ error = some (.cancelled (t.id s))
  | .pending | .stopped => ∀ e, error = some e → e.Defers t s

/-- An error that fits says that the service could not be started, or leaves it to be started
again. -/
theorem ErrorFits.kinds {attempts : UInt32} {s : Fin t.size} {error : Error} {state : ServiceState}
    (h : ErrorFits t attempts s (some error) state) :
    error.Fails (t.id s) attempts ∨ error.Defers t s := by
  cases state with
  | starting | ready => cases h
  | failed =>
      obtain ⟨e, he, hf⟩ := h
      exact .inl (Option.some.inj he ▸ hf)
  | stopping =>
      rcases h with h | h
      · cases h
      · exact .inr (Option.some.inj h ▸ rfl)
  | pending | stopped => exact .inr (h error rfl)

/-- What a start job of the service has found and not recorded yet. -/
def StartPhase.Carries (attempts : UInt32) (s : Fin t.size) : StartPhase t.size → Prop
  | .awaiting left => left ⊆ t.dependencies s
  | .refusing error => error.Defers t s
  | .concluding (.failed error) => error.Fails (t.id s) attempts
  | _ => True

/-! ## How a turn touches state and error -/

variable {c c' : Controller t} {now : Nat} {id : JobId} {action : Action} {slot : Slot}
  {aside : Aside} {effects : List Effect} {attempts : UInt32} {s : Fin t.size}

/-- A start job leaves state and error alone, moves its service to starting and clears the error,
records the error it was refused with while the service can be started, or moves the service out of
starting with its verdict. -/
theorem StartTurn.error_cases {job job' : StartJob t.size}
    (turn : StartTurn c now id job action job' slot aside effects) :
    (slot.state = (c.slot job.service).state ∧ slot.lastError = (c.slot job.service).lastError) ∨
    ((c.slot job.service).state.isStartable ∧ slot.state = .starting ∧ slot.lastError = none) ∨
    ((c.slot job.service).state.isStartable ∧ slot.state = (c.slot job.service).state ∧
      ∃ error, slot.lastError = some error ∧
        (job.phase = .refusing error ∨ error = .cancelled (t.id job.service))) ∨
    ((c.slot job.service).state = .starting ∧ ∃ verdict, job.phase = .concluding verdict ∧
      slot.state = verdict.target ∧
      slot.lastError = (verdict.error (t.id job.service)).or (c.slot job.service).lastError) := by
  cases turn with
  | @refuse error hp =>
      rw [StartJob.state_unclaim, StartJob.lastError_unclaim, Slot.recordIfStartable]
      split
      next hs => exact .inr (.inr (.inl ⟨hs, rfl, error, rfl, .inl hp⟩))
      next => exact .inl ⟨rfl, rfl⟩
  | forgo hp hc =>
      rw [StartJob.state_unclaim, StartJob.lastError_unclaim, Slot.recordIfStartable]
      split
      next hs => exact .inr (.inr (.inl ⟨hs, rfl, _, rfl, .inr rfl⟩))
      next => exact .inl ⟨rfl, rfl⟩
  | enter hp hc hs hv | enterBare hp hc hs hv => exact .inr (.inl ⟨hs, rfl, rfl⟩)
  | @conclude verdict hp =>
      rw [StartJob.state_unclaim, StartJob.lastError_unclaim, Slot.leaveStarting]
      split
      next hs => exact .inr (.inr (.inr ⟨hs, verdict, hp, rfl, rfl⟩))
      next => exact .inl ⟨rfl, rfl⟩
  | _ => exact .inl (by simp)

/-- A stop job never touches the error. -/
theorem StopTurn.lastError_eq {job : StopJob t.size} {phase : StopPhase}
    (turn : StopTurn c now id job action phase slot effects) :
    slot.lastError = (c.slot job.service).lastError := by
  cases turn <;> rfl

theorem StartTurn.stays_failed {job job' : StartJob t.size}
    (turn : StartTurn c now id job action job' slot aside effects)
    (h : (c.slot job.service).state = .failed) :
    slot.state = .failed ∧ slot.lastError = (c.slot job.service).lastError := by
  rcases turn.error_cases with ⟨hs, he⟩ | ⟨hb, -⟩ | ⟨hb, -⟩ | ⟨hb, -⟩
  · exact ⟨hs.trans h, he⟩
  all_goals
    rw [h] at hb
    cases hb

theorem StopTurn.stays_failed {job : StopJob t.size} {phase : StopPhase}
    (turn : StopTurn c now id job action phase slot effects)
    (h : (c.slot job.service).state = .failed) : slot.state = .failed := by
  rcases turn.state_cases with hs | ⟨-, hb, -⟩ | ⟨-, hb | hb, -⟩ | ⟨-, hb, -⟩
  · exact hs.trans h
  all_goals
    rw [h] at hb
    cases hb

namespace Controller

/-- A change of a call leaves state and error alone, or cancels a service that is starting. -/
theorem Sets.error_cases (h : Sets now c c') (s : Fin t.size) :
    ((c'.slot s).state = (c.slot s).state ∧ (c'.slot s).lastError = (c.slot s).lastError) ∨
    ((c.slot s).state = .starting ∧ (c'.slot s).state = .stopping ∧
      (c'.slot s).lastError = some (.cancelled (t.id s))) := by
  cases h with
  | starts services jobs slots cancelled run => exact .inl (by rw [slots]; exact ⟨rfl, rfl⟩)
  | stops stops fresh jobs slots cancelled run => exact .inl (by rw [slots]; exact ⟨rfl, rfl⟩)
  | sweeps s' jobs slots cancelled run =>
      rw [slots]
      split
      next h =>
        subst h
        unfold Slot.leaveStarting
        split
        next hs => exact .inr ⟨hs, rfl, rfl⟩
        next => exact .inl ⟨rfl, rfl⟩
      next => exact .inl ⟨rfl, rfl⟩

/-! ## What a start job carries -/

/-- What a start job carries after a turn it has carried before, or has just found. -/
theorem carries_turn {job job' : StartJob t.size}
    (turn : StartTurn c now id job action job' slot aside effects)
    (h : job.phase.Carries c.config.retry.maxAttempts job.service) :
    job'.phase.Carries c.config.retry.maxAttempts job.service := by
  have hawait {left : List (Fin t.size)} (hl : left ⊆ t.dependencies job.service) :
      (job.await left).phase.Carries c.config.retry.maxAttempts job.service := by
    rw [StartJob.phase_await]
    split
    next => trivial
    next => exact hl
  cases turn with
  | arrive => exact hawait (List.Subset.refl _)
  | giveUp => exact rfl
  | accept hp =>
      rw [hp] at h
      exact hawait fun d hd => h (List.mem_cons_of_mem _ hd)
  | @decline d rest hp =>
      rw [hp] at h
      exact ⟨rfl, d, h List.mem_cons_self, rfl⟩
  | lose | miss => exact rfl
  | @retry handle attempt probe hp hr =>
      rcases c.retryPhase_cases now job.service handle attempt with
        ⟨-, deadline, he⟩ | ⟨-, he⟩ <;> simp only [StartJob.goTo, he]
      · trivial
      · exact ⟨rfl, rfl⟩
  | _ => trivial

/-! ## The invariant -/

/-- State and last error of every service agree, and so they will when the start jobs record what they
carry. -/
structure Consistent (c : Controller t) : Prop where
  slot : ∀ s, ErrorFits t c.config.retry.maxAttempts s (c.slot s).lastError (c.slot s).state
  carries : ∀ {id : Nat} {job : StartJob t.size}, c.jobs[id]? = some (.start job) →
    job.phase.Carries c.config.retry.maxAttempts job.service

theorem consistent_fresh {config : Config} : Consistent (fresh t config) where
  slot s := by simp [fresh, Controller.slot, ErrorFits]
  carries h := by simp [fresh] at h

/-- What is recorded in a turn of a start job fits the state it leaves. -/
theorem Consistent.fits_start (h : c.Consistent) {job job' : StartJob t.size}
    (hj : c.jobs[id]? = some (.start job))
    (turn : StartTurn c now id job action job' slot aside effects) :
    ErrorFits t c.config.retry.maxAttempts job.service slot.lastError slot.state := by
  have hfits := h.slot job.service
  have hcarries := h.carries hj
  rcases turn.error_cases with
    ⟨hs, he⟩ | ⟨-, hs, he⟩ | ⟨hst, hs, error, he, hfound⟩ | ⟨hst, verdict, hp, hs, he⟩
  · rwa [hs, he]
  · rw [hs, he]
    rfl
  · have hdefers : error.Defers t job.service := by
      rcases hfound with hp | rfl
      · rwa [hp] at hcarries
      · rfl
    -- A service that can be started is pending or stopped.
    rw [hs, he]
    revert hst
    cases (c.slot job.service).state with
    | pending | stopped => exact fun _ e hs => Option.some.inj hs ▸ hdefers
    | _ => exact fun hst => by cases hst
  · rw [hst] at hfits
    rw [hp] at hcarries
    rw [hs, he]
    cases verdict with
    | ready => exact hfits
    | failed error => exact ⟨error, rfl, hcarries⟩
    | cancelled launch => exact .inr rfl

/-- A stop job leaves an error behind that fits the state it moves the service to. -/
theorem Consistent.fits_stop (h : c.Consistent) {job : StopJob t.size} {phase : StopPhase}
    (turn : StopTurn c now id job action phase slot effects) :
    ErrorFits t c.config.retry.maxAttempts job.service slot.lastError slot.state := by
  have hfits := h.slot job.service
  rw [turn.lastError_eq]
  rcases turn.state_cases with hs | ⟨-, hb, hs⟩ | ⟨-, hb | hb, hs⟩ | ⟨-, hb, hs⟩ <;> rw [hs]
  · exact hfits
  all_goals rw [hb] at hfits
  · exact hfits
  · exact .inl hfits
  · exact .inl hfits
  · intro e he
    rcases hfits with hn | hc
    · rw [hn] at he
      cases he
    · rw [hc, Option.some.injEq] at he
      subst he
      rfl

theorem Consistent.turn (h : c.Consistent) (hturn : TurnsTo c now id action c' effects) :
    c'.Consistent := by
  obtain ⟨old, new, slot, aside, hj, turn, rfl⟩ := hturn
  refine ⟨fun s => ?_, fun {i job} hi => ?_⟩
  · rw [config_after]
    by_cases hs : s = old.service
    · subst hs
      rw [slot_after_self]
      cases turn with
      | start turn => exact h.fits_start hj turn
      | stop turn => exact h.fits_stop turn
      | launch => exact h.slot _
    · rw [slot_after_of_ne hs]
      exact h.slot s
  · rw [config_after]
    cases turn with
    | start turn =>
        rcases start_after_start_cases (lt_size_of_job hj) hi with ⟨-, rfl⟩ | ⟨-, hi⟩
        · rw [turn.same.1]
          exact carries_turn turn (h.carries hj)
        · exact h.carries hi
    | stop | launch => exact h.carries (start_of_after (lt_size_of_job hj) (by simp) hi)

theorem Consistent.change (h : c.Consistent) {operation : Operation}
    (change : CallChange now c operation c') : c'.Consistent := by
  refine ⟨fun s => ?_, fun {id job} hj => ?_⟩ <;> rw [change.config_eq]
  · have hfits := h.slot s
    rcases change.sets.error_cases s with ⟨hs, he⟩ | ⟨-, hs, he⟩
    · rwa [hs, he]
    · rw [hs, he]
      exact .inr rfl
  · rcases change.sets.start_cases hj with hj | ⟨-, hp, -, -⟩
    · exact h.carries hj
    · rw [hp]
      trivial

theorem Run.consistent {config : Config} {past : List (Moment t)}
    (run : Run (fresh t config) past c) : c.Consistent :=
  run.invariant consistent_fresh fun h hs =>
    step_induct hs (fun _ turn => h.turn turn) (fun h change => h.change change) h

/-! ## A failed service -/

/-- No step touches state or error of a service that has failed. -/
theorem failed_of_step (hs : c.step now action = some (c', effects))
    (h : (c.slot s).state = .failed) :
    (c'.slot s).state = .failed ∧ (c'.slot s).lastError = (c.slot s).lastError := by
  refine step_induct (P := fun d => (d.slot s).state = .failed ∧
    (d.slot s).lastError = (c.slot s).lastError) hs (fun id hturn => ?_) (fun hd change => ?_)
    ⟨h, rfl⟩
  · obtain ⟨old, new, slot, aside, hj, turn, rfl⟩ := hturn
    by_cases hs : s = old.service
    · subst hs
      rw [slot_after_self]
      cases turn with
      | start turn => exact turn.stays_failed h
      | stop turn => exact ⟨turn.stays_failed h, turn.lastError_eq⟩
      | launch => exact ⟨h, rfl⟩
    · rw [slot_after_of_ne hs]
      exact ⟨h, rfl⟩
  · rcases change.sets.error_cases s with ⟨hs, he⟩ | ⟨hb, -⟩
    · exact ⟨hs.trans hd.1, he.trans hd.2⟩
    · rw [hd.1] at hb
      cases hb

/-- A failed service stays as it is for the rest of a run. -/
theorem Run.stays_failed {start : Controller t} {past : List (Moment t)} (run : Run start past c)
    (h : (start.slot s).state = .failed) :
    ∀ p ∈ instants c past, (p.slot s).state = .failed ∧
      (p.slot s).lastError = (start.slot s).lastError := by
  induction run with
  | refl =>
      intro p hp
      obtain rfl := List.mem_singleton.1 hp
      exact ⟨h, rfl⟩
  | tail run hs ih =>
      intro p hp
      rcases List.mem_cons.1 hp with rfl | hp
      · obtain ⟨hb, he⟩ := ih _ List.mem_cons_self
        obtain ⟨ha, he'⟩ := failed_of_step hs hb
        exact ⟨ha, he'.trans he⟩
      · exact ih p hp

/-- **State and last error agree.** At every instant of every run the last error of every service fits
its state, and is neither that the service is unknown nor that it cannot be restarted. Once a service
has failed, neither its state nor its last error changes again. -/
theorem Run.last_errors {config : Config} {past : List (Moment t)}
    (run : Run (fresh t config) past c) :
    (∀ p ∈ instants c past, ∀ s,
      ErrorFits t config.retry.maxAttempts s (p.slot s).lastError (p.slot s).state ∧
      (∀ name, (p.slot s).lastError ≠ some (.unknownService name)) ∧
      ∀ name state, (p.slot s).lastError ≠ some (.notRestartable name state)) ∧
    ∀ (later : List (Moment t)) (m : Moment t) (earlier : List (Moment t)) (s : Fin t.size),
      past = later ++ m :: earlier → (m.before.slot s).state = .failed →
        ∀ p ∈ instants c later, (p.slot s).state = .failed ∧
          (p.slot s).lastError = (m.before.slot s).lastError := by
  refine ⟨fun p hp s => ?_, fun later m earlier s hpast h => ?_⟩
  · obtain ⟨before, hrun⟩ := run.upTo hp
    have hfits := hrun.config_eq ▸ hrun.consistent.slot s
    refine ⟨hfits, fun name he => ?_, fun name state he => ?_⟩ <;> rw [he] at hfits <;>
      rcases hfits.kinds with h | h <;> exact h
  · obtain ⟨-, hrun⟩ := run.split hpast
    obtain ⟨hs, he⟩ := failed_of_step (run.step_of_mem
      (hpast ▸ List.mem_append_right _ List.mem_cons_self)) h
    intro p hp
    obtain ⟨hs', he'⟩ := hrun.stays_failed hs p hp
    exact ⟨hs', he'.trans he⟩

/-! ### A service that fails, and one that depends on it -/

/-- The container of the database cannot be started, and so the web server is not started either. -/
def failingSteps : List (Nat × Action) :=
  [(0, .invoke .startAll), (0, .run 0), (0, .run 0), (0, .run 2),
    (20, .answer 2 (.container (.start (.error (.start "no image"))))), (20, .run 0), (20, .run 0),
    (20, .run 1), (20, .run 1), (20, .run 1)]

/-- The theorem at the end of that run. -/
theorem last_errors_failing :
    ∃ (past : List (Moment pair)) (c : Controller pair), Run (fresh pair {}) past c ∧
      (c.slot db).state = .failed ∧ (c.slot web).state = .pending ∧
      (∃ e, (c.slot db).lastError = some e ∧ e.Fails (pair.id db) ({} : Config).retry.maxAttempts) ∧
      ∃ e, (c.slot web).lastError = some e ∧ e.Defers pair web := by
  obtain ⟨past, c, run, shown⟩ := exists_run (fresh pair {}) failingSteps
    (fun _ c => (c.slot db).state = .failed && (c.slot web).state = .pending &&
      (c.slot web).lastError.isSome)
    (by decide +kernel)
  simp only [Bool.and_eq_true, decide_eq_true_iff, Option.isSome_iff_exists] at shown
  obtain ⟨⟨hdb, hweb⟩, e, he⟩ := shown
  have fits := run.last_errors.1 c List.mem_cons_self
  have hfailed := (fits db).1
  have hpending := (fits web).1
  rw [hdb] at hfailed
  rw [hweb] at hpending
  exact ⟨past, c, run, hdb, hweb, hfailed, e, he, hpending e he⟩

end Controller

end Bringup.Lifecycle
