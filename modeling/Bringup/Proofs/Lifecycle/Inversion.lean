import Bringup.Proofs.Lifecycle.Turns

/-!
# Every step of a job is a turn

`turnsTo_of_step` reads the definitions of the steps once: whatever a controller does for a job is one
of the turns, and leaves what the turn says. The three kinds of job are read one after another, each
function of theirs by one lemma.
-/

namespace Bringup.Lifecycle

namespace Controller

variable {t : Topology} {c : Controller t} {now : Nat} {id : JobId}

theorem endLaunch_setSlot {s : Fin t.size} {slot : Slot} {launch : JobId} :
    (c.setSlot s slot).endLaunch launch = (c.endLaunch launch).setSlot s slot := by
  unfold endLaunch
  rw [jobs_setSlot]
  split <;> rfl

theorem orphan_setSlot {s : Fin t.size} {slot : Slot} {launch : JobId} :
    (c.setSlot s slot).orphan launch = (c.orphan launch).setSlot s slot := by
  unfold orphan
  rw [jobs_setSlot]
  split <;> rfl

theorem after_setSlot {s : Fin t.size} {slot slot' : Slot} {job : Job t.size} {aside : Aside} :
    (c.setSlot s slot).after id job s slot' aside = c.after id job s slot' aside := by
  cases aside with
  | nothing | launches => simp [after, Controller.aside, spawn, setSlot]
  | takes launch => simp [after, Controller.aside, endLaunch_setSlot]
  | leaves launch => simp [after, Controller.aside, orphan_setSlot]

theorem after_slot {s : Fin t.size} {job : Job t.size} :
    c.after id job s (c.slot s) .nothing = c.setJob id job := by
  simp [after, aside]

theorem move_eq {s : Fin t.size} {target : ServiceState}
    (h : (c.slot s).state.canMoveTo target) :
    c.move now s target = (c.setSlot s ((c.slot s).moved now target), []) := by
  rw [move, Slot.move?_eq_moved h]

theorem moveFromStarting_eq (s : Fin t.size) (target : ServiceState) (error : Option Error)
    (h : ServiceState.starting.canMoveTo target) :
    c.moveFromStarting now s target error
      = (c.setSlot s ((c.slot s).leaveStarting now target error), []) := by
  unfold moveFromStarting Slot.leaveStarting
  split
  next hs =>
    rw [move_eq (by rw [hs]; exact h)]
    cases error <;> simp [modifySlot, Slot.record, Slot.moved]
  next => simp

/-! ### Start jobs -/

variable {job : StartJob t.size} {effects : List Effect} {c' : Controller t}

theorem startPhase_eq (phase : StartPhase t.size) :
    c.startPhase id job phase
      = c.after id (.start (job.goTo phase)) job.service (c.slot job.service) .nothing := by
  rw [after_slot]
  rfl

theorem finishStart_eq : c.finishStart id job
    = c.after id (.start job.finish) job.service (job.unclaim (c.slot job.service)) .nothing := by
  unfold finishStart StartJob.unclaim
  split
  next => rfl
  next => rw [after_slot]; rfl

theorem followStart_eq : c.followStart id job
    = c.after id (.start job.follow) job.service (job.unclaim (c.slot job.service)) .nothing := by
  unfold followStart StartJob.unclaim
  split
  next => rfl
  next => rw [after_slot]; rfl

theorem recordIfStartable_eq (error : Error) : c.recordIfStartable job error
    = c.setSlot job.service ((c.slot job.service).recordIfStartable error) := by
  unfold recordIfStartable Slot.recordIfStartable
  split
  next => rfl
  next => rw [setSlot_slot]

theorem finishStart_setSlot (slot : Slot) : (c.setSlot job.service slot).finishStart id job
    = c.after id (.start job.finish) job.service (job.unclaim slot) .nothing := by
  rw [finishStart_eq, slot_setSlot_self, after_setSlot]

theorem launch_eq (h : id < c.jobs.size) :
    (c.startPhase id job (.launching c.jobs.size)).spawn [.launch { service := job.service }]
      = c.after id (.start (job.goTo (.launching c.jobs.size))) job.service
          (c.slot job.service) .launches := by
  rw [startPhase, spawn_setJob _ h, after, aside, ← slot_spawn c, setSlot_slot]
  rfl

/-- A start job enters, gives up, or finds that somebody else was first. -/
theorem enter_turn (hj : c.jobs[id]? = some (.start job)) (hp : job.phase = .entering)
    (h : c.enter now id job = (c', effects)) :
    ∃ job' slot aside, StartTurn c now id job (.run id) job' slot aside effects ∧
      c' = c.after id (.start job') job.service slot aside := by
  unfold enter at h
  dsimp only at h
  split at h
  next hc =>
    obtain ⟨rfl, rfl⟩ := Prod.mk.inj h
    exact ⟨_, _, _, .forgo hp hc, by rw [recordIfStartable_eq, finishStart_setSlot]⟩
  next hc =>
    rw [Bool.not_eq_true] at hc
    split at h
    next hs =>
      rw [move_eq (ServiceState.isStartable_iff.1 hs)] at h
      simp only [modifySlot, slot_setSlot_self, setSlot_setSlot, List.nil_append] at h
      -- Moved to starting and freed of its last error, the slot has entered.
      change (((c.setSlot job.service ((c.slot job.service).entered now)).attachNext id job
        (t.volumesOf job.service)).1, ((c.setSlot job.service
        ((c.slot job.service).entered now)).attachNext id job (t.volumesOf job.service)).2)
        = (c', effects) at h
      cases hv : t.volumesOf job.service with
      | nil =>
          rw [hv, attachNext] at h
          obtain ⟨rfl, rfl⟩ := Prod.mk.inj h
          refine ⟨_, _, _, .enterBare hp hc hs hv, ?_⟩
          dsimp only
          rw [launch_eq (by simpa using lt_size_of_job hj), slot_setSlot_self, after_setSlot,
            jobs_setSlot]
      | cons volume rest =>
          rw [hv, attachNext] at h
          obtain ⟨rfl, rfl⟩ := Prod.mk.inj h
          refine ⟨_, _, _, .enter hp hc hs hv, ?_⟩
          rw [startPhase_eq, slot_setSlot_self, after_setSlot]
    next hs =>
      obtain ⟨rfl, rfl⟩ := Prod.mk.inj h
      exact ⟨_, _, _, .follow (.inr ⟨hp, hc⟩) hs, followStart_eq⟩

theorem conclude_turn {verdict : Verdict} (hp : job.phase = .concluding verdict)
    (h : c.conclude now id job verdict = (c', effects)) :
    ∃ job' slot aside, StartTurn c now id job (.run id) job' slot aside effects ∧
      c' = c.after id (.start job') job.service slot aside := by
  cases verdict with
  | ready =>
      unfold conclude at h
      dsimp only at h
      rw [moveFromStarting_eq _ _ _ (by rfl)] at h
      obtain ⟨rfl, rfl⟩ := Prod.mk.inj h
      exact ⟨_, _, _, .conclude hp, by rw [finishStart_setSlot]; rfl⟩
  | failed error =>
      unfold conclude at h
      dsimp only at h
      rw [moveFromStarting_eq _ _ _ (by rfl)] at h
      obtain ⟨rfl, rfl⟩ := Prod.mk.inj h
      exact ⟨_, _, _, .conclude hp, by rw [finishStart_setSlot]; rfl⟩
  | cancelled launch =>
      unfold conclude at h
      dsimp only at h
      rw [moveFromStarting_eq _ _ _ (by rfl)] at h
      obtain ⟨rfl, rfl⟩ := Prod.mk.inj h
      refine ⟨_, _, _, .conclude hp, ?_⟩
      cases launch with
      | none => dsimp only; rw [finishStart_setSlot]; rfl
      | some launch =>
          dsimp only
          rw [orphan_setSlot, finishStart_setSlot]
          rfl

theorem takeLaunch?_eq_some {launch : JobId} {result : Except Container.Error Container.Handle}
    (h : c.takeLaunch? launch = some (c', result)) :
    ∃ l, c.jobs[launch]? = some (.launch l) ∧ l.phase = .returned result ∧
      c' = c.endLaunch launch := by
  unfold takeLaunch? at h
  split at h
  next l hl =>
    split at h
    next r hr =>
      simp only [Option.some.injEq, Prod.mk.injEq] at h
      obtain ⟨rfl, rfl⟩ := h
      exact ⟨l, hl, hr, by simp [endLaunch, hl]⟩
    next => exact absurd h (by simp)
  next => exact absurd h (by simp)

theorem slot_endLaunch (launch : JobId) (s : Fin t.size) :
    (c.endLaunch launch).slot s = c.slot s := by
  unfold endLaunch
  split <;> rfl

theorem take_eq (launch : JobId) (phase : StartPhase t.size) :
    (c.endLaunch launch).startPhase id job phase
      = c.after id (.start (job.goTo phase)) job.service (c.slot job.service) (.takes launch) := by
  rw [startPhase, after, aside, ← slot_endLaunch launch, setSlot_slot]
  rfl

theorem runStart_turn (hj : c.jobs[id]? = some (.start job))
    (h : c.runStart now id job = some (c', effects)) :
    ∃ job' slot aside, StartTurn c now id job (.run id) job' slot aside effects ∧
      c' = c.after id (.start job') job.service slot aside := by
  unfold runStart at h
  dsimp only at h
  -- One case for each phase, in the order of `runStart`.
  split at h
  case h_1 hp =>
    split at h
    next hs =>
      obtain ⟨rfl, rfl⟩ := by simpa using h
      exact ⟨_, _, _, .arrive hp hs, startPhase_eq _⟩
    next hs =>
      obtain ⟨rfl, rfl⟩ := by simpa using h
      exact ⟨_, _, _, .follow (.inl hp) hs, followStart_eq⟩
  case h_2 hp =>
    split at h
    next hs =>
      obtain ⟨rfl, rfl⟩ := by simpa using h
      exact ⟨_, _, _, .cease hp (by simpa using hs), finishStart_eq⟩
    next => exact absurd h (by simp)
  case h_3 hp =>
    obtain ⟨rfl, rfl⟩ := by simpa using h
    exact ⟨_, _, _, .pass hp, startPhase_eq _⟩
  case h_4 d rest hp =>
    split at h
    next hc =>
      obtain ⟨rfl, rfl⟩ := by simpa using h
      exact ⟨_, _, _, .giveUp hp hc, startPhase_eq _⟩
    next hc =>
      rw [Bool.not_eq_true] at hc
      split at h
      next hs =>
        split at h
        next hd =>
          obtain ⟨rfl, rfl⟩ := by simpa using h
          exact ⟨_, _, _, .accept hp hc hd, startPhase_eq _⟩
        next hd =>
          obtain ⟨rfl, rfl⟩ := by simpa using h
          have hn := (Slot.progress_settled_iff.1 hs).resolve_left hd
          exact ⟨_, _, _, .decline hp hc hd hn, startPhase_eq _⟩
      next => exact absurd h (by simp)
  case h_5 error hp =>
    obtain ⟨rfl, rfl⟩ := by simpa using h
    exact ⟨_, _, _, .refuse hp, by rw [recordIfStartable_eq, finishStart_setSlot]⟩
  case h_6 hp => exact enter_turn hj hp (Option.some.inj h)
  case h_7 launch hp =>
    split at h
    next hc =>
      obtain ⟨rfl, rfl⟩ := by simpa using h
      exact ⟨_, _, _, .abandon hp hc, startPhase_eq _⟩
    next hc =>
      rw [Bool.not_eq_true] at hc
      split at h
      next => exact absurd h (by simp)
      next d handle ht =>
        obtain ⟨l, hl, hr, rfl⟩ := takeLaunch?_eq_some ht
        obtain ⟨rfl, rfl⟩ := by simpa using h
        exact ⟨_, _, _, .collect hp hc hl hr, take_eq _ _⟩
      next d error ht =>
        obtain ⟨l, hl, hr, rfl⟩ := takeLaunch?_eq_some ht
        obtain ⟨rfl, rfl⟩ := by simpa using h
        exact ⟨_, _, _, .lose hp hc hl hr, take_eq _ _⟩
  case h_8 handle hp =>
    split at h
    next hs =>
      obtain ⟨rfl, rfl⟩ := by simpa using h
      refine ⟨_, _, _, .record hp hs, ?_⟩
      rw [startPhase_eq, modifySlot, slot_setSlot_self, after_setSlot]
    next hs =>
      obtain ⟨rfl, rfl⟩ := by simpa using h
      exact ⟨_, _, _, .discard hp hs, startPhase_eq _⟩
  case h_9 handle attempt hp =>
    obtain ⟨rfl, rfl⟩ := by simpa using h
    exact ⟨_, _, _, .ask hp, startPhase_eq _⟩
  case h_10 verdict hp => exact conclude_turn hp (Option.some.inj h)
  case h_11 => exact absurd h (by simp)

theorem heedStart_turn (h : c.heedStart id job = some (c', effects)) :
    ∃ job' slot aside, StartTurn c now id job (.heed id) job' slot aside effects ∧
      c' = c.after id (.start job') job.service slot aside := by
  unfold heedStart at h
  dsimp only at h
  split at h
  next hc =>
    split at h
    next handle attempt deadline hp =>
      obtain ⟨rfl, rfl⟩ := by simpa using h
      exact ⟨_, _, _, .heed (.inl ⟨_, _, _, hp⟩) hc, startPhase_eq _⟩
    next handle attempt hp =>
      obtain ⟨rfl, rfl⟩ := by simpa using h
      exact ⟨_, _, _, .heed (.inr ⟨_, _, hp⟩) hc, startPhase_eq _⟩
    next handle attempt hp =>
      obtain ⟨rfl, rfl⟩ := by simpa using h
      exact ⟨_, _, _, .heedProbe hp hc, startPhase_eq _⟩
    next => exact absurd h (by simp)
  next => exact absurd h (by simp)

theorem timeoutStart_turn (h : c.timeoutStart now id job = some (c', effects)) :
    ∃ job' slot aside, StartTurn c now id job (.timeout id) job' slot aside effects ∧
      c' = c.after id (.start job') job.service slot aside := by
  unfold timeoutStart at h
  split at h
  next handle attempt deadline hp =>
    split at h
    next hd =>
      obtain ⟨rfl, rfl⟩ := by simpa using h
      exact ⟨_, _, _, .wake hp hd, startPhase_eq _⟩
    next => exact absurd h (by simp)
  next handle halt hp =>
    split at h
    next hh =>
      obtain ⟨rfl, rfl⟩ := by simpa using h
      exact ⟨_, _, _, .overrun hp hh, startPhase_eq _⟩
    next => exact absurd h (by simp)
  next => exact absurd h (by simp)

theorem retry_eq (handle : Container.Handle) (attempt : UInt32) :
    c.retry now id job handle attempt
      = c.startPhase id job (c.retryPhase now job.service handle attempt) := by
  unfold retry retryPhase
  dsimp only
  split <;> rfl

theorem answerStart_turn {reply : Reply} (hj : c.jobs[id]? = some (.start job))
    (h : c.answerStart now id job reply = some (c', effects)) :
    ∃ job' slot aside, StartTurn c now id job (.answer id reply) job' slot aside effects ∧
      c' = c.after id (.start job') job.service slot aside := by
  unfold answerStart at h
  split at h
  next volume rest answer hp =>
    cases rest with
    | nil =>
        obtain ⟨rfl, rfl⟩ := by simpa [attachNext] using h
        exact ⟨_, _, _, .bindLast hp, launch_eq (lt_size_of_job hj)⟩
    | cons next rest =>
        obtain ⟨rfl, rfl⟩ := by simpa [attachNext] using h
        exact ⟨_, _, _, .bind hp, startPhase_eq _⟩
  next volume rest error hp =>
    obtain ⟨rfl, rfl⟩ := by simpa using h
    exact ⟨_, _, _, .miss hp, startPhase_eq _⟩
  next handle attempt status hp =>
    split at h
    next =>
      obtain ⟨rfl, rfl⟩ := by simpa using h
      exact ⟨_, _, _, .ready hp, startPhase_eq _⟩
    next hr =>
      obtain ⟨rfl, rfl⟩ := by simpa using h
      exact ⟨_, _, _, .retry hp hr, by rw [retry_eq, startPhase_eq]⟩
  next handle halt reply hp =>
    split at h
    next hr =>
      obtain ⟨rfl, rfl⟩ := by simpa using h
      exact ⟨_, _, _, .discarded hp hr, finishStart_eq⟩
    next hr =>
      obtain ⟨rfl, rfl⟩ := by simpa using h
      exact ⟨_, _, _, .kill hp hr, startPhase_eq _⟩
    next => exact absurd h (by simp)
  next => exact absurd h (by simp)

/-! ### Stop jobs -/

section

variable {job : StopJob t.size}

theorem stopPhase_eq (phase : StopPhase) : c.stopPhase id job phase
    = c.after id (.stop { job with phase }) job.service (c.slot job.service) .nothing := by
  rw [after_slot]
  rfl

theorem stopPhase_setSlot (slot : Slot) (phase : StopPhase) :
    (c.setSlot job.service slot).stopPhase id job phase
      = c.after id (.stop { job with phase }) job.service slot .nothing := by
  rw [stopPhase_eq, slot_setSlot_self, after_setSlot]

theorem detachNext_eq (volumes : List Volume) : c.detachNext id job volumes
    = (c.stopPhase id job (detachPhase volumes), askDetach id volumes) := by
  cases volumes <;> rfl

theorem haltTaken_eq (handle : Option Container.Handle) : c.haltTaken now id job handle
    = (c.stopPhase id job (c.takenPhase now job.service handle),
        c.askTaken id job.service handle) := by
  cases handle with
  | none => exact detachNext_eq _
  | some handle => rfl

theorem take_turn (hp : job.phase = .taking) (h : c.take now id job = (c', effects)) :
    ∃ phase slot, StopTurn c now id job (.run id) phase slot effects ∧
      c' = c.after id (.stop { job with phase }) job.service slot .nothing := by
  unfold take at h
  dsimp only at h
  split at h
  next hs =>
    obtain ⟨rfl, rfl⟩ := Prod.mk.inj h
    exact ⟨_, _, .idle hp hs, stopPhase_eq _⟩
  next hs =>
    rw [move_eq (by rw [hs]; rfl), haltTaken_eq] at h
    obtain ⟨rfl, rfl⟩ := Prod.mk.inj h
    exact ⟨_, _, .skip hp hs, stopPhase_setSlot _ _⟩
  case h_3 | h_4 =>
    -- The service is starting or ready: it moves to stopping, and its container is taken.
    all_goals
      rename_i hs
      rw [move_eq (by rw [hs]; rfl), haltTaken_eq] at h
      obtain ⟨rfl, rfl⟩ := Prod.mk.inj h
      refine ⟨_, _, .take hp (by simp [hs]), ?_⟩
      dsimp only
      rw [takeHandle, modifySlot, slot_setSlot_self, setSlot_setSlot, stopPhase_setSlot]
      rfl
  case h_5 | h_6 =>
    -- The service is stopping or has failed: only its container is taken.
    all_goals
      rename_i hs
      rw [haltTaken_eq] at h
      obtain ⟨rfl, rfl⟩ := Prod.mk.inj h
      refine ⟨_, _, .takeLeft hp (by simp [hs]), ?_⟩
      rw [takeHandle, modifySlot, stopPhase_setSlot]
      rfl

theorem runStop_turn (h : c.runStop now id job = some (c', effects)) :
    ∃ phase slot, StopTurn c now id job (.run id) phase slot effects ∧
      c' = c.after id (.stop { job with phase }) job.service slot .nothing := by
  unfold runStop at h
  dsimp only at h
  split at h
  next hp =>
    obtain ⟨rfl, rfl⟩ := by simpa using h
    exact ⟨_, _, .go hp, stopPhase_eq _⟩
  next other rest hp =>
    split at h
    next hf =>
      obtain ⟨rfl, rfl⟩ := by simpa using h
      exact ⟨_, _, .pass hp hf, stopPhase_eq _⟩
    next => exact absurd h (by simp)
  next hp => exact take_turn hp (Option.some.inj h)
  next hp =>
    by_cases hs : (c.slot job.service).state = .stopping
    · rw [if_pos hs, move_eq (by rw [hs]; rfl)] at h
      obtain ⟨rfl, rfl⟩ := by simpa using h
      exact ⟨_, _, .retire hp hs, stopPhase_setSlot _ _⟩
    · rw [if_neg hs] at h
      obtain ⟨rfl, rfl⟩ := by simpa using h
      exact ⟨_, _, .leave hp hs, stopPhase_eq _⟩
  next => exact absurd h (by simp)

theorem timeoutStop_turn (h : c.timeoutStop now id job = some (c', effects)) :
    ∃ phase slot, StopTurn c now id job (.timeout id) phase slot effects ∧
      c' = c.after id (.stop { job with phase }) job.service slot .nothing := by
  unfold timeoutStop at h
  split at h
  next handle halt hp =>
    split at h
    next hh =>
      obtain ⟨rfl, rfl⟩ := by simpa using h
      exact ⟨_, _, .overrun hp hh, stopPhase_eq _⟩
    next => exact absurd h (by simp)
  next => exact absurd h (by simp)

theorem answerStop_turn {reply : Reply} (h : c.answerStop id job reply = some (c', effects)) :
    ∃ phase slot, StopTurn c now id job (.answer id reply) phase slot effects ∧
      c' = c.after id (.stop { job with phase }) job.service slot .nothing := by
  unfold answerStop at h
  split at h
  next handle halt reply hp =>
    split at h
    next hr =>
      rw [detachNext_eq] at h
      obtain ⟨rfl, rfl⟩ := by simpa using h
      exact ⟨_, _, .halted hp hr, stopPhase_eq _⟩
    next hr =>
      obtain ⟨rfl, rfl⟩ := by simpa using h
      exact ⟨_, _, .kill hp hr, stopPhase_eq _⟩
    next => exact absurd h (by simp)
  next volume rest result hp =>
    rw [detachNext_eq] at h
    obtain ⟨rfl, rfl⟩ := by simpa using h
    exact ⟨_, _, .unbind hp, stopPhase_eq _⟩
  next => exact absurd h (by simp)

end

/-! ### Launches -/

section

variable {job : Launch t.size}

theorem launchPhase_eq (phase : LaunchPhase) : c.launchPhase id job phase
    = c.after id (.launch { job with phase }) job.service (c.slot job.service) .nothing := by
  rw [after_slot]
  rfl

theorem runLaunch_turn (h : c.runLaunch now id job = some (c', effects)) :
    ∃ phase, LaunchTurn c now id job (.run id) phase effects ∧
      c' = c.after id (.launch { job with phase }) job.service (c.slot job.service) .nothing := by
  unfold runLaunch at h
  dsimp only at h
  split at h
  next hp =>
    obtain ⟨rfl, rfl⟩ := by simpa using h
    exact ⟨_, .call hp, launchPhase_eq _⟩
  next handle hp =>
    split at h
    next ho =>
      obtain ⟨rfl, rfl⟩ := by simpa using h
      exact ⟨_, .halt hp ho, launchPhase_eq _⟩
    next => exact absurd h (by simp)
  next error hp =>
    split at h
    next ho =>
      obtain ⟨rfl, rfl⟩ := by simpa using h
      exact ⟨_, .drop hp ho, launchPhase_eq _⟩
    next => exact absurd h (by simp)
  next => exact absurd h (by simp)

theorem timeoutLaunch_turn (h : c.timeoutLaunch now id job = some (c', effects)) :
    ∃ phase, LaunchTurn c now id job (.timeout id) phase effects ∧
      c' = c.after id (.launch { job with phase }) job.service (c.slot job.service) .nothing := by
  unfold timeoutLaunch at h
  split at h
  next handle halt hp =>
    split at h
    next hh =>
      obtain ⟨rfl, rfl⟩ := by simpa using h
      exact ⟨_, .overrun hp hh, launchPhase_eq _⟩
    next => exact absurd h (by simp)
  next => exact absurd h (by simp)

theorem answerLaunch_turn {reply : Reply} (h : c.answerLaunch id job reply = some (c', effects)) :
    ∃ phase, LaunchTurn c now id job (.answer id reply) phase effects ∧
      c' = c.after id (.launch { job with phase }) job.service (c.slot job.service) .nothing := by
  unfold answerLaunch at h
  split at h
  next result hp =>
    obtain ⟨rfl, rfl⟩ := by simpa using h
    exact ⟨_, .return hp, launchPhase_eq _⟩
  next handle halt reply hp =>
    split at h
    next hr =>
      obtain ⟨rfl, rfl⟩ := by simpa using h
      exact ⟨_, .halted hp hr, launchPhase_eq _⟩
    next hr =>
      obtain ⟨rfl, rfl⟩ := by simpa using h
      exact ⟨_, .kill hp hr, launchPhase_eq _⟩
    next => exact absurd h (by simp)
  next => exact absurd h (by simp)

end

/-! ### All jobs -/

/-- A step of a controller is a turn of a job. -/
def TurnsTo (c : Controller t) (now : Nat) (id : JobId) (action : Action) (c' : Controller t)
    (effects : List Effect) : Prop :=
  ∃ old new slot aside, c.jobs[id]? = some old ∧
    Turn c now id old action new slot aside effects ∧ c' = c.after id new old.service slot aside

variable {action : Action}

private theorem TurnsTo.start (hj : c.jobs[id]? = some (.start job))
    (h : ∃ job' slot aside, StartTurn c now id job action job' slot aside effects ∧
      c' = c.after id (.start job') job.service slot aside) : TurnsTo c now id action c' effects := by
  obtain ⟨job', slot, aside, turn, hc⟩ := h
  exact ⟨_, _, _, _, hj, .start turn, hc⟩

private theorem TurnsTo.stop {job : StopJob t.size} (hj : c.jobs[id]? = some (.stop job))
    (h : ∃ phase slot, StopTurn c now id job action phase slot effects ∧
      c' = c.after id (.stop { job with phase }) job.service slot .nothing) :
    TurnsTo c now id action c' effects := by
  obtain ⟨phase, slot, turn, hc⟩ := h
  exact ⟨_, _, _, _, hj, .stop turn, hc⟩

private theorem TurnsTo.launch {job : Launch t.size} (hj : c.jobs[id]? = some (.launch job))
    (h : ∃ phase, LaunchTurn c now id job action phase effects ∧
      c' = c.after id (.launch { job with phase }) job.service (c.slot job.service) .nothing) :
    TurnsTo c now id action c' effects := by
  obtain ⟨phase, turn, hc⟩ := h
  exact ⟨_, _, _, _, hj, .launch turn, hc⟩

/-- **Every step of a job is a turn**, and the controller is what the turn leaves of it. -/
theorem turnsTo_of_step (ha : action.job? = some id) (h : c.step now action = some (c', effects)) :
    TurnsTo c now id action c' effects := by
  cases action with
  | run i =>
      cases ha
      simp only [step] at h
      split at h
      next hj => exact .start hj (runStart_turn hj h)
      next hj => exact .stop hj (runStop_turn h)
      next hj => exact .launch hj (runLaunch_turn h)
      next => exact absurd h (by simp)
  | heed i =>
      cases ha
      simp only [step] at h
      split at h
      next hj => exact .start hj (heedStart_turn h)
      next => exact absurd h (by simp)
  | timeout i =>
      cases ha
      simp only [step] at h
      split at h
      next hj => exact .start hj (timeoutStart_turn h)
      next hj => exact .stop hj (timeoutStop_turn h)
      next hj => exact .launch hj (timeoutLaunch_turn h)
      next => exact absurd h (by simp)
  | answer i reply =>
      cases ha
      simp only [step] at h
      split at h
      next hj => exact .start hj (answerStart_turn hj h)
      next hj => exact .stop hj (answerStop_turn h)
      next hj => exact .launch hj (answerLaunch_turn h)
      next => exact absurd h (by simp)
  | invoke _ | proceed _ | interrupt _ => cases ha

end Controller

end Bringup.Lifecycle
