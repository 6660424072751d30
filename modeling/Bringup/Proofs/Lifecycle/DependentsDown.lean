import Bringup.Proofs.Lifecycle.Remembered

/-!
# Dependents are down first

A stop job takes its service only after the jobs of the same call for the services that depend on it
have come to their end. What another call is doing with those services it does not know. As long as
no start job is created after the first stop of all services (`StartsFirst`) and no two stop jobs of
a dependent are at work at once, this is enough: `Shuts` says that every start job is cancelled by
then, and `Receding` that a stop job which has come to its end leaves its service without a
container, and with none that is still being halted (`Run.dependents_down`).

Where two stops of a dependent overlap, the second one finds nothing to halt, and the dependency is
stopped under it (`dependent_halting`).
-/

namespace Bringup.Lifecycle

open Container (Handle)

variable {t : Topology}

namespace Controller

/-- The job belongs to a call that stops every service. -/
def StoppedBy (c : Controller t) (id : JobId) : Prop :=
  ∃ (k : Nat) (call : Call t.size), c.calls[k]? = some call ∧ call.operation = .stopAll ∧
    id ∈ call.jobs

/-- Every start job was created before the jobs of every call that stops all services. -/
def StartsFirst (c : Controller t) : Prop :=
  ∀ id, c.StoppedBy id → ∀ (i : Nat) (job : StartJob t.size), c.jobs[i]? = some (.start job) → i < id

variable {c c' d : Controller t} {now : Nat} {id : JobId} {action : Action} {effects : List Effect}
  {operation : Operation} {s : Fin t.size}

theorem StoppedBy.stopping (h : c.StoppedBy id) : c.Stopping := by
  obtain ⟨k, call, hk, ho, -⟩ := h
  exact ⟨k, call, hk, ho⟩

/-- A call keeps its operation and its jobs. -/
theorem CallChange.call_kept (change : CallChange now c operation d) {k : Nat} {call : Call t.size}
    (hk : c.calls[k]? = some call) :
    ∃ call', d.calls[k]? = some call' ∧ call'.operation = call.operation ∧
      call'.jobs = call.jobs := by
  obtain ⟨call', hk', ho⟩ := change.operation_kept hk
  refine ⟨call', hk', ho, ?_⟩
  rcases change.call_cases hk' with hc | ⟨old, phase, hc, rfl, -⟩ | ⟨he, -⟩
  · rw [Option.some.inj (hc.symm.trans hk)]
  · rw [Option.some.inj (hc.symm.trans hk)]
  · exact absurd (Array.getElem?_eq_some_iff.1 hk).1 (he ▸ Nat.lt_irrefl _)

theorem CallChange.stoppedBy (change : CallChange now c operation d) (h : c.StoppedBy id) :
    d.StoppedBy id := by
  obtain ⟨k, call, hk, ho, hid⟩ := h
  obtain ⟨call', hk', ho', hjobs⟩ := change.call_kept hk
  exact ⟨k, call', hk', ho'.trans ho, hjobs ▸ hid⟩

/-- A job that belongs to such a call after a change did so before, or it is new. -/
theorem CallChange.stoppedBy_before (change : CallChange now c operation d) (h : d.StoppedBy id) :
    c.StoppedBy id ∨ c.jobs.size ≤ id := by
  obtain ⟨k, call, hk, ho, hid⟩ := h
  rcases change.call_cases hk with hk | ⟨old, phase, hk', rfl, -⟩ | ⟨-, hnew, -⟩
  · exact .inl ⟨k, call, hk, ho, hid⟩
  · exact .inl ⟨k, old, hk', ho, hid⟩
  · exact .inr (hnew id hid)

theorem CallChange.startsFirst (change : CallChange now c operation d) (h : d.StartsFirst) :
    c.StartsFirst :=
  fun id hid i job hj => h id (change.stoppedBy hid) i job (change.sets.jobs_kept hj)

theorem startsFirst_of_step (hs : c.step now action = some (c', effects)) (h : c'.StartsFirst) :
    c.StartsFirst := by
  cases ha : action.job? with
  | some id =>
      obtain ⟨old, new, slot, aside, hj, turn, rfl⟩ := turnsTo_of_step ha hs
      intro i hi k job hk
      refine (?_ : ∃ job', _ = some (Job.start job')).elim fun job' hk' => h i (by
        simpa [StoppedBy] using hi) k job' hk'
      by_cases hki : k = id
      · subst hki
        rw [hk, Option.some.injEq] at hj
        subst hj
        cases turn with
        | start turn => exact ⟨_, jobs_after_self (lt_size_of_job hk)⟩
      · exact ⟨job, start_after_of_ne hki hk⟩
  | none =>
      have back : c'.StartsFirst → c.StartsFirst :=
        (changesTo_of_step ha hs).1.induct (P := fun d => d.StartsFirst → c.StartsFirst)
          (fun hc change hd => hc (change.startsFirst hd)) fun hc => hc
      exact back h

/-! ## A stop cancels every start -/

/-- Once the services are being stopped, no run is left that could start one. -/
structure Shuts (c : Controller t) : Prop where
  runs : ∀ {id : Nat} {job : StartJob t.size}, c.jobs[id]? = some (.start job) →
    job.run ≤ c.currentRun
  cancelled : c.Stopping → c.currentRun < c.cancelledRuns

theorem shuts_fresh (config : Config) : Shuts (fresh t config) where
  runs h := by simp [fresh] at h
  cancelled := by rintro ⟨k, call, hk, -⟩; simp [fresh] at hk

/-- Once the services are being stopped, every start job is cancelled. -/
theorem Shuts.isCancelled (h : Shuts c) (hs : c.Stopping) {job : StartJob t.size}
    (hj : c.jobs[id]? = some (.start job)) : c.isCancelled job.run := by
  simpa [Controller.isCancelled] using Nat.lt_of_le_of_lt (h.runs hj) (h.cancelled hs)

theorem Shuts.turn (h : Shuts c) (ht : TurnsTo c now id action c' effects) : Shuts c' := by
  obtain ⟨old, new, slot, aside, hj, turn, rfl⟩ := ht
  constructor
  case runs =>
    intro i job hi
    rw [currentRun_after]
    rcases start_after_cases (lt_size_of_job hj) hi with ⟨rfl, rfl⟩ | ⟨-, hi⟩
    · cases turn with
      | start turn => exact turn.same.2 ▸ h.runs hj
    · exact h.runs hi
  case cancelled =>
    intro hs
    rw [currentRun_after, cancelledRuns_after]
    exact h.cancelled (by simpa [Stopping] using hs)

/-- **What a change does to the runs** once the services are being stopped: it cancels all of them, or
leaves them as they are, or it creates a start job. -/
theorem CallChange.runs_stopping (change : CallChange now c operation d) (ht : t.Built)
    (s : Fin t.size) (h : d.Stopping) :
    d.currentRun < d.cancelledRuns ∨
    (c.Stopping ∧ d.currentRun = c.currentRun ∧ d.cancelledRuns = c.cancelledRuns) ∨
    (c.Stopping ∧ ∃ (i : Nat) (job : StartJob t.size), c.jobs.size ≤ i ∧
      d.jobs[i]? = some (.start job)) := by
  have hmoved {e : Controller t} {id : Nat} {phase : CallPhase t.size} (he : e.calls = c.calls)
      (h : (e.setCallPhase id phase).Stopping) : c.Stopping := by
    obtain ⟨k, call, hk, ho⟩ := h
    rcases calls_setCallPhase_cases hk with ⟨-, hk⟩ | ⟨old, rfl, hold, rfl⟩
    · exact ⟨k, call, he ▸ hk, ho⟩
    · exact ⟨k, old, he ▸ hold, ho⟩
  have hopened {e : Controller t} {operation : Operation} {jobs : List JobId}
      {phase : CallPhase t.size} (he : e.calls = c.calls) (hn : operation ≠ .stopAll)
      (h : (e.openCall operation jobs phase).1.Stopping) : c.Stopping := by
    obtain ⟨k, call, hk, ho⟩ := h
    rcases calls_openCall_cases hk with hk | ⟨-, rfl⟩
    · exact ⟨k, call, he ▸ hk, ho⟩
    · exact absurd ho hn
  have hstarts {order : List (Fin t.size)} {s : Fin t.size} (hs : s ∈ order) :
      ∃ (i : Nat) (job : StartJob t.size), c.jobs.size ≤ i ∧
        (c.arm.spawnStarts order).jobs[i]? = some (.start job) := by
    obtain ⟨i, hi, job, hj, hkind, -⟩ := start_jobs (c := c) order hs
    obtain ⟨n, -, rfl⟩ := List.mem_map.1 hi
    cases job with
    | start job => exact ⟨_, job, Nat.le_add_right _ _, hj⟩
    | stop | launch => cases hkind
  cases change with
  | stop | stopNothing | cancel => exact .inl (Nat.lt_succ_self _)
  | @start order ho =>
      obtain ⟨starts, hstart, -, hmem, -⟩ := ht.startOrder
      rw [hstart, Except.ok.injEq] at ho
      exact .inr (.inr ⟨hopened (by simp) (by simp) h, hstarts (ho ▸ hmem s)⟩)
  | ask hw ha hn => exact .inr (.inl ⟨hopened rfl hn h, rfl, rfl⟩)
  | progress =>
      exact .inr (.inl ⟨hmoved rfl h, currentRun_setCallPhase _ _, cancelledRuns_setCallPhase _ _⟩)
  | sweep =>
      exact .inr (.inl ⟨hmoved (calls_setSlot _ _) h, currentRun_setCallPhase _ _,
        cancelledRuns_setCallPhase _ _⟩)
  | restop =>
      exact .inr (.inl ⟨hmoved (calls_spawn _) h, currentRun_setCallPhase _ _,
        cancelledRuns_setCallPhase _ _⟩)
  | restart =>
      obtain ⟨i, job, hi, hj⟩ := hstarts List.mem_cons_self
      exact .inr (.inr ⟨hmoved (by simp) h, i, job, hi, by rw [jobs_setCallPhase]; exact hj⟩)

theorem Shuts.change (h : Shuts c) (ht : t.Built) (s : Fin t.size) (htakes : c.AllTakeDown)
    (hfirst : d.StartsFirst) (change : CallChange now c operation d) : Shuts d where
  runs hj := by
    rcases change.sets.start_cases hj with hj | ⟨-, -, -, he⟩
    · exact Nat.le_trans (h.runs hj) change.sets.currentRun_le
    · exact Nat.le_of_eq he
  cancelled hs := by
    rcases change.runs_stopping ht s hs with hlt | ⟨hc, hr, he⟩ | ⟨⟨k, call, hk, ho⟩, i, job, hi, hj⟩
    · exact hlt
    · rw [hr, he]
      exact h.cancelled hc
    · -- The start job would have been created before the stop job of some service.
      obtain ⟨id, hid, stop, hstop, -⟩ := (htakes k call hk ho).jobs s
      have hlt := hfirst id (change.stoppedBy ⟨k, call, hk, ho, hid⟩) i job hj
      exact absurd (Nat.lt_of_le_of_lt hi hlt) (Nat.not_lt.2 (Nat.le_of_lt (lt_size_of_job hstop)))

/-! ## What a stop leaves behind -/

end Controller

section Turns

variable {c : Controller t} {now : Nat} {id : JobId} {action : Action} {slot : Slot}
  {effects : List Effect} {job : StopJob t.size} {phase : StopPhase}

/-- A stop job halts a container that it was halting before, or that it found in the slot; a service
whose container it has taken is stopping, or has failed. -/
theorem StopTurn.halt_cases (turn : StopTurn c now id job action phase slot effects)
    (hh : phase.halt? ≠ none) :
    (job.phase.halt? ≠ none ∧ slot = c.slot job.service) ∨
    ((c.slot job.service).handle ≠ none ∧ (slot.state = .stopping ∨ slot.state = .failed)) := by
  have htaken : (c.takenPhase now job.service (c.slot job.service).handle).halt? ≠ none →
      (c.slot job.service).handle ≠ none := by
    intro hne he
    rw [he] at hne
    exact hne (halt?_detachPhase _)
  cases turn with
  | take hp hs => exact .inr ⟨htaken hh, .inl rfl⟩
  | takeLeft hp hs => exact .inr ⟨htaken hh, hs⟩
  | overrun hp | kill hp => exact .inl ⟨by rw [hp]; simp [StopPhase.halt?], rfl⟩
  | skip | halted | unbind => exact absurd (halt?_detachPhase _) hh
  | go | pass | idle | retire | leave => exact absurd rfl hh

/-- A stop job begins no halt where it leaves the service stopped. -/
theorem StopTurn.halt?_of_stopped (turn : StopTurn c now id job action phase slot effects)
    (hs : slot.state = .stopped) (hn : job.phase.halt? = none) : phase.halt? = none := by
  refine Classical.byContradiction fun hh => ?_
  rcases turn.halt_cases hh with ⟨hne, -⟩ | ⟨-, he | he⟩
  · exact hne hn
  all_goals rw [hs] at he; cases he

theorem StopPhase.active_of_halt? (h : phase.halt? ≠ none) : phase.Active := by
  cases phase with
  | halting => trivial
  | _ => exact absurd rfl h

/-- A stop job that comes to its end finds its service stopped, or was at work on it. -/
theorem StopTurn.finishes (turn : StopTurn c now id job action phase slot effects)
    (hf : phase = .finished) : job.phase.Active ∨ (c.slot job.service).state = .stopped := by
  cases turn with
  | idle _ hs => exact .inr hs
  | retire hp | leave hp => exact .inl (by rw [hp]; trivial)
  | skip | halted | unbind => exact absurd hf (Controller.detachPhase_ne_finished _)
  | take | takeLeft => exact absurd hf (Controller.takenPhase_ne_finished _ _ _)
  | go | pass | overrun | kill => cases hf

end Turns

namespace Controller

/-- What holds of a service none of whose stops overlapped, where no start job was created after the
first stop of all services. -/
structure Receding (c : Controller t) (s : Fin t.size) : Prop where
  vacant : c.Vacant s
  /-- A service that something is to stop has been started, or everything is to be stopped. -/
  started : ∀ {id : Nat} {job : StopJob t.size}, c.jobs[id]? = some (.stop job) →
    job.service = s → c.Stopping ∨ (c.slot s).state ≠ .pending
  /-- A stop job at work on a service that is stopped has nothing to halt. -/
  late : ∀ {id : Nat} {job : StopJob t.size}, c.jobs[id]? = some (.stop job) → job.service = s →
    job.phase.Active → (c.slot s).state = .stopped → c.Stopping ∧ job.phase.halt? = none
  /-- Once a call that stops every service has taken this one, it is out of use for good. -/
  gone : ∀ {id : Nat} {job : StopJob t.size}, c.StoppedBy id → c.jobs[id]? = some (.stop job) →
    job.service = s → ¬ job.Fresh → (c.slot s).handle = none ∧
      ((c.slot s).state = .stopping ∨ (c.slot s).state.isDown)
  /-- Once it has stopped it, no container of the service is being halted. -/
  halted : ∀ {id : Nat} {job : StopJob t.size}, c.StoppedBy id → c.jobs[id]? = some (.stop job) →
    job.service = s → job.phase = .finished → ∀ {i : Nat} {k : StopJob t.size},
      c.jobs[i]? = some (.stop k) → k.service = s → k.phase.halt? = none

theorem receding_fresh (config : Config) (s : Fin t.size) : Receding (fresh t config) s where
  vacant := vacant_fresh config s
  started h := by simp [fresh] at h
  late h := by simp [fresh] at h
  gone _ h := by simp [fresh] at h
  halted _ h := by simp [fresh] at h

variable {c c' d : Controller t} {now : Nat} {id : JobId} {action : Action} {effects : List Effect}
  {operation : Operation} {s : Fin t.size}

/-- The invariant survives what leaves the calls and the stop jobs of the service alone, and moves it
to starting only before everything is to be stopped. -/
theorem Receding.frame (h : Receding c s) (hvacant : Vacant c' s) (hcalls : c'.calls = c.calls)
    (hstate : (c'.slot s).state = (c.slot s).state ∨
      (¬ c.Stopping ∧ (c'.slot s).state = .starting) ∨
      ((c.slot s).state = .starting ∧ (c'.slot s).state ≠ .pending ∧
        (c'.slot s).state ≠ .stopped))
    (hhandle : (c'.slot s).handle = (c.slot s).handle ∨ (c.slot s).state = .starting)
    (hstop : ∀ {i : Nat} {job : StopJob t.size}, c'.jobs[i]? = some (.stop job) →
      job.service = s → c.jobs[i]? = some (.stop job)) : Receding c' s := by
  have hstopping : c'.Stopping ↔ c.Stopping := by rw [Stopping, Stopping, hcalls]
  have hby (i : JobId) : c'.StoppedBy i ↔ c.StoppedBy i := by rw [StoppedBy, StoppedBy, hcalls]
  constructor
  case vacant => exact hvacant
  case started =>
    intro i job hj hs
    rw [hstopping]
    rcases hstate with he | ⟨-, he⟩ | ⟨-, he, -⟩
    · exact he ▸ h.started (hstop hj hs) hs
    · exact .inr (by rw [he]; decide)
    · exact .inr he
  case late =>
    intro i job hj hs ha hst
    rw [hstopping]
    rcases hstate with he | ⟨-, he⟩ | ⟨-, -, he⟩
    · exact h.late (hstop hj hs) hs ha (he ▸ hst)
    · rw [hst] at he
      cases he
    · exact absurd hst he
  case gone =>
    intro i job hi hj hs hf
    rw [hby] at hi
    obtain ⟨hh, hst⟩ := h.gone hi (hstop hj hs) hs hf
    have hne : (c.slot s).state ≠ .starting := by
      intro he
      rw [he] at hst
      simp [ServiceState.isDown] at hst
    rw [hhandle.resolve_right hne]
    rcases hstate with he | ⟨hn, -⟩ | ⟨he, -⟩
    · exact he ▸ ⟨hh, hst⟩
    · exact absurd hi.stopping hn
    · exact absurd he hne
  case halted =>
    intro i job hi hj hs hf k k' hk hks
    rw [hby] at hi
    exact h.halted hi (hstop hj hs) hs hf (hstop hk hks) hks

/-- No stop job is at work on a service that a start job moves to starting. -/
theorem Receding.clear (h : Receding c s) (hopen : ¬ c.Stopping)
    (hst : (c.slot s).state.isStartable) {i : Nat} {k : StopJob t.size}
    (hk : c.jobs[i]? = some (.stop k)) (hks : k.service = s) : ¬ k.phase.Active := by
  intro ha
  obtain ⟨-, hs⟩ := h.vacant.taken hk hks ha
  have hstopped : (c.slot s).state = .stopped := by
    revert hst hs
    cases (c.slot s).state <;> simp [ServiceState.isStartable, ServiceState.isDown]
  exact hopen (h.late hk hks ha hstopped).1

theorem Receding.start_turn {job job' : StartJob t.size} {slot : Slot} {aside : Aside}
    (h : Receding c job.service) (hshuts : c.Shuts) (hj : c.jobs[id]? = some (.start job))
    (turn : StartTurn c now id job action job' slot aside effects) :
    Receding (c.after id (.start job') job.service slot aside) job.service := by
  have hid := lt_size_of_job hj
  have hstop {i : Nat} {k : StopJob t.size}
      (hi : (c.after id (.start job') job.service slot aside).jobs[i]? = some (.stop k)) :
      c.jobs[i]? = some (.stop k) := stop_of_after hid (by simp) hi
  have hopen (hn : c.isCancelled job.run = false) : ¬ c.Stopping := by
    intro hs
    rw [hshuts.isCancelled hs hj] at hn
    cases hn
  have hvacant := h.vacant.start_turn hj turn
  rcases turn.state_cases with hs | ⟨-, -, hn, hst, rfl⟩ | ⟨verdict, -, hs, hs'⟩
  · refine h.frame (hvacant ?_) calls_after (by simp [hs]) ?_ fun hi _ => hstop hi
    · rintro ⟨hst, i, k, hi, hks, ha⟩
      rw [slot_after_self, hs] at hst
      obtain ⟨-, hd⟩ := h.vacant.taken (hstop hi) hks ha
      rw [hst] at hd
      simp [ServiceState.isDown] at hd
    · rcases turn.records_cases with hh | ⟨_, _, hst, -⟩
      · exact .inl (by rw [slot_after_self, hh])
      · exact .inr hst
  · refine h.frame (hvacant ?_) calls_after (.inr (.inl ⟨hopen hn, by rw [slot_after_self]; rfl⟩))
      (.inl (by rw [slot_after_self]; rfl)) fun hi _ => hstop hi
    rintro ⟨-, i, k, hi, hks, ha⟩
    exact h.clear (hopen hn) hst (hstop hi) hks ha
  · have htarget : slot.state ≠ .pending ∧ slot.state ≠ .stopped ∧ slot.state ≠ .starting := by
      rw [hs']
      cases verdict <;> simp [Verdict.target]
    refine h.frame (hvacant ?_) calls_after
      (.inr (.inr ⟨hs, by rw [slot_after_self]; exact ⟨htarget.1, htarget.2.1⟩⟩)) (.inr hs)
      fun hi _ => hstop hi
    rintro ⟨hst, -⟩
    rw [slot_after_self] at hst
    exact htarget.2.2 hst

/-- Once a stop job has taken its service, the service is out of use. -/
theorem Vacant.stop_taken {job : StopJob t.size} {phase : StopPhase} {slot : Slot}
    (h : Vacant c job.service) (hj : c.jobs[id]? = some (.stop job))
    (turn : StopTurn c now id job action phase slot effects)
    (hf : ¬ StopJob.Fresh { job with phase }) :
    slot.handle = none ∧ (slot.state = .stopping ∨ slot.state.isDown) := by
  have htaken (ha : job.phase.Active) := h.taken hj rfl ha
  cases turn with
  | go => exact absurd (.inl rfl) hf
  | pass => exact absurd (.inr ⟨_, rfl⟩) hf
  | idle hp hs => exact ⟨h.idle (by rw [hs]; rfl), .inr (by rw [hs]; rfl)⟩
  | skip hp hs => exact ⟨h.idle (by rw [hs]; rfl), .inr rfl⟩
  | take => exact ⟨rfl, .inl rfl⟩
  | takeLeft hp hs => exact ⟨rfl, hs.imp_right fun he => by simp only [he]; rfl⟩
  | retire hp => exact ⟨(htaken (by rw [hp]; trivial)).1, .inr rfl⟩
  | leave hp | overrun hp | halted hp | kill hp | unbind hp => exact htaken (by rw [hp]; trivial)

theorem Receding.stop_turn {job : StopJob t.size} {phase : StopPhase} {slot : Slot}
    (h : Receding c job.service) (hstops : ¬ c.StopsOverlap job.service)
    (hj : c.jobs[id]? = some (.stop job))
    (turn : StopTurn c now id job action phase slot effects) :
    Receding (c.after id (.stop { job with phase }) job.service slot .nothing) job.service := by
  have hid := lt_size_of_job hj
  have hstopping : (c.after id (.stop { job with phase }) job.service slot .nothing).Stopping ↔
      c.Stopping := by rw [Stopping, Stopping, calls_after]
  have hby (i : JobId) :
      (c.after id (.stop { job with phase }) job.service slot .nothing).StoppedBy i ↔
        c.StoppedBy i := by rw [StoppedBy, StoppedBy, calls_after]
  have hstates := turn.state_cases
  constructor
  case vacant => exact h.vacant.stop_turn hj turn
  case started =>
    intro i k hi hks
    rw [hstopping, slot_after_self]
    rcases hstates with he | ⟨-, -, he⟩ | ⟨-, -, he⟩ | ⟨-, -, he⟩ <;> rw [he]
    · exact h.started hj rfl
    all_goals exact .inr (by decide)
  case late =>
    intro i k hi hks ha hst
    rw [slot_after_self] at hst
    rw [hstopping]
    rcases stop_after_cases hid hi with ⟨-, he⟩ | ⟨hne, hi⟩
    · cases he
      rcases turn.at_work ha with ⟨hp, rfl⟩ | ⟨hp, hs, -⟩ | ⟨-, hs | hs, -⟩
      · obtain ⟨hc, hn⟩ := h.late hj rfl hp hst
        exact ⟨hc, turn.halt?_of_stopped hst hn⟩
      · exact ⟨(h.started hj rfl).resolve_right fun hn => hn hs,
          turn.halt?_of_stopped hst (by rw [hp]; rfl)⟩
      all_goals rw [hst] at hs; cases hs
    · rcases hstates with he | ⟨-, he, -⟩ | ⟨-, -, he⟩ | ⟨hp, -⟩
      · exact h.late hi hks ha (he ▸ hst)
      · obtain ⟨-, hd⟩ := h.vacant.taken hi hks ha
        rw [he] at hd
        simp [ServiceState.isDown] at hd
      · rw [hst] at he
        cases he
      · -- The job that retires and the one at work overlap.
        exact absurd ⟨_, _, _, _, hne, hi, hj, hks, rfl, ha, by rw [hp]; trivial⟩ hstops
  case gone =>
    intro i k hi hk hks hf
    rw [hby] at hi
    rw [slot_after_self]
    rcases stop_after_cases hid hk with ⟨-, he⟩ | ⟨-, hk⟩
    · cases he
      exact h.vacant.stop_taken hj turn hf
    · obtain ⟨hh, hst⟩ := h.gone hi hk hks hf
      refine ⟨turn.handle_cases.elim (fun he => he.trans hh) fun he => he, ?_⟩
      rcases hstates with he | ⟨-, -, he⟩ | ⟨-, -, he⟩ | ⟨-, -, he⟩ <;> rw [he]
      · exact hst
      · exact .inr rfl
      · exact .inl rfl
      · exact .inr rfl
  case halted =>
    intro i k hi hk hks hf i' k' hk' hks'
    rw [hby] at hi
    refine Classical.byContradiction fun hh => ?_
    rcases stop_after_cases hid hk with ⟨-, he⟩ | ⟨-, hk⟩ <;>
      rcases stop_after_cases hid hk' with ⟨-, he'⟩ | ⟨hne, hk'⟩
    · cases he
      cases he'
      exact hh (by rw [hf]; rfl)
    · -- The job that has just come to its end would have met the other one at work.
      cases he
      have ha' := StopPhase.active_of_halt? hh
      rcases turn.finishes hf with ha | hs
      · exact hstops ⟨_, _, _, _, hne, hk', hj, hks', rfl, ha', ha⟩
      · exact hh (h.late hk' hks' ha' hs).2
    · -- A halt that begins now would need a container, but the slot is empty for good.
      cases he'
      rcases turn.halt_cases hh with ⟨hn, -⟩ | ⟨hn, -⟩
      · exact hn (h.halted hi hk hks hf hj rfl)
      · exact hn (h.gone hi hk hks (by rintro (he | ⟨_, he⟩) <;> rw [hf] at he <;> cases he)).1
    · exact hh (h.halted hi hk hks hf hk' hks')

theorem Receding.turn (h : Receding c s) (hshuts : c.Shuts) (hstops : ¬ c.StopsOverlap s)
    (ht : TurnsTo c now id action c' effects) : Receding c' s := by
  obtain ⟨old, new, slot, aside, hj, turn, rfl⟩ := ht
  have hid := lt_size_of_job hj
  have hquiet (hslot : (c.after id new old.service slot aside).slot s = c.slot s)
      (hstop : ∀ {i : Nat} {job : StopJob t.size},
        (c.after id new old.service slot aside).jobs[i]? = some (.stop job) → job.service = s →
          c.jobs[i]? = some (.stop job)) :
      Receding (c.after id new old.service slot aside) s :=
    h.frame (h.vacant.frame (.inl (by rw [hslot])) (.inl (by rw [hslot]))
      fun hi hs _ => hstop hi hs) calls_after (.inl (by rw [hslot])) (.inl (by rw [hslot])) hstop
  by_cases hs : s = old.service
  · subst hs
    cases turn with
    | start turn => exact h.start_turn hshuts hj turn
    | stop turn => exact h.stop_turn hstops hj turn
    | launch turn => exact hquiet (by simp) fun hi _ => stop_of_after hid (by simp) hi
  · refine hquiet (slot_after_of_ne hs) fun hi hks => ?_
    rcases stop_after_cases hid hi with ⟨-, he⟩ | ⟨-, hi⟩
    · have hold := turn.service_eq
      rw [he] at hold
      exact absurd (hks.symm.trans hold) hs
    · exact hi

/-- A stop job is created for a service that is ready or stopped, or where everything is to be
stopped. -/
theorem CallChange.stop_new (change : CallChange now c operation d) {job : StopJob t.size}
    (hj : d.jobs[id]? = some (.stop job)) :
    c.jobs[id]? = some (.stop job) ∨ d.Stopping ∨ (c.slot job.service).state ≠ .pending := by
  rcases change.sets.stop_cases hj with hj' | -
  · exact .inl hj'
  have hstarts {e : Controller t} (he : e.jobs = c.jobs) {services : List (Fin t.size)}
      (hj : (e.spawnStarts services).jobs[id]? = some (.stop job)) :
      c.jobs[id]? = some (.stop job) := by
    rw [jobs_spawnStarts] at hj
    by_cases hid : id < e.jobs.size
    · rwa [jobs_spawn_of_lt _ hid, he] at hj
    · rw [jobs_spawn_of_ge _ (Nat.not_lt.1 hid)] at hj
      obtain ⟨s, -, hs⟩ := List.mem_map.1 (List.mem_of_getElem? hj)
      cases hs
  cases change with
  | start h => exact .inl (hstarts (jobs_arm c) hj)
  | stop h => exact .inr (.inl ⟨_, _, calls_openCall_size, rfl⟩)
  | stopNothing | cancel | ask => exact .inl hj
  | progress | sweep =>
      rw [jobs_setCallPhase] at hj
      exact .inl hj
  | restart hc hp hr =>
      rw [jobs_setCallPhase] at hj
      exact .inl (hstarts (jobs_arm c) hj)
  | restop hc hp hs =>
      rw [jobs_setCallPhase] at hj
      by_cases hid : id < c.jobs.size
      · exact .inl (by rwa [jobs_spawn_of_lt _ hid] at hj)
      · rw [jobs_spawn_of_ge _ (Nat.not_lt.1 hid)] at hj
        obtain rfl := Job.stop.inj (List.mem_singleton.1 (List.mem_of_getElem? hj))
        exact .inr (.inr (by rcases hs with hs | hs <;> simp [hs]))

theorem Receding.change (h : Receding c s) (change : CallChange now c operation d) :
    Receding d s := by
  have hstates := change.sets.state_cases s
  have hkept {i : Nat} {job : StopJob t.size} (hj : d.jobs[i]? = some (.stop job))
      (hf : ¬ job.Fresh) : c.jobs[i]? = some (.stop job) :=
    (change.sets.stop_cases hj).resolve_right hf
  have hby {i : Nat} {job : StopJob t.size} (hi : d.StoppedBy i)
      (hj : c.jobs[i]? = some (.stop job)) : c.StoppedBy i :=
    (change.stoppedBy_before hi).resolve_right (Nat.not_le.2 (lt_size_of_job hj))
  constructor
  case vacant => exact h.vacant.change change
  case started =>
    intro i job hj hs
    have hor : d.Stopping ∨ (c.slot s).state ≠ .pending := by
      rcases change.stop_new hj with hj | hd
      · exact (h.started hj hs).imp_left change.stopping
      · exact hs ▸ hd
    refine hor.imp_right fun hn => ?_
    rcases hstates with he | ⟨-, he⟩ <;> rw [he]
    · exact hn
    · decide
  case late =>
    intro i job hj hs ha hst
    rcases hstates with he | ⟨-, he⟩
    · obtain ⟨hc, hn⟩ := h.late (hkept hj fun hf => hf.not_active ha) hs ha (he ▸ hst)
      exact ⟨change.stopping hc, hn⟩
    · rw [hst] at he
      cases he
  case gone =>
    intro i job hi hj hs hf
    have hj := hkept hj hf
    obtain ⟨hh, hst⟩ := h.gone (hby hi hj) hj hs hf
    rw [change.sets.handle_eq]
    rcases hstates with he | ⟨he, -⟩
    · exact he ▸ ⟨hh, hst⟩
    · rw [he] at hst
      simp [ServiceState.isDown] at hst
  case halted =>
    intro i job hi hj hs hp k k' hk hks
    have hj := hkept hj (by rintro (he | ⟨_, he⟩) <;> rw [hp] at he <;> cases he)
    rcases change.sets.stop_cases hk with hk | hf
    · exact h.halted (hby hi hj) hj hs hp hk hks
    · exact halt?_of_fresh hf

/-! ## Runs -/

/-- What holds where no start job is created after the first stop of all services. -/
structure Closing (c : Controller t) : Prop where
  takes : c.AllTakeDown
  shuts : c.Shuts

theorem Closing.step (h : Closing c) (ht : t.Built) (s : Fin t.size)
    (hs : c.step now action = some (c', effects)) (hfirst : c'.StartsFirst) : Closing c' := by
  cases ha : action.job? with
  | some id =>
      have turn := turnsTo_of_step ha hs
      exact ⟨h.takes.turn turn, h.shuts.turn turn⟩
  | none =>
      -- Whether the starts come first is judged after the last change, so it is a premise of each.
      have keep : c'.AllTakeDown ∧ (c'.StartsFirst → c'.Shuts) := by
        refine (changesTo_of_step ha hs).1.induct
          (P := fun d => d.AllTakeDown ∧ (d.StartsFirst → d.Shuts)) ?_ ⟨h.takes, fun _ => h.shuts⟩
        intro c operation d ⟨htakes, hc⟩ change
        refine ⟨htakes.change ht change, fun hd => ?_⟩
        exact (hc (change.startsFirst hd)).change ht s htakes hd change
      exact ⟨keep.1, keep.2 hfirst⟩

theorem Receding.step (h : Receding c s) (hshuts : c.Shuts) (hstops : ¬ c.StopsOverlap s)
    (hs : c.step now action = some (c', effects)) : Receding c' s :=
  step_induct hs (fun _ turn => h.turn hshuts hstops turn) Receding.change h

theorem Run.receding {config : Config} {past : List (Moment t)} (ht : t.Built)
    (run : Run (fresh t config) past c) (hfirst : c.StartsFirst)
    (halone : ∀ m ∈ past, ¬ m.before.StopsOverlap s) : Closing c ∧ Receding c s := by
  induction run with
  | refl =>
      exact ⟨⟨by simp [AllTakeDown, fresh], shuts_fresh config⟩, receding_fresh config s⟩
  | tail run hs ih =>
      obtain ⟨hclosing, h⟩ := ih (startsFirst_of_step hs hfirst)
        fun m hm => halone m (List.mem_cons_of_mem _ hm)
      exact ⟨hclosing.step ht s hs hfirst, h.step hclosing.shuts (halone _ List.mem_cons_self) hs⟩

theorem Run.startsFirst {start : Controller t} {past : List (Moment t)} (run : Run start past c)
    (h : c.StartsFirst) : start.StartsFirst := by
  induction run with
  | refl => exact h
  | tail _ hs ih => exact ih (startsFirst_of_step hs h)

end Controller

/-- A stop job for the service asks the container engine to stop the container that it has taken. -/
def Moment.AsksStopBy (m : Moment t) (id : Nat) (s : Fin t.size) : Prop :=
  ∃ job, m.before.jobs[id]? = some (.stop job) ∧ job.service = s ∧
    ∃ handle timeout, .asks id (.container (.stop handle timeout)) ∈ m.effects

/-- A stop job asks for the stop of a container in the turn in which it takes its service. -/
theorem StopTurn.takes_of_asks {c : Controller t} {now : Nat} {id : JobId} {action : Action}
    {job : StopJob t.size} {phase : StopPhase} {slot : Slot} {effects : List Effect}
    (turn : StopTurn c now id job action phase slot effects) {asker : JobId} {handle : Handle}
    {timeout : Duration} (h : .asks asker (.container (.stop handle timeout)) ∈ effects) :
    job.phase = .taking := by
  have hdetach (volumes : List Volume) :
      .asks asker (.container (.stop handle timeout)) ∉ Controller.askDetach id volumes := by
    cases volumes <;> simp [Controller.askDetach]
  cases turn with
  | skip hp | take hp | takeLeft hp => exact hp
  | halted | unbind => exact absurd h (hdetach _)
  | overrun | kill => simp [Controller.askKill] at h
  | _ => cases h

namespace Controller

variable {c : Controller t} {now : Nat}

/-- **Dependents are down first.** In every run of a fresh controller of a built topology in which no
start job is created after the first stop of all services: when a job of a call that stops every
service asks the engine to stop the container of its service, no service that depends on it holds a
container, and none is being halted for it, provided that no two stop jobs of that dependent have
been at work at once before. -/
theorem Run.dependents_down {config : Config} {past : List (Moment t)} (ht : t.Built)
    (run : Run (fresh t config) past c) (hfirst : c.StartsFirst) {later earlier : List (Moment t)}
    {m : Moment t} (hpast : past = later ++ m :: earlier) {id : Nat} {s e : Fin t.size}
    (hby : m.before.StoppedBy id) (hm : m.AsksStopBy id s) (he : e ∈ t.dependents s)
    (halone : ∀ m' ∈ earlier, ¬ m'.before.StopsOverlap e) :
    (m.before.slot e).handle = none ∧
      ∀ (i : Nat) (k : StopJob t.size), m.before.jobs[i]? = some (.stop k) → k.service = e →
        k.phase.halt? = none := by
  obtain ⟨before, rest⟩ := run.split hpast
  have hs := run.step_of_mem (hpast ▸ List.mem_append_right _ List.mem_cons_self)
  obtain ⟨closing, receding⟩ :=
    before.receding ht (startsFirst_of_step hs (rest.startsFirst hfirst)) halone
  obtain ⟨job, hj, rfl, handle, timeout, hasks⟩ := hm
  -- The job takes its service in this step, so it has nothing left to wait for.
  have htaking : job.phase = .taking := by
    cases ha : m.action.job? with
    | none =>
        rw [(changesTo_of_step ha hs).2] at hasks
        cases hasks
    | some i =>
        obtain ⟨old, new, slot, aside, hold, turn, -⟩ := turnsTo_of_step ha hs
        obtain rfl := turn.asker_eq hasks
        obtain rfl := Option.some.inj (hj.symm.trans hold)
        cases turn with
        | stop turn => exact turn.takes_of_asks hasks
  obtain ⟨k, call, hk, ho, hid⟩ := hby
  obtain ⟨job', hj', hbehind⟩ := (closing.takes k call hk ho).behind id hid
  obtain rfl := Job.stop.inj (Option.some.inj (hj.symm.trans hj'))
  obtain ⟨i, hi, other, hother, hes, hdone⟩ := hbehind e he
  have hfinished : other.phase = .finished := hdone.resolve_right fun ⟨_, hp, _⟩ => by
    rw [htaking] at hp
    cases hp
  have hby' : m.before.StoppedBy i := ⟨k, call, hk, ho, hi⟩
  have hfresh : ¬ other.Fresh := by
    rintro (hp | ⟨_, hp⟩) <;> rw [hfinished] at hp <;> cases hp
  exact ⟨(receding.gone hby' hother hes hfresh).1, fun i' k' hk' hks' =>
    receding.halted hby' hother hes hfinished hk' hks'⟩

/-! ### Two services that are stopped -/

/-- A database, and a shop front that depends on it. -/
def frontServices : List Service :=
  [{ id := ⟨"db"⟩, image := "db:img" },
    { id := ⟨"front"⟩, image := "front:img", dependsOn := .ofList [⟨"db"⟩] }]

def front : Topology where
  services := frontServices
  index := [(⟨"front"⟩, 1), (⟨"db"⟩, 0)]
  graph := { nodes := [⟨"db"⟩, ⟨"front"⟩], edges := [(0, 1)] }

theorem front_built : front.Built := ⟨_, .services .empty frontServices, rfl⟩

/-- The database. -/
def behindFront : Fin front.size := ⟨0, by decide⟩

/-- The shop front. -/
def inFront : Fin front.size := ⟨1, by decide⟩

/-- Both services are started and found ready. -/
def bothReadySteps : List (Nat × Action) :=
  pairSteps ++ [(30, .run 3), (50, .answer 3 (.container (.start (.ok ⟨⟨"front"⟩, "2"⟩)))),
    (50, .run 1), (50, .run 1), (50, .run 1), (60, .answer 1 (.container (.probe .ready))),
    (60, .run 1)]

/-- Then they are stopped. -/
def bothStoppedSteps : List (Nat × Action) :=
  bothReadySteps ++ [(70, .invoke .stopAll), (70, .run 4), (70, .run 4),
    (80, .answer 4 (.container (.stop (.ok ())))), (80, .run 4), (80, .run 5), (80, .run 5),
    (80, .run 5)]

/-- A second stop takes the database while the first one is still halting the front. -/
def overtakenSteps : List (Nat × Action) :=
  bothReadySteps ++ [(70, .invoke .stopAll), (70, .run 4), (70, .run 4), (75, .invoke .stopAll),
    (75, .run 6), (75, .run 6), (75, .run 6), (75, .run 7), (75, .run 7), (75, .run 7)]

instance (m : Moment t) (id : Nat) (s : Fin t.size) : Decidable (m.AsksStopBy id s) :=
  decidable_of_iff ((m.before.jobs[id]?).any fun
      | .stop job => job.service = s && m.effects.any fun
        | .asks asker (.container (.stop _ _)) => asker = id
        | _ => false
      | _ => false) <| by
    rw [Moment.AsksStopBy]
    cases m.before.jobs[id]? with
    | none => simp
    | some job =>
        cases job with
        | start | launch => simp
        | stop job =>
            simp only [Option.any_some, Bool.and_eq_true, decide_eq_true_iff, List.any_eq_true,
              Option.some.injEq, Job.stop.injEq, exists_eq_left']
            refine and_congr_right fun _ => ⟨?_, ?_⟩
            · rintro ⟨effect, hm, he⟩
              revert he
              split
              next => exact fun he => ⟨_, _, of_decide_eq_true he ▸ hm⟩
              next => exact fun he => absurd he (by simp)
            · rintro ⟨handle, timeout, hm⟩
              exact ⟨_, hm, by simp⟩

/-- Looks through the calls and the jobs for a start job that came too late. -/
def startsFirst (c : Controller t) : Bool :=
  c.calls.toList.all fun call => call.operation ≠ .stopAll ||
    call.jobs.all fun id => (c.jobs.toList.drop id).all fun job => job.kind ≠ .start

theorem startsFirst_of_calls (h : c.startsFirst) : c.StartsFirst := by
  rintro id ⟨k, call, hk, ho, hid⟩ i job hj
  have hcall := List.all_eq_true.1 h call (List.mem_of_getElem? (by simpa using hk))
  simp only [ho, ne_eq, not_true_eq_false, decide_false, Bool.false_or, List.all_eq_true,
    decide_eq_true_iff] at hcall
  refine Classical.byContradiction fun hn => hcall id hid (.start job) ?_ rfl
  refine List.mem_of_getElem? (i := i - id) ?_
  rw [List.getElem?_drop, Nat.add_sub_of_le (Nat.le_of_not_lt hn)]
  simpa using hj

/-- The theorem at the last step of the run that stops both. -/
theorem dependents_down_front :
    ∃ (past : List (Moment front)) (c : Controller front) (m : Moment front)
      (earlier : List (Moment front)), front.Built ∧ Run (fresh front {}) past c ∧
        c.StartsFirst ∧ past = m :: earlier ∧ m.before.StoppedBy 5 ∧ m.AsksStopBy 5 behindFront ∧
        inFront ∈ front.dependents behindFront ∧
        (∀ m' ∈ earlier, ¬ m'.before.StopsOverlap inFront) ∧
        (m.before.slot inFront).handle = none ∧
        ∀ (i : Nat) (k : StopJob front.size), m.before.jobs[i]? = some (.stop k) →
          k.service = inFront → k.phase.halt? = none := by
  obtain ⟨past, c, run, shown⟩ := exists_run (fresh front {}) bothStoppedSteps
    (fun past c => c.startsFirst &&
      match past with
      | [] => false
      | m :: earlier => m.AsksStopBy 5 behindFront &&
        (m.before.calls[1]?.any fun call => call.operation = .stopAll && call.jobs.contains 5) &&
        earlier.all fun m' => m'.before.total (Job.atWork inFront) ≤ 1)
    (by decide +kernel)
  cases past with
  | nil => simp at shown
  | cons m earlier =>
      simp only [Bool.and_eq_true, decide_eq_true_iff, List.all_eq_true, Option.any_eq_true,
        List.contains_iff_mem] at shown
      obtain ⟨hcalls, ⟨hasks, call, hk, hop, hid⟩, hstops⟩ := shown
      have first : c.StartsFirst := startsFirst_of_calls hcalls
      have alone : ∀ m' ∈ earlier, ¬ m'.before.StopsOverlap inFront :=
        fun m' hm' => not_stopsOverlap_of_total (hstops m' hm')
      have depends : inFront ∈ front.dependents behindFront := by decide +kernel
      have by5 : m.before.StoppedBy 5 := ⟨1, call, hk, hop, hid⟩
      obtain ⟨hhandle, hhalt⟩ := run.dependents_down front_built first (List.nil_append _).symm by5
        hasks depends alone
      exact ⟨_, c, m, earlier, front_built, run, first, rfl, by5, hasks, depends, alone, hhandle,
        hhalt⟩

/-- Two stops and nothing but a start before them: a job of the second one asks the engine to stop
the database while the container of the front is still being halted. -/
theorem dependent_halting :
    ∃ (past : List (Moment front)) (c : Controller front) (m : Moment front)
      (earlier : List (Moment front)) (i : Nat) (k : StopJob front.size),
      Run (fresh front {}) past c ∧ c.StartsFirst ∧
        c.calls.toList.map Call.operation = [.startAll, .stopAll, .stopAll] ∧ past = m :: earlier ∧
        m.before.StoppedBy 7 ∧ m.AsksStopBy 7 behindFront ∧
        inFront ∈ front.dependents behindFront ∧ m.before.jobs[i]? = some (.stop k) ∧
        k.service = inFront ∧ k.phase.halt? ≠ none := by
  obtain ⟨past, c, run, shown⟩ := exists_run (fresh front {}) overtakenSteps
    (fun past c => c.startsFirst &&
      c.calls.toList.map Call.operation = [.startAll, .stopAll, .stopAll] &&
      match past with
      | [] => false
      | m :: _ => m.AsksStopBy 7 behindFront &&
        (m.before.calls[2]?.any fun call => call.operation = .stopAll && call.jobs.contains 7) &&
        m.before.jobs[4]?.any fun job => job.kind = .stop && job.service = inFront &&
          job.halt? ≠ none)
    (by decide +kernel)
  cases past with
  | nil => simp at shown
  | cons m earlier =>
      simp only [Bool.and_eq_true, decide_eq_true_iff, Option.any_eq_true,
        List.contains_iff_mem] at shown
      obtain ⟨⟨hcalls, hops⟩, ⟨hasks, call, hk, hop, hid⟩, job, hj, ⟨hkind, hfront⟩, hhalt⟩ := shown
      have depends : inFront ∈ front.dependents behindFront := by decide +kernel
      cases job with
      | start | launch => cases hkind
      | stop k =>
          exact ⟨_, c, m, earlier, 4, k, run, startsFirst_of_calls hcalls, hops, rfl,
            ⟨2, call, hk, hop, hid⟩, hasks, depends, hj, hfront, hhalt⟩

end Controller

end Bringup.Lifecycle
