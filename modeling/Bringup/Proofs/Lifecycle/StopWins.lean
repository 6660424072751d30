import Bringup.Proofs.Lifecycle.DependencyOrder
import Bringup.Proofs.Lifecycle.Reports
import Bringup.Proofs.Lifecycle.SingleInstance
import Bringup.Proofs.Topology.Built

/-!
# A stop wins

Here no service is restarted, and every call that starts the services is made before every call that
stops them (`StopsLast`). Then the first stop cancels all runs for good (`Closes`). A service is
moved to starting at most once, so a single start job ever has its container in hand, and what a
stop job has taken out of use stays out of use (`Once`).

So when a stop reports, every service is stopped or failed and stays so, and when nothing is
outstanding any more, all containers are where only a stop can have left them: the books of `Custody`
say that the engine was asked to stop each of them, exactly as often as it was handed over
(`Run.stop_wins`).
-/

namespace Bringup.Lifecycle

variable {t : Topology}

/-- The service has come to its end: it was stopped, or could not be started. -/
def ServiceState.isDown : ServiceState → Bool
  | .stopped | .failed => true
  | _ => false

theorem ServiceState.eq_of_isDown {state : ServiceState} (h : state.isDown) :
    state = .stopped ∨ state = .failed := by
  cases state with
  | stopped => exact .inl rfl
  | failed => exact .inr rfl
  | _ => cases h

namespace Controller

/-- Some call stops every service. -/
def Stopping (c : Controller t) : Prop :=
  ∃ (k : Nat) (call : Call t.size), c.calls[k]? = some call ∧ call.operation = .stopAll

/-- Nothing is restarted, and every call that starts the services comes before every call that stops
them. The calls are numbered in the order in which they are made. -/
def StopsLast (c : Controller t) : Prop :=
  ∀ (k : Nat) (call : Call t.size), c.calls[k]? = some call →
    (∀ service, call.operation ≠ .restart service) ∧
    (call.operation = .startAll → ∀ (k' : Nat) (call' : Call t.size), c.calls[k']? = some call' →
      call'.operation = .stopAll → k < k')

variable {c c' d : Controller t} {now : Nat} {action : Action} {effects : List Effect}
  {operation : Operation} {s : Fin t.size}

/-! ## What is called -/

theorem CallChange.stopping (change : CallChange now c operation d) (h : c.Stopping) :
    d.Stopping := by
  obtain ⟨k, call, hk, ho⟩ := h
  obtain ⟨call', hk', ho'⟩ := change.operation_kept hk
  exact ⟨k, call', hk', ho'.trans ho⟩

theorem CallChange.stopsLast (change : CallChange now c operation d) (h : d.StopsLast) :
    c.StopsLast := by
  intro k call hk
  obtain ⟨call₁, hk₁, ho₁⟩ := change.operation_kept hk
  obtain ⟨hrestart, hlast⟩ := h k call₁ hk₁
  rw [ho₁] at hrestart hlast
  refine ⟨hrestart, ?_⟩
  intro hs k' call' hk' ho
  obtain ⟨call₂, hk₂, ho₂⟩ := change.operation_kept hk'
  exact hlast hs k' call₂ hk₂ (ho₂.trans ho)

theorem stopsLast_of_step (hs : c.step now action = some (c', effects)) (h : c'.StopsLast) :
    c.StopsLast := by
  cases ha : action.job? with
  | some id =>
      obtain ⟨old, new, slot, aside, -, -, rfl⟩ := turnsTo_of_step ha hs
      rwa [StopsLast, calls_after] at h
  | none =>
      have back : c'.StopsLast → c.StopsLast :=
        (changesTo_of_step ha hs).1.induct (P := fun d => d.StopsLast → c.StopsLast)
          (fun hc change hd => hc (change.stopsLast hd)) fun hc => hc
      exact back h

/-- What a change can do where the stops come last: it is made before any stop, it cancels all runs,
or it leaves the runs as they are. -/
theorem CallChange.runs_cases (change : CallChange now c operation d) (hf : c.Fits)
    (hl : d.StopsLast) :
    ¬ d.Stopping ∨ d.currentRun < d.cancelledRuns ∨
      (c.Stopping ∧ d.currentRun = c.currentRun ∧ d.cancelledRuns = c.cancelledRuns) := by
  have hmoved {e : Controller t} {id : Nat} {phase : CallPhase t.size} (he : e.calls = c.calls)
      (h : (e.setCallPhase id phase).Stopping) : c.Stopping := by
    obtain ⟨k, call, hk, ho⟩ := h
    rcases calls_setCallPhase_cases hk with ⟨-, hk⟩ | ⟨old, rfl, hold, rfl⟩
    · exact ⟨k, call, he ▸ hk, ho⟩
    · exact ⟨k, old, he ▸ hold, ho⟩
  cases change with
  | @start order h =>
      -- A stop would have to come after this start, which is the last call so far.
      refine .inl fun ⟨k, call, hk, ho⟩ => ?_
      have hlt := (hl _ _ calls_openCall_size).2 rfl k call hk ho
      have := (Array.getElem?_eq_some_iff.1 hk).1
      rw [size_calls_openCall] at this
      exact absurd (Nat.lt_of_le_of_lt (Nat.le_of_lt_succ this) hlt) (Nat.lt_irrefl _)
  | stop | stopNothing | cancel => exact .inr (.inl (Nat.lt_succ_self _))
  | ask hw ha hn =>
      by_cases hd : c.Stopping
      · exact .inr (.inr ⟨hd, rfl, rfl⟩)
      · refine .inl fun ⟨k, call, hk, ho⟩ => hd ?_
        rcases calls_openCall_cases hk with hk | ⟨-, rfl⟩
        · exact ⟨k, call, hk, ho⟩
        · exact absurd ho hn
  | progress hc hp =>
      by_cases hd : c.Stopping
      · exact .inr (.inr ⟨hd, currentRun_setCallPhase _ _, cancelledRuns_setCallPhase _ _⟩)
      · exact .inl fun h => hd (hmoved rfl h)
  | sweep hc hp =>
      by_cases hd : c.Stopping
      · exact .inr (.inr ⟨hd, currentRun_setCallPhase _ _, cancelledRuns_setCallPhase _ _⟩)
      · exact .inl fun h => hd (hmoved (calls_setSlot _ _) h)
  -- The changes that are left are made by restarts, of which there are none.
  | restop hc hp hs =>
      obtain ⟨service, ho⟩ := Operation.allows_checking (hp ▸ hf _ _ hc)
      exact absurd ho ((hl _ _ (calls_setCallPhase_self (by exact hc) _)).1 service)
  | restart hc hp hr =>
      obtain ⟨service, ho⟩ := Operation.allows_stopping (hp ▸ hf _ _ hc)
      exact absurd ho ((hl _ _ (calls_setCallPhase_self (by simpa using hc) _)).1 service)

theorem CallChange.stop_or_stopping (change : CallChange now c operation d) (hf : c.Fits)
    (hl : d.StopsLast) {id : Nat} {job : StopJob t.size} (hj : d.jobs[id]? = some (.stop job)) :
    c.jobs[id]? = some (.stop job) ∨ d.Stopping := by
  refine (change.stop_cases hf hj).imp_right fun ⟨k, call, hk, hs⟩ => ⟨k, call, hk, ?_⟩
  have hrestart := (hl k call hk).1
  revert hs hrestart
  cases call.operation <;> simp [Operation.Stops]

/-! ## A stop cancels all runs for good -/

/-- Once the services are being stopped, no run is left that could start one. -/
structure Closes (c : Controller t) : Prop where
  runs : ∀ {id : Nat} {job : StartJob t.size}, c.jobs[id]? = some (.start job) →
    job.run ≤ c.currentRun
  cancelled : c.Stopping → c.currentRun < c.cancelledRuns
  stop : ∀ {id : Nat} {job : StopJob t.size}, c.jobs[id]? = some (.stop job) → c.Stopping
  stopped : ∀ {s : Fin t.size}, (c.slot s).state = .stopped → c.Stopping

theorem closes_fresh (config : Config) : Closes (fresh t config) where
  runs h := by simp [fresh] at h
  cancelled := by rintro ⟨k, call, hk, -⟩; simp [fresh] at hk
  stop h := by simp [fresh] at h
  stopped h := by simp [fresh, Controller.slot] at h

/-- Once the services are being stopped, every start job is cancelled. -/
theorem Closes.isCancelled (h : Closes c) (hs : c.Stopping) {id : Nat} {job : StartJob t.size}
    (hj : c.jobs[id]? = some (.start job)) : c.isCancelled job.run := by
  simpa [Controller.isCancelled] using Nat.lt_of_le_of_lt (h.runs hj) (h.cancelled hs)

theorem Closes.turn {id : JobId} (h : Closes c) (ht : TurnsTo c now id action c' effects) :
    Closes c' := by
  have hstates := ht.state_cases
  obtain ⟨old, new, slot, aside, hj, turn, rfl⟩ := ht
  have hid := lt_size_of_job hj
  have hstopping : (c.after id new old.service slot aside).Stopping ↔ c.Stopping := by
    rw [Stopping, Stopping, calls_after]
  constructor
  case runs =>
    intro i job hi
    rw [currentRun_after]
    rcases start_after_cases hid hi with ⟨rfl, rfl⟩ | ⟨-, hi⟩
    · cases turn with
      | start turn => exact turn.same.2 ▸ h.runs hj
    · exact h.runs hi
  case cancelled =>
    intro hs
    rw [currentRun_after, cancelledRuns_after]
    exact h.cancelled (hstopping.1 hs)
  case stop =>
    intro i job hi
    rw [hstopping]
    rcases stop_after_cases hid hi with ⟨rfl, rfl⟩ | ⟨-, hi⟩
    · cases turn with
      | stop turn => exact h.stop hj
    · exact h.stop hi
  case stopped =>
    intro s hs
    rw [hstopping]
    rcases hstates s with he | ⟨old, new, slot', aside', hi, turn, rfl, hs', hn⟩
    · exact h.stopped (he ▸ hs)
    · rw [hs] at hs'
      cases turn with
      | start turn =>
          rcases turn.state_cases with he | ⟨-, -, -, -, rfl⟩ | ⟨verdict, -, -, he⟩
          · exact absurd he hn
          · cases hs'
          · rw [hs'] at he
            cases verdict <;> cases he
      | stop turn => exact h.stop hi
      | launch turn => exact absurd rfl hn

theorem Sets.currentRun_le (h : Sets now c d) : c.currentRun ≤ d.currentRun := by
  cases h with
  | starts services jobs slots cancelled run =>
      rw [run, arm]
      split
      · exact Nat.le_succ _
      · exact Nat.le_refl _
  | stops stops fresh jobs slots cancelled run => exact Nat.le_of_eq run.symm
  | sweeps s jobs slots cancelled run => exact Nat.le_of_eq run.symm

theorem Closes.change (h : Closes c) (hf : c.Fits) (hl : d.StopsLast)
    (change : CallChange now c operation d) : Closes d where
  runs hj := by
    rcases change.sets.start_cases hj with hj | ⟨-, -, -, he⟩
    · exact Nat.le_trans (h.runs hj) change.sets.currentRun_le
    · exact Nat.le_of_eq he
  cancelled hs := by
    rcases change.runs_cases hf hl with hn | hlt | ⟨hc, hr, he⟩
    · exact absurd hs hn
    · exact hlt
    · rw [hr, he]
      exact h.cancelled hc
  stop hj := by
    rcases change.stop_or_stopping hf hl hj with hj | hd
    · exact change.stopping (h.stop hj)
    · exact hd
  stopped {s} hs := by
    rcases change.sets.state_cases s with he | ⟨-, he⟩
    · exact change.stopping (h.stopped (he ▸ hs))
    · rw [he] at hs
      cases hs

/-! ## A service is started once -/

end Controller

section Turns

variable {c : Controller t} {now : Nat} {id : JobId} {action : Action} {slot : Slot} {aside : Aside}
  {effects : List Effect}

/-- A container is put into the slot only by a start job that has it in hand, while its service is
starting. -/
theorem StartTurn.handle_cases {job job' : StartJob t.size}
    (turn : StartTurn c now id job action job' slot aside effects) :
    slot.handle = (c.slot job.service).handle ∨
      ((c.slot job.service).state = .starting ∧ ¬ job'.phase.Unrecorded) := by
  cases turn with
  | record hp hs => exact .inr ⟨hs, False.elim⟩
  | _ => exact .inl (by simp)

theorem StopTurn.handle_cases {job : StopJob t.size} {phase : StopPhase}
    (turn : StopTurn c now id job action phase slot effects) :
    slot.handle = (c.slot job.service).handle ∨ slot.handle = none := by
  cases turn with
  | take | takeLeft => exact .inr rfl
  | _ => exact .inl rfl

end Turns

namespace Controller

/-- A service that was taken out of use stays out of use, and before that it is started once. -/
structure Once (c : Controller t) (s : Fin t.size) : Prop where
  /-- A start job owns the service only after it has left the state of pending. -/
  owner : ∀ {id : Nat} {job : StartJob t.size}, c.jobs[id]? = some (.start job) →
    job.service = s → job.phase.Owns → (c.slot s).state ≠ .pending
  sole : ∀ {id id' : Nat} {job job' : StartJob t.size}, c.jobs[id]? = some (.start job) →
    c.jobs[id']? = some (.start job') → job.service = s → job'.service = s → job.phase.Owns →
    job'.phase.Owns → id = id'
  /-- Before its container is recorded, the service has none. -/
  bare : ∀ {id : Nat} {job : StartJob t.size}, c.jobs[id]? = some (.start job) →
    job.service = s → job.phase.Unrecorded → (c.slot s).handle = none
  idle : (c.slot s).state = .pending ∨ (c.slot s).state = .stopped → (c.slot s).handle = none
  /-- What a stop job has taken out of use has no container and is not started again. -/
  taken : ∀ {id : Nat} {job : StopJob t.size}, c.jobs[id]? = some (.stop job) →
    job.service = s → ¬ job.Fresh → (c.slot s).handle = none ∧
      ((c.slot s).state = .stopping ∨ (c.slot s).state.isDown)
  ended : ∀ {id : Nat} {job : StopJob t.size}, c.jobs[id]? = some (.stop job) →
    job.service = s → job.phase = .finished → (c.slot s).state.isDown

theorem once_fresh (config : Config) (s : Fin t.size) : Once (fresh t config) s where
  owner h := by simp [fresh] at h
  sole h := by simp [fresh] at h
  bare h := by simp [fresh] at h
  idle _ := by simp [fresh, Controller.slot]
  taken h := by simp [fresh] at h
  ended h := by simp [fresh] at h

variable {c c' d : Controller t} {now : Nat} {action : Action} {effects : List Effect}
  {operation : Operation} {s : Fin t.size}

/-- The invariant survives what leaves the service alone, moves it out of starting, or records its
container. -/
theorem Once.frame (h : Once c s)
    (hstate : (c'.slot s).state = (c.slot s).state ∨ ((c.slot s).state = .starting ∧
      (c'.slot s).state ≠ .pending ∧ (c'.slot s).state ≠ .stopped))
    (hhandle : (c'.slot s).handle = (c.slot s).handle ∨ ((c.slot s).state = .starting ∧
      ∀ (i : Nat) (job : StartJob t.size), c'.jobs[i]? = some (.start job) → job.service = s →
        ¬ job.phase.Unrecorded))
    (hstart : ∀ (i : Nat) (job' : StartJob t.size), c'.jobs[i]? = some (.start job') →
      job'.service = s → ¬ job'.phase.Owns ∨ ∃ job : StartJob t.size,
        c.jobs[i]? = some (.start job) ∧ job.service = s ∧ job.phase.Owns ∧
          (job'.phase.Unrecorded → job.phase.Unrecorded))
    (hstop : ∀ (i : Nat) (job : StopJob t.size), c'.jobs[i]? = some (.stop job) →
      job.service = s → job.Fresh ∨ c.jobs[i]? = some (.stop job)) : Once c' s where
  owner hj hs ho := by
    obtain ⟨job, hj', hs', ho', -⟩ := (hstart _ _ hj hs).resolve_left fun hn => hn ho
    rcases hstate with he | ⟨-, he, -⟩
    · exact he ▸ h.owner hj' hs' ho'
    · exact he
  sole hj₁ hj₂ hs₁ hs₂ ho₁ ho₂ := by
    obtain ⟨_, hj₁, hs₁, ho₁, -⟩ := (hstart _ _ hj₁ hs₁).resolve_left fun hn => hn ho₁
    obtain ⟨_, hj₂, hs₂, ho₂, -⟩ := (hstart _ _ hj₂ hs₂).resolve_left fun hn => hn ho₂
    exact h.sole hj₁ hj₂ hs₁ hs₂ ho₁ ho₂
  bare hj hs hu := by
    obtain ⟨_, hj', hs', -, hu'⟩ := (hstart _ _ hj hs).resolve_left fun hn => hn hu.owns
    rcases hhandle with he | ⟨-, hn⟩
    · exact he ▸ h.bare hj' hs' (hu' hu)
    · exact absurd hu (hn _ _ hj hs)
  idle he := by
    rcases hstate with hst | ⟨-, hn⟩
    · rw [hst] at he
      rcases hhandle with hh | ⟨hs, -⟩
      · exact hh ▸ h.idle he
      · rw [hs] at he
        simp at he
    · exact absurd he (not_or.2 hn)
  taken hj hs hf := by
    obtain ⟨hh, hst⟩ := h.taken ((hstop _ _ hj hs).resolve_left hf) hs hf
    have hne : (c.slot s).state ≠ .starting := by
      intro he
      rw [he] at hst
      simp [ServiceState.isDown] at hst
    rw [hhandle.resolve_right fun hn => hne hn.1, hstate.resolve_right fun hn => hne hn.1]
    exact ⟨hh, hst⟩
  ended hj hs hp := by
    have hj' := (hstop _ _ hj hs).resolve_left fun hf => by
      rcases hf with he | ⟨_, he⟩ <;> rw [hp] at he <;> cases he
    have hd := h.ended hj' hs hp
    have hne : (c.slot s).state ≠ .starting := by
      intro he
      rw [he] at hd
      cases hd
    rwa [hstate.resolve_right fun hn => hne hn.1]

/-- A start job that does not come to own its service leaves it as it found it, or is one that owned
it before. -/
theorem Once.start_frame {id : JobId} {job job' : StartJob t.size} {slot : Slot} {aside : Aside}
    (h : Once c job.service) (hj : c.jobs[id]? = some (.start job))
    (hstate : slot.state = (c.slot job.service).state ∨
      ((c.slot job.service).state = .starting ∧ slot.state ≠ .pending ∧ slot.state ≠ .stopped))
    (hown : ¬ job'.phase.Owns ∨
      (job.phase.Owns ∧ (job'.phase.Unrecorded → job.phase.Unrecorded)))
    (hhandle : slot.handle = (c.slot job.service).handle ∨
      ((c.slot job.service).state = .starting ∧ job.phase.Owns ∧ ¬ job'.phase.Unrecorded)) :
    Once (c.after id (.start job') job.service slot aside) job.service := by
  have hid := lt_size_of_job hj
  refine h.frame (by rwa [slot_after_self]) ?_ (?_) (?_)
  · rw [slot_after_self]
    rcases hhandle with hh | ⟨hs, ho, hu⟩
    · exact .inl hh
    · refine .inr ⟨hs, ?_⟩
      intro i k hi hks hk
      rcases start_after_start_cases hid hi with ⟨-, rfl⟩ | ⟨hne, hi⟩
      · exact hu hk
      · exact hne (h.sole hi hj hks rfl hk.owns ho)
  · intro i k hi hs
    rcases start_after_start_cases hid hi with ⟨rfl, rfl⟩ | ⟨-, hi⟩
    · rcases hown with ho | ⟨ho, hu⟩
      · exact .inl ho
      · exact .inr ⟨job, hj, rfl, ho, hu⟩
    · by_cases ho : k.phase.Owns
      · exact .inr ⟨k, hi, hs, ho, fun hu => hu⟩
      · exact .inl ho
  · intro i k hi _
    exact .inr (stop_of_after hid (by simp) hi)

theorem Once.start_turn {id : JobId} {job job' : StartJob t.size} {slot : Slot} {aside : Aside}
    (h : Once c job.service) (hc : c.Closes) (hj : c.jobs[id]? = some (.start job))
    (turn : StartTurn c now id job action job' slot aside effects) :
    Once (c.after id (.start job') job.service slot aside) job.service := by
  have hid := lt_size_of_job hj
  rcases turn.owns_cases with
    ⟨hp, hst, ho', -, hst', hh, hcan⟩ | ⟨ho, ho', -, hst', hu⟩ | ⟨verdict, hp, ho', -, hh, -⟩ |
    ⟨ho, hst, ho', rfl⟩ | ⟨ho, ho', -, hst', hh⟩
  · -- The job comes to own the service, which is pending since nothing is being stopped.
    have hopen : ¬ c.Stopping := by
      intro hs
      rw [hc.isCancelled hs hj] at hcan
      cases hcan
    have hpending : (c.slot job.service).state = .pending := by
      have hn : (c.slot job.service).state ≠ .stopped := fun he => hopen (hc.stopped he)
      revert hst hn
      cases (c.slot job.service).state <;> simp [ServiceState.isStartable]
    have honly {i : Nat} {k : StartJob t.size}
        (hi : (c.after id (.start job') job.service slot aside).jobs[i]? = some (.start k))
        (hs : k.service = job.service) (hk : k.phase.Owns) : i = id := by
      rcases start_after_cases hid hi with ⟨he, -⟩ | ⟨-, hi⟩
      · exact he
      · exact absurd hpending (h.owner hi hs hk)
    have hnone {i : Nat} {k : StopJob t.size}
        (hi : (c.after id (.start job') job.service slot aside).jobs[i]? = some (.stop k)) :
        False := hopen (hc.stop (stop_of_after hid (by simp) hi))
    refine ⟨fun _ _ _ => ?_, fun hi hi' hs hs' hk hk' => ?_, fun _ _ _ => ?_, fun he => ?_,
      fun hi _ _ => ?_, fun hi _ _ => ?_⟩
    · rw [slot_after_self, hst']
      simp
    · exact (honly hi hs hk).trans (honly hi' hs' hk').symm
    · rw [slot_after_self, hh]
      exact h.idle (.inl hpending)
    · rw [slot_after_self, hst'] at he
      simp at he
    all_goals exact (hnone hi).elim
  · refine h.start_frame hj (.inl hst') (.inr ⟨ho, fun hk => (hu hk).1⟩) ?_
    rcases turn.handle_cases with he | ⟨hs, hn⟩
    · exact .inl he
    · exact .inr ⟨hs, ho, hn⟩
  · refine h.start_frame hj ?_ (.inl ho') (.inl hh)
    rcases turn.state_cases with he | ⟨-, he, -⟩ | ⟨verdict, -, hs, he⟩
    · exact .inl he
    · rw [hp] at he
      cases he
    · exact .inr ⟨hs, by rw [he]; cases verdict <;> simp [Verdict.target]⟩
  · exact h.start_frame hj (.inl rfl) (.inl ho') (.inl rfl)
  · exact h.start_frame hj (.inl hst') (.inl ho') (.inl hh)

theorem detachPhase_ne_finished (volumes : List Volume) : detachPhase volumes ≠ .finished := by
  cases volumes <;> simp [detachPhase]

theorem takenPhase_ne_finished (now : Nat) (s : Fin t.size) (handle : Option Container.Handle) :
    c.takenPhase now s handle ≠ .finished := by
  cases handle with
  | none => exact detachPhase_ne_finished _
  | some => simp [takenPhase]

/-- Once a stop job has taken its service, the service is out of use. -/
theorem Once.stop_taken {id : JobId} {job : StopJob t.size} {phase : StopPhase} {slot : Slot}
    (h : Once c job.service) (hj : c.jobs[id]? = some (.stop job))
    (turn : StopTurn c now id job action phase slot effects) :
    StopJob.Fresh { job with phase } ∨
      (slot.handle = none ∧ (slot.state = .stopping ∨ slot.state.isDown) ∧
        (phase = .finished → slot.state.isDown)) := by
  have htaken (hp : ¬ job.Fresh) := h.taken hj rfl hp
  cases turn with
  | go => exact .inl (.inl rfl)
  | pass => exact .inl (.inr ⟨_, rfl⟩)
  | idle hp hs =>
      have hd : (c.slot job.service).state.isDown := by rw [hs]; rfl
      exact .inr ⟨h.idle (.inr hs), .inr hd, fun _ => hd⟩
  | skip hp hs =>
      exact .inr ⟨h.idle (.inl hs), .inr rfl, fun he => absurd he (detachPhase_ne_finished _)⟩
  | take hp hs => exact .inr ⟨rfl, .inl rfl, fun he => absurd he (takenPhase_ne_finished _ _ _)⟩
  | takeLeft hp hs =>
      refine .inr ⟨rfl, hs.imp_right ?_, fun he => absurd he (takenPhase_ne_finished _ _ _)⟩
      intro he
      simp only [he]
      rfl
  | retire hp hs =>
      exact .inr ⟨(htaken (by simp [StopJob.Fresh, hp])).1, .inr rfl, fun _ => rfl⟩
  | leave hp hs =>
      obtain ⟨hh, hd⟩ := htaken (by simp [StopJob.Fresh, hp])
      exact .inr ⟨hh, hd, fun _ => hd.resolve_left hs⟩
  | overrun hp | kill hp =>
      obtain ⟨hh, hd⟩ := htaken (by simp [StopJob.Fresh, hp])
      exact .inr ⟨hh, hd, fun he => by cases he⟩
  | halted hp | unbind hp =>
      obtain ⟨hh, hd⟩ := htaken (by simp [StopJob.Fresh, hp])
      exact .inr ⟨hh, hd, fun he => absurd he (detachPhase_ne_finished _)⟩

theorem Once.stop_turn {id : JobId} {job : StopJob t.size} {phase : StopPhase} {slot : Slot}
    (h : Once c job.service) (hj : c.jobs[id]? = some (.stop job))
    (turn : StopTurn c now id job action phase slot effects) :
    Once (c.after id (.stop { job with phase }) job.service slot .nothing) job.service := by
  have hid := lt_size_of_job hj
  have hstart {i : Nat} {k : StartJob t.size}
      (hi : (c.after id (.stop { job with phase }) job.service slot .nothing).jobs[i]?
        = some (.start k)) : c.jobs[i]? = some (.start k) := start_of_after hid (by simp) hi
  have hstates := turn.state_cases
  constructor
  case owner =>
    intro i k hi hs ho
    rw [slot_after_self]
    rcases hstates with he | ⟨-, -, he⟩ | ⟨-, -, he⟩ | ⟨-, -, he⟩ <;> rw [he]
    · exact h.owner (hstart hi) hs ho
    all_goals decide
  case sole =>
    intro i i' k k' hi hi'
    exact h.sole (hstart hi) (hstart hi')
  case bare =>
    intro i k hi hs hu
    rw [slot_after_self]
    exact turn.handle_cases.elim (fun he => he.trans (h.bare (hstart hi) hs hu)) fun he => he
  case idle =>
    intro he
    rw [slot_after_self] at he ⊢
    refine turn.handle_cases.elim (fun hh => hh.trans ?_) fun hh => hh
    rcases hstates with hst | ⟨-, hst, -⟩ | ⟨-, -, hst⟩ | ⟨hp, -, -⟩
    · exact h.idle (hst ▸ he)
    · exact h.idle (.inl hst)
    · rw [hst] at he
      simp at he
    · exact (h.taken hj rfl (by simp [StopJob.Fresh, hp])).1
  case taken =>
    intro i k hi hs hf
    rw [slot_after_self]
    rcases stop_after_cases hid hi with ⟨-, he⟩ | ⟨-, hi⟩
    · cases he
      obtain ⟨hh, hst, -⟩ := (h.stop_taken hj turn).resolve_left hf
      exact ⟨hh, hst⟩
    · obtain ⟨hh, hst⟩ := h.taken hi hs hf
      refine ⟨turn.handle_cases.elim (fun he => he.trans hh) fun he => he, ?_⟩
      rcases hstates with he | ⟨-, -, he⟩ | ⟨-, -, he⟩ | ⟨-, -, he⟩ <;> rw [he]
      · exact hst
      · exact .inr rfl
      · exact .inl rfl
      · exact .inr rfl
  case ended =>
    intro i k hi hs hp
    rw [slot_after_self]
    rcases stop_after_cases hid hi with ⟨-, he⟩ | ⟨-, hi⟩
    · cases he
      refine ((h.stop_taken hj turn).resolve_left ?_).2.2 hp
      intro hf
      rcases hf with he | ⟨_, he⟩ <;> rw [hp] at he <;> cases he
    · have hd := h.ended hi hs hp
      rcases hstates with he | ⟨-, -, he⟩ | ⟨-, hst, -⟩ | ⟨-, -, he⟩
      · exact he ▸ hd
      · exact he ▸ rfl
      · rcases hst with hst | hst <;> rw [hst] at hd <;> cases hd
      · exact he ▸ rfl

theorem Once.turn {id : JobId} (h : Once c s) (hc : c.Closes)
    (ht : TurnsTo c now id action c' effects) : Once c' s := by
  obtain ⟨old, new, slot, aside, hj, turn, rfl⟩ := ht
  have hid := lt_size_of_job hj
  -- Start and stop jobs whose turn it is not say what they said before.
  have hquiet (hslot : (c.after id new old.service slot aside).slot s = c.slot s)
      (hstart : ∀ job : StartJob t.size, new = .start job → job.service ≠ s)
      (hstop : ∀ job : StopJob t.size, new = .stop job → job.service ≠ s) :
      Once (c.after id new old.service slot aside) s := by
    refine h.frame (.inl (by rw [hslot])) (.inl (by rw [hslot])) (?_)
      (?_)
    · intro i job hi hs
      rcases start_after_cases hid hi with ⟨-, he⟩ | ⟨-, hi⟩
      · exact absurd hs (hstart job he)
      · by_cases ho : job.phase.Owns
        · exact .inr ⟨job, hi, hs, ho, fun hu => hu⟩
        · exact .inl ho
    · intro i job hi hs
      rcases stop_after_cases hid hi with ⟨-, he⟩ | ⟨-, hi⟩
      · exact absurd hs (hstop job he)
      · exact .inr hi
  by_cases hs : s = old.service
  · subst hs
    cases turn with
    | start turn => exact h.start_turn hc hj turn
    | stop turn => exact h.stop_turn hj turn
    | launch turn => exact hquiet (by simp) (by simp) (by simp)
  · have hne (he : new.service = s) : False := hs (he.symm.trans turn.service_eq)
    exact hquiet (slot_after_of_ne hs) (fun job he hjs => hne (by rw [he]; exact hjs))
      fun job he hjs => hne (by rw [he]; exact hjs)

theorem Once.change (h : Once c s) (change : CallChange now c operation d) : Once d s := by
  refine h.frame ?_ (.inl (change.sets.handle_eq s)) (?_) (?_)
  · exact (change.sets.state_cases s).imp_right fun ⟨he, he'⟩ => ⟨he, by simp [he'], by simp [he']⟩
  · intro i job hi hs
    rcases change.sets.start_cases hi with hi | ⟨-, hp, -⟩
    · by_cases ho : job.phase.Owns
      · exact .inr ⟨job, hi, hs, ho, fun hu => hu⟩
      · exact .inl ho
    · exact .inl (by rw [hp]; exact False.elim)
  · intro i job hi _
    exact (change.sets.stop_cases hi).symm

/-! ## What a stop reports -/

/-- Once every service has been stopped, it is down and has no container. -/
theorem Ended.down (h : c.Ended .stop) (honce : ∀ s, c.Once s) (s : Fin t.size) :
    (c.slot s).state.isDown ∧ (c.slot s).handle = none := by
  obtain ⟨i, job, hi, hk, hs, hf⟩ := h s
  cases job with
  | stop job =>
      have hp := Job.isFinished_stop.1 hf
      exact ⟨(honce s).ended hi hs hp, ((honce s).taken hi hs (by simp [StopJob.Fresh, hp])).1⟩
  | start | launch => cases hk

/-- What a report says of a service: its name, and whether it is down. -/
def sight (status : Status) : ServiceId × Bool := (status.id, status.state.isDown)

/-- A call that stops every service reports each as down. -/
def StopCalls (c : Controller t) : Prop :=
  ReportsOn .stop sight (fun s => (t.id s, true)) .stopAll c

theorem StopCalls.change (h : StopCalls c) (ht : t.Built) (hf : c.Fits) (honce : ∀ s, c.Once s)
    (change : CallChange now c operation d) : StopCalls d := by
  apply ReportsOn.change h trivial hf (fun he s => Prod.ext rfl (he.down honce s).1) change
  intro call hk ho
  -- A stop is the only change that opens a call of this kind, and it has a job of each service.
  have hopened {e : Controller t} {operation : Operation} {jobs : List JobId}
      {phase : CallPhase t.size} (he : e.calls.size = c.calls.size)
      (hd : d.calls = (e.openCall operation jobs phase).1.calls) :
      call = { operation, jobs, phase } := by
    rw [hd, ← he, calls_openCall_size] at hk
    exact (Option.some.inj hk).symm
  have hmoved {id : CallId} {phase : CallPhase t.size} {e : Controller t}
      (he : e.calls = c.calls) (hd : d.calls = (e.setCallPhase id phase).calls) : False := by
    have hlt := (Array.getElem?_eq_some_iff.1 hk).1
    rw [hd, size_calls_setCallPhase, he] at hlt
    exact Nat.lt_irrefl _ hlt
  cases change with
  | start => rw [hopened (e := c.arm.spawnStarts _) (by simp) rfl] at ho; cases ho
  | cancel => rw [hopened (e := c.cancelRuns) rfl rfl] at ho; cases ho
  | ask _ _ hn =>
      rw [hopened (e := c) rfl rfl] at ho
      exact absurd ho hn
  | @stop order horder =>
      obtain ⟨starts, hstarts, -, hmem, -⟩ := ht.startOrder
      have hall (s : Fin t.size) : s ∈ order := by
        rw [Topology.stopOrder, hstarts] at horder
        exact Except.ok.inj horder ▸ List.mem_reverse.2 (hmem s)
      rw [hopened (e := c.cancelRuns.spawnStops order) rfl rfl]
      exact ⟨fun s => stop_jobs order (hall s), fun hp => absurd rfl hp, trivial⟩
  | stopNothing horder =>
      obtain ⟨starts, hstarts, -⟩ := ht.startOrder
      rw [Topology.stopOrder, hstarts] at horder
      cases horder
  | progress => exact (hmoved (e := c) rfl rfl).elim
  | restop => exact (hmoved (calls_spawn _) rfl).elim
  | restart => exact (hmoved (e := c.arm.spawnStarts _) (by simp) rfl).elim
  | sweep => exact (hmoved (calls_setSlot _ _) rfl).elim

/-! ## Runs -/

/-- What holds as long as the stops come last. -/
structure Lasting (c : Controller t) : Prop where
  closes : c.Closes
  once : ∀ s, c.Once s
  calls : c.StopCalls

theorem Lasting.step (h : Lasting c) (ht : t.Built) (hf : c.Fits)
    (hs : c.step now action = some (c', effects)) (hl : c'.StopsLast) : Lasting c' := by
  cases ha : action.job? with
  | some id =>
      have turn := turnsTo_of_step ha hs
      exact ⟨h.closes.turn turn, fun s => (h.once s).turn h.closes turn, ReportsOn.turn h.calls turn⟩
  | none =>
      -- Whether the stops come last is judged after the last change, so it is a premise of each.
      have keep : Fits c' ∧ (c'.StopsLast → Lasting c') := by
        refine (changesTo_of_step ha hs).1.induct
          (P := fun d => Fits d ∧ (d.StopsLast → Lasting d)) ?_ ⟨hf, fun _ => h⟩
        intro c operation d ⟨hf, hc⟩ change
        refine ⟨hf.change change, ?_⟩
        intro hl
        have h := hc (change.stopsLast hl)
        exact ⟨h.closes.change hf hl change, fun s => (h.once s).change change,
          h.calls.change ht hf h.once change⟩
      exact keep.2 hl

theorem Run.lasting {start : Controller t} {past : List (Moment t)} (run : Run start past c)
    (ht : t.Built) (hf : Fits start) (h : Lasting start) (hl : c.StopsLast) :
    Fits c ∧ Lasting c := by
  induction run with
  | refl => exact ⟨hf, h⟩
  | tail run hs ih =>
      obtain ⟨hf, h⟩ := ih (stopsLast_of_step hs hl)
      exact ⟨hf.step hs, h.step ht hf hs hl⟩

theorem lasting_fresh (config : Config) : Lasting (fresh t config) where
  closes := closes_fresh config
  once s := once_fresh config s
  calls k call hk := by simp [fresh] at hk

/-- Once every service has been stopped, all of them stay down. -/
theorem Run.down_stays {start : Controller t} {past : List (Moment t)} (run : Run start past c)
    (ht : t.Built) (hf : Fits start) (h : Lasting start) (hl : c.StopsLast) (he : start.Ended .stop) :
    c.Ended .stop ∧ ∀ p ∈ instants c past, ∀ s, (p.slot s).state.isDown := by
  have hdown {past : List (Moment t)} {c : Controller t} (run : Run start past c)
      (hl : c.StopsLast) (he : c.Ended .stop) (s : Fin t.size) : (c.slot s).state.isDown :=
    (he.down (run.lasting ht hf h hl).2.once s).1
  induction run with
  | refl =>
      refine ⟨he, ?_⟩
      intro p hp
      obtain rfl := List.mem_singleton.1 hp
      exact hdown .refl hl he
  | tail run hs ih =>
      obtain ⟨he', hpast⟩ := ih (stopsLast_of_step hs hl)
      refine ⟨he'.step hs, ?_⟩
      intro p hp
      rcases List.mem_cons.1 hp with rfl | hp
      · exact hdown (run.tail hs) hl (he'.step hs)
      · exact hpast p hp

theorem Run.stopsLast {start : Controller t} {past : List (Moment t)} (run : Run start past c)
    (hl : c.StopsLast) : start.StopsLast := by
  induction run with
  | refl => exact hl
  | tail _ hs ih => exact ih (stopsLast_of_step hs hl)

/-- A call that stops every service has answered. -/
def StopAnswered (c : Controller t) : Prop :=
  ∃ (k : Nat) (call : Call t.size), c.calls[k]? = some call ∧ call.operation = .stopAll ∧
    call.answer?.isSome

/-- Nothing is outstanding: every call has answered, and no launch waits for the container engine or
has a step of its own to take. -/
structure Quiet (c : Controller t) (now : Nat) : Prop where
  answered : ∀ (k : Nat) (call : Call t.size), c.calls[k]? = some call → call.answer?.isSome
  idle : ∀ (id : Nat) (l : Launch t.size), c.jobs[id]? = some (.launch l) →
    l.phase ≠ .running ∧ l.phase.halt? = none ∧ c.step now (.run id) = none

theorem Call.phase_of_answer {call : Call t.size} (h : call.answer?.isSome) :
    ∃ answer time, call.phase = .answered answer time := by
  unfold Call.answer? at h
  split at h
  next answer time hp => exact ⟨answer, time, hp⟩
  next => cases h

/-- Where nothing is outstanding, every start job and every launch is at its end. -/
theorem Quiet.finished (h : Quiet c now) {instants : List (Controller t)}
    (ho : Ordered instants c) (hlink : c.Linked) :
    (∀ (id : Nat) (job : StartJob t.size), c.jobs[id]? = some (.start job) →
      job.phase = .finished) ∧
    ∀ (id : Nat) (l : Launch t.size), c.jobs[id]? = some (.launch l) → l.phase = .finished := by
  have hstart (id : Nat) (job : StartJob t.size) (hj : c.jobs[id]? = some (.start job)) :
      job.phase = .finished := by
    refine Classical.byContradiction fun hn => ?_
    obtain ⟨k, call, hk, ha⟩ := ho.awaited hj hn
    obtain ⟨answer, time, hp⟩ := Call.phase_of_answer (h.answered k call hk)
    rcases ha with ⟨he, -⟩ | ⟨s, he⟩ <;> rw [hp] at he <;> cases he
  refine ⟨hstart, fun id l hl => Classical.byContradiction ?_⟩
  intro hn
  obtain ⟨hrun, hhalt, hstill⟩ := h.idle id l hl
  simp only [step, hl, runLaunch] at hstill
  -- A launch that was given up would have a step to take; any other has a start job that waits.
  by_cases ho : l.orphaned
  · revert hstill hrun hhalt hn
    rcases l.phase with _ | _ | (_ | _) | _ | _ <;> simp [ho, LaunchPhase.halt?]
  · obtain ⟨i, job, hj, hw⟩ := hlink.waited hl (by simpa using ho) hn
    rw [hstart i job hj] at hw
    cases hw

/-- Where nothing is outstanding, no job keeps a container. -/
theorem Quiet.kept_eq (h : Quiet c now) {instants : List (Controller t)} (ho : Ordered instants c)
    (hlink : c.Linked) (s : Fin t.size) (handle : Container.Handle) :
    c.kept s handle = tally (c.slot s).handle handle := by
  obtain ⟨hstart, hlaunch⟩ := h.finished ho hlink
  have htotal : c.total (Job.keeps s handle) = 0 := by
    apply (total_eq_zero_iff _).2
    intro id job hj
    have hnone : job.kept? = none := by
      cases job with
      | start job => simp [Job.kept?, hstart id job hj, StartPhase.kept?]
      | stop job => rfl
      | launch l => simp [Job.kept?, hlaunch id l hj, LaunchPhase.kept?]
    simp [Job.keeps, hnone]
  rw [kept, htotal, Nat.zero_add]

section

variable {config : Config} {past : List (Moment t)}

/-- Once a stop has answered, every service has been stopped. -/
theorem Lasting.ended (h : Lasting c) (hf : c.Fits) {k : Nat} {call : Call t.size}
    (hk : c.calls[k]? = some call) (ho : call.operation = .stopAll) (ha : call.answer?.isSome) :
    c.Ended .stop := by
  obtain ⟨⟨answer, time⟩, ha⟩ := Option.isSome_iff_exists.1 ha
  exact ((h.calls k call hk ho).answer (by rw [ho]; trivial) (hf k call hk) ha).1

/-- What a stop reports: every service, stopped or failed. -/
theorem Lasting.report (h : Lasting c) (ht : t.Built) (hf : c.Fits) {k : Nat} {call : Call t.size}
    {answer : Answer} {time : Nat} (hk : c.calls[k]? = some call)
    (ho : call.operation = .stopAll) (ha : call.answer? = some (answer, time)) :
    ∃ report, answer = .report report ∧
      report.services.map Status.id = (reportOrder t).map t.id ∧
      (∀ s, t.id s ∈ report.services.map Status.id) ∧
      ∀ status ∈ report.services, status.state = .stopped ∨ status.state = .failed := by
  obtain ⟨-, report, he, hshows⟩ :=
    (h.calls k call hk ho).answer (by rw [ho]; trivial) (hf k call hk) ha
  have hids : report.services.map Status.id = (reportOrder t).map t.id := by
    simpa [Function.comp_def, sight] using congrArg (List.map Prod.fst) hshows
  refine ⟨report, he, hids, ?_, ?_⟩
  · intro s
    exact hids ▸ List.mem_map_of_mem (mem_reportOrder ht s)
  · intro status hm
    obtain ⟨s, -, hs⟩ := List.mem_map.1 (hshows ▸ List.mem_map_of_mem (f := sight) hm)
    exact ServiceState.eq_of_isDown (congrArg Prod.snd hs).symm

/-- The stops come last at every instant of a run at the end of which they do. -/
theorem Run.lasting_before (run : Run (fresh t config) past c) (ht : t.Built) (hl : c.StopsLast)
    {later earlier : List (Moment t)} {m : Moment t} (hpast : past = later ++ m :: earlier) :
    Fits m.before ∧ Lasting m.before ∧ m.after.StopsLast := by
  have hs := run.step_of_mem (hpast ▸ List.mem_append_right _ List.mem_cons_self)
  obtain ⟨before, rest⟩ := run.split hpast
  have hafter := rest.stopsLast hl
  obtain ⟨hf, h⟩ := before.lasting ht (fits_fresh config) (lasting_fresh config)
    (stopsLast_of_step hs hafter)
  exact ⟨hf, h, hafter⟩

/-- After a stop has answered, every service is down and stays so. -/
theorem Run.down_since (run : Run (fresh t config) past c) (ht : t.Built) (hl : c.StopsLast)
    {later earlier : List (Moment t)} {m : Moment t} (hpast : past = later ++ m :: earlier)
    (hm : m.before.StopAnswered) {p : Controller t} (hp : p ∈ instants c later) (s : Fin t.size) :
    (p.slot s).state.isDown := by
  have hs := run.step_of_mem (hpast ▸ List.mem_append_right _ List.mem_cons_self)
  obtain ⟨hf, h, hafter⟩ := run.lasting_before ht hl hpast
  obtain ⟨k, call, hk, ho, ha⟩ := hm
  have hended := h.ended hf hk ho ha
  have rest := (run.split hpast).2
  exact (rest.down_stays ht (hf.step hs) (h.step ht hf hs hafter) hl (hended.step hs)).2 p hp s

/-- Where nothing is outstanding after a stop, no slot holds a container, so each was asked to stop as
often as it was handed over. -/
theorem Run.emptied (run : Run (fresh t config) past c) (ht : t.Built) (hl : c.StopsLast)
    (hstop : c.Stopping) (hquiet : c.Quiet now) :
    (∀ s, (c.slot s).handle = none) ∧
      ∀ s handle, stopsAsked past s handle = past.countP fun m => m.hands s handle := by
  obtain ⟨hf, h⟩ := run.lasting ht (fits_fresh config) (lasting_fresh config) hl
  obtain ⟨k, call, hk, ho⟩ := hstop
  have hended := h.ended hf hk ho (hquiet.answered k call hk)
  have hhandle (s : Fin t.size) := (hended.down h.once s).2
  refine ⟨hhandle, ?_⟩
  intro s handle
  -- A container is recorded only where there is none, so the books of the slot balance.
  have hbare : ∀ m ∈ past, m.before.Bare s := by
    intro m hm
    obtain ⟨later, earlier, hpast⟩ := List.append_of_mem hm
    have once := (run.lasting_before ht hl hpast).2.1.once s
    exact fun _ _ _ hj hs hp _ => once.bare hj hs (by rw [hp]; trivial)
  rw [run.kept_of_bare s hbare handle,
    hquiet.kept_eq run.ordered run.linked, hhandle, tally_none, Nat.zero_add]

end

/-- **A stop wins.** In every run of a fresh controller of a built topology in which nothing is
restarted and every start is called before every stop: whatever a stop answers is a report that shows
every service, in the order of their start, as stopped or failed; after a stop has answered every
service is and stays so; and once there has been a stop and nothing is outstanding, no slot holds a
container, and for every service the engine was asked to stop each container exactly as often as it
handed it over. -/
theorem Run.stop_wins {config : Config} {past : List (Moment t)} (ht : t.Built)
    (run : Run (fresh t config) past c) (hlast : c.StopsLast) :
    (∀ (k : Nat) (call : Call t.size) (answer : Answer) (time : Nat), c.calls[k]? = some call →
      call.operation = .stopAll → call.answer? = some (answer, time) →
        ∃ report, answer = .report report ∧
          report.services.map Status.id = (reportOrder t).map t.id ∧
          (∀ s, t.id s ∈ report.services.map Status.id) ∧
          ∀ status ∈ report.services, status.state = .stopped ∨ status.state = .failed) ∧
    (∀ (later : List (Moment t)) (m : Moment t) (earlier : List (Moment t)),
      past = later ++ m :: earlier → m.before.StopAnswered → ∀ p ∈ instants c later, ∀ s,
        (p.slot s).state = .stopped ∨ (p.slot s).state = .failed) ∧
    (c.Stopping → c.Quiet now → (∀ s, (c.slot s).handle = none) ∧
      ∀ s handle, stopsAsked past s handle = past.countP fun m => m.hands s handle) := by
  refine ⟨?_, ?_, run.emptied ht hlast⟩
  · obtain ⟨hf, h⟩ := run.lasting ht (fits_fresh config) (lasting_fresh config) hlast
    intro k call answer time hk ho ha
    exact h.report ht hf hk ho ha
  · intro later m earlier hpast hm p hp s
    exact ServiceState.eq_of_isDown (run.down_since ht hlast hpast hm hp s)

/-! ### A container that comes late -/

theorem solo_built : solo.Built :=
  ⟨_, .services .empty [{ id := ⟨"db"⟩, image := "db:img" }], rfl⟩

/-- The start of the database is cancelled and the database stopped while its container is on its way;
the container comes afterwards and is halted. -/
def lateSteps : List (Nat × Action) :=
  [(0, .invoke .startAll), (0, .run 0), (0, .run 0), (0, .run 1), (10, .invoke .cancel),
    (10, .proceed 1), (10, .proceed 1), (10, .invoke .stopAll), (10, .run 2), (10, .run 2),
    (10, .run 2), (10, .proceed 2), (10, .proceed 2), (10, .proceed 2), (20, .run 0), (20, .run 0),
    (20, .proceed 0), (20, .proceed 0), (20, .proceed 0),
    (30, .answer 1 (.container (.start (.ok ⟨⟨"db"⟩, "1"⟩)))), (30, .run 1),
    (40, .answer 1 (.container (.stop (.ok ()))))]

/-- The job is no launch, or one at its end. -/
def endedLaunch : Job solo.size → Bool
  | .launch ⟨_, _, .finished⟩ => true
  | .launch _ => false
  | _ => true

/-- The theorem at the end of that run. -/
theorem stop_wins_late :
    ∃ (past : List (Moment solo)) (c : Controller solo), solo.Built ∧
      Run (fresh solo {}) past c ∧ c.StopsLast ∧ c.Stopping ∧ c.Quiet 40 ∧
        (past.countP fun m => m.hands only ⟨⟨"db"⟩, "1"⟩) = 1 ∧
        stopsAsked past only ⟨⟨"db"⟩, "1"⟩ = 1 := by
  obtain ⟨past, c, run, shown⟩ := exists_run (fresh solo {}) lateSteps
    (fun past c => (c.calls.toList.map Call.operation) = [.startAll, .cancel, .stopAll] &&
      (c.calls.toList.all fun call => call.answer?.isSome) && c.jobs.toList.all endedLaunch &&
      (past.countP fun m => m.hands only ⟨⟨"db"⟩, "1"⟩) = 1)
    (by decide +kernel)
  simp only [Bool.and_eq_true, decide_eq_true_iff, List.all_eq_true] at shown
  obtain ⟨⟨⟨hcalls, hanswered⟩, hjobs⟩, hhanded⟩ := shown
  have called {k : Nat} {call : Call solo.size} (hk : c.calls[k]? = some call) :
      [Operation.startAll, .cancel, .stopAll][k]? = some call.operation := by
    rw [← hcalls, List.getElem?_map, Array.getElem?_toList, hk]
    rfl
  have last : c.StopsLast := by
    intro k call hk
    have hop := called hk
    refine ⟨?_, ?_⟩
    · intro service he
      have := List.mem_of_getElem? (he ▸ hop)
      simp at this
    · intro he k' call' hk' he'
      have hop' := called hk'
      rw [he] at hop
      rw [he'] at hop'
      rcases k with _ | _ | _ | k <;> simp at hop
      rcases k' with _ | k' <;> simp at hop' ⊢
  have stopping : c.Stopping := by
    have hop : (c.calls.toList.map Call.operation)[2]? = some .stopAll := by rw [hcalls]; rfl
    rw [List.getElem?_map, Array.getElem?_toList] at hop
    obtain ⟨call, hk, ho⟩ := Option.map_eq_some_iff.1 hop
    exact ⟨2, call, hk, ho⟩
  have quiet : c.Quiet 40 := by
    refine ⟨fun k call hk => hanswered call (List.mem_of_getElem? (by simpa using hk)),
      ?_⟩
    intro id l hl
    have ended := hjobs _ (List.mem_of_getElem? (i := id) (by simpa using hl))
    obtain ⟨service, orphaned, phase⟩ := l
    cases phase with
    | finished => exact ⟨by simp, rfl, by simp [step, hl, runLaunch]⟩
    | _ => cases ended
  obtain ⟨-, -, hend⟩ := run.stop_wins solo_built last
  exact ⟨past, c, solo_built, run, last, stopping, quiet, hhanded,
    ((hend stopping quiet).2 only _).trans hhanded⟩

end Controller

end Bringup.Lifecycle
