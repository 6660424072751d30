import Bringup.Proofs.Lifecycle.DependentsDown
import Bringup.Proofs.Lifecycle.HaltingDiscipline

/-!
# A stop ends restarts

A restart is a stop of its service and then a start, and the start joins a run only when it begins. A
stop of all services cancels the run that there is. So the start of a restart that has begun by then is
cancelled, whatever it waits for, and if no other start follows, nothing moves a service to starting
again (`Quelled`). What a stop job takes from then on stays out of use (`TakenSince`), and once the stop
has answered every service is stopped or failed and holds no container (`Run.restarts_end`).

A restart that is still in its stop at that time joins a run that is opened after the stop, and that
nobody has cancelled: the service ends ready, with a container that nobody halts (`restarted_ready`).
-/

namespace Bringup.Lifecycle

open Container (Handle)

variable {t : Topology}

namespace Moment

variable (m : Moment t)

/-- A start of all services begins. -/
def callsStart : Bool :=
  match m.action with
  | .invoke .startAll => true
  | .proceed k => (m.before.calls[k]?).any fun call => call.phase.begins
  | _ => false

instance (operation : Operation) : Decidable (m.action = .invoke operation) :=
  match m.action with
  | .invoke other => decidable_of_iff (other = operation) (by simp)
  | .proceed _ | .interrupt _ | .run _ | .heed _ | .timeout _ | .answer _ _ => .isFalse (by simp)

/-- A restart goes on from the stop of its service to the start. -/
def resumes : Bool :=
  match m.action with
  | .proceed k => (m.before.calls[k]?).any fun call =>
    match call.phase with
    | .stopping .. => true
    | _ => false
  | _ => false

end Moment

namespace Controller

variable {c c' d : Controller t} {now : Nat} {id : JobId} {action : Action} {effects : List Effect}
  {operation : Operation} {s : Fin t.size}

/-! ## Runs that are cancelled for good -/

/-- Every start job belongs to a run that was opened. -/
def RunsOpened (c : Controller t) : Prop :=
  ∀ (id : Nat) (job : StartJob t.size), c.jobs[id]? = some (.start job) → job.run ≤ c.currentRun

theorem RunsOpened.turn (h : RunsOpened c) (ht : TurnsTo c now id action c' effects) :
    RunsOpened c' := by
  obtain ⟨old, new, slot, aside, hj, turn, rfl⟩ := ht
  intro i job hi
  rw [currentRun_after]
  rcases start_after_cases (lt_size_of_job hj) hi with ⟨rfl, rfl⟩ | ⟨-, hi⟩
  · cases turn with
    | start turn => exact turn.same.2 ▸ h _ _ hj
  · exact h _ _ hi

theorem RunsOpened.change (h : RunsOpened c) (change : CallChange now c operation d) :
    RunsOpened d := by
  intro i job hi
  rcases change.sets.start_cases hi with hi | ⟨-, -, -, he⟩
  · exact Nat.le_trans (h _ _ hi) change.sets.currentRun_le
  · exact Nat.le_of_eq he

theorem Run.runsOpened {config : Config} {past : List (Moment t)}
    (run : Run (fresh t config) past c) : RunsOpened c :=
  run.invariant (P := fun c => RunsOpened c) (by simp [RunsOpened, fresh]) fun h hs =>
    step_induct (P := fun c => RunsOpened c) hs (fun _ turn => h.turn turn) RunsOpened.change h

/-- All runs that were opened are cancelled. -/
structure Quelled (c : Controller t) : Prop where
  opened : RunsOpened c
  cancelled : c.currentRun < c.cancelledRuns

theorem Quelled.isCancelled (h : Quelled c) {job : StartJob t.size}
    (hj : c.jobs[id]? = some (.start job)) : c.isCancelled job.run := by
  simpa [Controller.isCancelled] using Nat.lt_of_le_of_lt (h.opened _ _ hj) h.cancelled

/-- What creates no start job and leaves the runs alone keeps them cancelled. -/
theorem Quelled.frame (h : Quelled c) (hrun : d.currentRun = c.currentRun)
    (hcancelled : d.cancelledRuns = c.cancelledRuns)
    (hjobs : ∀ {i : Nat} {job : StartJob t.size}, d.jobs[i]? = some (.start job) →
      c.jobs[i]? = some (.start job)) : Quelled d where
  opened _ _ hj := hrun ▸ h.opened _ _ (hjobs hj)
  cancelled := by rw [hrun, hcancelled]; exact h.cancelled

/-- New jobs that are no start jobs leave the start jobs as they are. -/
theorem start_of_spawn {jobs : List (Job t.size)} (hkind : ∀ job ∈ jobs, job.kind ≠ .start) {i : Nat}
    {job : StartJob t.size} (hj : (c.spawn jobs).jobs[i]? = some (.start job)) :
    c.jobs[i]? = some (.start job) := by
  by_cases hi : i < c.jobs.size
  · rwa [jobs_spawn_of_lt _ hi] at hj
  · rw [jobs_spawn_of_ge _ (Nat.not_lt.1 hi)] at hj
    exact absurd rfl (hkind _ (List.mem_of_getElem? hj))

/-- A stop cancels all runs. -/
theorem RunsOpened.stopAll (h : RunsOpened c) : Quelled c.stopAll.1 := by
  have hquelled : Quelled c.cancelRuns := ⟨h, Nat.lt_succ_self _⟩
  unfold Controller.stopAll
  dsimp only
  split
  next => exact hquelled.frame rfl rfl fun hj => hj
  next => exact hquelled.frame rfl rfl (start_of_spawn (c := c.cancelRuns) (by simp [Job.kind]))

theorem RunsOpened.cancel (h : RunsOpened c) : Quelled c.cancel.1 := ⟨h, Nat.lt_succ_self _⟩

theorem Quelled.setCallPhase (h : Quelled c) (k : CallId) (phase : CallPhase t.size) :
    Quelled (c.setCallPhase k phase) :=
  h.frame (currentRun_setCallPhase _ _) (cancelledRuns_setCallPhase _ _) fun hj => by
    rwa [jobs_setCallPhase] at hj

theorem Quelled.openCall (h : Quelled c) (operation : Operation) (jobs : List JobId)
    (phase : CallPhase t.size) : Quelled (c.openCall operation jobs phase).1 :=
  h.frame rfl rfl fun hj => hj

theorem Quelled.invoke (h : Quelled c) (hn : operation ≠ .startAll) :
    Quelled (c.invoke now operation).1 := by
  cases operation with
  | startAll => exact absurd rfl hn
  | stopAll => exact h.opened.stopAll
  | restart service =>
      simp only [Controller.invoke, Controller.restart]
      split <;> exact h.openCall _ _ _
  | cancel => exact h.opened.cancel
  | status | upUntil => exact h.openCall _ _ _
  | shutDown => exact h.opened.cancel.openCall _ _ _

theorem Quelled.follow (h : Quelled c) (k : CallId) {sequel : Sequel} (hn : sequel ≠ .startAll)
    (answer : Answer) : Quelled (c.follow now k sequel answer) := by
  cases sequel with
  | startAll => exact absurd rfl hn
  | stopAll => exact h.opened.stopAll.setCallPhase _ _
  | shutDown =>
      have hshut : Quelled (c.invoke now .shutDown).1 := h.invoke (by simp)
      exact hshut.setCallPhase _ _
  | report | finish | drain | interrupt => exact h.setCallPhase _ _

/-- A call keeps all runs cancelled, unless it goes on to a start of its own. -/
theorem Quelled.proceed (h : Quelled c) {k : CallId} {call : Call t.size}
    (hn : ∀ s job, call.phase ≠ .stopping s job) (hbegins : ¬ call.phase.begins)
    (hs : c.proceed now k call = some (c', effects)) : Quelled c' := by
  cases hp : call.phase with
  | joining | starting =>
      simp only [Controller.proceed, hp, Option.ite_none_right_eq_some, Option.some.injEq,
        Prod.mk.injEq] at hs
      exact hs.2.1 ▸ h.setCallPhase _ _
  | reporting services taken =>
      cases services <;> simp only [Controller.proceed, hp, Option.some.injEq, Prod.mk.injEq] at hs <;>
        exact hs.1 ▸ h.setCallPhase _ _
  | checking s =>
      simp only [Controller.proceed, hp] at hs
      split at hs <;> simp only [Option.some.injEq, Prod.mk.injEq] at hs
      next =>
        have hspawned : Quelled (c.spawn [.stop { service := s }]) :=
          h.frame rfl rfl (start_of_spawn (by simp [Job.kind]))
        exact hs.1 ▸ hspawned.setCallPhase _ _
      next => exact hs.1 ▸ h.setCallPhase _ _
  | stopping s job => exact absurd hp (hn s job)
  | reading =>
      simp only [Controller.proceed, hp, Option.some.injEq, Prod.mk.injEq] at hs
      exact hs.1 ▸ h.setCallPhase _ _
  | sweeping services =>
      cases services with
      | nil =>
          simp only [Controller.proceed, hp, Option.some.injEq, Prod.mk.injEq] at hs
          exact hs.1 ▸ h.setCallPhase _ _
      | cons s rest =>
          rw [Controller.proceed, hp] at hs
          dsimp only at hs
          rw [moveFromStarting_eq _ _ _ (by rfl), Option.some.injEq, Prod.mk.injEq] at hs
          have hmoved (slot : Slot) : Quelled (c.setSlot s slot) := h.frame rfl rfl fun hj => hj
          exact hs.1 ▸ (hmoved _).setCallPhase _ _
  | beginning => exact absurd (by rw [hp]; rfl) hbegins
  | following other sequel =>
      have hn : sequel ≠ .startAll := by
        rintro rfl
        exact hbegins (by rw [hp]; rfl)
      simp only [Controller.proceed, hp] at hs
      split at hs <;> simp only [Option.some.injEq, Prod.mk.injEq, reduceCtorEq] at hs
      exact hs.1 ▸ h.follow _ hn _
  | answered => simp [Controller.proceed, hp] at hs

theorem Quelled.interrupt (h : Quelled c) {k : CallId} {call : Call t.size}
    (hs : c.interrupt k call = some (c', effects)) : Quelled c' := by
  unfold Controller.interrupt at hs
  split at hs
  next =>
    obtain ⟨rfl, -⟩ := by simpa using hs
    exact h.opened.cancel.setCallPhase _ _
  next =>
    obtain ⟨rfl, -⟩ := by simpa using hs
    exact h.opened.cancel.setCallPhase _ _
  next => exact absurd hs (by simp)

theorem Quelled.turn (h : Quelled c) (ht : TurnsTo c now id action c' effects) : Quelled c' where
  opened := h.opened.turn ht
  cancelled := by
    obtain ⟨old, new, slot, aside, -, -, rfl⟩ := ht
    rw [currentRun_after, cancelledRuns_after]
    exact h.cancelled

/-- **All runs stay cancelled** in every step with which neither a start of all services begins nor a
restart goes on to its start. -/
theorem Quelled.step (h : Quelled c) (hs : c.step now action = some (c', effects))
    (hcalls : ¬ Moment.callsStart ⟨c, now, action, effects, c'⟩)
    (hresumes : ¬ Moment.resumes ⟨c, now, action, effects, c'⟩) : Quelled c' := by
  cases ha : action.job? with
  | some id => exact h.turn (turnsTo_of_step ha hs)
  | none =>
      cases action with
      | invoke operation =>
          obtain ⟨rfl, -⟩ := by simpa [Controller.step] using hs
          exact h.invoke fun ho => hcalls (ho ▸ rfl)
      | proceed k =>
          obtain ⟨call, hk, hs⟩ := Option.bind_eq_some_iff.1 hs
          exact h.proceed (fun s job hp => hresumes (by simp [Moment.resumes, hk, hp]))
            (fun hb => hcalls (by simpa [Moment.callsStart, hk] using hb)) hs
      | interrupt k =>
          obtain ⟨call, -, hs⟩ := Option.bind_eq_some_iff.1 hs
          exact h.interrupt hs
      | run | heed | timeout | answer => cases ha

end Controller

/-! ## Services that are out of use -/

/-- The service is out of use: it holds no container, and is being stopped or at its end. -/
def Slot.OutOfUse (slot : Slot) : Prop :=
  slot.handle = none ∧ (slot.state = .stopping ∨ slot.state.isDown)

theorem Slot.OutOfUse.of_state {slot : Slot} (h : slot.OutOfUse) {state : ServiceState}
    (hs : slot.state = state) : state = .stopping ∨ state.isDown := hs ▸ h.2

theorem Slot.OutOfUse.ne_starting {slot : Slot} (h : slot.OutOfUse) : slot.state ≠ .starting :=
  fun hs => by simpa [ServiceState.isDown] using h.of_state hs

section Turns

variable {c : Controller t} {now : Nat} {id : JobId} {action : Action} {slot : Slot} {aside : Aside}
  {effects : List Effect}

/-- A start job that is cancelled leaves a service alone that is out of use. -/
theorem StartTurn.out_of_use {job job' : StartJob t.size}
    (turn : StartTurn c now id job action job' slot aside effects) (hc : c.isCancelled job.run)
    (h : (c.slot job.service).OutOfUse) :
    slot.handle = (c.slot job.service).handle ∧ slot.state = (c.slot job.service).state := by
  refine ⟨turn.handle_cases.resolve_right fun hn => h.ne_starting hn.1, ?_⟩
  rcases turn.state_cases with he | ⟨-, -, hn, -⟩ | ⟨-, -, hs, -⟩
  · exact he
  · rw [hc] at hn
    cases hn
  · exact absurd hs h.ne_starting

/-- A stop job keeps a service out of use, and down if it is. -/
theorem StopTurn.out_of_use {job : StopJob t.size} {phase : StopPhase}
    (turn : StopTurn c now id job action phase slot effects) (h : (c.slot job.service).OutOfUse) :
    slot.OutOfUse ∧ ((c.slot job.service).state.isDown → slot.state.isDown) := by
  have hhandle : slot.handle = none := turn.handle_cases.elim (fun he => he.trans h.1) fun he => he
  rcases turn.state_cases with he | ⟨-, hs, -⟩ | ⟨-, hs, -⟩ | ⟨-, -, he⟩
  · rw [Slot.OutOfUse, he]
    exact ⟨⟨hhandle, h.2⟩, fun hd => hd⟩
  · simpa [ServiceState.isDown] using h.of_state hs
  · rcases hs with hs | hs <;> simpa [ServiceState.isDown] using h.of_state hs
  · exact ⟨⟨hhandle, .inr (by rw [he]; rfl)⟩, fun _ => by rw [he]; rfl⟩

end Turns

theorem StopJob.Fresh.ne_finished {n : Nat} {job : StopJob n} (hf : job.Fresh) :
    job.phase ≠ .finished := by
  rcases hf with hp | ⟨_, hp⟩ <;> rw [hp] <;> simp

namespace Controller

variable {c c' d : Controller t} {now : Nat} {id : JobId} {action : Action} {effects : List Effect}
  {operation : Operation} {s : Fin t.size} {first : Nat}

/-- Once all runs are cancelled, a service out of use stays so, and stays down if it is. -/
theorem Quelled.out_of_use (hquelled : c.Quelled) (ht : TurnsTo c now id action c' effects)
    (h : (c.slot s).OutOfUse) :
    (c'.slot s).OutOfUse ∧ ((c.slot s).state.isDown → (c'.slot s).state.isDown) := by
  obtain ⟨old, new, slot, aside, hj, turn, rfl⟩ := ht
  by_cases hs : s = old.service
  · subst hs
    rw [slot_after_self]
    cases turn with
    | start turn =>
        obtain ⟨hh, hs⟩ := turn.out_of_use (hquelled.isCancelled hj) h
        rw [Slot.OutOfUse, hh, hs]
        exact ⟨h, fun hd => hd⟩
    | stop turn => exact turn.out_of_use h
    | launch turn => exact ⟨h, fun hd => hd⟩
  · rw [slot_after_of_ne hs]
    exact ⟨h, fun hd => hd⟩

theorem CallChange.out_of_use (change : CallChange now c operation d) (h : (c.slot s).OutOfUse) :
    (d.slot s).OutOfUse ∧ ((c.slot s).state.isDown → (d.slot s).state.isDown) := by
  have hstate := (change.sets.state_cases s).resolve_right fun hn => h.ne_starting hn.1
  rw [Slot.OutOfUse, change.sets.handle_eq, hstate]
  exact ⟨h, fun hd => hd⟩

/-- A stop job at its end leaves its service down. -/
theorem Vacant.stop_ended {job : StopJob t.size} {slot : Slot} (h : Vacant c job.service)
    (hj : c.jobs[id]? = some (.stop job))
    (turn : StopTurn c now id job action .finished slot effects) : slot.state.isDown := by
  generalize hf : StopPhase.finished = phase at turn
  cases turn with
  | idle hp hs => rw [hs]; rfl
  | retire => rfl
  | leave hp hs => exact (h.taken hj rfl (by rw [hp]; trivial)).2.resolve_left hs
  | skip | halted | unbind => exact absurd hf.symm (detachPhase_ne_finished _)
  | take | takeLeft => exact absurd hf.symm (takenPhase_ne_finished _ _ _)
  | go | pass | overrun | kill => cases hf

/-- What the stop jobs from the given one on have taken is out of use, and down once they are at their
end. -/
structure TakenSince (c : Controller t) (first : Nat) (s : Fin t.size) : Prop where
  taken : ∀ {id : Nat} {job : StopJob t.size}, first ≤ id → c.jobs[id]? = some (.stop job) →
    job.service = s → ¬ job.Fresh → (c.slot s).OutOfUse
  ended : ∀ {id : Nat} {job : StopJob t.size}, first ≤ id → c.jobs[id]? = some (.stop job) →
    job.service = s → job.phase = .finished → (c.slot s).state.isDown

theorem TakenSince.turn (h : TakenSince c first s) (hquelled : c.Quelled) (hvacant : c.Vacant s)
    (ht : TurnsTo c now id action c' effects) : TakenSince c' first s := by
  have hkept (ho : (c.slot s).OutOfUse) := hquelled.out_of_use ht ho
  obtain ⟨old, new, slot, aside, hj, turn, rfl⟩ := ht
  have hid := lt_size_of_job hj
  constructor
  case taken =>
    intro i job hi hjob hs hf
    rcases stop_after_cases hid hjob with ⟨rfl, rfl⟩ | ⟨-, hjob⟩
    · cases turn with
      | @stop old phase _ _ _ turn =>
          change old.service = s at hs
          subst hs
          rw [Job.service_stop, slot_after_self]
          exact hvacant.stop_taken hj turn hf
    · exact (hkept (h.taken hi hjob hs hf)).1
  case ended =>
    intro i job hi hjob hs hf
    rcases stop_after_cases hid hjob with ⟨rfl, rfl⟩ | ⟨-, hjob⟩
    · cases turn with
      | @stop old phase _ _ _ turn =>
          change old.service = s at hs
          change phase = .finished at hf
          subst hs hf
          rw [Job.service_stop, slot_after_self]
          exact hvacant.stop_ended hj turn
    · have hout := h.taken hi hjob hs fun hn => hn.ne_finished hf
      exact (hkept hout).2 (h.ended hi hjob hs hf)

theorem TakenSince.change (h : TakenSince c first s) (change : CallChange now c operation d) :
    TakenSince d first s where
  taken hi hj hs hf :=
    (change.out_of_use (h.taken hi ((change.sets.stop_cases hj).resolve_right hf) hs hf)).1
  ended hi hj hs hp := by
    have hj := (change.sets.stop_cases hj).resolve_right fun hf => hf.ne_finished hp
    have hout := h.taken hi hj hs fun hf => hf.ne_finished hp
    exact (change.out_of_use hout).2 (h.ended hi hj hs hp)

/-! ## Runs -/

/-- What holds of a service after a stop of all services, with the first of the jobs created since. -/
structure Ending (c : Controller t) (first : Nat) (s : Fin t.size) : Prop where
  quelled : c.Quelled
  taken : c.TakenSince first s

theorem Ending.step (h : Ending c first s) (hvacant : c.Vacant s)
    (hs : c.step now action = some (c', effects))
    (hcalls : ¬ Moment.callsStart ⟨c, now, action, effects, c'⟩)
    (hresumes : ¬ Moment.resumes ⟨c, now, action, effects, c'⟩) : Ending c' first s where
  quelled := h.quelled.step hs hcalls hresumes
  taken := step_induct (P := fun c => TakenSince c first s) hs
    (fun _ turn => h.taken.turn h.quelled hvacant turn) TakenSince.change h.taken

/-- With a stop of all services the end begins. -/
theorem RunsOpened.ending (h : RunsOpened c) (s : Fin t.size) :
    Ending c.stopAll.1 c.jobs.size s where
  quelled := h.stopAll
  taken := by
    -- The stop jobs that are new have yet to take their services.
    have hfresh : ∀ (i : Nat) (job : StopJob t.size), c.jobs.size ≤ i →
        c.stopAll.1.jobs[i]? = some (.stop job) → job.Fresh := by
      have changes : ChangesTo 0 c c.stopAll.1 := stopAll_change
      refine changes.induct (P := fun d => ∀ (i : Nat) (job : StopJob t.size), c.jobs.size ≤ i →
        d.jobs[i]? = some (.stop job) → job.Fresh) (fun hd change => ?_) ?_
      · intro i job hi hj
        exact (change.sets.stop_cases hj).elim (hd i job hi) fun hf => hf
      · intro i job hi hj
        exact absurd (lt_size_of_job hj) (Nat.not_lt.2 hi)
    exact ⟨fun hi hj _ hf => absurd (hfresh _ _ hi hj) hf,
      fun hi hj _ hp => absurd hp (hfresh _ _ hi hj).ne_finished⟩

theorem Run.ending {start : Controller t} {past : List (Moment t)} (run : Run start past c)
    (h : Ending start first s) (hvacant : ∀ p ∈ instants c past, p.Vacant s)
    (hcalls : ∀ m ∈ past, ¬ m.callsStart) (hresumes : ∀ m ∈ past, ¬ m.resumes) :
    Ending c first s := by
  induction run with
  | refl => exact h
  | tail run hs ih =>
      have hbefore := ih (fun p hp => hvacant p (List.mem_cons_of_mem _ hp))
        (fun m hm => hcalls m (List.mem_cons_of_mem _ hm))
        fun m hm => hresumes m (List.mem_cons_of_mem _ hm)
      exact hbefore.step (hvacant _ (List.mem_cons_of_mem _ List.mem_cons_self)) hs
        (hcalls _ List.mem_cons_self) (hresumes _ List.mem_cons_self)

section

variable {config : Config} {past : List (Moment t)}

theorem Run.remembers_of_mem (run : Run (fresh t config) past c)
    (halone : ∀ p ∈ instants c past, ¬ p.StartsUnderStop s ∧ ¬ p.StartsOverlap s)
    {p : Controller t} (hp : p ∈ instants c past) : p.Remembers s := by
  rcases List.mem_cons.1 hp with rfl | hp
  · exact run.remembers halone
  · obtain ⟨m, hm, rfl⟩ := List.mem_map.1 hp
    obtain ⟨later, earlier, hpast⟩ := List.append_of_mem hm
    exact (run.split hpast).1.remembers fun p hp => halone p (mem_instants_before hpast hp)

/-- No job has a step of its own to take, and none has a container to halt. -/
structure AtRest (c : Controller t) (now : Nat) : Prop where
  still : ∀ id, c.step now (.run id) = none
  halted : ∀ (id : Nat) (job : Job t.size), c.jobs[id]? = some job → job.halt? = none

/-- Where no slot holds a container, and nothing is under way, each container that was handed over was
halted. -/
theorem Run.halted_at_rest (run : Run (fresh t config) past c)
    (hbare : ∀ m ∈ past, m.before.Bare s) (hnone : (c.slot s).handle = none) (hrest : c.AtRest now)
    (handle : Handle) :
    (past.countP fun m => m.hands s handle) = stopsAsked past s handle ∧
      stopsAsked past s handle = past.countP fun m => m.endsHalt s handle := by
  have hkept : c.kept s handle = 0 := by
    rw [Controller.kept, hnone, run.linked.none_in_hand hrest.still, tally_none]
  have hhalting : c.halting s handle = 0 := by
    refine (total_eq_zero_iff _).2 fun id job hj => ?_
    simp [Job.halts, hrest.halted id job hj]
  have hhanded := run.kept_of_bare s hbare handle
  have hasked := run.halting s handle
  omega

/-- **A stop ends restarts.** In every run of a fresh controller of a built topology in which a stop of
all services is called, after which nobody calls for a start of all services and no restart goes on
from its stop to its start: once that stop, or a later one, has answered, every service is stopped or
failed and holds no container; and when nothing is under way any more, each of its containers was
halted as often as the engine handed it over. This is so for each service that was never started under
a stop still at work, nor owned by two start jobs at once. -/
theorem Run.restarts_end (ht : t.Built) (run : Run (fresh t config) past c)
    {later earlier : List (Moment t)} {m : Moment t} (hpast : past = later ++ m :: earlier)
    (hstop : m.action = .invoke .stopAll) (hcalls : ∀ m' ∈ later, ¬ m'.callsStart)
    (hresumes : ∀ m' ∈ later, ¬ m'.resumes) {k : Nat} {call : Call t.size}
    (hsince : m.before.calls.size ≤ k) (hk : c.calls[k]? = some call)
    (ho : call.operation = .stopAll) (ha : call.answer?.isSome) (s : Fin t.size)
    (halone : ∀ p ∈ instants c past, ¬ p.StartsUnderStop s ∧ ¬ p.StartsOverlap s) :
    ((c.slot s).state = .stopped ∨ (c.slot s).state = .failed) ∧ (c.slot s).handle = none ∧
      ∀ now, c.AtRest now → ∀ handle,
        (past.countP fun m => m.hands s handle) = stopsAsked past s handle ∧
          stopsAsked past s handle = past.countP fun m => m.endsHalt s handle := by
  obtain ⟨before, rest⟩ := run.split hpast
  have hs := run.step_of_mem (hpast ▸ List.mem_append_right _ List.mem_cons_self)
  have hremembers {p : Controller t} (hp : p ∈ instants c past) := run.remembers_of_mem halone hp
  have hending : Ending c m.before.jobs.size s := by
    rw [hstop] at hs
    obtain ⟨hafter, -⟩ := by simpa [Controller.step] using hs
    exact rest.ending (hafter ▸ before.runsOpened.ending s)
      (fun p hp => (hremembers (mem_instants_since hpast hp)).vacant) hcalls hresumes
  -- The call has a stop job for the service, which was created since and is at its end.
  have htakes := run.takesDown ht k call hk ho
  obtain ⟨i, hi, job, hj, hjs⟩ := htakes.jobs s
  obtain ⟨answer, time, hp⟩ := Call.phase_of_answer ha
  have hf := htakes.joined (by rw [hp]; simp) i hi
  rw [isFinished_of_job hj, Job.isFinished_stop] at hf
  have hnew := ((Run.refl.tail hs).trans rest).call_jobs hk hsince i hi
  have hnone := (hending.taken.taken hnew hj hjs fun hn => hn.ne_finished hf).1
  refine ⟨ServiceState.eq_of_isDown (hending.taken.ended hnew hj hjs hf), hnone, ?_⟩
  intro now hrest handle
  refine run.halted_at_rest ?_ hnone hrest handle
  intro m hm i job _ hj hs hp hst
  have hp' : m.before ∈ instants c past := List.mem_cons_of_mem _ (List.mem_map_of_mem hm)
  exact (hremembers hp').recordable i job hj hs (by rw [hp]; trivial) hst

end

/-! ### A restart that is cut off, and one that is not -/

/-- Where every job is at its end, nothing is under way. -/
theorem atRest_of_finished (h : c.jobs.toList.all Job.isFinished) : c.AtRest now := by
  have hended {id : Nat} {job : Job t.size} (hj : c.jobs[id]? = some job) : job.isFinished :=
    List.all_eq_true.1 h job (List.mem_of_getElem? (by simpa using hj))
  constructor
  case still =>
    intro id
    refine Option.eq_none_iff_forall_ne_some.2 fun ⟨c', effects⟩ hs => ?_
    have turns : TurnsTo c now id (.run id) c' effects := turnsTo_of_step rfl hs
    obtain ⟨old, new, slot, aside, hj, turn, -⟩ := turns
    exact turn.not_isFinished (hended hj)
  case halted =>
    intro id job hj
    have hf := hended hj
    cases job with
    | start job => rw [Job.halt?, Job.isFinished_start.1 hf]; rfl
    | stop job => rw [Job.halt?, Job.isFinished_stop.1 hf]; rfl
    | launch l => rw [Job.halt?, Job.isFinished_launch.1 hf]; rfl

/-- Looks through the jobs for two starts of the service, and for a stop at work on it while it is
starting. -/
def calm (c : Controller t) (s : Fin t.size) : Bool :=
  c.total (Job.owning s) ≤ 1 && ((c.slot s).state ≠ .starting || c.total (Job.atWork s) = 0)

theorem alone_of_calm (h : c.calm s) : ¬ c.StartsUnderStop s ∧ ¬ c.StartsOverlap s := by
  simp only [calm, Bool.and_eq_true, Bool.or_eq_true, decide_eq_true_iff] at h
  exact ⟨not_startsUnderStop h.2, not_startsOverlap h.1⟩

/-- The database is started, found ready and reported so, and then its restart is called. -/
def restartSteps : List (Nat × Action) :=
  readySteps ++ ([(30, .proceed 0), (30, .proceed 0), (30, .proceed 0),
    (40, .invoke (.restart ⟨"db"⟩)), (40, .proceed 1), (40, .run 2)] : List (Nat × Action))

/-- All services are stopped while the new container of the database is on its way. The container comes
afterwards and is halted. -/
def tooLateSteps : List (Nat × Action) :=
  restartSteps ++ ([(45, .answer 2 (.container (.stop (.ok ())))), (45, .run 2), (45, .proceed 1),
    (45, .run 3), (45, .run 3), (45, .run 4), (50, .invoke .stopAll), (50, .run 5), (50, .run 5),
    (50, .run 5), (50, .proceed 2), (50, .proceed 2), (50, .proceed 2), (50, .run 3), (50, .run 3),
    (50, .proceed 1), (50, .proceed 1),
    (60, .answer 4 (.container (.start (.ok ⟨⟨"db"⟩, "2"⟩)))), (60, .run 4),
    (70, .answer 4 (.container (.stop (.ok ()))))] : List (Nat × Action))

/-- All services are stopped while the old container of the database is being halted. That stop is over
at once, and the restart goes on to its start. -/
def resumedSteps : List (Nat × Action) :=
  restartSteps ++ ([(50, .invoke .stopAll), (50, .run 3), (50, .run 3), (50, .run 3),
    (50, .proceed 2), (50, .proceed 2), (50, .proceed 2),
    (100, .answer 2 (.container (.stop (.ok ())))), (100, .run 2), (100, .proceed 1), (100, .run 4),
    (100, .run 4), (100, .run 5), (110, .answer 5 (.container (.start (.ok ⟨⟨"db"⟩, "2"⟩)))),
    (110, .run 4), (110, .run 4), (110, .run 4), (120, .answer 4 (.container (.probe .ready))),
    (120, .run 4), (120, .proceed 1), (120, .proceed 1)] : List (Nat × Action))

/-- The theorem at the end of the run in which the restart comes too late: the database is stopped, and
both its containers were halted. -/
theorem restarts_end_late :
    ∃ (past later : List (Moment solo)) (c : Controller solo) (m : Moment solo)
      (earlier : List (Moment solo)) (restart stop : Call solo.size), solo.Built ∧
        Run (fresh solo {}) past c ∧ past = later ++ m :: earlier ∧ m.action = .invoke .stopAll ∧
        m.before.calls[1]? = some restart ∧ restart.operation = .restart ⟨"db"⟩ ∧
        restart.answer?.isNone ∧ (∀ m' ∈ later, ¬ m'.callsStart) ∧ (∀ m' ∈ later, ¬ m'.resumes) ∧
        m.before.calls.size ≤ 2 ∧ c.calls[2]? = some stop ∧ stop.operation = .stopAll ∧
        stop.answer?.isSome ∧
        (∀ p ∈ instants c past, ¬ p.StartsUnderStop only ∧ ¬ p.StartsOverlap only) ∧ c.AtRest 70 ∧
        ((c.slot only).state = .stopped ∨ (c.slot only).state = .failed) ∧
        (past.countP fun m => m.endsHalt only ⟨⟨"db"⟩, "1"⟩) = 1 ∧
        (past.countP fun m => m.endsHalt only ⟨⟨"db"⟩, "2"⟩) = 1 := by
  obtain ⟨later, m, earlier, c, run, shown⟩ := exists_run_at (fresh solo {}) tooLateSteps 13
    (fun later m earlier c => m.action = .invoke .stopAll &&
      ((instants c (later ++ m :: earlier)).all fun p => p.calm only) &&
      (later.all fun m' => !m'.callsStart && !m'.resumes) && c.jobs.toList.all Job.isFinished &&
      (m.before.calls[1]?.any fun call =>
        call.operation = .restart ⟨"db"⟩ && call.answer?.isNone) && m.before.calls.size ≤ 2 &&
      (c.calls[2]?.any fun call => call.operation = .stopAll && call.answer?.isSome) &&
      ((later ++ m :: earlier).countP fun m => m.hands only ⟨⟨"db"⟩, "1"⟩) = 1 &&
      ((later ++ m :: earlier).countP fun m => m.hands only ⟨⟨"db"⟩, "2"⟩) = 1)
    (by decide +kernel)
  simp only [Bool.and_eq_true, decide_eq_true_iff, List.all_eq_true, Option.any_eq_true,
    Bool.not_eq_true'] at shown
  obtain ⟨⟨⟨⟨⟨⟨⟨⟨hstop, hcalm⟩, hlater⟩, hjobs⟩, restart, hr, hrop, hrestart⟩, hsize⟩, stop, hk, hop,
    hanswer⟩, hone⟩, htwo⟩ := shown
  have alone : ∀ p ∈ instants c (later ++ m :: earlier),
      ¬ p.StartsUnderStop only ∧ ¬ p.StartsOverlap only := fun p hp => alone_of_calm (hcalm p hp)
  have uncalled : ∀ m' ∈ later, ¬ m'.callsStart := fun m' hm' => by simp [(hlater m' hm').1]
  have unresumed : ∀ m' ∈ later, ¬ m'.resumes := fun m' hm' => by simp [(hlater m' hm').2]
  have rest : c.AtRest 70 := atRest_of_finished (List.all_eq_true.2 hjobs)
  obtain ⟨hdown, -, hhalted⟩ := run.restarts_end solo_built rfl hstop uncalled unresumed hsize hk hop
    hanswer only alone
  have halts (handle : Handle) := (hhalted 70 rest handle).1.trans (hhalted 70 rest handle).2
  exact ⟨_, later, c, m, earlier, restart, stop, solo_built, run, rfl, hstop, hr, hrop, hrestart,
    uncalled, unresumed, hsize, hk, hop, hanswer, alone, rest, hdown, (halts _).symm.trans hone,
    (halts _).symm.trans htwo⟩

/-- A stop is called while a restart is under way, and no other call is made; both answer, and nothing is
under way any more: the database is ready, and nobody has asked the engine to stop its container. -/
theorem restarted_ready :
    ∃ (past later : List (Moment solo)) (c : Controller solo) (m : Moment solo)
      (earlier : List (Moment solo)) (restart : Call solo.size), Run (fresh solo {}) past c ∧
        past = later ++ m :: earlier ∧ m.action = .invoke .stopAll ∧
        m.before.calls[1]? = some restart ∧ restart.operation = .restart ⟨"db"⟩ ∧
        restart.answer?.isNone ∧
        c.calls.toList.map Call.operation = [.startAll, .restart ⟨"db"⟩, .stopAll] ∧
        (∀ call ∈ c.calls.toList, call.answer?.isSome) ∧ c.AtRest 120 ∧
        (∀ p ∈ instants c past, ¬ p.StartsUnderStop only ∧ ¬ p.StartsOverlap only) ∧
        (c.slot only).state = .ready ∧ (c.slot only).handle = some ⟨⟨"db"⟩, "2"⟩ ∧
        (past.countP fun m => m.hands only ⟨⟨"db"⟩, "2"⟩) = 1 ∧
        stopsAsked past only ⟨⟨"db"⟩, "2"⟩ = 0 := by
  obtain ⟨later, m, earlier, c, run, shown⟩ := exists_run_at (fresh solo {}) resumedSteps 20
    (fun later m earlier c => m.action = .invoke .stopAll &&
      ((instants c (later ++ m :: earlier)).all fun p => p.calm only) &&
      c.jobs.toList.all Job.isFinished &&
      (m.before.calls[1]?.any fun call =>
        call.operation = .restart ⟨"db"⟩ && call.answer?.isNone) &&
      c.calls.toList.map Call.operation = [.startAll, .restart ⟨"db"⟩, .stopAll] &&
      (c.calls.toList.all fun call => call.answer?.isSome) && (c.slot only).state = .ready &&
      (c.slot only).handle = some ⟨⟨"db"⟩, "2"⟩ &&
      ((later ++ m :: earlier).countP fun m => m.hands only ⟨⟨"db"⟩, "2"⟩) = 1 &&
      stopsAsked (later ++ m :: earlier) only ⟨⟨"db"⟩, "2"⟩ = 0)
    (by decide +kernel)
  simp only [Bool.and_eq_true, decide_eq_true_iff, List.all_eq_true, Option.any_eq_true] at shown
  obtain ⟨⟨⟨⟨⟨⟨⟨⟨⟨hstop, hcalm⟩, hjobs⟩, restart, hr, hrop, hrestart⟩, hcalls⟩, hanswered⟩, hready⟩,
    hhandle⟩, hhanded⟩, hasked⟩ := shown
  exact ⟨_, later, c, m, earlier, restart, run, rfl, hstop, hr, hrop, hrestart, hcalls, hanswered,
    atRest_of_finished (List.all_eq_true.2 hjobs), fun p hp => alone_of_calm (hcalm p hp), hready,
    hhandle, hhanded, hasked⟩

end Controller

end Bringup.Lifecycle
