import Bringup.Proofs.Lifecycle.LastErrors
import Bringup.Proofs.Lifecycle.RestartsEnd

/-!
# A cancel takes hold

A cancel ends the runs of all starts under way at once, and then goes through the services and moves
those that are starting to stopping (`Moment.Sweeps`). From then on no start job moves a service to
starting, so a service that the cancel has gone past does not start any more (`Cancelling`), and once
the cancel has answered no service gets ready or fails either (`Quelled.still`).

A start that waited for a dependency learns that it is cancelled, whatever becomes of the dependency: its
service can be started afterwards and was cancelled last (`Spared`). There is one other error that it can
show: a start job of the same service that had found before the cancel that a dependency had failed
records so, and it may do so last.
-/

namespace Bringup.Lifecycle

variable {t : Topology} {n : Nat}

/-! ## Nobody starts anything any more -/

/-- The call has a start before it: a restart that has not come to its start, or a call that starts every
service until interrupted and has not begun to. -/
def CallPhase.ToStart : CallPhase n → Prop
  | .checking _ | .stopping .. | .beginning | .following _ .startAll => True
  | _ => False

/-- Somebody calls for a start of all services, or for a restart of one. -/
def Moment.CallsAnyStart (m : Moment t) : Prop :=
  m.action = .invoke .startAll ∨ m.action = .invoke .upUntil ∨ ∃ s, m.action = .invoke (.restart s)

/-- Somebody makes a call. -/
def Moment.Invokes (m : Moment t) : Prop := ∃ operation, m.action = .invoke operation

theorem Moment.not_callsAnyStart {m : Moment t} (h : ¬ m.Invokes) : ¬ m.CallsAnyStart := by
  rintro (ha | ha | ⟨s, ha⟩) <;> exact h ⟨_, ha⟩

namespace Controller

variable {c c' d : Controller t} {now : Nat} {id : JobId} {action : Action} {effects : List Effect}
  {operation : Operation} {s : Fin t.size}

/-- No call has a start before it. -/
def NoneToStart (c : Controller t) : Prop :=
  ∀ (k : Nat) (call : Call t.size), c.calls[k]? = some call → ¬ call.phase.ToStart

instance (phase : CallPhase t.size) : Decidable phase.ToStart :=
  match phase with
  | .checking _ | .stopping .. | .beginning | .following _ .startAll => isTrue trivial
  | .following _ .stopAll | .following _ .report | .following _ .finish | .following _ (.drain _)
  | .following _ .shutDown | .following _ .interrupt | .joining | .reporting .. | .starting ..
  | .reading _ | .sweeping _ | .answered .. => isFalse not_false

theorem noneToStart_of_getElem (h : ∀ k (hk : k < c.calls.size), ¬ c.calls[k].phase.ToStart) :
    NoneToStart c := by
  intro k call hk
  obtain ⟨hlt, rfl⟩ := Array.getElem?_eq_some_iff.1 hk
  exact h k hlt

theorem NoneToStart.of_calls (h : NoneToStart c) (hd : d.calls = c.calls) : NoneToStart d := by
  rwa [NoneToStart, hd]

theorem NoneToStart.openCall (h : NoneToStart c) {jobs : List JobId} {phase : CallPhase t.size}
    (hp : ¬ phase.ToStart) : NoneToStart (c.openCall operation jobs phase).1 := by
  intro k call hk
  rcases calls_openCall_cases hk with hk | ⟨-, rfl⟩
  · exact h k call hk
  · exact hp

theorem NoneToStart.setCallPhase (h : NoneToStart c) (i : CallId) {phase : CallPhase t.size}
    (hp : ¬ phase.ToStart) : NoneToStart (c.setCallPhase i phase) := by
  intro k call hk
  rcases calls_setCallPhase_cases hk with ⟨-, hk⟩ | ⟨old, -, -, rfl⟩
  · exact h k call hk
  · exact hp

theorem NoneToStart.startAll (h : NoneToStart c) : NoneToStart c.startAll.1 := by
  unfold Controller.startAll
  split
  next => exact h.openCall not_false
  next => exact (h.of_calls (by simp)).openCall not_false

theorem NoneToStart.stopAll (h : NoneToStart c) : NoneToStart c.stopAll.1 := by
  have hcancelled : NoneToStart c.cancelRuns := h
  unfold Controller.stopAll
  dsimp only
  split
  next => exact hcancelled.openCall not_false
  next => exact (hcancelled.of_calls (calls_spawnStops _)).openCall not_false

theorem NoneToStart.cancel (h : NoneToStart c) : NoneToStart c.cancel.1 :=
  NoneToStart.openCall (c := c.cancelRuns) h not_false

theorem NoneToStart.invoke (h : NoneToStart c) (hn : ∀ s, operation ≠ .restart s)
    (hu : operation ≠ .upUntil) : NoneToStart (c.invoke now operation).1 := by
  cases operation with
  | startAll => exact h.startAll
  | stopAll => exact h.stopAll
  | restart s => exact absurd rfl (hn s)
  | cancel => exact h.cancel
  | status => exact h.openCall not_false
  | shutDown => exact h.cancel.openCall not_false
  | upUntil => exact absurd rfl hu

theorem NoneToStart.follow (h : NoneToStart c) (k : CallId) {sequel : Sequel}
    (hn : sequel ≠ .startAll) (answer : Answer) : NoneToStart (c.follow now k sequel answer) := by
  cases sequel with
  | startAll => exact absurd rfl hn
  | stopAll => exact h.stopAll.setCallPhase _ not_false
  | shutDown =>
      have hshut : NoneToStart (c.invoke now .shutDown).1 := h.invoke (by simp) (by simp)
      exact hshut.setCallPhase _ not_false
  | report | finish | drain | interrupt => exact h.setCallPhase _ not_false

theorem NoneToStart.proceed (h : NoneToStart c) {k : CallId} {call : Call t.size}
    (hk : c.calls[k]? = some call) (hs : c.proceed now k call = some (c', effects)) :
    NoneToStart c' := by
  have hphase := h k call hk
  cases hp : call.phase with
  | checking | stopping | beginning =>
      rw [hp] at hphase
      exact absurd trivial hphase
  | joining | starting =>
      simp only [Controller.proceed, hp, Option.ite_none_right_eq_some, Option.some.injEq,
        Prod.mk.injEq] at hs
      exact hs.2.1 ▸ h.setCallPhase _ not_false
  | reporting services taken =>
      cases services <;> simp only [Controller.proceed, hp, Option.some.injEq, Prod.mk.injEq] at hs <;>
        exact hs.1 ▸ h.setCallPhase _ not_false
  | reading =>
      simp only [Controller.proceed, hp, Option.some.injEq, Prod.mk.injEq] at hs
      exact hs.1 ▸ h.setCallPhase _ not_false
  | sweeping services =>
      cases services with
      | nil =>
          simp only [Controller.proceed, hp, Option.some.injEq, Prod.mk.injEq] at hs
          exact hs.1 ▸ h.setCallPhase _ not_false
      | cons s rest =>
          rw [Controller.proceed, hp] at hs
          dsimp only at hs
          rw [moveFromStarting_eq _ _ _ (by rfl), Option.some.injEq, Prod.mk.injEq] at hs
          have hmoved (slot : Slot) : NoneToStart (c.setSlot s slot) := h
          exact hs.1 ▸ (hmoved _).setCallPhase _ not_false
  | following other sequel =>
      have hn : sequel ≠ .startAll := by
        rintro rfl
        exact hphase (by rw [hp]; trivial)
      simp only [Controller.proceed, hp] at hs
      split at hs <;> simp only [Option.some.injEq, Prod.mk.injEq, reduceCtorEq] at hs
      exact hs.1 ▸ h.follow _ hn _
  | answered => simp [Controller.proceed, hp] at hs

theorem NoneToStart.step (h : NoneToStart c) (hs : c.step now action = some (c', effects))
    (hn : ∀ s, action ≠ .invoke (.restart s)) (hu : action ≠ .invoke .upUntil) :
    NoneToStart c' := by
  cases action with
  | invoke operation =>
      obtain ⟨rfl, -⟩ := by simpa [Controller.step] using hs
      exact h.invoke (fun s ho => hn s (ho ▸ rfl)) fun ho => hu (ho ▸ rfl)
  | proceed k =>
      obtain ⟨call, hk, hs⟩ := Option.bind_eq_some_iff.1 hs
      exact h.proceed hk hs
  | interrupt k =>
      obtain ⟨call, hk, hs⟩ := Option.bind_eq_some_iff.1 hs
      unfold Controller.interrupt at hs
      split at hs
      next hp => exact absurd (by rw [hp]; trivial) (h k call hk)
      next =>
        obtain ⟨rfl, -⟩ := by simpa using hs
        exact h.cancel.setCallPhase _ not_false
      next => cases hs
  | run id | heed id | timeout id | answer id reply =>
      obtain ⟨old, new, slot, aside, -, -, rfl⟩ := turnsTo_of_step (rfl : Action.job? _ = some id) hs
      exact h.of_calls calls_after

theorem NoneToStart.not_resumes (h : NoneToStart c) :
    ¬ Moment.resumes ⟨c, now, action, effects, c'⟩ := by
  unfold Moment.resumes
  cases action with
  | proceed k =>
      cases hk : c.calls[k]? with
      | none => simp [hk]
      | some call =>
          have hphase := h k call hk
          cases hp : call.phase <;> simp_all [CallPhase.ToStart]
  | _ => simp

theorem NoneToStart.not_callsStart (h : NoneToStart c) (ha : action ≠ .invoke .startAll) :
    ¬ Moment.callsStart ⟨c, now, action, effects, c'⟩ := by
  unfold Moment.callsStart
  cases action with
  | invoke operation => cases operation <;> simp_all
  | proceed k =>
      cases hk : c.calls[k]? with
      | none => simp [hk]
      | some call =>
          intro hb
          have hb : call.phase.begins := by simpa [hk] using hb
          refine h k call hk ?_
          revert hb
          unfold CallPhase.begins
          split
          next hp => exact fun _ => hp ▸ trivial
          next hp => exact fun _ => hp ▸ trivial
          next => simp
  | _ => simp

/-- All runs are cancelled, and nobody is going to open another one. -/
structure Over (c : Controller t) : Prop where
  quelled : c.Quelled
  unstarted : c.NoneToStart

theorem Over.step (h : Over c) (hs : c.step now action = some (c', effects))
    (hcalls : ¬ Moment.CallsAnyStart ⟨c, now, action, effects, c'⟩) : Over c' where
  quelled := h.quelled.step hs (h.unstarted.not_callsStart fun ha => hcalls (.inl ha))
      h.unstarted.not_resumes
  unstarted := h.unstarted.step hs (fun s ha => hcalls (.inr (.inr ⟨s, ha⟩)))
    fun ha => hcalls (.inr (.inl ha))

/-- With a cancel everything is over. -/
theorem over_cancel (h : RunsOpened c) (hn : NoneToStart c) : Over c.cancel.1 :=
  ⟨h.cancel, hn.cancel⟩

/-! ## What a cancel changes -/

end Controller

/-- The step moves services from starting to stopping, as cancelled. No other slot changes, no job, and
no call but the one that takes the step. -/
structure Moment.Sweeps (m : Moment t) (k : CallId) : Prop where
  slots : ∀ s, m.after.slot s = m.before.slot s ∨
    ((m.before.slot s).state = .starting ∧ m.after.slot s = { m.before.slot s with
      state := .stopping
      published := .stopping
      lastError := some (.cancelled (t.id s))
      transitions := (m.before.slot s).transitions ++ [⟨.starting, .stopping, m.now⟩] })
  jobs : m.after.jobs = m.before.jobs
  calls : ∀ other ≠ k, m.after.calls[other]? = m.before.calls[other]?
  effects : m.effects = []

namespace Controller

variable {c c' d : Controller t} {now : Nat} {id : JobId} {action : Action} {effects : List Effect}
  {operation : Operation} {s : Fin t.size} {k : CallId} {call : Call t.size}

/-- Where a cancel is called it changes nothing but the runs. -/
theorem sweeps_cancel (c : Controller t) (now : Nat) :
    Moment.Sweeps ⟨c, now, .invoke .cancel, [], c.cancel.1⟩ c.calls.size where
  slots _ := .inl rfl
  jobs := rfl
  calls other hne := by
    show (c.cancelRuns.openCall _ _ _).1.calls[other]? = c.calls[other]?
    simp [Controller.openCall, cancelRuns, Array.getElem?_push, hne]
  effects := rfl

/-- Each step of a cancel takes one service out of the state of starting, or answers. -/
theorem sweeps_proceed (hfits : Fits c) (hk : c.calls[k]? = some call) (ho : call.operation = .cancel)
    (hs : c.proceed now k call = some (c', effects)) :
    Moment.Sweeps ⟨c, now, .proceed k, effects, c'⟩ k := by
  have hphase := hfits k call hk
  rw [ho] at hphase
  cases hp : call.phase with
  | sweeping left =>
      cases left with
      | nil =>
          obtain ⟨rfl, rfl⟩ := by simpa [Controller.proceed, hp] using hs
          exact ⟨fun s => .inl (by simp [answerCall]), by simp [answerCall],
            fun other hne => calls_setCallPhase_of_ne hne _, rfl⟩
      | cons s rest =>
          rw [Controller.proceed, hp] at hs
          dsimp only at hs
          rw [moveFromStarting_eq _ _ _ (by rfl)] at hs
          obtain ⟨rfl, rfl⟩ := by simpa using hs
          refine ⟨fun s' => ?_, by simp, fun other hne => ?_, rfl⟩
          · rw [slot_setCallPhase]
            by_cases he : s' = s
            · subst he
              rw [slot_setSlot_self, Slot.leaveStarting]
              split
              next hst => exact .inr ⟨hst, by simp [Slot.moved, hst]⟩
              next => exact .inl rfl
            · exact .inl (slot_setSlot_of_ne _ he _)
          · rw [calls_setCallPhase_of_ne hne]
            rfl
  | answered => simp [Controller.proceed, hp] at hs
  | _ => simp [hp, Operation.Allows] at hphase

/-! ## What a cancel has gone past -/

end Controller

/-- What is still starting is among the services that the cancel has before it. -/
def CallPhase.Covers (starting : Fin n → Prop) : CallPhase n → Prop
  | .sweeping left => ∀ s, starting s → s ∈ left
  | .answered .. => ∀ s, ¬ starting s
  | _ => False

theorem CallPhase.Covers.mono {starting starting' : Fin n → Prop} {phase : CallPhase n}
    (h : phase.Covers starting) (hs : ∀ s, starting' s → starting s) : phase.Covers starting' := by
  cases phase with
  | sweeping left => exact fun s hst => h s (hs s hst)
  | answered => exact fun s hst => h s (hs s hst)
  | _ => exact h

namespace Controller

variable {c c' d : Controller t} {now : Nat} {id : JobId} {action : Action} {effects : List Effect}
  {operation : Operation} {s : Fin t.size} {k : CallId} {call : Call t.size}

/-- The service is starting. -/
def IsStarting (c : Controller t) (s : Fin t.size) : Prop := (c.slot s).state = .starting

/-- The call is a cancel, and what it has gone past is not starting any more. -/
def Covered (c : Controller t) (k : CallId) : Prop :=
  ∃ call, c.calls[k]? = some call ∧ call.operation = .cancel ∧ call.phase.Covers c.IsStarting

theorem covered_cancel (c : Controller t) : Covered c.cancel.1 c.calls.size :=
  ⟨_, calls_openCall_size, rfl, fun s _ => List.mem_finRange s⟩

theorem Covered.mono (h : Covered c k) (hcalls : d.calls[k]? = c.calls[k]?)
    (hs : ∀ s, d.IsStarting s → c.IsStarting s) : Covered d k := by
  obtain ⟨call, hk, ho, hcovers⟩ := h
  exact ⟨call, hcalls.trans hk, ho, hcovers.mono hs⟩

/-- No change of a call takes a service to starting, and the cancel moves on only past services that
are not starting any more. -/
theorem Covered.change (h : Covered c k) (change : CallChange now c operation d) : Covered d k := by
  have hstarting : ∀ s, d.IsStarting s → c.IsStarting s := by
    intro s hs
    rcases change.sets.state_cases s with he | ⟨-, he⟩
    · exact he.symm.trans hs
    · rw [IsStarting, he] at hs
      cases hs
  obtain ⟨call, hk, ho, hcovers⟩ := h
  have hlt := (Array.getElem?_eq_some_iff.1 hk).1
  have hmoved {e : Controller t} (he : e.calls = c.calls) {i : CallId} {old : Call t.size}
      (hi : c.calls[i]? = some old) {phase : CallPhase t.size}
      (hd : ∀ s, (e.setCallPhase i phase).IsStarting s → c.IsStarting s)
      (hp : ∀ starting, old.phase.Covers starting →
        (∀ s, starting s → (e.setCallPhase i phase).IsStarting s) → phase.Covers starting) :
      Covered (e.setCallPhase i phase) k := by
    by_cases hki : k = i
    · subst hki
      obtain rfl : call = old := Option.some.inj (hk.symm.trans hi)
      exact ⟨_, calls_setCallPhase_self (he ▸ hk) phase, ho,
        hp _ (hcovers.mono hd) fun _ hs => hs⟩
    · exact ⟨call, by rw [calls_setCallPhase_of_ne hki, he, hk], ho, hcovers.mono hd⟩
  have hopened {e : Controller t} (he : e.calls = c.calls) {jobs : List JobId}
      {phase : CallPhase t.size} (hd : ∀ s, (e.openCall operation jobs phase).1.IsStarting s →
        c.IsStarting s) : Covered (e.openCall operation jobs phase).1 k :=
    ⟨call, by rw [calls_openCall_of_lt (he ▸ hlt), he, hk], ho, hcovers.mono hd⟩
  cases change with
  | start | ask => exact hopened (by simp) hstarting
  | stop | stopNothing | cancel => exact hopened rfl hstarting
  | progress hc hp =>
      refine hmoved rfl hc hstarting fun starting h _ => ?_
      cases hp with
      | swept hp =>
          rw [hp] at h
          exact fun s hs => absurd (h s hs) (by simp)
      | joined hp | reported hp | read hp | refused hp | started hp | restarted hp | begun hp
      | followed hp | handedOn hp => rw [hp] at h; exact h.elim
  | restop hc hp =>
      refine hmoved (calls_spawn _) hc hstarting fun starting h _ => ?_
      rw [hp] at h
      exact h.elim
  | restart hc hp =>
      refine hmoved (by simp) hc hstarting fun starting h _ => ?_
      rw [hp] at h
      exact h.elim
  | @sweep i old s rest hc hp =>
      refine hmoved (calls_setSlot _ _) hc hstarting fun starting h hs s' hst => ?_
      rw [hp] at h
      refine (List.mem_cons.1 (h s' hst)).resolve_left ?_
      rintro rfl
      -- The service has just been taken out of the state of starting.
      have hnow := hs s' hst
      rw [IsStarting, slot_setCallPhase, slot_setSlot_self, Slot.state_leaveStarting] at hnow
      split at hnow
      next => cases hnow
      next hn => exact hn hnow

/-- **What the cancel has gone past does not start any more.** -/
theorem Covered.step (h : Covered c k) (hquelled : c.Quelled)
    (hs : c.step now action = some (c', effects)) : Covered c' k := by
  cases ha : action.job? with
  | none => exact (changesTo_of_step ha hs).1.induct (P := fun d => Covered d k) Covered.change h
  | some id =>
      refine h.mono ?_ fun s hst => ?_
      · obtain ⟨old, new, slot, aside, -, -, rfl⟩ := turnsTo_of_step ha hs
        rw [calls_after]
      · refine Classical.byContradiction fun hb => ?_
        obtain ⟨i, job, -, hj, -, -, hc, -⟩ := enters_of_step hs hb hst
        rw [hquelled.isCancelled hj] at hc
        cases hc

/-- Once the cancel has answered no service is starting. -/
theorem Covered.down (h : Covered c k) (ha : (c.answer? k).isSome) :
    (c.slot s).state ≠ .starting := by
  obtain ⟨call, hk, -, hcovers⟩ := h
  have hanswered : call.answer?.isSome := by simpa [answer?, hk] using ha
  cases hp : call.phase with
  | answered answer time =>
      rw [hp] at hcovers
      exact hcovers s
  | _ => simp [Call.answer?, hp] at hanswered

/-- **Where all runs are cancelled and no service is starting**, no service gets to starting or ready,
and none fails. -/
theorem Quelled.still (hquelled : c.Quelled) (hdown : ∀ s, (c.slot s).state ≠ .starting)
    (hs : c.step now action = some (c', effects)) (s : Fin t.size) :
    (c'.slot s).state = (c.slot s).state ∨ (c'.slot s).state = .stopping ∨
      (c'.slot s).state = .stopped := by
  cases ha : action.job? with
  | none =>
      refine .inl ?_
      have keep : (c'.slot s).state = (c.slot s).state ∧ (c'.slot s).state ≠ .starting := by
        refine (changesTo_of_step ha hs).1.induct
          (P := fun d => (d.slot s).state = (c.slot s).state ∧ (d.slot s).state ≠ .starting) ?_
          ⟨rfl, hdown s⟩
        intro d operation e hd change
        rcases change.sets.state_cases s with he | ⟨he, -⟩
        · exact ⟨he.trans hd.1, he ▸ hd.2⟩
        · exact absurd he hd.2
      exact keep.1
  | some id =>
      rcases (turnsTo_of_step ha hs).state_cases s with
        he | ⟨old, new, slot, aside, hj, turn, rfl, hslot, hn⟩
      · exact .inl he
      · rw [← hslot]
        cases turn with
        | start turn =>
            rcases turn.state_cases with he | ⟨-, -, hc, -⟩ | ⟨-, -, hst, -⟩
            · exact absurd he hn
            · rw [hquelled.isCancelled hj] at hc
              cases hc
            · exact absurd hst (hdown _)
        | stop turn =>
            rcases turn.state_cases with he | ⟨-, -, he⟩ | ⟨-, -, he⟩ | ⟨-, -, he⟩
            · exact absurd he hn
            · exact .inr (.inr he)
            · exact .inr (.inl he)
            · exact .inr (.inr he)
        | launch turn => exact absurd rfl hn

/-! ## Who waited for a dependency -/

/-- A start job of the service has found the error, and not recorded it yet. -/
def HasFound (c : Controller t) (s : Fin t.size) (error : Error) : Prop :=
  ∃ (id : Nat) (job : StartJob t.size), c.jobs[id]? = some (.start job) ∧ job.service = s ∧
    job.phase = .refusing error

/-- The start was cancelled, or refused for what was found before. -/
def Refused (c : Controller t) (s : Fin t.size) (error : Error) : Prop :=
  error = .cancelled (t.id s) ∨ c.HasFound s error

/-- What becomes of a service, which could be started when all runs were cancelled, and of a start job
of it that waited for a dependency then. -/
structure Spared (start c : Controller t) (id : Nat) (s : Fin t.size) : Prop where
  startable : (start.slot s).state.isStartable
  state : (c.slot s).state = (start.slot s).state ∨ (c.slot s).state = .stopped
  found : ∀ error, c.HasFound s error → start.Refused s error
  job : ∃ job : StartJob t.size, c.jobs[id]? = some (.start job) ∧ job.service = s ∧
    ((∃ left, job.phase = .awaiting left) ∨ job.phase = .entering ∨
      job.phase = .refusing (.cancelled (t.id s)) ∨
      (job.phase = .finished ∧ ∃ error, (c.slot s).lastError = some error ∧ start.Refused s error))

theorem Spared.isStartable {start : Controller t} {i : Nat} (h : Spared start c i s) :
    (c.slot s).state.isStartable := by
  rcases h.state with he | he <;> rw [he]
  · exact h.startable
  · rfl

theorem spared_of_awaiting {job : StartJob t.size} {left : List (Fin t.size)} {i : Nat}
    (hj : c.jobs[i]? = some (.start job)) (hp : job.phase = .awaiting left)
    (hs : (c.slot job.service).state.isStartable) : Spared c c i job.service :=
  ⟨hs, .inl rfl, fun _ h => .inr h, job, hj, rfl, .inl ⟨left, hp⟩⟩

section

variable {start : Controller t} {i : Nat}

/-- A change of a call spares the service, which is not starting. -/
theorem Spared.change (h : Spared start c i s) (change : CallChange now c operation d) :
    Spared start d i s := by
  have hsame : (d.slot s).state = (c.slot s).state ∧
      (d.slot s).lastError = (c.slot s).lastError := by
    refine (change.sets.error_cases s).resolve_right ?_
    rintro ⟨he, -⟩
    have := h.isStartable
    rw [he] at this
    cases this
  refine ⟨h.startable, by rw [hsame.1]; exact h.state, ?_, ?_⟩
  · rintro error ⟨id, job, hj, hs, hp⟩
    rcases change.sets.start_cases hj with hj | ⟨-, hn, -⟩
    · exact h.found error ⟨id, job, hj, hs, hp⟩
    · rw [hn] at hp
      cases hp
  · obtain ⟨job, hj, hs, hjob⟩ := h.job
    refine ⟨job, change.sets.jobs_kept hj, hs, ?_⟩
    rw [hsame.2]
    exact hjob

/-- A start job that is cancelled finds nothing but that. -/
theorem found_of_turn {job job' : StartJob t.size} {slot : Slot} {aside : Aside}
    (turn : StartTurn c now id job action job' slot aside effects) (hc : c.isCancelled job.run)
    {error : Error} (hp : job'.phase = .refusing error) : error = .cancelled (t.id job.service) := by
  cases turn with
  | giveUp => exact (StartPhase.refusing.inj hp).symm
  | arrive | accept =>
      rw [StartJob.phase_await] at hp
      split at hp <;> cases hp
  | decline _ hn =>
      rw [hc] at hn
      cases hn
  | @retry handle attempt probe =>
      rcases c.retryPhase_cases now job.service handle attempt with ⟨-, _, he⟩ | ⟨-, he⟩ <;>
        simp [StartJob.goTo, he] at hp
  | _ => cases hp

/-- A start job that is cancelled leaves a service that can be started alone, or records that it was
cancelled, or what it has found. -/
theorem error_of_turn {job job' : StartJob t.size} {slot : Slot} {aside : Aside}
    (turn : StartTurn c now id job action job' slot aside effects) (hc : c.isCancelled job.run)
    (hs : (c.slot job.service).state.isStartable) :
    slot.state = (c.slot job.service).state ∧ (slot.lastError = (c.slot job.service).lastError ∨
      ∃ error, slot.lastError = some error ∧
        (job.phase = .refusing error ∨ error = .cancelled (t.id job.service))) := by
  have hstate : slot.state = (c.slot job.service).state := by
    rcases turn.state_cases with he | ⟨-, -, hn, -⟩ | ⟨-, -, hst, -⟩
    · exact he
    · rw [hc] at hn
      cases hn
    · rw [hst] at hs
      cases hs
  refine ⟨hstate, ?_⟩
  rcases turn.error_cases with ⟨-, he⟩ | ⟨-, hst, -⟩ | ⟨-, -, he⟩ | ⟨hst, -⟩
  · exact .inl he
  · rw [← hstate, hst] at hs
    cases hs
  · exact .inr he
  · rw [hst] at hs
    cases hs

/-- **A start job that waited for a dependency** when all runs were cancelled goes on to its end, where
its service was cancelled last. -/
theorem job_of_turn {job job' : StartJob t.size} {slot : Slot} {aside : Aside}
    (turn : StartTurn c now id job action job' slot aside effects) (hc : c.isCancelled job.run)
    (hs : (c.slot job.service).state.isStartable)
    (hp : (∃ left, job.phase = .awaiting left) ∨ job.phase = .entering ∨
      job.phase = .refusing (.cancelled (t.id job.service))) :
    job'.phase = .entering ∨ job'.phase = .refusing (.cancelled (t.id job.service)) ∨
      (job'.phase = .finished ∧ slot.lastError = some (.cancelled (t.id job.service))) := by
  cases turn with
  | pass => exact .inl rfl
  | giveUp => exact .inr (.inl rfl)
  | accept _ hn | decline _ hn | enter _ hn | enterBare _ hn =>
      rw [hc] at hn
      cases hn
  | @refuse error hphase =>
      refine .inr (.inr ⟨rfl, ?_⟩)
      have he : error = .cancelled (t.id job.service) := by
        rw [hphase] at hp
        simpa using hp
      rw [StartJob.lastError_unclaim, Slot.recordIfStartable, if_pos hs, he]
      rfl
  | forgo =>
      refine .inr (.inr ⟨rfl, ?_⟩)
      rw [StartJob.lastError_unclaim, Slot.recordIfStartable, if_pos hs]
      rfl
  | follow hphase =>
      rcases hphase with hphase | ⟨-, hn⟩
      · rw [hphase] at hp
        simp at hp
      · rw [hc] at hn
        cases hn
  | heed hphase =>
      rcases hphase with ⟨_, _, _, hphase⟩ | ⟨_, _, hphase⟩ <;> simp [hphase] at hp
  | arrive hphase | cease hphase | abandon hphase | collect hphase | lose hphase | record hphase
  | discard hphase | ask hphase | conclude hphase | heedProbe hphase | wake hphase | overrun hphase
  | bind hphase | bindLast hphase | miss hphase | ready hphase | retry hphase | discarded hphase
  | kill hphase => simp [hphase] at hp

/-- What a turn leaves of the state and the error of a service that can be started, where all runs are
cancelled. -/
theorem Spared.slot_turn (h : Spared start c i s) (hquelled : c.Quelled) {old new : Job t.size}
    {slot : Slot} {aside : Aside} (hj : c.jobs[id]? = some old)
    (turn : Turn c now id old action new slot aside effects) :
    (((c.after id new old.service slot aside).slot s).state = (start.slot s).state ∨
      ((c.after id new old.service slot aside).slot s).state = .stopped) ∧
    (((c.after id new old.service slot aside).slot s).lastError = (c.slot s).lastError ∨
      ∃ error, ((c.after id new old.service slot aside).slot s).lastError = some error ∧
        start.Refused s error) := by
  by_cases hs : s = old.service
  · subst hs
    rw [slot_after_self]
    cases turn with
    | start turn =>
        obtain ⟨hstate, herror⟩ := error_of_turn turn (hquelled.isCancelled hj) h.isStartable
        refine ⟨hstate ▸ h.state, herror.imp_right ?_⟩
        rintro ⟨error, he, hp | rfl⟩
        · exact ⟨error, he, h.found error ⟨id, _, hj, rfl, hp⟩⟩
        · exact ⟨_, he, .inl rfl⟩
    | stop turn =>
        refine ⟨?_, .inl turn.lastError_eq⟩
        have hstartable := h.isStartable
        rcases turn.state_cases with he | ⟨-, -, he⟩ | ⟨-, hst | hst, -⟩ | ⟨-, hst, -⟩
        · exact he ▸ h.state
        · exact .inr he
        all_goals
          rw [Job.service_stop, hst] at hstartable
          cases hstartable
    | launch turn => exact ⟨h.state, .inl rfl⟩
  · rw [slot_after_of_ne hs]
    exact ⟨h.state, .inl rfl⟩

theorem Spared.turn (h : Spared start c i s) (hquelled : c.Quelled)
    (ht : TurnsTo c now id action c' effects) : Spared start c' i s := by
  obtain ⟨old, new, slot, aside, hj, turn, rfl⟩ := ht
  have hid := lt_size_of_job hj
  obtain ⟨hstate, herror⟩ := h.slot_turn hquelled hj turn
  refine ⟨h.startable, hstate, ?_, ?_⟩
  · rintro error ⟨i', job, hi', rfl, hp⟩
    rcases start_after_cases hid hi' with ⟨rfl, rfl⟩ | ⟨-, hi'⟩
    · cases turn with
      | start turn =>
          rw [turn.same.1]
          exact .inl (found_of_turn turn (hquelled.isCancelled hj) hp)
    · exact h.found error ⟨i', job, hi', rfl, hp⟩
  · obtain ⟨job, hi, rfl, hjob⟩ := h.job
    by_cases hne : i = id
    · subst hne
      obtain rfl : old = .start job := Option.some.inj (hj.symm.trans hi)
      cases turn with
      | @start _ job' _ _ _ _ turn =>
          have hwaits : (∃ left, job.phase = .awaiting left) ∨ job.phase = .entering ∨
              job.phase = .refusing (.cancelled (t.id job.service)) := by
            rcases hjob with hp | hp | hp | ⟨hp, -⟩
            · exact .inl hp
            · exact .inr (.inl hp)
            · exact .inr (.inr hp)
            · exact absurd hp turn.phase_ne_finished
          refine ⟨job', jobs_after_self hid, turn.same.1, .inr ?_⟩
          rcases job_of_turn turn (hquelled.isCancelled hj) h.isStartable hwaits with hp | hp | ⟨hp, he⟩
          · exact .inl hp
          · exact .inr (.inl hp)
          · refine .inr (.inr ⟨hp, _, ?_, .inl rfl⟩)
            rw [Job.service_start, slot_after_self]
            exact he
    · refine ⟨job, start_after_of_ne hne hi, rfl, ?_⟩
      rcases hjob with hp | hp | hp | ⟨hp, error, he, hr⟩
      · exact .inl hp
      · exact .inr (.inl hp)
      · exact .inr (.inr (.inl hp))
      · refine .inr (.inr (.inr ⟨hp, ?_⟩))
        rcases herror with herror | herror
        · exact ⟨error, herror.trans he, hr⟩
        · exact herror

theorem Spared.step (h : Spared start c i s) (hquelled : c.Quelled)
    (hs : c.step now action = some (c', effects)) : Spared start c' i s :=
  step_induct (P := fun c => Spared start c i s) hs (fun _ turn => h.turn hquelled turn)
    Spared.change h

end

/-! ## Every run -/

/-- What a cancel that was called on one controller has come to on a later one. -/
structure CancelHolds (start : Controller t) (now : Nat) (later : List (Moment t))
    (c : Controller t) : Prop where
  /-- Where it is called it changes the runs only. -/
  called : Moment.Sweeps ⟨start, now, .invoke .cancel, [], start.cancel.1⟩ start.calls.size
  /-- Each of its steps takes services out of the state of starting, and does nothing else. -/
  swept : ∀ m ∈ later, m.action = .proceed start.calls.size → m.Sweeps start.calls.size
  /-- No service enters the state of starting any more. -/
  entered : ∀ m ∈ later, ∀ s, ¬ m.Enters s
  /-- Once it has answered, no service is starting. -/
  down : (c.answer? start.calls.size).isSome → ∀ s, (c.slot s).state ≠ .starting
  /-- Once it has answered, no service gets to starting or ready, and none fails. -/
  still : ∀ m ∈ later, (m.before.answer? start.calls.size).isSome → ∀ s,
    ∀ state ∈ [ServiceState.starting, .ready, .failed],
      (m.before.slot s).state ≠ state → (m.after.slot s).state ≠ state
  /-- A service that could be started, and a start of which waited for a dependency, can be started
  still. Once that start has come to its end the service was cancelled last, or what was recorded is
  that a dependency failed, which another start of it had found before the cancel. -/
  spared : ∀ (id : Nat) (job : StartJob t.size) (left : List (Fin t.size)),
    start.jobs[id]? = some (.start job) → job.phase = .awaiting left →
      (start.slot job.service).state.isStartable →
        ((c.slot job.service).state = (start.slot job.service).state ∨
          (c.slot job.service).state = .stopped) ∧
        (c.isFinished id → ∃ error, (c.slot job.service).lastError = some error ∧
          (error = .cancelled (t.id job.service) ∨
            (∃ d ∈ t.dependencies job.service,
              error = .dependencyFailed (t.id job.service) (t.id d)) ∧
              start.HasFound job.service error))

/-- Everything a cancel keeps up from one step to the next. -/
structure Cancelling (c : Controller t) (k : CallId) : Prop where
  ended : c.Over
  fits : c.Fits
  covered : c.Covered k

theorem Cancelling.step (h : Cancelling c k) (hs : c.step now action = some (c', effects))
    (hcalls : ¬ Moment.CallsAnyStart ⟨c, now, action, effects, c'⟩) : Cancelling c' k :=
  ⟨h.ended.step hs hcalls, h.fits.step hs, h.covered.step h.ended.quelled hs⟩

/-- What is found to keep a service from being started is that its run was cancelled, or that a
dependency failed. -/
theorem Consistent.refused (h : c.Consistent) {error : Error} (hr : c.Refused s error) :
    error = .cancelled (t.id s) ∨
      (∃ d ∈ t.dependencies s, error = .dependencyFailed (t.id s) (t.id d)) ∧
        c.HasFound s error := by
  rcases hr with rfl | ⟨id, job, hj, rfl, hp⟩
  · exact .inl rfl
  · have hdefers := h.carries hj
    rw [hp] at hdefers
    cases error with
    | cancelled id =>
        obtain rfl : id = _ := hdefers
        exact .inl rfl
    | dependencyFailed id dependency =>
        obtain ⟨rfl, d, hd, rfl⟩ := hdefers
        exact .inr ⟨⟨d, hd, rfl⟩, id, job, hj, rfl, hp⟩
    | _ => exact hdefers.elim

/-- A cancel keeps up what it does, as long as nobody calls for a start or a restart. -/
theorem Run.cancelling {config : Config} {past later : List (Moment t)}
    (run : Run (fresh t config) past c) (hrestarts : c.NoneToStart) (rest : Run c.cancel.1 later d)
    (hlater : ∀ m ∈ later, ¬ m.CallsAnyStart) : Cancelling d c.calls.size := by
  have hopened : c.RunsOpened := run.runsOpened
  have hfits : c.Fits := run.invariant (fits_fresh config) fun h hs => h.step hs
  have hchange : CallChange 0 c .cancel c.cancel.1 := .cancel
  induction rest with
  | refl => exact ⟨over_cancel hopened hrestarts, hfits.change hchange, covered_cancel c⟩
  | tail rest hs ih =>
      exact (ih fun m hm => hlater m (List.mem_cons_of_mem _ hm)).step hs
        (hlater _ List.mem_cons_self)

/-- **A cancel takes hold and stays**, if nobody calls for a start or a restart later and no restart
has its start before it. -/
theorem Run.cancel_holds {config : Config} {past later : List (Moment t)}
    (run : Run (fresh t config) past c) (hrestarts : c.NoneToStart) (rest : Run c.cancel.1 later d)
    (hlater : ∀ m ∈ later, ¬ m.CallsAnyStart) : CancelHolds c now later d := by
  -- At each later step the cancel was in force before.
  have hbefore {m : Moment t} (hm : m ∈ later) : Cancelling m.before c.calls.size ∧
      m.before.step m.now m.action = some (m.after, m.effects) := by
    obtain ⟨front, back, hpast⟩ := List.append_of_mem hm
    refine ⟨run.cancelling hrestarts (rest.split hpast).1 fun m' hm' => hlater m' ?_,
      rest.step_of_mem hm⟩
    rw [hpast]
    exact List.mem_append_right _ (List.mem_cons_of_mem _ hm')
  refine ⟨sweeps_cancel c now, ?_, ?_, ?_, ?_, ?_⟩
  · intro m hm ha
    obtain ⟨hcancelling, hs⟩ := hbefore hm
    obtain ⟨call, hk, ho, -⟩ := hcancelling.covered
    rw [ha] at hs
    obtain ⟨call', hk', hs⟩ := Option.bind_eq_some_iff.1 hs
    obtain rfl : call = call' := Option.some.inj (hk.symm.trans hk')
    have hsweeps := sweeps_proceed hcancelling.fits hk ho hs
    exact ⟨hsweeps.slots, hsweeps.jobs, hsweeps.calls, hsweeps.effects⟩
  · rintro m hm s ⟨hb, ha⟩
    obtain ⟨hcancelling, hs⟩ := hbefore hm
    obtain ⟨i, job, -, hj, -, -, hc, -⟩ := enters_of_step hs hb ha
    rw [hcancelling.ended.quelled.isCancelled hj] at hc
    cases hc
  · exact fun ha s => (run.cancelling hrestarts rest hlater).covered.down ha
  · intro m hm ha s state hstate hb hafter
    obtain ⟨hcancelling, hs⟩ := hbefore hm
    rcases hcancelling.ended.quelled.still (fun s => hcancelling.covered.down ha) hs s with
      he | he | he
    · exact hb (he ▸ hafter)
    all_goals
      rw [he] at hafter
      subst hafter
      simp at hstate
  · intro id job left hj hp hs
    have hchange : CallChange now c .cancel c.cancel.1 := .cancel
    have hstart : Spared c c.cancel.1 id job.service :=
      (spared_of_awaiting hj hp hs).change hchange
    have hspared : Spared c d id job.service := by
      clear hbefore
      induction rest with
      | refl => exact hstart
      | tail rest hs ih =>
          have hearlier := fun m hm => hlater m (List.mem_cons_of_mem _ hm)
          exact (ih hearlier).step (run.cancelling hrestarts rest hearlier).ended.quelled hs
    refine ⟨hspared.state, fun hf => ?_⟩
    obtain ⟨job', hj', -, hjob⟩ := hspared.job
    rw [isFinished_of_job hj'] at hf
    obtain hphase := Job.isFinished_start.1 hf
    rcases hjob with ⟨_, hp'⟩ | hp' | hp' | ⟨-, error, he, hr⟩
    · rw [hphase] at hp'
      cases hp'
    · rw [hphase] at hp'
      cases hp'
    · rw [hphase] at hp'
      cases hp'
    · exact ⟨error, he, run.consistent.refused hr⟩

end Controller

end Bringup.Lifecycle
