import Bringup.Proofs.Lifecycle.Fulfilled

/-!
# What is asked outside

Seen from outside, a start is a sequence of questions. A job that waits for an answer is moved by
nothing else (`Foretold.waits_kept`), and every question comes from a job that did not wait for one
(`Foretold.asks`). How often a container was asked whether it is ready is told by the phase of the
job that owns its service (`StartPhase.asked?`).
-/

namespace Bringup.Lifecycle

variable {t : Topology}

namespace Job

variable {n : Nat}

/-- The job waits for the store. -/
def AtStore : Job n → Prop
  | .start job => ∃ volume rest, job.phase = .attaching (volume :: rest)
  | _ => False

/-- The job waits for the container engine. -/
def AtEngine : Job n → Prop
  | .start job => ∃ handle attempt, job.phase = .probing handle attempt
  | .launch l => l.phase = .running
  | .stop _ => False

/-- The job waits for an answer from outside. -/
def Waits (job : Job n) : Prop := job.AtStore ∨ job.AtEngine

/-- Nobody waits for both. -/
theorem AtStore.not_atEngine {job : Job n} (h : job.AtStore) : ¬ job.AtEngine := by
  cases job with
  | start job =>
      rintro ⟨_, _, he⟩
      obtain ⟨_, _, hp⟩ := h
      rw [hp] at he
      cases he
  | stop | launch => exact h.elim

end Job

/-- How often a start job that owns its service has asked whether the container is ready, as long as
it may ask again. -/
def StartPhase.asked? {n : Nat} : StartPhase n → Option Nat
  | .attaching _ | .launching _ | .recording _ => some 0
  | .pausing _ attempt _ | .asking _ attempt => some (attempt.toNat - 1)
  | .probing _ attempt => some attempt.toNat
  | _ => none

theorem StartPhase.owns_of_asked? {n k : Nat} {phase : StartPhase n} (h : phase.asked? = some k) :
    phase.Owns := by
  cases phase <;> trivial

namespace Controller

variable {p : Prospect t} {c c' : Controller t} {now : Nat} {id : JobId} {action : Action}
  {slot : Slot} {aside : Aside} {effects : List Effect}

/-! ## Waiting -/

/-- A job that waits takes no turn but to take an answer. -/
theorem Foretold.waits_turn (h : Foretold p c) {old new : Job t.size}
    (turn : Turn c now id old action new slot aside effects) (hw : old.Waits) :
    ∃ reply, action = .answer id reply := by
  cases turn with
  | @start job _ _ _ _ _ turn =>
      -- Only a job that binds volumes or probes waits, and most turns begin at another phase.
      have hphase {phase : StartPhase t.size} (hp : job.phase = phase)
          (ha : ∀ volume rest, phase ≠ .attaching (volume :: rest))
          (hb : ∀ handle attempt, phase ≠ .probing handle attempt) : False := by
        rcases hw with ⟨_, _, he⟩ | ⟨_, _, he⟩
        · exact ha _ _ (hp.symm.trans he)
        · exact hb _ _ (hp.symm.trans he)
      cases turn with
      | bind | bindLast | miss | ready | retry | discarded | kill => exact ⟨_, rfl⟩
      | heed hp hc | heedProbe hp hc | giveUp hp hc | forgo hp hc | abandon hp hc =>
          rw [h.isCancelled] at hc
          cases hc
      | follow hp =>
          rcases hp with hp | ⟨hp, -⟩ <;> exact (hphase hp (by simp) (by simp)).elim
      | arrive hp | cease hp | pass hp | accept hp | decline hp | refuse hp | enter hp | enterBare hp
      | collect hp | lose hp | record hp | discard hp | ask hp | conclude hp | wake hp | overrun hp =>
          exact (hphase hp (by simp) (by simp)).elim
  | stop => rcases hw with he | he <;> exact he.elim
  | launch turn =>
      have hw : _ = LaunchPhase.running := hw.resolve_left fun he => he
      cases turn with
      | «return» | halted | kill => exact ⟨_, rfl⟩
      | call hp | halt hp | drop hp | overrun hp =>
          rw [hp] at hw
          cases hw

/-- **Who waits is moved by an answer only.** -/
theorem Foretold.waits_kept (h : Foretold p c) (hs : c.step now action = some (c', effects))
    {i : Nat} {job : Job t.size} (hj : c.jobs[i]? = some job) (hw : job.Waits)
    (ha : ∀ reply, action ≠ .answer i reply) : c'.jobs[i]? = some job := by
  cases hid : action.job? with
  | none =>
      exact (changesTo_of_step hid hs).1.induct (fun hd change => change.sets.jobs_kept hd) hj
  | some id =>
      obtain ⟨old, new, slot, aside, hold, turn, rfl⟩ := turnsTo_of_step hid hs
      have hne : i ≠ id := by
        rintro rfl
        obtain rfl := Option.some.inj (hold.symm.trans hj)
        obtain ⟨reply, he⟩ := h.waits_turn turn hw
        exact ha reply he
      cases job with
      | start job => exact start_after_of_ne hne hj
      | stop => rcases hw with he | he <;> exact he.elim
      | launch l =>
          have hw : l.phase = .running := hw.resolve_left fun he => he
          have hlt := lt_size_of_job hj
          rw [jobs_after_of_ne hne hlt ?_ ?_, hj]
          · -- Only a launch that has returned is taken.
            rintro rfl
            cases turn with
            | start turn =>
                rcases turn.launch_cases with
                  ⟨he, -⟩ | ⟨he, -⟩ | ⟨_, l', _, he, hl', hr, -⟩ | ⟨_, he, -⟩ <;> cases he
                rw [hj, Option.some.injEq, Job.launch.injEq] at hl'
                rw [← hl', hw] at hr
                cases hr
          · -- No start is cancelled, so no launch is given up.
            rintro rfl
            cases turn with
            | start turn =>
                rcases turn.launch_cases with
                  ⟨he, -⟩ | ⟨he, -⟩ | ⟨_, _, _, he, -⟩ | ⟨_, he, -, -, hp, -⟩ <;> cases he
                have hb := h.backs hold
                rw [hp] at hb
                exact hb

/-! ## Asking -/

/-- What is asked in a step, on behalf of a job that waits for the answer afterwards. -/
inductive Asks (c c' : Controller t) (id : Nat) : Request → Prop where
  | attach {job : StartJob t.size} {s : Fin t.size} {volume : Volume} {rest : List Volume}
    (hj : c'.jobs[id]? = some (.start job)) (hs : job.service = s)
    (hp : job.phase = .attaching (volume :: rest)) :
    Asks c c' id (.volume (.attach volume.id (t.id s)))
  | probe {job : StartJob t.size} {handle : Container.Handle} {attempt : UInt32}
    (hj : c.jobs[id]? = some (.start job)) (hp : job.phase = .asking handle attempt)
    (hj' : c'.jobs[id]? = some (.start (job.goTo (.probing handle attempt)))) :
    Asks c c' id (.container (.probe handle))
  | start {l : Launch t.size} {s : Fin t.size} (hl : c'.jobs[id]? = some (.launch l))
    (hs : l.service = s) (hp : l.phase = .running) :
    Asks c c' id (.container (.start (t.service s) (t.volumesOf s)))

theorem Foretold.asks_turn (h : Foretold p c) {old new : Job t.size}
    (hj : c.jobs[id]? = some old) (turn : Turn c now id old action new slot aside effects) :
    effects = [] ∨ ∃ request, effects = [.asks id request] ∧
      Asks c (c.after id new old.service slot aside) id request := by
  have hid := lt_size_of_job hj
  have hb {job : StartJob t.size} {handle : Container.Handle} {halt : Halt} (he : old = .start job)
      (hp : job.phase = .discarding handle halt) : False := by
    have hb := h.backs (he ▸ hj)
    rw [hp] at hb
    exact hb
  cases turn with
  | start turn =>
      cases turn with
      | enter hp hc hs hv => exact .inr ⟨_, rfl, .attach (jobs_after_self hid) rfl rfl⟩
      | bind hp => exact .inr ⟨_, rfl, .attach (jobs_after_self hid) rfl rfl⟩
      | ask hp => exact .inr ⟨_, rfl, .probe hj hp (jobs_after_self hid)⟩
      | discard hp hs => exact absurd (h.owner hj (by rw [hp]; trivial)) hs
      | heedProbe hp hc =>
          rw [h.isCancelled] at hc
          cases hc
      | overrun hp | kill hp => exact (hb rfl hp).elim
      | _ => exact .inl rfl
  | stop => exact absurd hj (h.stop _ _)
  | launch turn =>
      have hl := h.launches hj
      cases turn with
      | call hp => exact .inr ⟨_, rfl, .start (jobs_after_self hid) rfl rfl⟩
      | «return» | drop | halted => exact .inl rfl
      | halt hp ho =>
          rw [hl.1] at ho
          cases ho
      | overrun hp | kill hp =>
          have := hl.2
          rw [Prospect.Launches, hp] at this
          exact this.elim

/-- **What a step asks**: nothing, or one question, for a job that waited for nothing but the answer
that it took in this step. -/
theorem Foretold.asks (h : Foretold p c) (hs : c.step now action = some (c', effects)) :
    effects = [] ∨ ∃ (i : Nat) (request : Request), effects = [.asks i request] ∧
      Asks c c' i request ∧ ∀ job, c.jobs[i]? = some job → job.Waits →
        ∃ reply, action = .answer i reply := by
  cases hid : action.job? with
  | none => exact .inl (changesTo_of_step hid hs).2
  | some id =>
      obtain ⟨old, new, slot, aside, hj, turn, rfl⟩ := turnsTo_of_step hid hs
      rcases h.asks_turn hj turn with he | ⟨request, he, hasks⟩
      · exact .inl he
      · refine .inr ⟨id, request, he, hasks, ?_⟩
        intro job hjob hw
        obtain rfl := Option.some.inj (hj.symm.trans hjob)
        exact h.waits_turn turn hw

/-! ## Counting the questions -/

/-- A service that is pending has been so all along. -/
theorem Foretold.pending_before (h : Foretold p c) (ht : t.Built) (hf : c.Fits)
    (hfair : action.Fair p c) (hs : c.step now action = some (c', effects)) {s : Fin t.size}
    (hp : (c'.slot s).state = .pending) : (c.slot s).state = .pending := by
  cases hid : action.job? with
  | none =>
      rcases h.called ht hf hid hfair hs with ⟨order, ho, rfl⟩ | ⟨id, call, phase, -, -, rfl⟩
      · have he : ((c.arm.spawnStarts order).slot s).state = (c.slot s).state := by
          rw [slot_spawnStarts, slot_arm]
        exact he.symm.trans hp
      · rwa [slot_setCallPhase] at hp
  | some id =>
      obtain ⟨old, new, slot, aside, hj, turn, rfl⟩ := turnsTo_of_step hid hs
      by_cases he : s = old.service
      · subst he
        rw [slot_after_self] at hp
        cases turn with
        | start turn => exact h.pending_turn hj turn hp
        | stop => exact absurd hj (h.stop _ _)
        | launch => exact hp
      · rwa [slot_after_of_ne he] at hp

/-- In a turn a start job keeps count, begins to count, or asks. -/
theorem Foretold.asked_turn (h : Foretold p c) {job job' : StartJob t.size}
    (turn : StartTurn c now id job action job' slot aside effects) {k : Nat}
    (ha : job'.phase.asked? = some k) :
    job.phase.asked? = some k ∨ (k = 0 ∧ (c.slot job.service).state = .pending) ∨
    ∃ handle attempt, job.phase = .asking handle attempt ∧ k = attempt.toNat ∧
      effects = [.asks id (.container (.probe handle))] := by
  have hkept {phase phase' : StartPhase t.size} (hp : job.phase = phase)
      (hp' : job'.phase = phase') (he : phase'.asked? = phase.asked?) :
      job.phase.asked? = some k := by rw [hp, ← he, ← hp', ha]
  cases turn with
  | enter hp hc hs | enterBare hp hc hs =>
      exact .inr (.inl ⟨(Option.some.inj ha).symm, (h.slot job.service).pending hs⟩)
  | @ask handle attempt hp =>
      exact .inr (.inr ⟨handle, attempt, hp, (Option.some.inj ha).symm, rfl⟩)
  | collect hp | record hp | wake hp | bind hp | bindLast hp => exact .inl (hkept hp rfl rfl)
  | @retry handle attempt probe hp =>
      rcases c.retryPhase_cases now job.service handle attempt with
        ⟨hlt, deadline, he⟩ | ⟨-, he⟩ <;> simp only [StartJob.goTo, he] at ha
      · -- The next attempt has been counted, but nothing was asked for it yet.
        refine .inl ?_
        rw [← ha, hp, StartPhase.asked?, StartPhase.asked?, Prospect.toNat_succ hlt,
          Nat.add_sub_cancel]
      · cases ha
  | arrive | accept =>
      rw [StartJob.phase_await] at ha
      split at ha <;> cases ha
  | _ => cases ha

/-- In a step a start job keeps count, begins to count, or asks. -/
theorem Foretold.asked (h : Foretold p c) (hs : c.step now action = some (c', effects)) {i k : Nat}
    {job' : StartJob t.size} (hi : c'.jobs[i]? = some (.start job'))
    (ha : job'.phase.asked? = some k) :
    (k = 0 ∧ (c.slot job'.service).state = .pending) ∨
    ∃ job, c.jobs[i]? = some (.start job) ∧ job.service = job'.service ∧
      (job.phase.asked? = some k ∨ ∃ handle attempt, job.phase = .asking handle attempt ∧
        k = attempt.toNat ∧ effects = [.asks i (.container (.probe handle))]) := by
  cases hid : action.job? with
  | none =>
      refine .inr ⟨job', ?_, rfl, .inl ha⟩
      refine (changesTo_of_step hid hs).1.induct
        (P := fun d => d.jobs[i]? = some (.start job') → c.jobs[i]? = some (.start job'))
        (fun hd change hi => ?_) (fun hi => hi) hi
      rcases change.sets.start_cases hi with hi | ⟨-, hp, -⟩
      · exact hd hi
      · rw [hp] at ha
        cases ha
  | some id =>
      obtain ⟨old, new, slot, aside, hj, turn, rfl⟩ := turnsTo_of_step hid hs
      rcases start_after_cases (lt_size_of_job hj) hi with ⟨rfl, rfl⟩ | ⟨-, hi⟩
      · cases turn with
        | start turn =>
            rw [turn.same.1]
            rcases h.asked_turn turn ha with he | he | he
            · exact .inr ⟨_, hj, rfl, .inl he⟩
            · exact .inl he
            · exact .inr ⟨_, hj, rfl, .inr he⟩
      · exact .inr ⟨job', hi, rfl, .inl ha⟩

end Controller

end Bringup.Lifecycle
