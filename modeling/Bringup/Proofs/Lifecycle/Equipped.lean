import Bringup.Proofs.Lifecycle.Remembered

/-!
# A service that is ready has its container

A start job that goes on to ask its container whether it is ready has recorded it. As long as no two
start jobs own the service at once, the container is still in the slot when the job finds it ready
(`Equipped.step`), and only a stop job takes it out again. So a service that is ready has a container
(`Run.equipped`).
-/

namespace Bringup.Lifecycle

variable {t : Topology}

/-- The phases of a start job that has recorded its container and may find it ready. -/
def StartPhase.Recorded {n : Nat} : StartPhase n → Prop
  | .pausing .. | .asking .. | .probing .. | .concluding .ready => True
  | _ => False

theorem StartPhase.Recorded.owns {n : Nat} {phase : StartPhase n} (h : phase.Recorded) :
    phase.Owns := by
  cases phase <;> trivial

section Turns

variable {c : Controller t} {now : Nat} {id : JobId} {action : Action} {slot : Slot} {aside : Aside}
  {effects : List Effect}

/-- A start job that has recorded its container has just done so, or had done so before. -/
theorem StartTurn.recorded_cases {job job' : StartJob t.size}
    (turn : StartTurn c now id job action job' slot aside effects) (h : job'.phase.Recorded) :
    job.phase.Recorded ∧ slot = c.slot job.service ∨ slot.handle.isSome := by
  cases turn with
  | record => exact .inr rfl
  | ask hp | ready hp | wake hp => exact .inl ⟨by rw [hp]; trivial, rfl⟩
  | retry hp => exact .inl ⟨by rw [hp]; trivial, rfl⟩
  | arrive | accept =>
      rw [StartJob.phase_await] at h
      split at h <;> exact h.elim
  | _ => exact h.elim

/-- A stop job that changes a slot takes its service out of use. -/
theorem StopTurn.slot_cases {job : StopJob t.size} {phase : StopPhase}
    (turn : StopTurn c now id job action phase slot effects) :
    slot = c.slot job.service ∨ slot.state ≠ .ready ∧ slot.state ≠ .starting := by
  cases turn with
  | skip | take | retire => exact .inr ⟨by simp [Slot.moved], by simp [Slot.moved]⟩
  | takeLeft _ hs => rcases hs with hs | hs <;> exact .inr ⟨by simp [hs], by simp [hs]⟩
  | _ => exact .inl rfl

end Turns

namespace Controller

variable {c c' d : Controller t} {now : Nat} {id : JobId} {action : Action} {effects : List Effect}
  {operation : Operation} {s : Fin t.size}

/-- A service that is ready has a container, and so has one that is starting and may be found ready. -/
structure Equipped (c : Controller t) (s : Fin t.size) : Prop where
  ready : (c.slot s).state = .ready → (c.slot s).handle.isSome
  recorded : ∀ {id : Nat} {job : StartJob t.size}, c.jobs[id]? = some (.start job) →
    job.service = s → job.phase.Recorded → (c.slot s).state = .starting →
      (c.slot s).handle.isSome

theorem equipped_fresh (config : Config) (s : Fin t.size) : Equipped (fresh t config) s where
  ready h := by simp [fresh, Controller.slot] at h
  recorded h := by simp [fresh] at h

theorem Equipped.start_turn {job job' : StartJob t.size} {slot : Slot} {aside : Aside}
    (h : Equipped c job.service) (hj : c.jobs[id]? = some (.start job))
    (turn : StartTurn c now id job action job' slot aside effects)
    (hsole : ¬ (c.after id (.start job') job.service slot aside).StartsOverlap job.service) :
    Equipped (c.after id (.start job') job.service slot aside) job.service := by
  have hid := lt_size_of_job hj
  have hkept (hh : (c.slot job.service).handle.isSome) : slot.handle.isSome := by
    rcases turn.records_cases with he | ⟨handle, -, -, -, he⟩ <;> rw [he]
    · exact hh
    · rfl
  constructor
  case ready =>
    intro hst
    rw [slot_after_self] at hst ⊢
    rcases turn.state_cases with hs | ⟨-, -, -, -, rfl⟩ | ⟨verdict, hp, hs, ht⟩
    · exact hkept (h.ready (hs ▸ hst))
    · cases hst
    · rw [ht] at hst
      cases verdict with
      | ready => exact hkept (h.recorded hj rfl (by rw [hp]; trivial) hs)
      | failed | cancelled => cases hst
  case recorded =>
    intro i k hi hks hr hst
    rw [slot_after_self] at hst ⊢
    rcases start_after_start_cases hid hi with ⟨-, rfl⟩ | ⟨hne, hold⟩
    · rcases turn.recorded_cases hr with ⟨hp, he⟩ | hh
      · rw [he] at hst ⊢
        exact h.recorded hj rfl hp hst
      · exact hh
    · rcases turn.state_cases with hs | ⟨-, hp, -, hidle, rfl⟩ | ⟨verdict, -, -, ht⟩
      · exact hkept (h.recorded hold hks hr (hs ▸ hst))
      · -- Two start jobs would own the service.
        have howns : job'.phase.Owns := by
          rcases turn.owns_cases with ⟨-, -, ho, -⟩ | ⟨-, ho, -⟩ | ⟨_, he, -⟩ | ⟨ho, -⟩ |
            ⟨-, -, -, he, -⟩
          · exact ho
          · exact ho
          · rw [hp] at he
            cases he
          · rw [hp] at ho
            exact ho.elim
          · rw [← he] at hidle
            cases hidle
        exact absurd ⟨i, id, k, job', hne, hi, jobs_after_self hid, hks, turn.same.1, hr.owns,
          howns⟩ hsole
      · rw [ht] at hst
        cases verdict <;> cases hst

theorem Equipped.turn (h : Equipped c s) (ht : TurnsTo c now id action c' effects)
    (hsole : ¬ c'.StartsOverlap s) : Equipped c' s := by
  obtain ⟨old, new, slot, aside, hj, turn, rfl⟩ := ht
  have hid := lt_size_of_job hj
  by_cases hs : s = old.service
  · subst hs
    cases turn with
    | start turn => exact h.start_turn hj turn hsole
    | stop turn =>
        constructor
        case ready =>
          intro hst
          rw [slot_after_self] at hst ⊢
          obtain rfl := turn.slot_cases.resolve_right fun hn => hn.1 hst
          exact h.ready hst
        case recorded =>
          intro i k hi hks hr hst
          rw [slot_after_self] at hst ⊢
          obtain rfl := turn.slot_cases.resolve_right fun hn => hn.2 hst
          exact h.recorded (start_of_after hid (by simp) hi) hks hr hst
    | launch turn =>
        refine ⟨fun hst => ?_, fun hi hks hr hst => ?_⟩ <;> rw [slot_after_self] at hst ⊢
        · exact h.ready hst
        · exact h.recorded (start_of_after hid (by simp) hi) hks hr hst
  · refine ⟨fun hst => ?_, fun hi hks hr hst => ?_⟩ <;> rw [slot_after_of_ne hs] at hst ⊢
    · exact h.ready hst
    · rcases start_after_cases hid hi with ⟨-, he⟩ | ⟨-, hi⟩
      · have hold := turn.service_eq
        rw [he] at hold
        exact absurd (hks.symm.trans hold) hs
      · exact h.recorded hi hks hr hst

theorem Equipped.change (h : Equipped c s) (change : CallChange now c operation d) :
    Equipped d s := by
  have hstate {state : ServiceState} (hst : (d.slot s).state = state) (hne : state ≠ .stopping) :
      (c.slot s).state = state :=
    ((change.sets.state_cases s).resolve_right fun hs => hne (hst.symm.trans hs.2)) ▸ hst
  refine ⟨fun hst => ?_, fun hi hks hr hst => ?_⟩ <;> rw [change.sets.handle_eq]
  · exact h.ready (hstate hst (by simp))
  · rcases change.sets.start_cases hi with hi | ⟨-, hp, -⟩
    · exact h.recorded hi hks hr (hstate hst (by simp))
    · rw [hp] at hr
      exact hr.elim

theorem Equipped.step (h : Equipped c s) (hs : c.step now action = some (c', effects))
    (hsole : ¬ c'.StartsOverlap s) : Equipped c' s :=
  step_induct hs (fun _ turn => h.turn turn hsole) Equipped.change h

/-- **A service that is ready has a container**, as long as no two start jobs own it at once. -/
theorem Run.equipped {config : Config} {past : List (Moment t)} (run : Run (fresh t config) past c)
    (hsole : ∀ p ∈ instants c past, ¬ p.StartsOverlap s) : c.Equipped s := by
  induction run with
  | refl => exact equipped_fresh config s
  | tail run hs ih =>
      have hbefore := ih fun p hp => hsole p (List.mem_cons_of_mem _ hp)
      exact hbefore.step hs (hsole _ List.mem_cons_self)

end Controller

end Bringup.Lifecycle
