import Bringup.Proofs.Lifecycle.StopWins
import Bringup.Proofs.Lifecycle.TakingDown

/-!
# Containers are remembered

A container that was recorded stays in the slot of its service until a stop job takes it out to halt
it, and a service that can be started holds none. Two things could break this. A stop job that is
still at work when its service is started again moves the service to stopped although a new container
is in the slot; and of two start jobs that own the service at once, one could overwrite what the
other has recorded. Where neither happens (`StartsUnderStop`, `StartsOverlap`), `Vacant` and
`Recordable` are kept by every step, and so every container in a slot is asked to stop by the first
stop job that takes its service, at the latest by that of the next call that stops every service
(`Run.remembered`).

Where a service is started under a stop that is still at work, its container can be forgotten
(`container_forgotten`).
-/

namespace Bringup.Lifecycle

open Container (Handle)

variable {t : Topology}

namespace Controller

/-- The service is starting while a stop job that has taken it is still at work. -/
def StartsUnderStop (c : Controller t) (s : Fin t.size) : Prop :=
  (c.slot s).state = .starting ∧ ∃ (id : Nat) (job : StopJob t.size),
    c.jobs[id]? = some (.stop job) ∧ job.service = s ∧ job.phase.Active

/-- Two start jobs own the service. -/
def StartsOverlap (c : Controller t) (s : Fin t.size) : Prop :=
  ∃ (i j : Nat) (job job' : StartJob t.size), i ≠ j ∧ c.jobs[i]? = some (.start job) ∧
    c.jobs[j]? = some (.start job') ∧ job.service = s ∧ job'.service = s ∧ job.phase.Owns ∧
    job'.phase.Owns

end Controller

theorem StopJob.Fresh.not_active {n : Nat} {job : StopJob n} (hf : job.Fresh) :
    ¬ job.phase.Active := by
  rcases hf with hp | ⟨jobs, hp⟩ <;> rw [hp] <;> exact False.elim

section Turns

variable {c : Controller t} {now : Nat} {id : JobId} {action : Action} {slot : Slot} {aside : Aside}
  {effects : List Effect}

/-- **A stop job at work** has just taken its service and its container, or it was at work before and
leaves the slot as it is. -/
theorem StopTurn.at_work {job : StopJob t.size} {phase : StopPhase}
    (turn : StopTurn c now id job action phase slot effects) (ha : phase.Active) :
    (job.phase.Active ∧ slot = c.slot job.service) ∨
    (job.phase = .taking ∧ (c.slot job.service).state = .pending ∧ slot.state = .stopped ∧
      slot.handle = (c.slot job.service).handle) ∨
    (job.phase = .taking ∧ (slot.state = .stopping ∨ slot.state = .failed) ∧ slot.handle = none) := by
  cases turn with
  | skip hp hs => exact .inr (.inl ⟨hp, hs, rfl, rfl⟩)
  | take hp hs => exact .inr (.inr ⟨hp, .inl rfl, rfl⟩)
  | takeLeft hp hs => exact .inr (.inr ⟨hp, hs, rfl⟩)
  | overrun hp | halted hp | kill hp | unbind hp => exact .inl ⟨by rw [hp]; trivial, rfl⟩
  | go | pass | idle | retire | leave => cases ha

/-- What a stop job does with a container that is in the slot of its service: nothing, or it takes it
and asks for its stop. -/
theorem StopTurn.keeps_or_takes {job : StopJob t.size} {phase : StopPhase}
    (turn : StopTurn c now id job action phase slot effects) {handle : Handle}
    (hh : (c.slot job.service).handle = some handle) :
    slot.handle = some handle ∨ (slot.handle = none ∧ effects = [c.askStop id handle]) := by
  cases turn with
  | take | takeLeft => exact .inr ⟨rfl, by rw [hh]; rfl⟩
  | _ => exact .inl hh

end Turns

namespace Controller

/-! ## Whether stops and starts overlap -/

instance {n : Nat} (phase : StartPhase n) : Decidable phase.Owns :=
  match phase with
  | .attaching _ | .launching _ | .recording _ | .pausing .. | .asking .. | .probing ..
  | .concluding _ => .isTrue trivial
  | .arriving | .following | .awaiting _ | .refusing _ | .entering | .discarding .. | .finished =>
    .isFalse id

end Controller

/-- Counts a start job that owns the service. -/
def Job.owning {n : Nat} (s : Fin n) : Job n → Nat
  | .start job => if job.service = s ∧ job.phase.Owns then 1 else 0
  | _ => 0

namespace Controller

variable {c c' d : Controller t} {now : Nat} {id : JobId} {action : Action} {effects : List Effect}
  {operation : Operation} {s : Fin t.size}

theorem not_startsOverlap (h : c.total (Job.owning s) ≤ 1) : ¬ c.StartsOverlap s := by
  rintro ⟨i, j, job, job', hne, hi, hj, hs, hs', ho, ho'⟩
  have := add_le_total (Job.owning s) hne hi hj
  simp only [Job.owning, hs, hs', ho, ho', and_self, if_true] at this
  omega

theorem not_stopsOverlap_of_total (h : c.total (Job.atWork s) ≤ 1) : ¬ c.StopsOverlap s := by
  rintro ⟨i, j, job, job', hne, hi, hj, hs, hs', ha, ha'⟩
  have := add_le_total (Job.atWork s) hne hi hj
  simp only [Job.atWork, hs, hs', ha, ha', and_self, if_true] at this
  omega

theorem not_startsUnderStop
    (h : (c.slot s).state ≠ .starting ∨ c.total (Job.atWork s) = 0) : ¬ c.StartsUnderStop s := by
  rintro ⟨hstarting, i, job, hj, hs, ha⟩
  have := (total_eq_zero_iff (Job.atWork s)).1 (h.resolve_left fun hn => hn hstarting) i _ hj
  simp [Job.atWork, hs, ha] at this

/-! ## A service that can be started has no container -/

/-- A service that can be started has no container, and neither has one that a stop job is at work
on. -/
structure Vacant (c : Controller t) (s : Fin t.size) : Prop where
  idle : (c.slot s).state.isStartable → (c.slot s).handle = none
  taken : ∀ {id : Nat} {job : StopJob t.size}, c.jobs[id]? = some (.stop job) → job.service = s →
    job.phase.Active → (c.slot s).handle = none ∧
      ((c.slot s).state = .stopping ∨ (c.slot s).state.isDown)

theorem vacant_fresh (config : Config) (s : Fin t.size) : Vacant (fresh t config) s where
  idle _ := by simp [fresh, Controller.slot]
  taken h := by simp [fresh] at h

/-- The invariant survives what leaves the service alone or takes it out of starting, and sets no
stop job to work on it. -/
theorem Vacant.frame (h : Vacant c s)
    (hstate : (c'.slot s).state = (c.slot s).state ∨
      ((c.slot s).state = .starting ∧ ¬ (c'.slot s).state.isStartable))
    (hhandle : (c'.slot s).handle = (c.slot s).handle ∨
      ((c.slot s).state = .starting ∧ ¬ (c'.slot s).state.isStartable))
    (hstop : ∀ {i : Nat} {job : StopJob t.size}, c'.jobs[i]? = some (.stop job) →
      job.service = s → job.phase.Active → c.jobs[i]? = some (.stop job)) : Vacant c' s where
  idle he := by
    rcases hhandle with hh | ⟨-, hn⟩
    · rcases hstate with hs | ⟨-, hn⟩
      · exact hh ▸ h.idle (hs ▸ he)
      · exact absurd he hn
    · exact absurd he hn
  taken hj hs ha := by
    obtain ⟨hh, hst⟩ := h.taken (hstop hj hs ha) hs ha
    have hne : (c.slot s).state ≠ .starting := by
      intro he
      rw [he] at hst
      simp [ServiceState.isDown] at hst
    rw [hhandle.resolve_right fun hn => hne hn.1, hstate.resolve_right fun hn => hne hn.1]
    exact ⟨hh, hst⟩

theorem Vacant.start_turn {job job' : StartJob t.size} {slot : Slot} {aside : Aside}
    (h : Vacant c job.service) (hj : c.jobs[id]? = some (.start job))
    (turn : StartTurn c now id job action job' slot aside effects)
    (hclear : ¬ (c.after id (.start job') job.service slot aside).StartsUnderStop job.service) :
    Vacant (c.after id (.start job') job.service slot aside) job.service := by
  have hid := lt_size_of_job hj
  have hstop {i : Nat} {k : StopJob t.size}
      (hi : (c.after id (.start job') job.service slot aside).jobs[i]? = some (.stop k)) :
      c.jobs[i]? = some (.stop k) := stop_of_after hid (by simp) hi
  have hhandle : slot.handle = (c.slot job.service).handle ∨
      ((c.slot job.service).state = .starting ∧ ¬ slot.state.isStartable) :=
    turn.records_cases.imp_right fun ⟨_, _, hs, hs', _⟩ => ⟨hs, by rw [hs']; decide⟩
  rcases turn.state_cases with hs | ⟨-, -, -, hst, rfl⟩ | ⟨verdict, -, hs, hs'⟩
  · exact h.frame (by simp [hs]) (by simpa using hhandle) fun hi _ _ => hstop hi
  · -- The service is moved to starting, so no stop job is at work on it.
    refine ⟨fun he => ?_, fun hi hks ha => ?_⟩
    · rw [slot_after_self] at he
      cases he
    · exact absurd ⟨by rw [slot_after_self]; rfl, _, _, hi, hks, ha⟩ hclear
  · have hn : ¬ slot.state.isStartable := by
      rw [hs']
      cases verdict <;> simp [Verdict.target, ServiceState.isStartable]
    exact h.frame (.inr ⟨hs, by simpa using hn⟩) (by simpa using hhandle) fun hi _ _ => hstop hi

theorem Vacant.stop_turn {job : StopJob t.size} {phase : StopPhase} {slot : Slot}
    (h : Vacant c job.service) (hj : c.jobs[id]? = some (.stop job))
    (turn : StopTurn c now id job action phase slot effects) :
    Vacant (c.after id (.stop { job with phase }) job.service slot .nothing) job.service := by
  have hid := lt_size_of_job hj
  constructor
  case idle =>
    intro he
    rw [slot_after_self] at he ⊢
    refine turn.handle_cases.elim (fun hh => hh.trans ?_) fun hh => hh
    rcases turn.state_cases with hs | ⟨-, hs, -⟩ | ⟨-, -, hs⟩ | ⟨hp, -, -⟩
    · exact h.idle (hs ▸ he)
    · exact h.idle (by rw [hs]; rfl)
    · rw [hs] at he
      cases he
    · exact (h.taken hj rfl (by rw [hp]; trivial)).1
  case taken =>
    intro i k hi hks ha
    rw [slot_after_self]
    rcases stop_after_cases hid hi with ⟨-, he⟩ | ⟨-, hi⟩
    · cases he
      rcases turn.at_work ha with ⟨hp, rfl⟩ | ⟨-, hs, hs', hh⟩ | ⟨-, hs', hh⟩
      · exact h.taken hj rfl hp
      · exact ⟨hh.trans (h.idle (by rw [hs]; rfl)), .inr (by rw [hs']; rfl)⟩
      · exact ⟨hh, hs'.imp_right fun he => by rw [he]; rfl⟩
    · obtain ⟨hh, hst⟩ := h.taken hi hks ha
      refine ⟨turn.handle_cases.elim (fun he => he.trans hh) fun he => he, ?_⟩
      rcases turn.state_cases with he | ⟨-, -, he⟩ | ⟨-, -, he⟩ | ⟨-, -, he⟩ <;> rw [he]
      · exact hst
      · exact .inr rfl
      · exact .inl rfl
      · exact .inr rfl

theorem Vacant.turn (h : Vacant c s) (ht : TurnsTo c now id action c' effects)
    (hclear : ¬ c'.StartsUnderStop s) : Vacant c' s := by
  obtain ⟨old, new, slot, aside, hj, turn, rfl⟩ := ht
  have hid := lt_size_of_job hj
  by_cases hs : s = old.service
  · subst hs
    cases turn with
    | start turn => exact h.start_turn hj turn hclear
    | stop turn => exact h.stop_turn hj turn
    | launch turn => exact h.frame (by simp) (by simp) fun hi _ _ => stop_of_after hid (by simp) hi
  · have hslot : (c.after id new old.service slot aside).slot s = c.slot s := slot_after_of_ne hs
    refine h.frame (by simp [hslot]) (by simp [hslot]) fun hi hks _ => ?_
    rcases stop_after_cases hid hi with ⟨-, he⟩ | ⟨-, hi⟩
    · have hold := turn.service_eq
      rw [he] at hold
      exact absurd (hks.symm.trans hold) hs
    · exact hi

theorem Vacant.change (h : Vacant c s) (change : CallChange now c operation d) : Vacant d s := by
  refine h.frame ?_ (.inl (change.sets.handle_eq s)) fun hi _ ha => ?_
  · exact (change.sets.state_cases s).imp_right fun ⟨hs, hs'⟩ => ⟨hs, by rw [hs']; decide⟩
  · exact (change.sets.stop_cases hi).resolve_right fun hf => hf.not_active ha

theorem Vacant.step (h : Vacant c s) (hs : c.step now action = some (c', effects))
    (hclear : ¬ c'.StartsUnderStop s) : Vacant c' s :=
  step_induct hs (fun _ turn => h.turn turn hclear) Vacant.change h

/-! ## A container is recorded where there is none -/

/-- While the service is starting and a start job has yet to record its container, there is none. -/
def Recordable (c : Controller t) (s : Fin t.size) : Prop :=
  ∀ (id : Nat) (job : StartJob t.size), c.jobs[id]? = some (.start job) → job.service = s →
    job.phase.Unrecorded → (c.slot s).state = .starting → (c.slot s).handle = none

theorem Recordable.start_turn {job job' : StartJob t.size} {slot : Slot} {aside : Aside}
    (h : Recordable c job.service) (hv : Vacant c job.service)
    (hj : c.jobs[id]? = some (.start job))
    (turn : StartTurn c now id job action job' slot aside effects)
    (hsole : ¬ c.StartsOverlap job.service) :
    Recordable (c.after id (.start job') job.service slot aside) job.service := by
  intro i k hi hks hu hst
  rw [slot_after_self] at hst ⊢
  rcases turn.state_cases with hs | ⟨-, -, -, hs, rfl⟩ | ⟨verdict, -, -, hs'⟩
  · rw [hs] at hst
    rcases start_after_start_cases (lt_size_of_job hj) hi with ⟨-, rfl⟩ | ⟨hne, hi⟩
    · rcases turn.owns_cases with
        ⟨-, hs, -, -, -, hh, -⟩ | ⟨-, -, -, -, hu'⟩ | ⟨-, -, ho, -⟩ | ⟨-, -, ho, -⟩ | ⟨-, ho, -⟩
      · exact hh.trans (hv.idle hs)
      · exact (hu' hu).2.trans (h id job hj rfl (hu' hu).1 hst)
      all_goals exact absurd hu.owns ho
    · -- Another job that owns the service cannot record its container now.
      rcases turn.records_cases with hh | ⟨handle, hp, -⟩
      · exact hh.trans (h i k hi hks hu hst)
      · exact absurd ⟨_, _, _, _, hne, hi, hj, hks, rfl, hu.owns, by rw [hp]; trivial⟩ hsole
  · exact hv.idle hs
  · rw [hs'] at hst
    cases verdict <;> cases hst

theorem Recordable.turn (h : Recordable c s) (hv : Vacant c s) (hsole : ¬ c.StartsOverlap s)
    (ht : TurnsTo c now id action c' effects) : Recordable c' s := by
  obtain ⟨old, new, slot, aside, hj, turn, rfl⟩ := ht
  have hid := lt_size_of_job hj
  by_cases hs : s = old.service
  · subst hs
    cases turn with
    | start turn => exact h.start_turn hv hj turn hsole
    | stop turn =>
        intro i k hi hks hu hst
        rw [slot_after_self] at hst ⊢
        refine turn.handle_cases.elim (fun hh => hh.trans ?_) fun hh => hh
        refine h i k (start_of_after hid (by simp) hi) hks hu ?_
        rcases turn.state_cases with he | ⟨-, -, he⟩ | ⟨-, -, he⟩ | ⟨-, -, he⟩ <;> rw [he] at hst
        · exact hst
        all_goals cases hst
    | launch turn =>
        intro i k hi hks hu
        rw [slot_after_self]
        exact h i k (start_of_after hid (by simp) hi) hks hu
  · intro i k hi hks hu
    rw [slot_after_of_ne hs]
    rcases start_after_cases hid hi with ⟨-, he⟩ | ⟨-, hi⟩
    · have hold := turn.service_eq
      rw [he] at hold
      exact absurd (hks.symm.trans hold) hs
    · exact h i k hi hks hu

theorem Recordable.change (h : Recordable c s) (change : CallChange now c operation d) :
    Recordable d s := by
  intro i k hi hks hu hst
  rw [change.sets.handle_eq]
  rcases change.sets.start_cases hi with hi | ⟨-, hp, -⟩
  · refine h i k hi hks hu ?_
    rcases change.sets.state_cases s with he | ⟨he, -⟩
    · exact he ▸ hst
    · exact he
  · rw [hp] at hu
    cases hu

/-- What is remembered of the containers of a service. -/
structure Remembers (c : Controller t) (s : Fin t.size) : Prop where
  vacant : Vacant c s
  recordable : Recordable c s

theorem Remembers.step (h : Remembers c s) (hs : c.step now action = some (c', effects))
    (hsole : ¬ c.StartsOverlap s) (hclear : ¬ c'.StartsUnderStop s) : Remembers c' s where
  vacant := h.vacant.step hs hclear
  recordable := step_induct (P := fun c => Recordable c s) hs
    (fun _ turn => h.recordable.turn h.vacant hsole turn) Recordable.change h.recordable

/-- A container in a slot stays there, or a stop job takes it and asks for its stop. -/
theorem Remembers.handle_kept (h : Remembers c s) (hs : c.step now action = some (c', effects))
    {handle : Handle} (hh : (c.slot s).handle = some handle) :
    (c'.slot s).handle = some handle ∨ ((c'.slot s).handle = none ∧
      Moment.stops ⟨c, now, action, effects, c'⟩ s handle = 1) := by
  cases ha : action.job? with
  | none =>
      refine .inl ((changesTo_of_step ha hs).1.induct
        (P := fun d => (d.slot s).handle = some handle) (fun hd change => ?_) hh)
      exact (change.sets.handle_eq s).trans hd
  | some id =>
      obtain ⟨old, new, slot, aside, hj, turn, rfl⟩ := turnsTo_of_step ha hs
      by_cases hne : s = old.service
      · subst hne
        rw [slot_after_self]
        cases turn with
        | start turn =>
            rcases turn.records_cases with he | ⟨_, hp, hst, -⟩
            · exact .inl (he.trans hh)
            · -- A start job about to record its container would have found the slot empty.
              have := h.recordable id _ hj rfl (by rw [hp]; trivial) hst
              exact absurd (hh.symm.trans this) (by simp)
        | stop turn =>
            refine (turn.keeps_or_takes hh).imp_right fun ⟨he, heffects⟩ => ⟨he, ?_⟩
            subst heffects
            simp [Moment.stops, Moment.worksFor, Moment.job?, ha, hj, Effect.stops, askStop]
        | launch turn => exact .inl hh
      · exact .inl (by rw [slot_after_of_ne hne, hh])

/-- Stop jobs that are still about to take a service go on to be so as long as its container stays
in the slot. -/
theorem Remembers.fresh_kept (h : Remembers c s) (hs : c.step now action = some (c', effects))
    {handle : Handle} (hh' : (c'.slot s).handle = some handle) {first : Nat}
    (hfresh : ∀ (i : Nat) (job : StopJob t.size), first ≤ i → c.jobs[i]? = some (.stop job) →
      job.service = s → job.Fresh) {i : Nat} {job : StopJob t.size} (hi : first ≤ i)
    (hj : c'.jobs[i]? = some (.stop job)) (hjs : job.service = s) : job.Fresh := by
  cases ha : action.job? with
  | none =>
      refine (changesTo_of_step ha hs).1.induct (P := fun d => ∀ (i : Nat) (job : StopJob t.size),
        first ≤ i → d.jobs[i]? = some (.stop job) → job.service = s → job.Fresh)
        (fun hd change => ?_) hfresh i job hi hj hjs
      intro i job hi hj hjs
      exact (change.sets.stop_cases hj).elim (fun hj => hd i job hi hj hjs) fun hf => hf
  | some id =>
      obtain ⟨old, new, slot, aside, hold, turn, rfl⟩ := turnsTo_of_step ha hs
      rcases stop_after_cases (lt_size_of_job hold) hj with ⟨rfl, rfl⟩ | ⟨-, hj⟩
      · cases turn with
        | @stop job phase _ _ _ turn =>
            subst hjs
            rw [Job.service_stop, slot_after_self] at hh'
            have hnot (hst : (c.slot job.service).state.isStartable)
                (he : slot.handle = (c.slot job.service).handle) : False := by
              rw [he, h.vacant.idle hst] at hh'
              cases hh'
            have hwas := hfresh i job hi hold rfl
            cases turn with
            | go => exact .inl rfl
            | pass => exact .inr ⟨_, rfl⟩
            | idle _ hst => exact (hnot (by rw [hst]; rfl) rfl).elim
            | skip _ hst => exact (hnot (by rw [hst]; rfl) rfl).elim
            | take | takeLeft => cases hh'
            | retire hp | leave hp | overrun hp | halted hp | kill hp | unbind hp =>
                exact absurd (by rw [hp]; trivial) hwas.not_active
      · exact hfresh i job hi hj hjs

/-! ## Runs -/

section

variable {config : Config} {past : List (Moment t)}

theorem Run.remembers (run : Run (fresh t config) past c)
    (halone : ∀ p ∈ instants c past, ¬ p.StartsUnderStop s ∧ ¬ p.StartsOverlap s) :
    c.Remembers s := by
  induction run with
  | refl => exact ⟨vacant_fresh config s, by simp [Recordable, fresh]⟩
  | tail run hs ih =>
      have hbefore := ih fun p hp => halone p (List.mem_cons_of_mem _ hp)
      exact hbefore.step hs (halone _ (List.mem_cons_of_mem _ List.mem_cons_self)).2
        (halone _ List.mem_cons_self).1

/-- The start of a run is one of its instants. -/
theorem Run.start_mem {start : Controller t} (run : Run start past c) : start ∈ instants c past := by
  induction run with
  | refl => exact List.mem_cons_self
  | tail _ _ ih => exact List.mem_cons_of_mem _ ih

variable {later earlier : List (Moment t)} {m : Moment t}

/-- The instants before a step of a run are instants of the run. -/
theorem mem_instants_before (hpast : past = later ++ m :: earlier) {p : Controller t}
    (hp : p ∈ instants m.before earlier) : p ∈ instants c past := by
  refine List.mem_cons_of_mem _ ?_
  rw [hpast, List.map_append]
  exact List.mem_append_right _ hp

/-- The instants since a step of a run are instants of the run. -/
theorem mem_instants_since (hpast : past = later ++ m :: earlier) {p : Controller t}
    (hp : p ∈ instants c later) : p ∈ instants c past := by
  refine (List.mem_cons.1 hp).elim (fun he => he ▸ List.mem_cons_self) fun hp => ?_
  refine List.mem_cons_of_mem _ ?_
  rw [hpast, List.map_append]
  exact List.mem_append_left _ hp

/-- A container in a slot is asked to stop, or it is still there and no stop job that was created
since has taken the service. -/
theorem Run.asked_or_waits {start : Controller t} (run : Run start past c) (h : start.Remembers s)
    (halone : ∀ p ∈ instants c past, ¬ p.StartsUnderStop s ∧ ¬ p.StartsOverlap s) {handle : Handle}
    (hh : (start.slot s).handle = some handle) :
    c.Remembers s ∧ ((∃ m ∈ past, 0 < m.stops s handle) ∨ ((c.slot s).handle = some handle ∧
      ∀ (i : Nat) (job : StopJob t.size), start.jobs.size ≤ i → c.jobs[i]? = some (.stop job) →
        job.service = s → job.Fresh)) := by
  induction run with
  | refl =>
      refine ⟨h, .inr ⟨hh, fun i job hi hj => ?_⟩⟩
      exact absurd (lt_size_of_job hj) (Nat.not_lt.2 hi)
  | tail run hs ih =>
      obtain ⟨hbefore, hwaits⟩ := ih fun p hp => halone p (List.mem_cons_of_mem _ hp)
      refine ⟨hbefore.step hs (halone _ (List.mem_cons_of_mem _ List.mem_cons_self)).2
        (halone _ List.mem_cons_self).1, ?_⟩
      rcases hwaits with ⟨m, hm, hasked⟩ | ⟨hh, hfresh⟩
      · exact .inl ⟨m, List.mem_cons_of_mem _ hm, hasked⟩
      · rcases hbefore.handle_kept hs hh with hh' | ⟨-, hasked⟩
        · exact .inr ⟨hh', fun i job hi hj hjs => hbefore.fresh_kept hs hh' hfresh hi hj hjs⟩
        · exact .inl ⟨_, List.mem_cons_self, by rw [hasked]; exact Nat.one_pos⟩

/-- **Containers are remembered.** In every run of a fresh controller of a built topology in which a
service is never started under a stop that is still at work, nor owned by two start jobs at once: at
no instant does the service hold a container while it is pending or stopped; a container in its slot
stays there, never overwritten by another, until a stop job takes it out and asks the engine to stop
it; and once a call that stops every service has answered, the engine was asked to stop every
container that was in the slot when the call was made. -/
theorem Run.remembered (ht : t.Built) (run : Run (fresh t config) past c)
    (halone : ∀ p ∈ instants c past, ¬ p.StartsUnderStop s ∧ ¬ p.StartsOverlap s) :
    (∀ p ∈ instants c past, (p.slot s).state = .pending ∨ (p.slot s).state = .stopped →
      (p.slot s).handle = none) ∧
    (∀ m ∈ past, ∀ handle, (m.before.slot s).handle = some handle →
      (m.after.slot s).handle = some handle ∨
        ((m.after.slot s).handle = none ∧ m.stops s handle = 1)) ∧
    ∀ (later : List (Moment t)) (m : Moment t) (earlier : List (Moment t)) (handle : Handle)
      (k : Nat) (call : Call t.size), past = later ++ m :: earlier →
        (m.after.slot s).handle = some handle → m.after.calls.size ≤ k →
        c.calls[k]? = some call → call.operation = .stopAll → call.answer?.isSome →
        ∃ m' ∈ later, 0 < m'.stops s handle := by
  -- The invariant holds at every instant.
  have hbefore {later earlier : List (Moment t)} {m : Moment t}
      (hpast : past = later ++ m :: earlier) : m.before.Remembers s :=
    (run.split hpast).1.remembers fun p hp => halone p (mem_instants_before hpast hp)
  have hat {p : Controller t} (hp : p ∈ instants c past) : p.Remembers s := by
    rcases List.mem_cons.1 hp with rfl | hp
    · exact run.remembers halone
    · obtain ⟨m, hm, rfl⟩ := List.mem_map.1 hp
      obtain ⟨later, earlier, hpast⟩ := List.append_of_mem hm
      exact hbefore hpast
  refine ⟨?_, ?_, ?_⟩
  · intro p hp hst
    refine (hat hp).vacant.idle ?_
    rcases hst with hst | hst <;> rw [hst] <;> rfl
  · intro m hm handle hh
    obtain ⟨later, earlier, hpast⟩ := List.append_of_mem hm
    exact (hbefore hpast).handle_kept (run.step_of_mem hm) hh
  · intro later m earlier handle k call hpast hh hk hcall hop hanswer
    have since := (run.split hpast).2
    have hstart := hat (mem_instants_since hpast since.start_mem)
    refine ((since.asked_or_waits hstart
      (fun p hp => halone p (mem_instants_since hpast hp)) hh).2).resolve_right ?_
    rintro ⟨-, hfresh⟩
    -- The call has a stop job for the service, which was created since and is at its end.
    have htakes := run.takesDown ht k call hcall hop
    obtain ⟨i, hi, job, hj, hjs⟩ := htakes.jobs s
    obtain ⟨answer, time, hp⟩ := Call.phase_of_answer hanswer
    have hf := htakes.joined (by rw [hp]; simp) i hi
    rw [isFinished_of_job hj, Job.isFinished_stop] at hf
    rcases hfresh i job (since.call_jobs hcall hk i hi) hj hjs with he | ⟨_, he⟩ <;>
      rw [hf] at he <;> cases he

end

/-! ### A container that is remembered, and one that is not -/

/-- The database is started, found ready and stopped. -/
def stoppedSteps : List (Nat × Action) :=
  readySteps ++ [(40, .invoke .stopAll), (40, .run 2), (40, .run 2),
    (50, .answer 2 (.container (.stop (.ok ())))), (50, .run 2), (50, .proceed 1),
    (50, .proceed 1), (50, .proceed 1)]

/-- The theorem about the container of that run, which is recorded by its eighth step. -/
theorem remembered_stopped :
    ∃ (past : List (Moment solo)) (c : Controller solo), solo.Built ∧ Run (fresh solo {}) past c ∧
      (∀ p ∈ instants c past, ¬ p.StartsUnderStop only ∧ ¬ p.StartsOverlap only) ∧
      (c.slot only).state = .stopped ∧ (c.slot only).handle = none ∧
      ∃ (later : List (Moment solo)) (m : Moment solo) (earlier : List (Moment solo)),
        past = later ++ m :: earlier ∧ (m.after.slot only).handle = some ⟨⟨"db"⟩, "1"⟩ ∧
          ∃ m' ∈ later, 0 < m'.stops only ⟨⟨"db"⟩, "1"⟩ := by
  obtain ⟨past, c, run, shown⟩ := exists_run (fresh solo {}) stoppedSteps
    (fun past c => ((instants c past).all fun p => p.total (Job.owning only) ≤ 1 &&
        ((p.slot only).state ≠ .starting || p.total (Job.atWork only) = 0)) &&
      (c.slot only).state = .stopped &&
      (c.calls[1]?.any fun call => call.operation = .stopAll && call.answer?.isSome) &&
      (past.drop 10).head?.any fun m =>
        (m.after.slot only).handle = some ⟨⟨"db"⟩, "1"⟩ && m.after.calls.size ≤ 1)
    (by decide +kernel)
  simp only [Bool.and_eq_true, List.all_eq_true, Bool.or_eq_true, decide_eq_true_iff,
    Option.any_eq_true] at shown
  obtain ⟨⟨⟨halone, hstopped⟩, call, hk, hop, hanswer⟩, m, hm, hhandle, hsize⟩ := shown
  obtain ⟨earlier, hdrop⟩ := List.head?_eq_some_iff.1 hm
  have hpast : past = past.take 10 ++ m :: earlier := by rw [← hdrop, List.take_append_drop]
  have alone : ∀ p ∈ instants c past, ¬ p.StartsUnderStop only ∧ ¬ p.StartsOverlap only :=
    fun p hp => ⟨not_startsUnderStop (halone p hp).2, not_startsOverlap (halone p hp).1⟩
  obtain ⟨hidle, -, hasked⟩ := run.remembered solo_built alone
  exact ⟨past, c, solo_built, run, alone, hstopped, hidle c List.mem_cons_self (.inr hstopped),
    _, m, earlier, hpast, hhandle, hasked _ m earlier _ 1 call hpast hhandle hsize hk hop hanswer⟩

/-- The database is stopped with a container in its slot, and a call that stops every service, made
after the container was recorded, has answered and never asked the engine to stop it. -/
theorem container_forgotten :
    ∃ (past : List (Moment solo)) (c : Controller solo) (later : List (Moment solo))
      (m : Moment solo) (earlier : List (Moment solo)) (k : Nat) (call : Call solo.size),
      Run (fresh solo {}) past c ∧ (c.slot only).state = .stopped ∧
        (c.slot only).handle = some ⟨⟨"db"⟩, "2"⟩ ∧ past = later ++ m :: earlier ∧
        (m.after.slot only).handle = some ⟨⟨"db"⟩, "2"⟩ ∧ m.after.calls.size ≤ k ∧
        c.calls[k]? = some call ∧ call.operation = .stopAll ∧ call.answer?.isSome ∧
        ∀ m' ∈ past, m'.stops only ⟨⟨"db"⟩, "2"⟩ = 0 := by
  obtain ⟨past, c, run, shown⟩ := exists_run (fresh solo {}) forgottenSteps
    (fun past c => (c.slot only).state = .stopped &&
      (c.slot only).handle = some ⟨⟨"db"⟩, "2"⟩ &&
      (c.calls[5]?.any fun call => call.operation = .stopAll && call.answer?.isSome) &&
      (past.all fun m => m.stops only ⟨⟨"db"⟩, "2"⟩ = 0) &&
      (past.drop 12).head?.any fun m =>
        (m.after.slot only).handle = some ⟨⟨"db"⟩, "2"⟩ && m.after.calls.size ≤ 5)
    (by decide +kernel)
  simp only [Bool.and_eq_true, List.all_eq_true, decide_eq_true_iff, Option.any_eq_true] at shown
  obtain ⟨⟨⟨⟨hstopped, hhandle⟩, call, hk, hop, hanswer⟩, hnever⟩, m, hm, hrecorded, hsize⟩ := shown
  obtain ⟨earlier, hdrop⟩ := List.head?_eq_some_iff.1 hm
  have hpast : past = past.take 12 ++ m :: earlier := by rw [← hdrop, List.take_append_drop]
  exact ⟨past, c, _, m, earlier, 5, call, run, hstopped, hhandle, hpast, hrecorded, hsize, hk, hop,
    hanswer, hnever⟩

end Controller

end Bringup.Lifecycle
