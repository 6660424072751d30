import Bringup.Proofs.Lifecycle.Awaiting

/-!
# Dependencies come first

A service is moved to starting by a start job that has seen each of its direct dependencies ready, at
some instant after the call that created the job. The invariant of a run behind it is `Ordered`: a
dependency that a job no longer waits for was ready at an instant at which the job existed, the call
that waits for the job existed by then, and a job that is not at its end has such a call.

Where nothing is stopped, what is ready stays ready. Then a service that has left the state of
pending has all its dependencies ready, the indirect ones included, from that instant on (`Upright`).
-/

namespace Bringup

/-- A service depends on another, directly or through others. -/
def Topology.DependsOn (t : Topology) : Fin t.size → Fin t.size → Prop :=
  Relation.TransGen fun s d => d ∈ t.dependencies s

namespace Lifecycle

variable {t : Topology}

/-- The dependencies that a start job has not seen ready yet, once it has looked at its service and
until it moves it to starting. -/
def StartPhase.remaining? {n : Nat} : StartPhase n → Option (List (Fin n))
  | .awaiting dependencies => some dependencies
  | .entering => some []
  | _ => none

/-- After a turn a start job has seen what it had seen, and what is ready now. -/
theorem StartTurn.seen {c : Controller t} {now : Nat} {id : JobId} {action : Action}
    {job job' : StartJob t.size} {slot : Slot} {aside : Aside} {effects : List Effect}
    {ds' : List (Fin t.size)} (turn : StartTurn c now id job action job' slot aside effects)
    (h : job'.phase.remaining? = some ds') (hpublished : c.Published) {d : Fin t.size}
    (hd : d ∈ t.dependencies job.service) :
    d ∈ ds' ∨ (c.slot d).state = .ready ∨
      ∃ ds, job.phase.remaining? = some ds ∧ d ∉ ds := by
  cases turn with
  | arrive hp hs =>
      -- The job starts to wait for all dependencies at once.
      simp only [StartJob.await, StartJob.goTo] at h
      split at h
      next he => rw [he] at hd; cases hd
      next =>
        simp only [StartPhase.remaining?, Option.some.injEq] at h
        exact .inl (h ▸ hd)
  | pass hp => exact .inr (.inr ⟨[], by rw [hp]; rfl, List.not_mem_nil⟩)
  | @accept e rest hp hc he =>
      by_cases hde : d = e
      · exact .inr (.inl (hde ▸ (hpublished e).symm.trans he))
      · by_cases hdr : d ∈ rest
        · simp only [StartJob.await, StartJob.goTo] at h
          split at h
          next hn => rw [hn] at hdr; cases hdr
          next =>
            simp only [StartPhase.remaining?, Option.some.injEq] at h
            exact .inl (h ▸ hdr)
        · exact .inr (.inr ⟨e :: rest, by rw [hp]; rfl, by simp [hde, hdr]⟩)
  | retry hp hr =>
      simp only [StartJob.goTo, Controller.retryPhase] at h
      split at h <;> simp [StartPhase.remaining?] at h
  | _ => simp [StartJob.goTo, StartJob.follow, StartJob.finish, StartPhase.remaining?] at h

/-- Volumes are bound for a service that was moved to starting. -/
theorem StartTurn.attaching {c : Controller t} {now : Nat} {id : JobId} {action : Action}
    {job job' : StartJob t.size} {slot : Slot} {aside : Aside} {effects : List Effect}
    (turn : StartTurn c now id job action job' slot aside effects)
    (h : (∃ volumes, job'.phase = .attaching volumes) ∨ aside = .launches) :
    (∃ volumes, job.phase = .attaching volumes) ∨ slot.state = .starting := by
  cases turn with
  | enter | enterBare => exact .inr rfl
  | bind hp | bindLast hp => exact .inl ⟨_, hp⟩
  | conclude hp =>
      rename_i verdict
      rcases h with ⟨volumes, h⟩ | h
      · cases h
      · cases verdict with
        | cancelled launch => cases launch <;> cases h
        | _ => cases h
  | retry hp hr =>
      simp only [StartJob.goTo, Controller.retryPhase, reduceCtorEq, or_false] at h
      split at h <;> simp at h
  | arrive | accept =>
      simp only [StartJob.await, StartJob.goTo, reduceCtorEq, or_false] at h
      split at h <;> simp at h
  | _ => simp [StartJob.goTo, StartJob.follow, StartJob.finish] at h

namespace Controller

variable {c c' : Controller t} {now : Nat} {action : Action} {effects : List Effect}

/-! ## Every direct dependency was ready -/

/-- What start jobs have seen, and the calls that wait for them, judged at the instants of a run. -/
structure Ordered (instants : List (Controller t)) (c : Controller t) : Prop where
  published : c.Published
  /-- A dependency that a job no longer waits for was ready at an instant at which the job existed. -/
  seen : ∀ {id : Nat} {job : StartJob t.size} {ds : List (Fin t.size)},
    c.jobs[id]? = some (.start job) → job.phase.remaining? = some ds →
    ∀ d ∈ t.dependencies job.service,
      d ∈ ds ∨ ∃ p ∈ instants, id < p.jobs.size ∧ (p.slot d).state = .ready
  /-- A job that is not at its end has a call that waits for it. -/
  awaited : ∀ {id : Nat} {job : StartJob t.size}, c.jobs[id]? = some (.start job) →
    job.phase ≠ .finished → ∃ (k : Nat) (call : Call t.size), c.calls[k]? = some call ∧ call.Awaits id
  /-- A call existed at every instant at which a job that it waits for existed. -/
  opened : ∀ {k id : Nat} {call : Call t.size}, c.calls[k]? = some call → call.Awaits id →
    ∀ p ∈ instants, id < p.jobs.size → k < p.calls.size
  grown : ∀ p ∈ instants, p.jobs.size ≤ c.jobs.size

theorem ordered_fresh (config : Config) : Ordered [] (fresh t config) where
  published := published_fresh config
  seen h := by simp [fresh] at h
  awaited h := by simp [fresh] at h
  opened h := by simp [fresh] at h
  grown := by simp

/-- An instant can be added once everything that existed then still exists. -/
theorem Ordered.weaken {instants : List (Controller t)} (h : Ordered instants c) :
    Ordered (c :: instants) c where
  published := h.published
  seen hj hr d hd := by
    rcases h.seen hj hr d hd with hds | ⟨p, hp, hs⟩
    · exact .inl hds
    · exact .inr ⟨p, List.mem_cons_of_mem _ hp, hs⟩
  awaited := h.awaited
  opened hk ha p hp hi := by
    rcases List.mem_cons.1 hp with rfl | hp
    · exact (Array.getElem?_eq_some_iff.1 hk).1
    · exact h.opened hk ha p hp hi
  grown p hp := by
    rcases List.mem_cons.1 hp with rfl | hp
    · exact Nat.le_refl _
    · exact h.grown p hp

theorem Ordered.turn {instants : List (Controller t)} {id : JobId} (h : Ordered instants c)
    (hc : c ∈ instants) (ht : TurnsTo c now id action c' effects) : Ordered instants c' := by
  have hpublished := h.published.turn ht
  obtain ⟨old, new, slot, aside, hj, turn, rfl⟩ := ht
  have hid := lt_size_of_job hj
  constructor
  case published => exact hpublished
  case seen =>
    intro i job ds hi hr d hd
    rcases start_after_cases hid hi with ⟨rfl, rfl⟩ | ⟨-, hi⟩
    · cases turn with
      | start turn =>
          rw [turn.same.1] at hd
          -- What is ready now is so at an instant at which the job exists.
          rcases turn.seen hr h.published hd with hds | hs | ⟨ds, hr, hn⟩
          · exact .inl hds
          · exact .inr ⟨c, hc, hid, hs⟩
          · exact .inr ((h.seen hj hr d hd).resolve_left hn)
    · exact h.seen hi hr d hd
  case awaited =>
    intro i job hi hf
    rw [calls_after]
    rcases start_after_cases hid hi with ⟨rfl, rfl⟩ | ⟨-, hi⟩
    · cases turn with
      | start turn => exact h.awaited hj turn.phase_ne_finished
    · exact h.awaited hi hf
  case opened =>
    intro k i call hk ha p hp hn
    rw [calls_after] at hk
    exact h.opened hk ha p hp hn
  case grown =>
    intro p hp
    exact Nat.le_trans (h.grown p hp) size_jobs_le_after

theorem Ordered.change {instants : List (Controller t)} {operation : Operation}
    {d : Controller t} (h : Ordered instants c) (change : CallChange now c operation d) :
    Ordered instants d where
  published := change.sets.published h.published
  seen hj hr e he := by
    rcases change.sets.start_cases hj with hj | ⟨-, hp, -⟩
    · exact h.seen hj hr e he
    · simp [hp, StartPhase.remaining?] at hr
  awaited {id job} hj hf := by
    rcases change.sets.start_cases hj with hj' | ⟨hn, -⟩
    · obtain ⟨k, call, hk, ha⟩ := h.awaited hj' hf
      obtain ⟨call', hk', ha'⟩ := change.awaits hk ha hj' hf
      exact ⟨k, call', hk', ha'⟩
    · exact change.awaits_new hj hn
  opened hk ha p hp hi := by
    rcases change.awaited_before hk ha with ⟨call', hk', ha'⟩ | hn
    · exact h.opened hk' ha' p hp hi
    · exact absurd (h.grown p hp) (Nat.not_le.2 (Nat.lt_of_le_of_lt hn hi))
  grown p hp := Nat.le_trans (h.grown p hp) change.sets.size_jobs_le

/-- The step lemma: the instant before the step joins those of the run. -/
theorem Ordered.step {instants : List (Controller t)} (h : Ordered instants c)
    (hs : c.step now action = some (c', effects)) : Ordered (c :: instants) c' := by
  apply step_induct hs _ Ordered.change h.weaken
  intro id turn
  exact h.weaken.turn List.mem_cons_self turn

theorem Run.ordered {config : Config} {past : List (Moment t)} (run : Run (fresh t config) past c) :
    Ordered (past.map Moment.before) c := by
  induction run with
  | refl => exact ordered_fresh config
  | tail _ hs ih => exact ih.step hs

/-! ## Where nothing is stopped -/

/-- No call so far stops anything. -/
def Unstopped (c : Controller t) : Prop :=
  ∀ (k : Nat) (call : Call t.size), c.calls[k]? = some call → ¬ call.operation.Stops

theorem CallChange.unstopped {operation : Operation} {d : Controller t}
    (change : CallChange now c operation d) (h : d.Unstopped) : c.Unstopped := by
  intro k call hk
  obtain ⟨call', hk', ho⟩ := change.operation_kept hk
  exact ho ▸ h k call' hk'

theorem ChangesTo.unstopped {d : Controller t} (h : ChangesTo now c d) (hd : d.Unstopped) :
    c.Unstopped := by
  induction h with
  | refl => exact hd
  | tail _ change ih => exact ih (change.unstopped hd)

theorem unstopped_of_step (hs : c.step now action = some (c', effects)) (h : c'.Unstopped) :
    c.Unstopped := by
  cases ha : action.job? with
  | some id =>
      obtain ⟨old, new, slot, aside, -, -, rfl⟩ := turnsTo_of_step ha hs
      rwa [Unstopped, calls_after] at h
  | none => exact (changesTo_of_step ha hs).1.unstopped h

theorem CallChange.stop_before {operation : Operation} {d : Controller t}
    (change : CallChange now c operation d) (hf : c.Fits) (hu : d.Unstopped) {id : Nat}
    {job : StopJob t.size} (hj : d.jobs[id]? = some (.stop job)) :
    c.jobs[id]? = some (.stop job) := by
  refine (change.stop_cases hf hj).resolve_right ?_
  rintro ⟨k, call, hk, hs⟩
  exact hu k call hk hs

/-- What holds as long as nothing is stopped. -/
structure Upright (c : Controller t) : Prop where
  published : c.Published
  stop : ∀ (id : Nat) (job : StopJob t.size), c.jobs[id]? ≠ some (.stop job)
  stopped : ∀ s, (c.slot s).state ≠ .stopped
  /-- A service that has left the state of pending has its dependencies ready. -/
  ready : ∀ s, (c.slot s).state ≠ .pending → ∀ d ∈ t.dependencies s, (c.slot d).state = .ready
  /-- A dependency that a job no longer waits for is ready. -/
  seen : ∀ {id : Nat} {job : StartJob t.size} {ds : List (Fin t.size)},
    c.jobs[id]? = some (.start job) → job.phase.remaining? = some ds →
    ∀ d ∈ t.dependencies job.service, d ∈ ds ∨ (c.slot d).state = .ready
  attaching : ∀ {id : Nat} {job : StartJob t.size} {volumes : List Volume},
    c.jobs[id]? = some (.start job) → job.phase = .attaching volumes →
    (c.slot job.service).state ≠ .pending
  launched : ∀ {id : Nat} {l : Launch t.size}, c.jobs[id]? = some (.launch l) →
    (c.slot l.service).state ≠ .pending

theorem upright_fresh (config : Config) : Upright (fresh t config) where
  published := published_fresh config
  stop := by simp [fresh]
  stopped s := by simp [fresh, Controller.slot]
  ready s h := by simp [fresh, Controller.slot] at h
  seen h := by simp [fresh] at h
  attaching h := by simp [fresh] at h
  launched h := by simp [fresh] at h

/-- In a turn of a start job or a launch, a service that is ready stays ready, and the one that
leaves the state of pending has its dependencies ready. -/
theorem Upright.state_cases {id : JobId} (h : Upright c)
    (ht : TurnsTo c now id action c' effects) (s : Fin t.size) :
    (c'.slot s).state = (c.slot s).state ∨
    ((c.slot s).state = .pending ∧ (c'.slot s).state = .starting ∧
      ∀ d ∈ t.dependencies s, (c.slot d).state = .ready) ∨
    ((c.slot s).state = .starting ∧ (c'.slot s).state ≠ .pending ∧
      (c'.slot s).state ≠ .stopped) := by
  rcases ht.state_cases s with he | ⟨old, new, slot, aside, hj, turn, rfl, hs, hn⟩
  · exact .inl he
  rw [← hs]
  cases turn with
  | start turn =>
      rename_i job job'
      rcases turn.state_cases with he | ⟨-, hp, -, hst, rfl⟩ | ⟨verdict, -, he, hv⟩
      · exact absurd he hn
      · -- A service that can be started is pending, since none is stopped.
        have hpend : (c.slot job.service).state = .pending := by
          have := h.stopped job.service
          revert hst this
          cases (c.slot job.service).state <;> simp [ServiceState.isStartable]
        refine .inr (.inl ⟨hpend, rfl, ?_⟩)
        intro d hd
        exact (h.seen hj (by rw [hp]; rfl) d hd).resolve_left List.not_mem_nil
      · refine .inr (.inr ⟨he, ?_⟩)
        rw [hv]
        cases verdict <;> simp [Verdict.target]
  | stop turn => exact absurd hj (h.stop _ _)
  | launch turn => exact absurd rfl hn

theorem Upright.turn {id : JobId} (h : Upright c) (ht : TurnsTo c now id action c' effects) :
    Upright c' := by
  have hready {s : Fin t.size} (hs : (c.slot s).state = .ready) : (c'.slot s).state = .ready := by
    rcases h.state_cases ht s with he | ⟨he, -⟩ | ⟨he, -⟩
    · exact he ▸ hs
    all_goals rw [hs] at he; cases he
  have hleft {s : Fin t.size} (hs : (c.slot s).state ≠ .pending) :
      (c'.slot s).state ≠ .pending := by
    rcases h.state_cases ht s with he | ⟨he, -⟩ | ⟨-, he, -⟩
    · exact he ▸ hs
    · exact absurd he hs
    · exact he
  have hstates := h.state_cases ht
  have hpublished := h.published.turn ht
  obtain ⟨old, new, slot, aside, hj, turn, rfl⟩ := ht
  have hid := lt_size_of_job hj
  constructor
  case published => exact hpublished
  case stop =>
    intro i job hi
    rcases stop_after_cases hid hi with ⟨-, rfl⟩ | ⟨-, hi⟩
    · cases turn with
      | stop turn => exact h.stop _ _ hj
    · exact h.stop _ _ hi
  case stopped =>
    intro s
    rcases hstates s with he | ⟨-, he, -⟩ | ⟨-, -, he⟩
    · exact he ▸ h.stopped s
    · simp [he]
    · exact he
  case ready =>
    intro s hs d hd
    rcases hstates s with he | ⟨-, -, he⟩ | ⟨he, -⟩
    · exact hready (h.ready s (he ▸ hs) d hd)
    · exact hready (he d hd)
    · exact hready (h.ready s (by simp [he]) d hd)
  case seen =>
    intro i job ds hi hr d hd
    rcases start_after_cases hid hi with ⟨rfl, rfl⟩ | ⟨-, hi⟩
    · cases turn with
      | start turn =>
          rw [turn.same.1] at hd
          rcases turn.seen hr h.published hd with hds | hs | ⟨ds, hr, hn⟩
          · exact .inl hds
          · exact .inr (hready hs)
          · exact .inr (hready ((h.seen hj hr d hd).resolve_left hn))
    · exact (h.seen hi hr d hd).imp_right hready
  case attaching =>
    intro i job volumes hi hp
    rcases start_after_cases hid hi with ⟨rfl, rfl⟩ | ⟨-, hi⟩
    · cases turn with
      | start turn =>
          rw [turn.same.1]
          rcases turn.attaching (.inl ⟨_, hp⟩) with ⟨volumes, hp⟩ | he
          · exact hleft (h.attaching hj hp)
          · exact slot_after_self.symm ▸ he ▸ by decide
    · exact hleft (h.attaching hi hp)
  case launched =>
    intro i l hi
    rcases launch_after_cases hid hi with ⟨rfl, rfl⟩ | ⟨rfl, rfl, rfl⟩ | ⟨-, l, hi, he, -⟩
    · cases turn with
      | launch turn =>
          rename_i l phase
          exact hleft (s := l.service) (h.launched hj)
    · cases turn with
      | start turn =>
          rcases turn.attaching (.inr rfl) with ⟨volumes, hp⟩ | he
          · exact hleft (h.attaching hj hp)
          · exact slot_after_self.symm ▸ he ▸ by decide
    · exact he ▸ hleft (h.launched hi)

theorem Upright.change {operation : Operation} {d : Controller t} (h : Upright c) (hf : c.Fits)
    (hu : d.Unstopped) (change : CallChange now c operation d) : Upright d := by
  have hready {s : Fin t.size} (hs : (c.slot s).state = .ready) : (d.slot s).state = .ready := by
    rcases change.sets.state_cases s with he | ⟨he, -⟩
    · exact he ▸ hs
    · rw [hs] at he; cases he
  have hleft (s : Fin t.size) : (d.slot s).state = .pending ↔ (c.slot s).state = .pending := by
    rcases change.sets.state_cases s with he | ⟨he, he'⟩
    · rw [he]
    · simp [he, he']
  constructor
  case published => exact change.sets.published h.published
  case stop =>
    intro i job hi
    exact h.stop i job (change.stop_before hf hu hi)
  case stopped =>
    intro s
    rcases change.sets.state_cases s with he | ⟨-, he⟩
    · exact he ▸ h.stopped s
    · simp [he]
  case ready =>
    intro s hs d hd
    exact hready (h.ready s (mt (hleft s).2 hs) d hd)
  case seen =>
    intro i job ds hi hr d hd
    rcases change.sets.start_cases hi with hi | ⟨-, hp, -⟩
    · exact (h.seen hi hr d hd).imp_right hready
    · simp [hp, StartPhase.remaining?] at hr
  case attaching =>
    intro i job volumes hi hp
    rcases change.sets.start_cases hi with hi | ⟨-, hp', -⟩
    · exact mt (hleft _).1 (h.attaching hi hp)
    · simp [hp'] at hp
  case launched =>
    intro i l hi
    exact mt (hleft _).1 (h.launched (change.sets.launch_before hi))

theorem Upright.step (h : Upright c) (hf : c.Fits) (hs : c.step now action = some (c', effects))
    (hu : c'.Unstopped) : Upright c' := by
  cases ha : action.job? with
  | some id => exact h.turn (turnsTo_of_step ha hs)
  | none =>
      -- Whether anything is stopped is judged after the last change, so it is a premise of each.
      have keep : Fits c' ∧ (c'.Unstopped → Upright c') := by
        refine (changesTo_of_step ha hs).1.induct
          (P := fun d => Fits d ∧ (d.Unstopped → Upright d)) ?_ ⟨hf, fun _ => h⟩
        intro c operation d hc change
        exact ⟨hc.1.change change, fun hd => (hc.2 (change.unstopped hd)).change hc.1 hd change⟩
      exact keep.2 hu

theorem Upright.ready_of_step (h : Upright c) (hs : c.step now action = some (c', effects))
    {s : Fin t.size} (hr : (c.slot s).state = .ready) : (c'.slot s).state = .ready := by
  cases ha : action.job? with
  | some id =>
      rcases h.state_cases (turnsTo_of_step ha hs) s with he | ⟨he, -⟩ | ⟨he, -⟩
      · exact he ▸ hr
      all_goals rw [hr] at he; cases he
  | none =>
      refine (changesTo_of_step ha hs).1.induct (P := fun d => (d.slot s).state = .ready) ?_ hr
      intro c operation d hc change
      rcases change.sets.state_cases s with he | ⟨he, -⟩
      · exact he ▸ hc
      · rw [hc] at he; cases he

/-- What a service depends on is ready once its direct dependencies are. -/
theorem Upright.ready_all (h : Upright c) {s d : Fin t.size}
    (hs : ∀ d ∈ t.dependencies s, (c.slot d).state = .ready) (hd : t.DependsOn s d) :
    (c.slot d).state = .ready := by
  induction hd with
  | single hd => exact hs _ hd
  | tail _ hd ih => exact h.ready _ (by rw [ih]; decide) _ hd

/-- `Upright` holds at the end of every run in which nothing is stopped. -/
theorem Run.upright {start : Controller t} {past : List (Moment t)} (run : Run start past c)
    (hf : Fits start) (h : Upright start) (hu : c.Unstopped) : Fits c ∧ Upright c := by
  induction run with
  | refl => exact ⟨hf, h⟩
  | tail run hs ih =>
      obtain ⟨hf, h⟩ := ih (unstopped_of_step hs hu)
      exact ⟨hf.step hs, h.step hf hs hu⟩

theorem Run.unstopped {start : Controller t} {past : List (Moment t)} (run : Run start past c)
    (hu : c.Unstopped) : start.Unstopped := by
  induction run with
  | refl => exact hu
  | tail _ hs ih => exact ih (unstopped_of_step hs hu)

/-- What is ready stays ready. -/
theorem Run.ready_stays {start : Controller t} {past : List (Moment t)} (run : Run start past c)
    (hf : Fits start) (h : Upright start) (hu : c.Unstopped) {s : Fin t.size}
    (hr : (start.slot s).state = .ready) : ∀ p ∈ instants c past, (p.slot s).state = .ready := by
  induction run with
  | refl => simpa [instants] using hr
  | tail run hs ih =>
      have hu' := unstopped_of_step hs hu
      have := ih hu'
      intro p hp
      rcases List.mem_cons.1 hp with rfl | hp
      · exact (run.upright hf h hu').2.ready_of_step hs (this _ List.mem_cons_self)
      · exact this p hp

/-! ## The theorem -/

section

variable {config : Config} {past later earlier : List (Moment t)} {m : Moment t} {s d : Fin t.size}

/-- A job that moves its service to starting has a call that waits for it, and since every such call
was made, each dependency was ready. -/
theorem Run.seen_ready (run : Run (fresh t config) past c) {id : Nat} {job : StartJob t.size}
    (hj : c.jobs[id]? = some (.start job)) (hp : job.phase = .entering) :
    (∃ (k : Nat) (call : Call t.size), c.calls[k]? = some call ∧ call.Awaits id) ∧
      ∀ (k : Nat) (call : Call t.size), c.calls[k]? = some call → call.Awaits id →
        ∀ d ∈ t.dependencies job.service, ∃ p ∈ instants c past,
          k < p.calls.size ∧ (p.slot d).state = .ready := by
  have ordered := run.ordered.weaken
  refine ⟨ordered.awaited hj (by rw [hp]; simp), ?_⟩
  intro k call hk hw d hd
  obtain ⟨p, hp, hi, hr⟩ :=
    (ordered.seen hj (by rw [hp]; rfl) d hd).resolve_left List.not_mem_nil
  exact ⟨p, hp, ordered.opened hk hw p hp hi, hr⟩

/-- Where nothing is stopped in the end, nothing was when a step was taken. -/
theorem Run.upright_before (run : Run (fresh t config) past c) (hu : c.Unstopped)
    (hpast : past = later ++ m :: earlier) :
    Fits m.before ∧ Upright m.before ∧ m.after.Unstopped := by
  have hs := run.step_of_mem (hpast ▸ List.mem_append_right _ List.mem_cons_self)
  obtain ⟨before, rest⟩ := run.split hpast
  have hafter := rest.unstopped hu
  obtain ⟨hf, h⟩ := before.upright (fits_fresh config) (upright_fresh config)
    (unstopped_of_step hs hafter)
  exact ⟨hf, h, hafter⟩

/-- All that a service depends on is ready when it is moved to starting. -/
theorem Upright.ready_of_enters (h : Upright c) (hs : c.step now action = some (c', effects))
    (hb : (c.slot s).state ≠ .starting) (ha : (c'.slot s).state = .starting)
    (hd : t.DependsOn s d) : (c.slot d).state = .ready := by
  obtain ⟨id, job, -, hj, rfl, hp, -, -⟩ := enters_of_step hs hb ha
  refine h.ready_all (?_) hd
  intro e he
  exact (h.seen hj (by rw [hp]; rfl) e he).resolve_left List.not_mem_nil

theorem Run.ready_since (run : Run (fresh t config) past c) (hu : c.Unstopped)
    (hpast : past = later ++ m :: earlier) (hm : m.Enters s) (hd : t.DependsOn s d) :
    (m.before.slot d).state = .ready ∧ ∀ p ∈ instants c later, (p.slot d).state = .ready := by
  have hs := run.step_of_mem (hpast ▸ List.mem_append_right _ List.mem_cons_self)
  obtain ⟨hf, h, hafter⟩ := run.upright_before hu hpast
  have hr := h.ready_of_enters hs hm.1 hm.2 hd
  refine ⟨hr, ?_⟩
  have rest := (run.split hpast).2
  exact rest.ready_stays (hf.step hs) (h.step hf hs hafter) hu (h.ready_of_step hs hr)

theorem Run.never_starts (run : Run (fresh t config) past c) (hu : c.Unstopped)
    (hd : t.DependsOn s d) (hnever : ∀ p ∈ instants c past, (p.slot d).state ≠ .ready)
    (hm : m ∈ past) : ¬ m.Enters s ∧ ¬ m.AsksStart s := by
  obtain ⟨later, earlier, hpast⟩ := List.append_of_mem hm
  obtain ⟨-, h, -⟩ := run.upright_before hu hpast
  have hn : (m.before.slot d).state ≠ .ready :=
    hnever _ (List.mem_cons_of_mem _ (List.mem_map_of_mem hm))
  constructor
  · intro he
    exact hn (h.ready_of_enters (run.step_of_mem hm) he.1 he.2 hd)
  · -- The launch was created when the service was moved to starting, so the service is not pending.
    rintro ⟨id, l, hl, rfl, -⟩
    exact hn (h.ready_all (h.ready _ (h.launched hl)) hd)

end

/-- **Dependencies come first.** In every run of a fresh controller, a service is moved to starting
only by a start job that some call waits for, and each of its direct dependencies was ready at an
instant at which every such call had been made. As long as no call stops anything, all that the
service depends on is ready at that instant and ever after, and a service that depends on one that
was never ready does not enter starting, nor is the engine asked to start a container for it. -/
theorem Run.dependencies_first {config : Config} {past : List (Moment t)}
    (run : Run (fresh t config) past c) :
    (∀ (later : List (Moment t)) (m : Moment t) (earlier : List (Moment t)) (s : Fin t.size),
      past = later ++ m :: earlier → m.Enters s →
        ∃ id, m.action = .run id ∧
          (∃ job, m.before.jobs[id]? = some (.start job) ∧ job.service = s) ∧
          (∃ (k : Nat) (call : Call t.size), m.before.calls[k]? = some call ∧ call.Awaits id) ∧
          ∀ (k : Nat) (call : Call t.size), m.before.calls[k]? = some call → call.Awaits id →
            ∀ d ∈ t.dependencies s, ∃ p ∈ instants m.before earlier,
              k < p.calls.size ∧ (p.slot d).state = .ready) ∧
    (c.Unstopped →
      (∀ (later : List (Moment t)) (m : Moment t) (earlier : List (Moment t)) (s d : Fin t.size),
        past = later ++ m :: earlier → m.Enters s → t.DependsOn s d →
          (m.before.slot d).state = .ready ∧ ∀ p ∈ instants c later, (p.slot d).state = .ready) ∧
      ∀ s d, t.DependsOn s d → (∀ p ∈ instants c past, (p.slot d).state ≠ .ready) →
        ∀ m ∈ past, ¬ m.Enters s ∧ ¬ m.AsksStart s) := by
  refine ⟨?_, fun hu => ⟨?_, ?_⟩⟩
  · intro later m earlier s hpast hm
    have hs := run.step_of_mem (hpast ▸ List.mem_append_right _ List.mem_cons_self)
    obtain ⟨id, job, ha, hj, rfl, hp, -, -⟩ := enters_of_step hs hm.1 hm.2
    obtain ⟨hawaited, hseen⟩ := (run.split hpast).1.seen_ready hj hp
    exact ⟨id, ha, ⟨job, hj, rfl⟩, hawaited, hseen⟩
  · intro later m earlier s d hpast hm hd
    exact run.ready_since hu hpast hm hd
  · intro s d hd hnever m hm
    exact run.never_starts hu hd hnever hm

/-! ### A run of two services -/

/-- A web server that depends on a database. -/
def pair : Topology where
  services := [{ id := ⟨"db"⟩, image := "db:img" }, { id := ⟨"web"⟩, image := "web:img" }]
  index := [(⟨"web"⟩, 1), (⟨"db"⟩, 0)]
  graph := { nodes := [⟨"db"⟩, ⟨"web"⟩], edges := [(0, 1)] }

def db : Fin pair.size := ⟨0, by decide⟩

def web : Fin pair.size := ⟨1, by decide⟩

/-- The database is started and found ready, and then the web server enters starting. -/
def pairSteps : List (Nat × Action) :=
  [(0, .invoke .startAll), (0, .run 0), (0, .run 0), (0, .run 2),
    (20, .answer 2 (.container (.start (.ok ⟨⟨"db"⟩, "1"⟩)))), (20, .run 0), (20, .run 0),
    (20, .run 0), (30, .answer 0 (.container (.probe .ready))), (30, .run 0), (30, .run 1),
    (30, .run 1), (30, .run 1)]

/-- The theorem at the last step of that run. -/
theorem dependencies_first_pair :
    ∃ (past : List (Moment pair)) (c : Controller pair) (m : Moment pair)
      (earlier : List (Moment pair)), Run (fresh pair {}) past c ∧ past = m :: earlier ∧
        m.Enters web ∧ c.Unstopped ∧ (m.before.slot db).state = .ready ∧
        ∃ k, ∃ p ∈ instants m.before earlier, k < p.calls.size ∧ (p.slot db).state = .ready := by
  obtain ⟨past, c, run, shown⟩ := exists_run (fresh pair {}) pairSteps
    (fun past c => (c.calls.toList.all fun call => call.operation = .startAll) &&
      past.head?.any fun m =>
        (m.before.slot web).state = .pending && (m.after.slot web).state = .starting)
    (by decide +kernel)
  obtain ⟨hcalls, hlast⟩ := Bool.and_eq_true_iff.1 shown
  obtain ⟨m, hm, hstates⟩ := (Option.any_eq_true _ _).1 hlast
  obtain ⟨earlier, rfl⟩ := List.head?_eq_some_iff.1 hm
  have enters : m.Enters web := by
    rw [Bool.and_eq_true, decide_eq_true_iff, decide_eq_true_iff] at hstates
    exact ⟨by rw [hstates.1]; decide, hstates.2⟩
  have unstopped : c.Unstopped := by
    intro k call hk
    have hmem : call ∈ c.calls.toList := List.mem_of_getElem? (by simpa using hk)
    rw [of_decide_eq_true (List.all_eq_true.1 hcalls call hmem)]
    exact id
  have needs : db ∈ pair.dependencies web := by decide +kernel
  obtain ⟨hfirst, hrest⟩ := run.dependencies_first
  obtain ⟨id, -, -, ⟨k, call, hk, ha⟩, hdeps⟩ := hfirst [] m earlier web rfl enters
  obtain ⟨hready, -⟩ := (hrest unstopped).1 [] m earlier web db rfl enters (.single needs)
  exact ⟨_, c, m, earlier, run, rfl, enters, unstopped, hready, k, hdeps k call hk ha db needs⟩

end Controller

end Lifecycle

end Bringup
