import Bringup.Proofs.Lifecycle.Published

/-!
# Calls and what they wait for

Every start job has a call that waits for it until it is at its end (`CallChange.awaits`,
`CallChange.awaits_new`), and a call never comes to wait for a job that existed before
(`CallChange.awaited_before`). The phase of a call always fits what was called (`Fits`), and what was
called never changes.
-/

namespace Bringup.Lifecycle

variable {t : Topology}

/-- The call waits for the start job. -/
def Call.Awaits {n : Nat} (call : Call n) (id : JobId) : Prop :=
  (call.phase = .joining ∧ id ∈ call.jobs) ∨ ∃ s, call.phase = .starting s id

namespace Operation

variable {n : Nat} {operation : Operation} {s : Fin n}

theorem allows_checking (h : operation.Allows (.checking s)) : ∃ id, operation = .restart id := by
  cases operation <;> first | exact ⟨_, rfl⟩ | cases h

theorem allows_stopping {job : JobId} (h : operation.Allows (.stopping s job)) :
    ∃ id, operation = .restart id := by
  cases operation <;> first | exact ⟨_, rfl⟩ | cases h

theorem allows_sweeping {services : List (Fin n)} (h : operation.Allows (.sweeping services)) :
    operation = .cancel := by
  cases operation <;> first | rfl | cases h

end Operation

namespace Controller

variable {c : Controller t} {now : Nat} {operation : Operation}

/-- A call that awaits a start job before a change awaits it afterwards, or the job is at its end. -/
theorem CallChange.awaits {d : Controller t} (change : CallChange now c operation d) {k id : Nat}
    {call : Call t.size} {job : StartJob t.size} (hk : c.calls[k]? = some call)
    (ha : call.Awaits id) (hj : c.jobs[id]? = some (.start job)) (hf : job.phase ≠ .finished) :
    ∃ call', d.calls[k]? = some call' ∧ call'.Awaits id := by
  have hlt := (Array.getElem?_eq_some_iff.1 hk).1
  have hnf : ¬ c.isFinished id := by rwa [isFinished_of_job hj, Job.isFinished_start]
  -- A call that moves on had nothing to wait for.
  have hmoved {e : Controller t} (he : e.calls = c.calls) {i : Nat} {old : Call t.size}
      (phase : CallPhase t.size) (ho : c.calls[i]? = some old) (hn : ¬ old.Awaits id) :
      (e.setCallPhase i phase).calls[k]? = some call := by
    rw [calls_setCallPhase_of_ne, he, hk]
    rintro rfl
    rw [hk] at ho
    exact hn (Option.some.inj ho ▸ ha)
  cases change with
  | start h => exact ⟨call, by rw [calls_openCall_of_lt (by simpa using hlt)]; simpa using hk, ha⟩
  | stop h => exact ⟨call, (calls_openCall_of_lt (c := c.cancelRuns.spawnStops _) hlt).trans hk, ha⟩
  | stopNothing | cancel =>
      exact ⟨call, (calls_openCall_of_lt (c := c.cancelRuns) hlt).trans hk, ha⟩
  | ask hw hf => exact ⟨call, (calls_openCall_of_lt hlt).trans hk, ha⟩
  | progress hc hp =>
      refine ⟨call, hmoved rfl _ hc ?_, ha⟩
      -- It would have found the job at its end.
      rintro (⟨hw, hm⟩ | ⟨s, hw⟩)
      · cases hp with
        | joined _ hf => exact hnf (hf _ hm)
        | _ => simp_all
      · cases hp with
        | started hs hf =>
            rw [hs, CallPhase.starting.injEq] at hw
            exact hnf (hw.2 ▸ hf)
        | _ => simp_all
  | restop hc hp hs =>
      exact ⟨call, hmoved (calls_spawn _) _ hc (by simp [Call.Awaits, hp]), ha⟩
  | restart hc hp hs => exact ⟨call, hmoved (by simp) _ hc (by simp [Call.Awaits, hp]), ha⟩
  | sweep hc hp =>
      exact ⟨call, hmoved (calls_setSlot _ _) _ hc (by simp [Call.Awaits, hp]), ha⟩

/-- A call that awaits a start job after a change awaited it before, or the job is new. -/
theorem CallChange.awaited_before {d : Controller t} (change : CallChange now c operation d)
    {k id : Nat} {call : Call t.size} (hk : d.calls[k]? = some call) (ha : call.Awaits id) :
    (∃ call', c.calls[k]? = some call' ∧ call'.Awaits id) ∨ c.jobs.size ≤ id := by
  have hrange {m : Nat} (h : id ∈ (List.range m).map (c.jobs.size + ·)) : c.jobs.size ≤ id := by
    obtain ⟨i, -, rfl⟩ := List.mem_map.1 h
    exact Nat.le_add_right _ _
  -- The call is the one that was opened or moved, or it is as it was.
  cases change with
  | start h =>
      rcases calls_openCall_cases hk with hk | ⟨-, rfl⟩
      · exact .inl ⟨call, by simpa using hk, ha⟩
      · exact .inr (hrange (by simpa [Call.Awaits] using ha))
  | stop h =>
      rcases calls_openCall_cases hk with hk | ⟨-, rfl⟩
      · exact .inl ⟨call, by simpa using hk, ha⟩
      · exact .inr (hrange (by simpa [Call.Awaits] using ha))
  | stopNothing | cancel =>
      rcases calls_openCall_cases hk with hk | ⟨-, rfl⟩
      · exact .inl ⟨call, hk, ha⟩
      · simp [Call.Awaits] at ha
  | ask hw hf =>
      rcases calls_openCall_cases hk with hk | ⟨-, rfl⟩
      · exact .inl ⟨call, hk, ha⟩
      · rcases ha with ⟨hp, -⟩ | ⟨s, hp⟩
        all_goals simp only at hp; simp [hp, CallPhase.Waits] at hw
  | progress hc hp =>
      rcases calls_setCallPhase_cases hk with ⟨-, hk⟩ | ⟨old, rfl, ho, rfl⟩
      · exact .inl ⟨call, hk, ha⟩
      · cases hp <;> simp [Call.Awaits] at ha
  | restop hc hp hs =>
      rcases calls_setCallPhase_cases hk with ⟨-, hk⟩ | ⟨old, rfl, ho, rfl⟩
      · exact .inl ⟨call, hk, ha⟩
      · simp [Call.Awaits] at ha
  | restart hc hp hs =>
      rcases calls_setCallPhase_cases hk with ⟨-, hk⟩ | ⟨old, rfl, ho, rfl⟩
      · exact .inl ⟨call, by simpa using hk, ha⟩
      · obtain ⟨s, hs⟩ := ha.resolve_left (by simp)
        exact .inr (Nat.le_of_eq (CallPhase.starting.inj hs).2)
  | sweep hc hp =>
      rcases calls_setCallPhase_cases hk with ⟨-, hk⟩ | ⟨old, rfl, ho, rfl⟩
      · exact .inl ⟨call, hk, ha⟩
      · simp [Call.Awaits] at ha

/-- A start job that a change creates is awaited by a call. -/
theorem CallChange.awaits_new {d : Controller t} (change : CallChange now c operation d) {id : Nat}
    {job : StartJob t.size} (hj : d.jobs[id]? = some (.start job)) (hn : c.jobs.size ≤ id) :
    ∃ (k : Nat) (call : Call t.size), d.calls[k]? = some call ∧ call.Awaits id := by
  have hlt := lt_size_of_job hj
  cases change with
  | @start order h =>
      refine ⟨_, _, calls_openCall_size, .inl ⟨rfl, ?_⟩⟩
      have : id < c.jobs.size + order.length := by simpa [openCall] using hlt
      exact List.mem_map.2 ⟨id - c.jobs.size, List.mem_range.2 (by omega), Nat.add_sub_of_le hn⟩
  | @stop order h =>
      -- All that a stop creates are stop jobs.
      have hj' : (c.cancelRuns.spawnStops order).jobs[id]? = some (.start job) := hj
      rw [spawnStops, jobs_spawn_of_ge _ (by simpa using hn), List.getElem?_map] at hj'
      obtain ⟨s, -, hs⟩ := Option.map_eq_some_iff.1 hj'
      cases hs
  | stopNothing | cancel => exact absurd hlt (Nat.not_lt.2 hn)
  | ask hw hf => exact absurd hlt (Nat.not_lt.2 hn)
  | progress hc hp | sweep hc hp =>
      rw [jobs_setCallPhase] at hlt
      exact absurd hlt (Nat.not_lt.2 hn)
  | restop hc hp hs =>
      rw [jobs_setCallPhase, jobs_spawn_of_ge _ hn] at hj
      have := List.mem_of_getElem? hj
      simp at this
  | @restart k call s _ hc hp hf =>
      have hid : id = c.jobs.size := by
        have : id < c.jobs.size + 1 := by simpa using hlt
        omega
      exact ⟨k, _, calls_setCallPhase_self (by simpa using hc) _, .inr ⟨s, by rw [hid]⟩⟩

/-! ## What was called -/

/-- A call stays a call of the same operation. -/
theorem CallChange.operation_kept {d : Controller t} (change : CallChange now c operation d)
    {k : Nat} {call : Call t.size} (hk : c.calls[k]? = some call) :
    ∃ call', d.calls[k]? = some call' ∧ call'.operation = call.operation := by
  have hlt := (Array.getElem?_eq_some_iff.1 hk).1
  have hmoved {e : Controller t} (he : e.calls = c.calls) (i : Nat) (phase : CallPhase t.size) :
      ∃ call', (e.setCallPhase i phase).calls[k]? = some call' ∧
        call'.operation = call.operation := by
    by_cases hi : k = i
    · subst hi
      exact ⟨_, calls_setCallPhase_self (by rw [he, hk]) phase, rfl⟩
    · exact ⟨call, by rw [calls_setCallPhase_of_ne hi, he, hk], rfl⟩
  cases change with
  | start h =>
      exact ⟨call, by rw [calls_openCall_of_lt (by simpa using hlt)]; simpa using hk, rfl⟩
  | stop h =>
      exact ⟨call, (calls_openCall_of_lt (c := c.cancelRuns.spawnStops _) hlt).trans hk, rfl⟩
  | stopNothing | cancel =>
      exact ⟨call, (calls_openCall_of_lt (c := c.cancelRuns) hlt).trans hk, rfl⟩
  | ask hw hf => exact ⟨call, (calls_openCall_of_lt hlt).trans hk, rfl⟩
  | progress hc hp => exact hmoved rfl _ _
  | restop hc hp hs => exact hmoved (calls_spawn _) _ _
  | restart hc hp hs => exact hmoved (by simp) _ _
  | sweep hc hp => exact hmoved (calls_setSlot _ _) _ _

/-- The phase of every call fits what was called. -/
def Fits (c : Controller t) : Prop :=
  ∀ (k : Nat) (call : Call t.size), c.calls[k]? = some call → call.operation.Allows call.phase

theorem Progresses.allows {call : Call t.size} {phase : CallPhase t.size}
    (h : c.Progresses now call phase) (ha : call.operation.Allows call.phase) :
    call.operation.Allows phase := by
  obtain ⟨operation, jobs, old⟩ := call
  cases h <;> simp only at * <;> subst_vars <;> cases operation <;> trivial

theorem Fits.openCall (h : Fits c) {operation : Operation} {jobs : List JobId}
    {phase : CallPhase t.size} (ha : operation.Allows phase) :
    Fits (c.openCall operation jobs phase).1 := by
  intro k call hk
  rcases calls_openCall_cases hk with hk | ⟨-, rfl⟩
  · exact h k call hk
  · exact ha

theorem Fits.setCallPhase (h : Fits c) {id : Nat} {call : Call t.size} {phase : CallPhase t.size}
    (hc : c.calls[id]? = some call) (ha : call.operation.Allows phase) :
    Fits (c.setCallPhase id phase) := by
  intro k call' hk
  rcases calls_setCallPhase_cases hk with ⟨-, hk⟩ | ⟨old, rfl, ho, rfl⟩
  · exact h k call' hk
  · rw [hc, Option.some.injEq] at ho
    exact ho ▸ ha

theorem Fits.of_calls (h : Fits c) {d : Controller t} (hd : d.calls = c.calls) : Fits d := by
  rwa [Fits, hd]

theorem Fits.change {d : Controller t} (h : Fits c) (change : CallChange now c operation d) :
    Fits d := by
  cases change with
  | start _ => exact (h.of_calls (by simp)).openCall trivial
  | stop _ => exact (h.of_calls (d := c.cancelRuns.spawnStops _) rfl).openCall trivial
  | stopNothing _ | cancel => exact (h.of_calls (d := c.cancelRuns) rfl).openCall trivial
  | ask hw hf => exact h.openCall hf
  | progress hc hp => exact h.setCallPhase hc (hp.allows (h _ _ hc))
  | restop hc hp hs =>
      obtain ⟨id, ho⟩ := Operation.allows_checking (hp ▸ h _ _ hc)
      exact (h.of_calls (calls_spawn _)).setCallPhase hc (by rw [ho]; trivial)
  | restart hc hp hf =>
      obtain ⟨id, ho⟩ := Operation.allows_stopping (hp ▸ h _ _ hc)
      exact (h.of_calls (by simp)).setCallPhase (by simpa using hc) (by rw [ho]; trivial)
  | sweep hc hp =>
      have ho := Operation.allows_sweeping (hp ▸ h _ _ hc)
      exact (h.of_calls (calls_setSlot _ _)).setCallPhase hc (by rw [ho]; trivial)

theorem fits_fresh (config : Config) : Fits (fresh t config) := by
  intro k call hk
  simp [fresh] at hk

theorem Fits.step {c' : Controller t} {action : Action} {effects : List Effect} (h : Fits c)
    (hs : c.step now action = some (c', effects)) : Fits c' := by
  refine step_induct hs (?_) Fits.change h
  intro id turn
  obtain ⟨old, new, slot, aside, -, -, rfl⟩ := turn
  exact h.of_calls calls_after

/-- A change creates stop jobs only for a call that stops something. -/
theorem CallChange.stop_cases {d : Controller t} (change : CallChange now c operation d)
    (hf : c.Fits) {id : Nat} {job : StopJob t.size} (hj : d.jobs[id]? = some (.stop job)) :
    c.jobs[id]? = some (.stop job) ∨
      ∃ (k : Nat) (call : Call t.size), d.calls[k]? = some call ∧ call.operation.Stops := by
  have hstarts {e : Controller t} (he : e.jobs = c.jobs) {services : List (Fin t.size)}
      (hj : (e.spawnStarts services).jobs[id]? = some (.stop job)) :
      c.jobs[id]? = some (.stop job) := by
    rw [jobs_spawnStarts] at hj
    by_cases hid : id < e.jobs.size
    · rwa [jobs_spawn_of_lt _ hid, he] at hj
    · rw [jobs_spawn_of_ge _ (Nat.not_lt.1 hid)] at hj
      obtain ⟨s, -, hs⟩ := List.mem_map.1 (List.mem_of_getElem? hj)
      cases hs
  cases change with
  | start h => exact .inl (hstarts (jobs_arm c) hj)
  | stop h => exact .inr ⟨_, _, calls_openCall_size, trivial⟩
  | stopNothing | cancel | ask => exact .inl hj
  | progress | sweep =>
      rw [jobs_setCallPhase] at hj
      exact .inl hj
  | restart hc hp hr =>
      rw [jobs_setCallPhase] at hj
      exact .inl (hstarts (jobs_arm c) hj)
  | restop hc hp hs =>
      obtain ⟨service, ho⟩ := Operation.allows_checking (hp ▸ hf _ _ hc)
      exact .inr ⟨_, _, calls_setCallPhase_self (by exact hc) _, by rw [ho]; trivial⟩

end Controller

end Bringup.Lifecycle
