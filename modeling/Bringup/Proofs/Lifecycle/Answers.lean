import Bringup.Proofs.Lifecycle.DependentsDown

/-!
# When calls answer

A call answers at the time of the step in which it does (`answer_of_step`), and keeps its operation and
its jobs all along (`Run.call_kept`). The jobs that a start of all services waits for are start jobs, and
those of a stop are stop jobs (`Run.jobsFit`); a stop job that is not at its end has a call that waits for
it (`Run.stopsWatched`).
-/

namespace Bringup.Lifecycle.Controller

variable {t : Topology} {c c' d : Controller t} {now : Nat} {id : JobId} {action : Action}
  {effects : List Effect} {operation : Operation} {k : Nat} {call : Call t.size} {answer : Answer}
  {time : Nat}

/-! ## The time of an answer -/

theorem answer?_of_call (hk : c.calls[k]? = some call) : c.answer? k = call.answer? := by
  rw [answer?, hk]
  rfl

/-- Where all other calls have answered, only this one goes on. -/
theorem proceed_of_lone {i : Nat} (hlone : ∀ (k : Nat) (call : Call t.size), c.calls[k]? = some call →
    k ≠ i → call.answer?.isSome) (hs : c.step now (.proceed k) = some (c', effects)) :
    k = i ∧ ∃ call, c.calls[i]? = some call ∧ c.proceed now i call = some (c', effects) := by
  obtain ⟨call, hk, hproceed⟩ := Option.bind_eq_some_iff.1 hs
  have hi : k = i := by
    by_contra hne
    obtain ⟨answer, time, hp⟩ := Call.phase_of_answer (hlone k call hk hne)
    simp [proceed, hp] at hproceed
  exact ⟨hi, call, hi ▸ hk, hi ▸ hproceed⟩

/-- A change leaves what a call has answered, or the call answers now. -/
theorem CallChange.answer_cases (change : CallChange now c operation d)
    (hk : c.calls[k]? = some call) (ha : d.answer? k = some (answer, time)) :
    c.answer? k = some (answer, time) ∨ time = now := by
  have hlt := (Array.getElem?_eq_some_iff.1 hk).1
  have hkept (hd : d.calls[k]? = c.calls[k]?) : c.answer? k = some (answer, time) := by
    rw [answer?, ← hd]
    exact ha
  have hmoved {e : Controller t} (he : e.calls = c.calls) {i : CallId} {phase : CallPhase t.size}
      (hd : d = e.setCallPhase i phase)
      (hp : ∀ answer time, phase = .answered answer time → time = now) :
      c.answer? k = some (answer, time) ∨ time = now := by
    subst hd
    by_cases hki : k = i
    · subst hki
      have hself := calls_setCallPhase_self (he ▸ hk) phase
      rw [answer?_of_call hself] at ha
      obtain ⟨answer', time', hphase⟩ := Call.phase_of_answer (Option.isSome_of_mem ha)
      rw [Call.answer?, hphase] at ha
      obtain ⟨rfl, rfl⟩ := Prod.mk.inj (Option.some.inj ha)
      exact .inr (hp _ _ hphase)
    · exact .inl (hkept (by rw [calls_setCallPhase_of_ne hki, he]))
  cases change with
  | start => exact .inl (hkept (by rw [calls_openCall_of_lt (by simpa using hlt)]; simp))
  | stop => exact .inl (hkept (calls_openCall_of_lt (c := c.cancelRuns.spawnStops _) hlt))
  | stopNothing | cancel => exact .inl (hkept (calls_openCall_of_lt (c := c.cancelRuns) hlt))
  | ask => exact .inl (hkept (calls_openCall_of_lt hlt))
  | progress hc hp =>
      refine hmoved rfl rfl fun answer time he => ?_
      cases hp with
      | reported | refused | restarted | swept | handedOn => exact (CallPhase.answered.inj he).2.symm
      | _ => cases he
  | restop => exact hmoved (calls_spawn _) rfl (by simp)
  | restart => exact hmoved (by simp) rfl (by simp)
  | sweep => exact hmoved (calls_setSlot _ _) rfl (by simp)

/-- **A call answers at the time of the step** in which it does. -/
theorem answer_of_step (hs : c.step now action = some (c', effects)) (hk : k < c.calls.size)
    (ha : c'.answer? k = some (answer, time)) : c.answer? k = some (answer, time) ∨ time = now := by
  obtain ⟨call, hcall⟩ : ∃ call, c.calls[k]? = some call := ⟨_, Array.getElem?_eq_getElem hk⟩
  have keep : (∃ call, c'.calls[k]? = some call) ∧ ∀ answer time,
      c'.answer? k = some (answer, time) → c.answer? k = some (answer, time) ∨ time = now := by
    refine step_induct (P := fun d => (∃ call, d.calls[k]? = some call) ∧ ∀ answer time,
      d.answer? k = some (answer, time) → c.answer? k = some (answer, time) ∨ time = now) hs ?_ ?_
      ⟨⟨call, hcall⟩, fun _ _ h => .inl h⟩
    · rintro id ⟨old, new, slot, aside, -, -, rfl⟩
      simp only [answer?, calls_after]
      exact ⟨⟨call, hcall⟩, fun _ _ h => .inl h⟩
    · rintro d operation e ⟨⟨call, hd⟩, h⟩ change
      obtain ⟨call', he, -⟩ := change.operation_kept hd
      refine ⟨⟨call', he⟩, fun answer time ha => ?_⟩
      rcases change.answer_cases hd ha with ha | rfl
      · exact h answer time ha
      · exact .inr rfl
  exact keep.2 answer time ha

/-- A call keeps its operation and its jobs. -/
theorem Run.call_kept {start : Controller t} {past : List (Moment t)} (run : Run start past c)
    (hk : start.calls[k]? = some call) :
    ∃ call', c.calls[k]? = some call' ∧ call'.operation = call.operation ∧ call'.jobs = call.jobs := by
  refine run.invariant (P := fun c => ∃ call', c.calls[k]? = some call' ∧
    call'.operation = call.operation ∧ call'.jobs = call.jobs) ⟨call, hk, rfl, rfl⟩ fun h hs => ?_
  refine step_induct (P := fun c => ∃ call', c.calls[k]? = some call' ∧
    call'.operation = call.operation ∧ call'.jobs = call.jobs) hs ?_ ?_ h
  · rintro id ⟨old, new, slot, aside, -, -, rfl⟩
    rw [calls_after]
    exact h
  · rintro d operation e ⟨call', hk', ho, hjobs⟩ change
    obtain ⟨later, hlater, ho', hjobs'⟩ := change.call_kept hk'
    exact ⟨later, hlater, ho'.trans ho, hjobs'.trans hjobs⟩

/-! ## The jobs of a call -/

/-- The jobs of a start of all services are start jobs, and those of a stop are stop jobs. -/
def JobsFit (c : Controller t) : Prop :=
  ∀ (k : Nat) (call : Call t.size), c.calls[k]? = some call → ∀ id ∈ call.jobs,
    ∃ job, c.jobs[id]? = some job ∧ (call.operation = .startAll → job.kind = .start) ∧
      (call.operation = .stopAll → job.kind = .stop)

theorem JobsFit.turn (h : JobsFit c) (ht : TurnsTo c now id action c' effects) : JobsFit c' := by
  obtain ⟨old, new, slot, aside, hj, turn, rfl⟩ := ht
  intro k call hk i hi
  rw [calls_after] at hk
  obtain ⟨job, hjob, hstart, hstop⟩ := h k call hk i hi
  obtain ⟨job', hjob', hkind, -⟩ := job_kept turn hj hjob
  exact ⟨job', hjob', fun ho => hkind.trans (hstart ho), fun ho => hkind.trans (hstop ho)⟩

theorem JobsFit.change (h : JobsFit c) (change : CallChange now c operation d) : JobsFit d := by
  intro k call hk
  by_cases hlt : k < c.calls.size
  · have hold := Array.getElem?_eq_getElem hlt
    obtain ⟨call', hk', ho, hjobs⟩ := change.call_kept hold
    obtain rfl : call = call' := Option.some.inj (hk.symm.trans hk')
    intro id hid
    obtain ⟨job, hj, hfits⟩ := h k _ hold id (hjobs ▸ hid)
    exact ⟨job, change.sets.jobs_kept hj, ho ▸ hfits⟩
  · cases change with
    | @start order horder =>
        obtain ⟨-, rfl⟩ := (calls_openCall_cases hk).resolve_left fun hk' =>
          hlt (by simpa using (Array.getElem?_eq_some_iff.1 hk').1)
        intro id hid
        obtain ⟨i, hi, rfl⟩ := List.mem_map.1 hid
        have hi := List.mem_range.1 hi
        refine ⟨.start { service := order[i], run := c.arm.currentRun }, ?_, fun _ => rfl, by simp⟩
        refine (job_spawnStarts order i).trans ?_
        rw [List.getElem?_eq_getElem hi]
        rfl
    | @stop order horder =>
        obtain ⟨-, rfl⟩ := (calls_openCall_cases hk).resolve_left fun hk' =>
          hlt (Array.getElem?_eq_some_iff.1 hk').1
        intro id hid
        obtain ⟨i, hi, rfl⟩ := List.mem_map.1 hid
        have hi := List.mem_range.1 hi
        refine ⟨.stop { service := order[i], phase := .awaiting ((t.dependents order[i]).map fun d =>
          c.jobs.size + order.idxOf d) }, ?_, by simp, fun _ => rfl⟩
        have hge : c.cancelRuns.jobs.size ≤ c.jobs.size + i := Nat.le_add_right _ _
        show (c.cancelRuns.spawnStops order).jobs[c.jobs.size + i]? = _
        rw [spawnStops, jobs_spawn_of_ge _ hge, jobs_cancelRuns, Nat.add_sub_cancel_left,
          List.getElem?_map, List.getElem?_eq_getElem hi]
        rfl
    | stopNothing | cancel | ask =>
        rcases calls_openCall_cases hk with hk' | ⟨-, rfl⟩
        · exact absurd (Array.getElem?_eq_some_iff.1 hk').1 hlt
        · exact fun _ hid => absurd hid (by simp)
    | progress | restop | restart | sweep =>
        rcases calls_setCallPhase_cases hk with ⟨-, hk'⟩ | ⟨old, rfl, hk', -⟩
        all_goals exact absurd (by simpa using (Array.getElem?_eq_some_iff.1 hk').1) hlt

theorem Run.jobsFit {config : Config} {past : List (Moment t)} (run : Run (fresh t config) past c) :
    JobsFit c :=
  run.invariant (by simp [JobsFit, fresh]) fun h hs =>
    step_induct hs (fun _ turn => h.turn turn) JobsFit.change h

/-- The call waits until the stop job is at its end. -/
def WatchesStop (call : Call t.size) (id : JobId) : Prop :=
  (call.phase = .joining ∧ id ∈ call.jobs) ∨ ∃ s, call.phase = .stopping s id

/-- A stop job that is not at its end has a call that waits for it. -/
def StopsWatched (c : Controller t) : Prop :=
  ∀ (id : Nat) (job : StopJob t.size), c.jobs[id]? = some (.stop job) → job.phase ≠ .finished →
    ∃ (k : Nat) (call : Call t.size), c.calls[k]? = some call ∧ WatchesStop call id

theorem StopsWatched.turn (h : StopsWatched c) (ht : TurnsTo c now id action c' effects) :
    StopsWatched c' := by
  obtain ⟨old, new, slot, aside, hj, turn, rfl⟩ := ht
  intro i job hi hf
  rw [calls_after]
  rcases stop_after_cases (lt_size_of_job hj) hi with ⟨rfl, rfl⟩ | ⟨-, hi⟩
  · cases turn with
    | stop turn => exact h i _ hj turn.phase_ne_finished
  · exact h i job hi hf

/-- A call goes on waiting for a stop job until that is at its end. -/
theorem CallChange.watchesStop (change : CallChange now c operation d)
    (hk : c.calls[k]? = some call) (ha : WatchesStop call id) {job : StopJob t.size}
    (hj : c.jobs[id]? = some (.stop job)) (hf : job.phase ≠ .finished) :
    ∃ call', d.calls[k]? = some call' ∧ WatchesStop call' id := by
  have hlt := (Array.getElem?_eq_some_iff.1 hk).1
  have hunfinished : ¬ c.isFinished id := by
    rw [isFinished_of_job hj]
    exact mt Job.isFinished_stop.1 hf
  have hmoved {e : Controller t} (he : e.calls = c.calls) {i : CallId} {old : Call t.size}
      (phase : CallPhase t.size) (hi : c.calls[i]? = some old) (hn : ¬ WatchesStop old id) :
      (e.setCallPhase i phase).calls[k]? = some call := by
    have hne : k ≠ i := by
      rintro rfl
      exact hn (Option.some.inj (hk.symm.trans hi) ▸ ha)
    rw [calls_setCallPhase_of_ne hne, he, hk]
  refine ⟨call, ?_, ha⟩
  cases change with
  | start => rw [calls_openCall_of_lt (by simpa using hlt)]; simpa using hk
  | stop => exact (calls_openCall_of_lt (c := c.cancelRuns.spawnStops _) hlt).trans hk
  | stopNothing | cancel => exact (calls_openCall_of_lt (c := c.cancelRuns) hlt).trans hk
  | ask => exact (calls_openCall_of_lt hlt).trans hk
  | progress hc hp =>
      refine hmoved rfl _ hc ?_
      -- It would have found the job at its end.
      rintro (⟨hw, hm⟩ | ⟨s, hw⟩)
      · cases hp with
        | joined _ hall => exact hunfinished (hall _ hm)
        | _ => simp_all
      · cases hp <;> simp_all
  | restop hc hp => exact hmoved (calls_spawn _) _ hc (by simp [WatchesStop, hp])
  | restart hc hp hr =>
      refine hmoved (by simp) _ hc ?_
      rintro (⟨hw, -⟩ | ⟨s, hw⟩)
      · rw [hp] at hw
        cases hw
      · rw [hp, CallPhase.stopping.injEq] at hw
        exact hunfinished (hw.2 ▸ hr)
  | sweep hc hp => exact hmoved (calls_setSlot _ _) _ hc (by simp [WatchesStop, hp])

/-- A stop job that a change creates is awaited by a call. -/
theorem CallChange.watchesStop_new (change : CallChange now c operation d) {job : StopJob t.size}
    (hj : d.jobs[id]? = some (.stop job)) (hn : c.jobs.size ≤ id) :
    ∃ (k : Nat) (call : Call t.size), d.calls[k]? = some call ∧ WatchesStop call id := by
  have hlt := lt_size_of_job hj
  cases change with
  | @stop order h =>
      refine ⟨_, _, calls_openCall_size, .inl ⟨rfl, ?_⟩⟩
      have hlt' : id < (c.cancelRuns.spawnStops order).jobs.size := hlt
      have hsize : id < c.jobs.size + order.length := by simpa [spawnStops] using hlt'
      exact List.mem_map.2 ⟨id - c.jobs.size,
        List.mem_range.2 (Nat.sub_lt_left_of_lt_add hn hsize), Nat.add_sub_of_le hn⟩
  | @start order h =>
      -- All that a start creates are start jobs.
      have hj' : (c.arm.spawnStarts order).jobs[id]? = some (.stop job) := hj
      rw [jobs_spawnStarts, jobs_spawn_of_ge _ (by simpa using hn), List.getElem?_map] at hj'
      obtain ⟨s, -, hs⟩ := Option.map_eq_some_iff.1 hj'
      cases hs
  | stopNothing | cancel | ask => exact absurd hlt (Nat.not_lt.2 hn)
  | progress | sweep =>
      rw [jobs_setCallPhase] at hlt
      exact absurd hlt (Nat.not_lt.2 hn)
  | @restop k call s hc hp =>
      rw [jobs_setCallPhase, size_jobs_spawn] at hlt
      obtain rfl : c.jobs.size = id := Nat.le_antisymm hn (Nat.le_of_lt_succ hlt)
      exact ⟨k, _, calls_setCallPhase_self (by simpa using hc) _, .inr ⟨s, rfl⟩⟩
  | restart hc hp hf =>
      rw [jobs_setCallPhase, jobs_spawnStarts, jobs_spawn_of_ge _ (by simpa using hn)] at hj
      have := List.mem_of_getElem? hj
      simp at this

theorem StopsWatched.change (h : StopsWatched c) (change : CallChange now c operation d) :
    StopsWatched d := by
  intro i job hi hf
  by_cases hlt : i < c.jobs.size
  · obtain ⟨old, hold⟩ : ∃ old, c.jobs[i]? = some old := ⟨_, Array.getElem?_eq_getElem hlt⟩
    obtain rfl : Job.stop job = old := Option.some.inj (hi.symm.trans (change.sets.jobs_kept hold))
    obtain ⟨k, call, hk, ha⟩ := h i job hold hf
    exact ⟨k, change.watchesStop hk ha hold hf⟩
  · exact change.watchesStop_new hi (Nat.le_of_not_lt hlt)

theorem Run.stopsWatched {config : Config} {past : List (Moment t)}
    (run : Run (fresh t config) past c) : StopsWatched c :=
  run.invariant (by simp [StopsWatched, fresh]) fun h hs =>
    step_induct hs (fun _ turn => h.turn turn) StopsWatched.change h

end Bringup.Lifecycle.Controller
