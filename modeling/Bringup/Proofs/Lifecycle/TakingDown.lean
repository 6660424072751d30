import Bringup.Proofs.Lifecycle.Reports

/-!
# The jobs of a stop

A call that stops every service has a stop job for each of them, and the job of a service waits for
the jobs of the same call for the services that depend on it. So once a stop job has gone on from
waiting, those jobs are at their end; and once the call has gone on, all its jobs are
(`Run.takesDown`).
-/

namespace Bringup.Lifecycle

variable {t : Topology}

/-- A stop job waits for what it waited for before its turn, except for what is at its end. -/
theorem StopTurn.left_cases {c : Controller t} {now : Nat} {id : JobId} {action : Action}
    {job : StopJob t.size} {phase : StopPhase} {slot : Slot} {effects : List Effect}
    (turn : StopTurn c now id job action phase slot effects)
    {left : List JobId} (hp : job.phase = .awaiting left) {i : JobId} (hi : i ∈ left) :
    c.isFinished i ∨ ∃ left', phase = .awaiting left' ∧ i ∈ left' := by
  cases turn with
  | go h => simp_all
  | pass h hf =>
      rw [hp, StopPhase.awaiting.injEq] at h
      subst h
      rcases List.mem_cons.1 hi with rfl | hi
      · exact .inl hf
      · exact .inr ⟨_, rfl, hi⟩
  | _ => simp_all

namespace Controller

variable {c c' d : Controller t} {now : Nat} {action : Action} {effects : List Effect}
  {operation : Operation}

/-! ## Calls after a change -/

/-- **A call after a change**: it is as it was, it moved on from a phase in which it had nothing left
to wait for, or it is new, and then so are its jobs. -/
theorem CallChange.call_cases (change : CallChange now c operation d) {k : Nat} {call : Call t.size}
    (hk : d.calls[k]? = some call) :
    c.calls[k]? = some call ∨
    (∃ old phase, c.calls[k]? = some old ∧ call = { old with phase } ∧
      (old.phase = .joining → ∀ id ∈ old.jobs, c.isFinished id)) ∨
    (k = c.calls.size ∧ (∀ id ∈ call.jobs, c.jobs.size ≤ id) ∧
      (call.operation = .stopAll → (∃ error, t.stopOrder = .error error) ∨
        ∃ order, t.stopOrder = .ok order ∧ call.phase = .joining ∧
          call.jobs = (List.range order.length).map (c.jobs.size + ·) ∧
          d.jobs = (c.cancelRuns.spawnStops order).jobs)) := by
  have hnew {m id : Nat} (h : id ∈ (List.range m).map (c.jobs.size + ·)) : c.jobs.size ≤ id := by
    obtain ⟨i, -, rfl⟩ := List.mem_map.1 h
    exact Nat.le_add_right _ _
  have hmoved {e : Controller t} (he : e.calls = c.calls) {i : Nat} {old : Call t.size}
      {phase : CallPhase t.size} (ho : c.calls[i]? = some old)
      (hw : old.phase = .joining → ∀ id ∈ old.jobs, c.isFinished id)
      (hk : (e.setCallPhase i phase).calls[k]? = some call) :
      c.calls[k]? = some call ∨
      ∃ old phase, c.calls[k]? = some old ∧ call = { old with phase } ∧
        (old.phase = .joining → ∀ id ∈ old.jobs, c.isFinished id) := by
    rcases calls_setCallPhase_cases hk with ⟨-, hk⟩ | ⟨old', rfl, ho', rfl⟩
    · exact .inl (he ▸ hk)
    · rw [he, ho, Option.some.injEq] at ho'
      subst ho'
      exact .inr ⟨old, phase, ho, rfl, hw⟩
  cases change with
  | start h =>
      rcases calls_openCall_cases hk with hk | ⟨hi, rfl⟩
      · exact .inl (by simpa using hk)
      · exact .inr (.inr ⟨by simpa using hi, fun _ => hnew, fun he => by cases he⟩)
  | @stop order h =>
      rcases calls_openCall_cases hk with hk | ⟨hi, rfl⟩
      · exact .inl hk
      · exact .inr (.inr ⟨hi, fun _ => hnew, fun _ => .inr ⟨order, h, rfl, rfl, rfl⟩⟩)
  | stopNothing h =>
      rcases calls_openCall_cases hk with hk | ⟨hi, rfl⟩
      · exact .inl hk
      · exact .inr (.inr ⟨hi, by simp, fun _ => .inl ⟨_, h⟩⟩)
  | cancel =>
      rcases calls_openCall_cases hk with hk | ⟨hi, rfl⟩
      · exact .inl hk
      · exact .inr (.inr ⟨hi, by simp, fun he => by cases he⟩)
  | ask hw hf hn =>
      rcases calls_openCall_cases hk with hk | ⟨hi, rfl⟩
      · exact .inl hk
      · exact .inr (.inr ⟨hi, by simp, fun he => absurd he hn⟩)
  | progress hc hp =>
      refine (hmoved rfl hc (fun he => ?_) hk).imp_right .inl
      cases hp with
      | joined _ hf => exact hf
      | _ => simp_all
  | restop hc hp => exact (hmoved (calls_spawn _) hc (by simp [hp]) hk).imp_right .inl
  | restart hc hp => exact (hmoved (by simp) hc (by simp [hp]) hk).imp_right .inl
  | sweep hc hp => exact (hmoved (calls_setSlot _ _) hc (by simp [hp]) hk).imp_right .inl

/-- The jobs of a call that is made in the course of a run come after those of its start. -/
theorem Run.call_jobs {start : Controller t} {past : List (Moment t)} (run : Run start past c)
    {k : Nat} {call : Call t.size} (hk : c.calls[k]? = some call) (hnew : start.calls.size ≤ k) :
    ∀ id ∈ call.jobs, start.jobs.size ≤ id := by
  let After (c : Controller t) : Prop := start.jobs.size ≤ c.jobs.size ∧
    ∀ (k : Nat) (call : Call t.size), c.calls[k]? = some call → start.calls.size ≤ k →
      ∀ id ∈ call.jobs, start.jobs.size ≤ id
  have hstart : After start := by
    refine ⟨Nat.le_refl _, fun k call hk hle => ?_⟩
    exact absurd (Array.getElem?_eq_some_iff.1 hk).1 (Nat.not_lt.2 hle)
  have keep : After c := by
    refine run.invariant hstart fun h hs => step_induct (P := After) hs (fun i ht => ?_)
      (fun h change => ?_) h
    · obtain ⟨old, new, slot, aside, -, -, rfl⟩ := ht
      exact ⟨Nat.le_trans h.1 size_jobs_le_after, by rw [calls_after]; exact h.2⟩
    · obtain ⟨hjobs, hids⟩ := h
      refine ⟨Nat.le_trans hjobs change.sets.size_jobs_le, fun k call hk hle => ?_⟩
      rcases change.call_cases hk with hk | ⟨old, phase, ho, rfl, -⟩ | ⟨-, hids', -⟩
      · exact hids k call hk hle
      · exact hids k old ho hle
      · exact fun id hid => Nat.le_trans hjobs (hids' id hid)
  exact keep.2 k call hk hnew

/-! ## Taking down -/

/-- The call takes every service down, each after those that depend on it. -/
structure TakesDown (c : Controller t) (call : Call t.size) : Prop where
  /-- There is a stop job for every service. -/
  jobs : ∀ s, ∃ id ∈ call.jobs, ∃ job : StopJob t.size, c.jobs[id]? = some (.stop job) ∧
    job.service = s
  /-- A job for a service that depends on that of another job is at its end, or waited for. -/
  behind : ∀ id ∈ call.jobs, ∃ job : StopJob t.size, c.jobs[id]? = some (.stop job) ∧
    ∀ e ∈ t.dependents job.service, ∃ id' ∈ call.jobs, ∃ job' : StopJob t.size,
      c.jobs[id']? = some (.stop job') ∧ job'.service = e ∧
        (job'.phase = .finished ∨ ∃ left, job.phase = .awaiting left ∧ id' ∈ left)
  /-- Once the call has gone on from waiting, all its jobs are at their end. -/
  joined : call.phase ≠ .joining → ∀ id ∈ call.jobs, c.isFinished id

/-- A stop job after a turn: it took the turn, or it is as it was. -/
theorem stop_after {id : JobId} {old new : Job t.size} {slot : Slot} {aside : Aside}
    (hj : c.jobs[id]? = some old) (turn : Turn c now id old action new slot aside effects) {i : Nat}
    {job : StopJob t.size} (hi : c.jobs[i]? = some (.stop job)) :
    (∃ phase, i = id ∧ StopTurn c now id job action phase slot effects ∧
      (c.after id new old.service slot aside).jobs[i]? = some (.stop { job with phase })) ∨
    (c.after id new old.service slot aside).jobs[i]? = some (.stop job) := by
  by_cases he : i = id
  · subst he
    rw [hi, Option.some.injEq] at hj
    subst hj
    cases turn with
    | stop turn => exact .inl ⟨_, rfl, turn, jobs_after_self (lt_size_of_job hi)⟩
  · exact .inr (stop_after_of_ne he hi)

theorem TakesDown.turn {id : JobId} {call : Call t.size} (h : TakesDown c call)
    (ht : TurnsTo c now id action c' effects) : TakesDown c' call := by
  obtain ⟨old, new, slot, aside, hj, turn, rfl⟩ := ht
  constructor
  case jobs =>
    intro s
    obtain ⟨i, hi, job, hjob, hs⟩ := h.jobs s
    rcases stop_after hj turn hjob with ⟨phase, -, -, hjob'⟩ | hjob'
    · exact ⟨i, hi, _, hjob', hs⟩
    · exact ⟨i, hi, _, hjob', hs⟩
  case behind =>
    intro i hi
    obtain ⟨job, hjob, hbehind⟩ := h.behind i hi
    have hother {e : Fin t.size} (he : e ∈ t.dependents job.service) {phase : StopPhase}
        (hleft : ∀ {i' : Nat} {left : List JobId}, job.phase = .awaiting left → i' ∈ left →
          c.isFinished i' ∨ ∃ left', phase = .awaiting left' ∧ i' ∈ left') :
        ∃ i' ∈ call.jobs, ∃ job' : StopJob t.size,
          (c.after id new old.service slot aside).jobs[i']? = some (.stop job') ∧
            job'.service = e ∧
              (job'.phase = .finished ∨ ∃ left, phase = .awaiting left ∧ i' ∈ left) := by
      obtain ⟨i', hi', job', hjob', hs, hd⟩ := hbehind e he
      have hd' : job'.phase = .finished ∨ ∃ left, phase = .awaiting left ∧ i' ∈ left := by
        rcases hd with hd | ⟨left, hp, hm⟩
        · exact .inl hd
        · refine (hleft hp hm).imp_left fun hf => ?_
          rwa [isFinished_of_job hjob', Job.isFinished_stop] at hf
      rcases stop_after hj turn hjob' with ⟨phase', -, turn', hafter⟩ | hafter
      · -- A job at its end takes no turn.
        exact ⟨i', hi', _, hafter, hs, .inr (hd'.resolve_left turn'.phase_ne_finished)⟩
      · exact ⟨i', hi', _, hafter, hs, hd'⟩
    rcases stop_after hj turn hjob with ⟨phase, -, turn', hafter⟩ | hafter
    · exact ⟨_, hafter, fun e he => hother he fun hp hm => turn'.left_cases hp hm⟩
    · exact ⟨_, hafter, fun e he => hother he fun hp hm => .inr ⟨_, hp, hm⟩⟩
  case joined =>
    intro hp i hi
    obtain ⟨job, hjob, -⟩ := h.behind i hi
    have hf := h.joined hp i hi
    rw [isFinished_of_job hjob, Job.isFinished_stop] at hf
    rcases stop_after hj turn hjob with ⟨phase, -, turn', -⟩ | hafter
    · exact absurd hf turn'.phase_ne_finished
    · rwa [isFinished_of_job hafter, Job.isFinished_stop]

theorem TakesDown.change {call : Call t.size} (h : TakesDown c call)
    (change : CallChange now c operation d) : TakesDown d call where
  jobs s := by
    obtain ⟨i, hi, job, hjob, hs⟩ := h.jobs s
    exact ⟨i, hi, job, change.sets.jobs_kept hjob, hs⟩
  behind i hi := by
    obtain ⟨job, hjob, hbehind⟩ := h.behind i hi
    refine ⟨job, change.sets.jobs_kept hjob, fun e he => ?_⟩
    obtain ⟨i', hi', job', hjob', hd⟩ := hbehind e he
    exact ⟨i', hi', job', change.sets.jobs_kept hjob', hd⟩
  joined hp i hi := by
    obtain ⟨job, hjob, -⟩ := h.behind i hi
    have hf := h.joined hp i hi
    rw [isFinished_of_job hjob] at hf
    rwa [isFinished_of_job (change.sets.jobs_kept hjob)]

/-- A call that stops every service takes them down from the first. -/
theorem takesDown_stop {order : List (Fin t.size)} (hall : ∀ s, s ∈ order) {call : Call t.size}
    (hjobs : call.jobs = (List.range order.length).map (c.jobs.size + ·))
    (hphase : call.phase = .joining) (hd : d.jobs = (c.cancelRuns.spawnStops order).jobs) :
    TakesDown d call := by
  have hjob {i : Nat} (hi : i < order.length) : d.jobs[c.jobs.size + i]? = some (.stop {
      service := order[i], phase := .awaiting ((t.dependents order[i]).map fun e =>
        c.jobs.size + order.idxOf e) }) := by
    have hge : c.cancelRuns.jobs.size ≤ c.jobs.size + i := Nat.le_add_right _ _
    rw [hd, spawnStops, jobs_spawn_of_ge _ hge, jobs_cancelRuns, Nat.add_sub_cancel_left,
      List.getElem?_map, List.getElem?_eq_getElem hi]
    rfl
  have hmem {i : Nat} (hi : i < order.length) : c.jobs.size + i ∈ call.jobs := by
    rw [hjobs]
    exact List.mem_map.2 ⟨i, List.mem_range.2 hi, rfl⟩
  constructor
  case jobs =>
    intro s
    obtain ⟨i, hi, rfl⟩ := List.mem_iff_getElem.1 (hall s)
    exact ⟨_, hmem hi, _, hjob hi, rfl⟩
  case behind =>
    intro id hid
    rw [hjobs] at hid
    obtain ⟨i, hi, rfl⟩ := List.mem_map.1 hid
    refine ⟨_, hjob (List.mem_range.1 hi), fun e he => ?_⟩
    have hlt := List.idxOf_lt_length_iff.2 (hall e)
    exact ⟨_, hmem hlt, _, hjob hlt, List.getElem_idxOf hlt,
      .inr ⟨_, rfl, List.mem_map_of_mem he⟩⟩
  case joined => exact fun hp => absurd hphase hp

/-- Every call that stops the services takes them down. -/
def AllTakeDown (c : Controller t) : Prop :=
  ∀ (k : Nat) (call : Call t.size), c.calls[k]? = some call → call.operation = .stopAll →
    TakesDown c call

theorem AllTakeDown.change (h : AllTakeDown c) (ht : t.Built)
    (change : CallChange now c operation d) : AllTakeDown d := by
  intro k call hk ho
  rcases change.call_cases hk with hk | ⟨old, phase, hk', rfl, hw⟩ | ⟨-, -, hnew⟩
  · exact (h k call hk ho).change change
  · have hold := h k old hk' ho
    refine ⟨(hold.change change).jobs, (hold.change change).behind, fun _ i hi => ?_⟩
    have hf : c.isFinished i := by
      by_cases hp : old.phase = .joining
      · exact hw hp i hi
      · exact hold.joined hp i hi
    obtain ⟨job, hjob, -⟩ := hold.behind i hi
    rw [isFinished_of_job hjob] at hf
    rwa [isFinished_of_job (change.sets.jobs_kept hjob)]
  · obtain ⟨starts, hstarts, -, hmem, -⟩ := ht.startOrder
    rcases hnew ho with ⟨error, he⟩ | ⟨order, horder, hphase, hjobs, hd⟩
    · rw [Topology.stopOrder, hstarts] at he
      cases he
    · rw [Topology.stopOrder, hstarts] at horder
      have hall (s : Fin t.size) : s ∈ order :=
        Except.ok.inj horder ▸ List.mem_reverse.2 (hmem s)
      exact takesDown_stop hall hjobs hphase hd

theorem AllTakeDown.turn {id : JobId} (h : AllTakeDown c)
    (ht : TurnsTo c now id action c' effects) : AllTakeDown c' := by
  intro k call hk ho
  refine (h k call ?_ ho).turn ht
  obtain ⟨old, new, slot, aside, -, -, rfl⟩ := ht
  rwa [calls_after] at hk

/-- **Every call that stops the services of a built topology takes them down**, at every instant of a
run. -/
theorem Run.takesDown {config : Config} {past : List (Moment t)} (ht : t.Built)
    (run : Run (fresh t config) past c) : AllTakeDown c := by
  refine run.invariant (by simp [AllTakeDown, fresh]) fun h hs => ?_
  exact step_induct hs (fun i turn => h.turn turn) (fun h change => h.change ht change) h

end Controller

end Bringup.Lifecycle
