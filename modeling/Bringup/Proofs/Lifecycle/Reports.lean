import Bringup.Proofs.Lifecycle.Awaiting
import Bringup.Proofs.Topology.Built

/-!
# What a report shows

A call that starts or stops every service waits for its jobs and then reads one service after another
into its report. So when what is read of each service no longer changes once the jobs of the call have
finished, the report shows just that, for every service in the order of their start
(`Progresses.shows`).

The jobs of such a call are the ones created with it, one for each service (`start_jobs`,
`stop_jobs`), and a job never changes its kind or its service (`job_kept`). `ReportsOn.change` puts
this together for all calls of one operation.
-/

namespace Bringup.Lifecycle

variable {t : Topology} {β : Type}

/-- What the call has read so far, seen through a view, is what is expected of the services. -/
def CallPhase.Shows (view : Status → β) (expected : Fin t.size → β) : CallPhase t.size → Prop
  | .reporting left taken =>
    taken.reverse.map view ++ left.map expected = (Controller.reportOrder t).map expected
  | .answered (.report report) _ =>
    report.services.map view = (Controller.reportOrder t).map expected
  | _ => True

namespace Operation

variable {n : Nat} {operation : Operation}

/-- The call waits for jobs and then reports. -/
def Reports : Operation → Prop
  | .startAll | .stopAll => True
  | _ => False

/-- The phases of a call that reports. -/
theorem Reports.allows (hr : operation.Reports) {phase : CallPhase n}
    (h : operation.Allows phase) :
    phase = .joining ∨ (∃ left taken, phase = .reporting left taken) ∨
      ∃ report time, phase = .answered (.report report) time := by
  cases operation with
  | startAll | stopAll =>
      cases phase with
      | joining => exact .inl rfl
      | reporting => exact .inr (.inl ⟨_, _, rfl⟩)
      | answered answer time =>
          cases answer with
          | report => exact .inr (.inr ⟨_, _, rfl⟩)
          | _ => cases h
      | _ => cases h
  | _ => cases hr

end Operation

namespace Controller

variable {c d : Controller t} {now : Nat} {operation : Operation}

/-- **A report shows what is expected**, if that is what is known of each service at every step at
which the call reads. -/
theorem Progresses.shows {call : Call t.size} {phase : CallPhase t.size} {view : Status → β}
    {expected : Fin t.size → β} (h : c.Progresses now call phase) (hr : call.operation.Reports)
    (hf : call.operation.Allows call.phase) (hs : call.phase.Shows view expected)
    (hnow : call.phase ≠ .joining → ∀ s, view (c.status s) = expected s) :
    phase.Shows view expected := by
  cases h with
  | joined hp => simp [CallPhase.Shows]
  | reported hp =>
      rw [hp] at hs
      simpa [CallPhase.Shows] using hs
  | @read s rest taken hp =>
      have hview := hnow (by rw [hp]; simp) s
      rw [hp] at hs
      simpa [CallPhase.Shows, hview] using hs
  | refused | started | restarted | swept | begun | followed => trivial
  | handedOn hp =>
      rw [hp] at hf
      rcases hr.allows hf with he | ⟨_, _, he⟩ | ⟨_, _, he⟩ <;> cases he

/-- In a built topology a report shows every service. -/
theorem mem_reportOrder (ht : t.Built) (s : Fin t.size) : s ∈ reportOrder t := by
  obtain ⟨order, ho, -, hmem, -⟩ := ht.startOrder
  rw [reportOrder, ho]
  exact hmem s

/-! ## The jobs of a call -/

end Controller

/-- The three kinds of job. -/
inductive Job.Kind where
  | start | stop | launch
  deriving DecidableEq

/-- Which kind of job it is. -/
def Job.kind {n : Nat} : Job n → Job.Kind
  | .start _ => .start
  | .stop _ => .stop
  | .launch _ => .launch

namespace Controller

variable {c d : Controller t} {now : Nat} {operation : Operation} {id : JobId}
  {old new : Job t.size} {action : Action} {slot : Slot} {aside : Aside} {effects : List Effect}

/-- A job keeps its kind and its service, and once at its end it stays there. -/
theorem job_kept (turn : Turn c now id old action new slot aside effects)
    (hj : c.jobs[id]? = some old) {i : Nat} {job : Job t.size} (hi : c.jobs[i]? = some job) :
    ∃ job', (c.after id new old.service slot aside).jobs[i]? = some job' ∧ job'.kind = job.kind ∧
      job'.service = job.service ∧ (job.isFinished → job'.isFinished) := by
  have hlt := lt_size_of_job hi
  by_cases he : i = id
  · subst he
    rw [hi, Option.some.injEq] at hj
    subst hj
    refine ⟨new, jobs_after_self hlt, ?_, ?_, ?_⟩
    · cases turn <;> rfl
    · cases turn with
      | start turn => exact turn.same.1
      | stop | launch => rfl
    · exact fun hf => absurd hf turn.not_isFinished
  · -- Any other job is left alone, unless it is the launch that the turn takes or gives up.
    cases job with
    | start job => exact ⟨_, start_after_of_ne he hi, rfl, rfl, fun hf => hf⟩
    | stop job => exact ⟨_, stop_after_of_ne he hi, rfl, rfl, fun hf => hf⟩
    | launch l =>
        by_cases ht : aside = .takes i
        · subst ht
          exact ⟨_, jobs_after_takes he hi, rfl, rfl, fun _ => rfl⟩
        · by_cases hl : aside = .leaves i
          · subst hl
            refine ⟨_, jobs_after_leaves he hi, rfl, rfl, ?_⟩
            intro hf
            have hp := Job.isFinished_launch.1 hf
            exact Job.isFinished_launch.2 hp
          · exact ⟨_, by rw [jobs_after_of_ne he hlt ht hl, hi], rfl, rfl, fun hf => hf⟩

/-- A start is called with a job for each service of its order. -/
theorem start_jobs (order : List (Fin t.size)) {s : Fin t.size} (hs : s ∈ order) :
    ∃ id ∈ (List.range order.length).map (c.jobs.size + ·), ∃ job : Job t.size,
      (c.arm.spawnStarts order).jobs[id]? = some job ∧ job.kind = .start ∧ job.service = s := by
  obtain ⟨i, hi, rfl⟩ := List.mem_iff_getElem.1 hs
  refine ⟨c.jobs.size + i, List.mem_map.2 ⟨i, List.mem_range.2 hi, rfl⟩,
    .start { service := order[i], run := c.arm.currentRun }, ?_, rfl, rfl⟩
  rw [job_spawnStarts, List.getElem?_eq_getElem hi]
  rfl

/-- A stop is called with a job for each service of its order. -/
theorem stop_jobs (order : List (Fin t.size)) {s : Fin t.size} (hs : s ∈ order) :
    ∃ id ∈ (List.range order.length).map (c.jobs.size + ·), ∃ job : Job t.size,
      (c.cancelRuns.spawnStops order).jobs[id]? = some job ∧ job.kind = .stop ∧
        job.service = s := by
  obtain ⟨i, hi, rfl⟩ := List.mem_iff_getElem.1 hs
  refine ⟨c.jobs.size + i, List.mem_map.2 ⟨i, List.mem_range.2 hi, rfl⟩,
    .stop { service := order[i], phase := .awaiting ((t.dependents order[i]).map fun d =>
      c.jobs.size + order.idxOf d) }, ?_, rfl, rfl⟩
  have hge : c.cancelRuns.jobs.size ≤ c.jobs.size + i := Nat.le_add_right _ _
  rw [spawnStops, jobs_spawn_of_ge _ hge, jobs_cancelRuns, Nat.add_sub_cancel_left,
    List.getElem?_map, List.getElem?_eq_getElem hi]
  rfl

/-! ## Calls that report -/

/-- Every service has a job of the kind that is at its end. -/
def Ended (c : Controller t) (kind : Job.Kind) : Prop :=
  ∀ s, ∃ (id : Nat) (job : Job t.size), c.jobs[id]? = some job ∧ job.kind = kind ∧
    job.service = s ∧ job.isFinished

/-- A call that waits until a job of each service is at its end, and then shows what is expected. -/
structure Reporting (kind : Job.Kind) (view : Status → β) (expected : Fin t.size → β)
    (c : Controller t) (call : Call t.size) : Prop where
  jobs : ∀ s, ∃ id ∈ call.jobs, ∃ job, c.jobs[id]? = some job ∧ job.kind = kind ∧ job.service = s
  ended : call.phase ≠ .joining → c.Ended kind
  shows : call.phase.Shows view expected

/-- Every call of the operation is such a call. -/
def ReportsOn (kind : Job.Kind) (view : Status → β) (expected : Fin t.size → β)
    (operation : Operation) (c : Controller t) : Prop :=
  ∀ (k : Nat) (call : Call t.size), c.calls[k]? = some call → call.operation = operation →
    Reporting kind view expected c call

variable {c' : Controller t} {kind : Job.Kind} {view : Status → β} {expected : Fin t.size → β}
  {reports : Operation}

theorem Ended.turn (h : c.Ended kind) (ht : TurnsTo c now id action c' effects) :
    c'.Ended kind := by
  obtain ⟨old, new, slot, aside, hj, turn, rfl⟩ := ht
  intro s
  obtain ⟨i, job, hi, hk, hs, hf⟩ := h s
  obtain ⟨job', hi', hk', hs', hf'⟩ := job_kept turn hj hi
  exact ⟨i, job', hi', hk'.trans hk, hs'.trans hs, hf' hf⟩

theorem Ended.change (h : c.Ended kind) (change : CallChange now c operation d) :
    d.Ended kind := by
  intro s
  obtain ⟨i, job, hi, hjob⟩ := h s
  exact ⟨i, job, change.sets.jobs_kept hi, hjob⟩

theorem Ended.step (h : c.Ended kind) (hs : c.step now action = some (c', effects)) :
    c'.Ended kind := by
  apply step_induct hs _ Ended.change h
  intro id turn
  exact h.turn turn

theorem ReportsOn.turn (h : ReportsOn kind view expected reports c)
    (ht : TurnsTo c now id action c' effects) : ReportsOn kind view expected reports c' := by
  have hended (he : c.Ended kind) := he.turn ht
  obtain ⟨old, new, slot, aside, hj, turn, rfl⟩ := ht
  intro k call hk ho
  rw [calls_after] at hk
  obtain ⟨hjobs, he, hshows⟩ := h k call hk ho
  refine ⟨?_, fun hp => hended (he hp), hshows⟩
  intro s
  obtain ⟨i, hi, job, hjob, hkind, hs⟩ := hjobs s
  obtain ⟨job', hjob', hkind', hs', -⟩ := job_kept turn hj hjob
  exact ⟨i, hi, job', hjob', hkind'.trans hkind, hs'.trans hs⟩

theorem Reporting.change {call : Call t.size} (h : Reporting kind view expected c call)
    (change : CallChange now c operation d) : Reporting kind view expected d call where
  jobs s := by
    obtain ⟨i, hi, job, hjob, hs⟩ := h.jobs s
    exact ⟨i, hi, job, change.sets.jobs_kept hjob, hs⟩
  ended hp := (h.ended hp).change change
  shows := h.shows

/-- A call goes on from waiting for its jobs only when all of them are at their end. -/
theorem Reporting.progress {call : Call t.size} {phase : CallPhase t.size}
    (h : Reporting kind view expected c call) (hr : call.operation.Reports)
    (hf : call.operation.Allows call.phase)
    (hview : c.Ended kind → ∀ s, view (c.status s) = expected s)
    (hp : c.Progresses now call phase) : Reporting kind view expected c { call with phase } := by
  have hended : c.Ended kind := by
    by_cases hj : call.phase = .joining
    · intro s
      obtain ⟨i, hi, job, hjob, hk, hs⟩ := h.jobs s
      refine ⟨i, job, hjob, hk, hs, ?_⟩
      cases hp with
      | joined _ hfin => exact isFinished_of_job hjob ▸ hfin i hi
      | _ => simp_all
    · exact h.ended hj
  exact ⟨h.jobs, fun _ => hended, hp.shows hr hf h.shows fun _ => hview hended⟩

/-- **The calls of an operation go on reporting what is expected**, if that can be seen once their
jobs are at their end, and if a new call of the operation begins by waiting for its jobs. -/
theorem ReportsOn.change (h : ReportsOn kind view expected reports c) (hr : reports.Reports)
    (hf : c.Fits) (hview : c.Ended kind → ∀ s, view (c.status s) = expected s)
    (change : CallChange now c operation d)
    (hnew : ∀ call, d.calls[c.calls.size]? = some call → call.operation = reports →
      Reporting kind view expected d call) : ReportsOn kind view expected reports d := by
  intro k call hk ho
  -- The call is new, or it moved on, or it is as it was.
  have hopened {e : Controller t} {operation : Operation} {jobs : List JobId}
      {phase : CallPhase t.size} (he : e.calls = c.calls)
      (hd : d.calls = (e.openCall operation jobs phase).1.calls) :
      Reporting kind view expected d call := by
    rcases calls_openCall_cases (hd ▸ hk) with hk' | ⟨hsize, -⟩
    · exact (h k call (he ▸ hk') ho).change change
    · exact hnew call (by rw [← he, ← hsize, hk]) ho
  have hmoved {e : Controller t} {id : Nat} {old : Call t.size} {phase : CallPhase t.size}
      (he : e.calls = c.calls) (hd : d.calls = (e.setCallPhase id phase).calls)
      (hc : c.calls[id]? = some old)
      (hstep : old.operation = reports → Reporting kind view expected d { old with phase }) :
      Reporting kind view expected d call := by
    rcases calls_setCallPhase_cases (hd ▸ hk) with ⟨-, hk⟩ | ⟨old', rfl, hold, rfl⟩
    · exact (h k call (he ▸ hk) ho).change change
    · rw [he, hc, Option.some.injEq] at hold
      subst hold
      exact hstep ho
  have hother {id : Nat} {old : Call t.size} (hc : c.calls[id]? = some old)
      (hold : old.operation = reports) : old.phase = .joining ∨
        (∃ left taken, old.phase = .reporting left taken) ∨
        ∃ report time, old.phase = .answered (.report report) time :=
    (hold ▸ hr).allows (hf id old hc)
  cases change with
  | start => exact hopened (e := c.arm.spawnStarts _) (by simp) rfl
  | stop => exact hopened (e := c.cancelRuns.spawnStops _) rfl rfl
  | stopNothing | cancel => exact hopened (e := c.cancelRuns) rfl rfl
  | ask => exact hopened (e := c) rfl rfl
  | @progress id old phase hc hp =>
      apply hmoved (e := c) rfl rfl hc
      intro hold
      exact ((h id old hc hold).progress (hold ▸ hr) (hf id old hc) hview hp).change (.progress hc hp)
  -- A call that reports neither restarts nor cancels, so it takes no part in what is left.
  | restop hc hp =>
      apply hmoved (calls_spawn _) rfl hc
      intro hold
      rcases hother hc hold with he | ⟨_, _, he⟩ | ⟨_, _, he⟩ <;> rw [hp] at he <;> cases he
  | restart hc hp =>
      apply hmoved (e := c.arm.spawnStarts _) (by simp) rfl hc
      intro hold
      rcases hother hc hold with he | ⟨_, _, he⟩ | ⟨_, _, he⟩ <;> rw [hp] at he <;> cases he
  | sweep hc hp =>
      apply hmoved (calls_setSlot _ _) rfl hc
      intro hold
      rcases hother hc hold with he | ⟨_, _, he⟩ | ⟨_, _, he⟩ <;> rw [hp] at he <;> cases he

/-- What such a call answers. -/
theorem Reporting.answer {call : Call t.size} (h : Reporting kind view expected c call)
    (hr : call.operation.Reports) (hf : call.operation.Allows call.phase) {answer : Answer}
    {time : Nat} (ha : call.answer? = some (answer, time)) :
    c.Ended kind ∧ ∃ report, answer = .report report ∧
      report.services.map view = (reportOrder t).map expected := by
  have hshows := h.shows
  rcases hr.allows hf with he | ⟨_, _, he⟩ | ⟨report, time', he⟩
  · rw [Call.answer?, he] at ha; cases ha
  · rw [Call.answer?, he] at ha; cases ha
  · rw [Call.answer?, he, Option.some.injEq, Prod.mk.injEq] at ha
    rw [he] at hshows
    exact ⟨h.ended (by rw [he]; simp), report, ha.1.symm, hshows⟩

end Controller

end Bringup.Lifecycle
