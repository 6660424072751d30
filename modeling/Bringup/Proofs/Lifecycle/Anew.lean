import Bringup.Proofs.Lifecycle.Fulfilled

/-!
# Runs by other numbers

The number of a run matters to a start job only in that it is cancelled or not, and no job looks at the
calls. So the jobs of runs that are not cancelled take the same steps in a controller in which nobody has
ever cancelled anything (`step_anew`), and a start of all services sets the same jobs to work there
(`startAll_anew`). What is known of controllers that are only started therefore holds as well of those in
which everything was cancelled before the first start.
-/

namespace Bringup.Lifecycle.Controller

variable {t : Topology}

/-- The jobs and slots of the controller, with this as the run of the next start, and as if nobody had
called or cancelled anything. -/
def anew (c : Controller t) (run : Nat) : Controller t :=
  { c with
    currentRun := run
    cancelledRuns := 0
    calls := #[] }

/-- What comes of a step, anew. -/
def stepAnew (run : Nat) (step : Controller t × List Effect) : Controller t × List Effect :=
  (step.1.anew run, step.2)

variable {c : Controller t} {run now : Nat} {id : JobId} {job : StartJob t.size}

@[simp] theorem slot_anew (s : Fin t.size) : (c.anew run).slot s = c.slot s := rfl

@[simp] theorem jobs_anew : (c.anew run).jobs = c.jobs := rfl

@[simp] theorem isCancelled_anew (other : Nat) : (c.anew run).isCancelled other = false := by
  simp [anew, isCancelled]

/-! ## Writers -/

theorem attachNext_anew (volumes : List Volume) :
    (c.anew run).attachNext id job volumes = stepAnew run (c.attachNext id job volumes) := by
  cases volumes <;> rfl

theorem move_anew (s : Fin t.size) (target : ServiceState) :
    (c.anew run).move now s target = stepAnew run (c.move now s target) := by
  unfold move
  rw [slot_anew]
  split <;> rfl

theorem moveFromStarting_anew (s : Fin t.size) (target : ServiceState) (error : Option Error) :
    (c.anew run).moveFromStarting now s target error
      = stepAnew run (c.moveFromStarting now s target error) := by
  unfold moveFromStarting
  rw [slot_anew, move_anew]
  split
  next => cases error <;> rfl
  next => rfl

theorem recordIfStartable_anew (error : Error) :
    (c.anew run).recordIfStartable job error = (c.recordIfStartable job error).anew run := by
  unfold recordIfStartable
  rw [slot_anew]
  split <;> rfl

theorem finishStart_anew : (c.anew run).finishStart id job = (c.finishStart id job).anew run := by
  unfold finishStart
  dsimp only
  split <;> rfl

theorem followStart_anew : (c.anew run).followStart id job = (c.followStart id job).anew run := by
  unfold followStart
  dsimp only
  split <;> rfl

theorem orphan_anew (launch : JobId) : (c.anew run).orphan launch = (c.orphan launch).anew run := by
  unfold orphan
  rw [jobs_anew]
  split <;> rfl

theorem takeLaunch?_anew (launch : JobId) : (c.anew run).takeLaunch? launch
    = (c.takeLaunch? launch).map fun taken => (taken.1.anew run, taken.2) := by
  unfold takeLaunch?
  rw [jobs_anew]
  split
  next => split <;> rfl
  next => rfl

/-! ## Jobs -/

section

variable (hc : c.isCancelled job.run = false)

include hc

theorem enter_anew : (c.anew run).enter now id job = stepAnew run (c.enter now id job) := by
  unfold enter
  simp only [slot_anew, isCancelled_anew, hc, move_anew, followStart_anew, Bool.false_eq_true,
    if_false]
  split
  next => cases t.volumesOf job.service <;> rfl
  next => rfl

omit hc in
theorem conclude_anew (verdict : Verdict) :
    (c.anew run).conclude now id job verdict = stepAnew run (c.conclude now id job verdict) := by
  unfold conclude
  cases verdict with
  | ready | failed =>
      simp only [moveFromStarting_anew, stepAnew, finishStart_anew]
  | cancelled launch =>
      cases launch <;>
        simp only [moveFromStarting_anew, stepAnew, finishStart_anew, orphan_anew]

theorem runStart_anew :
    (c.anew run).runStart now id job = (c.runStart now id job).map (stepAnew run) := by
  unfold runStart
  cases job.phase with
  | arriving =>
      dsimp only
      rw [slot_anew, followStart_anew]
      split <;> rfl
  | following =>
      simp only [slot_anew, isCancelled_anew, hc, finishStart_anew]
      split <;> rfl
  | awaiting dependencies =>
      cases dependencies with
      | nil => rfl
      | cons d rest =>
          simp only [isCancelled_anew, hc, Bool.false_eq_true, if_false]
          by_cases hs : (c.slot d).progress.settled
          · simp only [slot_anew, hs, if_true]
            by_cases hr : (c.slot d).progress.state = .ready <;> simp only [hr, if_true, if_false] <;> rfl
          · simp only [slot_anew, hs, Bool.false_eq_true, if_false]
            rfl
  | refusing error =>
      dsimp only
      rw [recordIfStartable_anew, finishStart_anew]
      rfl
  | entering => exact congrArg some (enter_anew hc)
  | launching launch =>
      simp only [isCancelled_anew, hc, takeLaunch?_anew, Bool.false_eq_true, if_false]
      rcases c.takeLaunch? launch with _ | ⟨c', _ | _⟩ <;> rfl
  | recording handle =>
      dsimp only
      rw [slot_anew]
      split <;> rfl
  | concluding verdict => exact congrArg some (conclude_anew verdict)
  | _ => rfl

theorem heedStart_anew :
    (c.anew run).heedStart id job = (c.heedStart id job).map (stepAnew run) := by
  simp [heedStart, hc]

end

theorem timeoutStart_anew :
    (c.anew run).timeoutStart now id job = (c.timeoutStart now id job).map (stepAnew run) := by
  unfold timeoutStart
  split
  next => split <;> rfl
  next => split <;> rfl
  next => rfl

theorem retry_anew (handle : Container.Handle) (attempt : UInt32) :
    (c.anew run).retry now id job handle attempt = (c.retry now id job handle attempt).anew run := by
  have hconfig : (c.anew run).config = c.config := rfl
  unfold retry
  dsimp only
  rw [hconfig]
  split <;> rfl

theorem answerStart_anew (reply : Reply) : (c.anew run).answerStart now id job reply
    = (c.answerStart now id job reply).map (stepAnew run) := by
  unfold answerStart
  split
  next => exact congrArg some (attachNext_anew _)
  next => rfl
  next =>
    split
    next => rfl
    next => exact congrArg (fun c => some (c, [])) (retry_anew _ _)
  next =>
    split
    next => exact congrArg (fun c => some (c, [])) finishStart_anew
    next => rfl
    next => rfl
  next => rfl

section

variable {l : Launch t.size}

theorem runLaunch_anew :
    (c.anew run).runLaunch now id l = (c.runLaunch now id l).map (stepAnew run) := by
  unfold runLaunch
  split
  next => rfl
  next => split <;> rfl
  next => split <;> rfl
  next => rfl

theorem timeoutLaunch_anew :
    (c.anew run).timeoutLaunch now id l = (c.timeoutLaunch now id l).map (stepAnew run) := by
  unfold timeoutLaunch
  split
  next => split <;> rfl
  next => rfl

theorem answerLaunch_anew (reply : Reply) :
    (c.anew run).answerLaunch id l reply = (c.answerLaunch id l reply).map (stepAnew run) := by
  unfold answerLaunch
  split
  next => rfl
  next => split <;> rfl
  next => rfl

end

/-- **A job whose run is not cancelled takes the same steps anew.** -/
theorem step_anew {action : Action} (ha : action.job? = some id)
    (hstop : ∀ job, c.jobs[id]? ≠ some (.stop job))
    (hc : ∀ job, c.jobs[id]? = some (.start job) → c.isCancelled job.run = false) :
    (c.anew run).step now action = (c.step now action).map (stepAnew run) := by
  cases hj : c.jobs[id]? with
  | none =>
      cases action <;> cases ha <;> simp [step, hj]
  | some job =>
      cases job with
      | stop job => exact absurd hj (hstop job)
      | start job =>
          have hrun := hc job hj
          cases action <;> cases ha <;> simp only [step, jobs_anew, hj]
          · exact runStart_anew hrun
          · exact heedStart_anew hrun
          · exact timeoutStart_anew
          · exact answerStart_anew _
      | launch l =>
          cases action <;> cases ha <;> simp only [step, jobs_anew, hj]
          · exact runLaunch_anew
          · rfl
          · exact timeoutLaunch_anew
          · exact answerLaunch_anew _

/-! ## Calls -/

theorem spawnStarts_anew (services : List (Fin t.size)) (hrun : c.currentRun = run) :
    (c.spawnStarts services).anew run = (c.anew run).spawnStarts services := by
  have hclaims (d : Controller t) : (services.foldl (fun c s => c.modifySlot s Slot.claim) d).anew run
      = services.foldl (fun c s => c.modifySlot s Slot.claim) (d.anew run) := by
    induction services generalizing d with
    | nil => rfl
    | cons s rest ih => exact ih (d.modifySlot s Slot.claim)
  have hspawn (d : Controller t) (jobs : List (Job t.size)) :
      (d.spawn jobs).anew run = (d.anew run).spawn jobs := rfl
  unfold spawnStarts
  dsimp only
  rw [hspawn, hclaims, (claims_eq services).2.1, (claims_eq services).2.1, hrun]
  rfl

/-- **A start of all services** sets the same jobs to work anew, if its run has this number. -/
theorem startAll_anew (hrun : c.arm.currentRun = run) :
    (c.anew run).startAll.1.anew run = c.startAll.1.anew run := by
  have harm : c.arm.anew run = c.anew run := by
    unfold arm
    split <;> rfl
  have hstays : (c.anew run).arm = c.anew run := by simp [arm]
  unfold startAll
  split
  next => rfl
  next order _ =>
    show ((c.anew run).arm.spawnStarts order).anew run = (c.arm.spawnStarts order).anew run
    rw [hstays, spawnStarts_anew order hrun, harm]
    exact spawnStarts_anew order rfl

/-! ## Starts and cancels -/

/-- Nobody has called for anything but starts of all services and cancels. -/
def StartsOrCancels (c : Controller t) : Prop :=
  ∀ (k : Nat) (call : Call t.size), c.calls[k]? = some call →
    call.operation = .startAll ∨ call.operation = .cancel

/-- **A start moves on without touching anything else**, and a cancel takes one service after another out
of the state of starting. -/
theorem StartsOrCancels.proceed_cases (h : StartsOrCancels c) (hfits : Fits c) {k : Nat}
    {call : Call t.size} {c' : Controller t} {effects : List Effect} (hk : c.calls[k]? = some call)
    (hs : c.proceed now k call = some (c', effects)) : effects = [] ∧
      ((∃ phase, c' = c.setCallPhase k phase ∧ ∀ left, phase ≠ .sweeping left) ∨
        ∃ s rest, call.phase = .sweeping (s :: rest) ∧
          c' = (c.setSlot s ((c.slot s).leaveStarting now .stopping
            (some (.cancelled (t.id s))))).setCallPhase k (.sweeping rest)) := by
  have hphase := hfits k call hk
  rcases h k call hk with ho | ho <;> rw [ho] at hphase <;> cases hp : call.phase
  case inl.joining =>
    simp only [proceed, hp] at hs
    split at hs
    next =>
      obtain ⟨rfl, rfl⟩ := by simpa using hs
      exact ⟨rfl, .inl ⟨_, rfl, by simp⟩⟩
    next => cases hs
  case inl.reporting left taken =>
    cases left <;> obtain ⟨rfl, rfl⟩ := by simpa [proceed, hp] using hs
    · exact ⟨rfl, .inl ⟨_, rfl, by simp⟩⟩
    · exact ⟨rfl, .inl ⟨_, rfl, by simp⟩⟩
  case inr.sweeping left =>
    cases left with
    | nil =>
        obtain ⟨rfl, rfl⟩ := by simpa [proceed, hp] using hs
        exact ⟨rfl, .inl ⟨_, rfl, by simp⟩⟩
    | cons s rest =>
        rw [proceed, hp] at hs
        dsimp only at hs
        rw [moveFromStarting_eq _ _ _ (by rfl)] at hs
        obtain ⟨rfl, rfl⟩ := by simpa using hs
        exact ⟨rfl, .inr ⟨s, rest, rfl, rfl⟩⟩
  all_goals simp [hp, Operation.Allows, proceed] at hphase hs

/-- A call that moves on stays the call that it is. -/
theorem StartsOrCancels.setCallPhase (h : StartsOrCancels c) (i : CallId) (phase : CallPhase t.size) :
    StartsOrCancels (c.setCallPhase i phase) := by
  intro k call hk
  rcases calls_setCallPhase_cases hk with ⟨-, hk⟩ | ⟨old, -, hi, rfl⟩
  · exact h k call hk
  · exact h i old hi

theorem StartsOrCancels.openCall (h : StartsOrCancels c) {d : Controller t} (hd : d.calls = c.calls)
    {operation : Operation} (ho : operation = .startAll ∨ operation = .cancel) (jobs : List JobId)
    (phase : CallPhase t.size) : StartsOrCancels (d.openCall operation jobs phase).1 := by
  intro k call hk
  rcases calls_openCall_cases hk with hk | ⟨-, rfl⟩
  · exact h k call (hd ▸ hk)
  · exact ho

theorem StartsOrCancels.cancel (h : StartsOrCancels c) : StartsOrCancels c.cancel.1 :=
  h.openCall rfl (.inr rfl) _ _

theorem StartsOrCancels.startAll (h : StartsOrCancels c) : StartsOrCancels c.startAll.1 := by
  unfold Controller.startAll
  split
  next => exact h.openCall rfl (.inl rfl) _ _
  next => exact h.openCall (by simp) (.inl rfl) _ _

/-- Everything is as before, but that each service has one more start job, which has not done anything. -/
structure StartsAll (c d : Controller t) : Prop where
  old : ∀ {id : Nat} {job : Job t.size}, c.jobs[id]? = some job → d.jobs[id]? = some job
  new : ∀ {id : Nat} {job : Job t.size}, d.jobs[id]? = some job → c.jobs[id]? = some job ∨
    c.jobs.size ≤ id ∧ ∃ s, job = .start { service := s, run := c.arm.currentRun }
  all : ∀ s, ∃ id, c.jobs.size ≤ id ∧
    d.jobs[id]? = some (.start { service := s, run := c.arm.currentRun })
  slot : ∀ s, ∃ claims, d.slot s = { c.slot s with claims }
  config : d.config = c.config
  current : d.currentRun = c.arm.currentRun
  cancelled : d.cancelledRuns = c.cancelledRuns

/-- **A start of all services** gives each of them a start job. -/
theorem startsAll_startAll (ht : t.Built) (c : Controller t) : StartsAll c c.startAll.1 := by
  obtain ⟨order, ho, -, hmem, -⟩ := ht.startOrder
  have hspawned : c.startAll.1 = ((c.arm.spawnStarts order).openCall .startAll
      ((List.range order.length).map (c.jobs.size + ·)) .joining).1 := by
    rw [startAll, ho]
  have hjobs : c.startAll.1.jobs = (c.arm.spawnStarts order).jobs := by
    rw [hspawned]
    rfl
  have hbelow {id : Nat} (hid : id < c.jobs.size) : c.startAll.1.jobs[id]? = c.jobs[id]? := by
    rw [hjobs, jobs_spawnStarts, jobs_spawn_of_lt _ (by rw [jobs_arm]; exact hid), jobs_arm]
  have habove (i : Nat) : c.startAll.1.jobs[c.jobs.size + i]? = (order[i]?).map fun s =>
      .start { service := s, run := c.arm.currentRun } := by
    rw [hjobs]
    exact job_spawnStarts order i
  constructor
  case old =>
    intro id job hj
    rw [hbelow (lt_size_of_job hj)]
    exact hj
  case new =>
    intro id job hj
    rcases Nat.lt_or_ge id c.jobs.size with hid | hid
    · exact .inl (by rwa [hbelow hid] at hj)
    · obtain ⟨i, rfl⟩ := Nat.exists_eq_add_of_le hid
      rw [habove] at hj
      obtain ⟨s, -, rfl⟩ := Option.map_eq_some_iff.1 hj
      exact .inr ⟨hid, s, rfl⟩
  case all =>
    intro s
    obtain ⟨i, hi⟩ := List.getElem?_of_mem (hmem s)
    exact ⟨c.jobs.size + i, Nat.le_add_right _ _, by rw [habove, hi]; rfl⟩
  case slot =>
    intro s
    refine ⟨(c.slot s).claims + order.count s, ?_⟩
    rw [hspawned]
    exact (slot_spawnStarts order s).trans (by rw [slot_arm])
  case config =>
    rw [hspawned]
    exact (config_spawnStarts order).trans config_arm
  case current =>
    rw [hspawned]
    exact (runs_spawnStarts order).1
  case cancelled =>
    rw [hspawned]
    exact (runs_spawnStarts order).2.trans cancelledRuns_arm

/-! ## What is known of jobs and slots -/

@[simp] theorem anew_setCallPhase (i : CallId) (phase : CallPhase t.size) :
    (c.setCallPhase i phase).anew run = c.anew run := by
  unfold setCallPhase
  split <;> rfl

theorem Linked.anew (h : Linked c) (run : Nat) : Linked (c.anew run) := ⟨h.launch, h.sole, h.waited⟩

theorem Foretold.anew {p : Prospect t} (h : Foretold p c) (run : Nat) : Foretold p (c.anew run) where
  published := h.published
  policy := h.policy
  calls k call hk := by simp [Controller.anew] at hk
  cancelled := rfl
  stop := h.stop
  slot := h.slot
  backs := h.backs
  owner := h.owner
  sole := h.sole
  owned := h.owned
  following := h.following
  final := h.final
  claimed := h.claimed
  claims := h.claims
  all := h.all
  launches := h.launches

theorem Told.anew {p : Prospect t} (h : Told p c) (run : Nat) : Told p (c.anew run) where
  foretold := h.foretold.anew run
  linked := h.linked.anew run
  fits k call hk := by simp [Controller.anew] at hk
  calls k call hk := by simp [Controller.anew] at hk

end Bringup.Lifecycle.Controller
