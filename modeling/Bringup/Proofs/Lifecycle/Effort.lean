import Bringup.Proofs.Lifecycle.Custody

/-!
# Every step brings the end nearer

`Controller.effort` bounds how many steps a controller still takes unless somebody makes another call.
It adds up what each job and each call has left to do, where a job that starts a service counts all
attempts to ask the container that are left, and a call counts the jobs and calls it is going to create.
Each step but a new call brings it down (`effort_lt_of_step`): it moves one job or one call on to a
phase with less left to do, and what it creates is paid by the one that creates it.
-/

namespace Bringup.Lifecycle

variable {t : Topology} {n : Nat}

/-! ## What is left to do -/

/-- What a halt has left to do. -/
def Halt.effort : Halt → Nat
  | .stopping _ => 2
  | .killing => 1

/-- What the start of a service with so many dependencies and volumes has left to do, if its container
is asked so many times. -/
def StartPhase.effort (attempts dependencies volumes : Nat) : StartPhase n → Nat
  | .finished => 0
  | .following | .refusing _ | .concluding _ => 1
  | .discarding _ halt => halt.effort
  | .probing _ attempt => 2 + 3 * (attempts - attempt.toNat)
  | .asking _ attempt => 3 + 3 * (attempts - attempt.toNat)
  | .pausing _ attempt _ => 4 + 3 * (attempts - attempt.toNat)
  | .recording _ => 4 + 3 * attempts
  | .launching _ => 5 + 3 * attempts
  | .attaching left => left.length + 11 + 3 * attempts
  | .entering => volumes + 12 + 3 * attempts
  | .awaiting left => left.length + volumes + 13 + 3 * attempts
  | .arriving => dependencies + volumes + 14 + 3 * attempts

/-- What the stop of a service with so many volumes has left to do. -/
def StopPhase.effort (volumes : Nat) : StopPhase → Nat
  | .finished => 0
  | .retiring => 1
  | .detaching left => left.length + 1
  | .halting _ halt => volumes + 1 + halt.effort
  | .taking => volumes + 4
  | .awaiting jobs => jobs.length + volumes + 5

/-- What a launch has left to do. -/
def LaunchPhase.effort : LaunchPhase → Nat
  | .calling => 5
  | .running => 4
  | .returned _ => 3
  | .halting _ halt => halt.effort
  | .finished => 0

/-- What a job has left to do, if containers are asked so many times. -/
def Job.effort (attempts : Nat) : Job t.size → Nat
  | .start job => job.phase.effort attempts (t.dependencies job.service).length
      (t.volumesOf job.service).length
  | .stop job => job.phase.effort (t.volumesOf job.service).length
  | .launch l => l.phase.effort

/-- What a start of all services has to do: its jobs, and then the report. -/
def startAllEffort (attempts : Nat) (t : Topology) : Nat :=
  let jobs := match t.startOrder with
    | .ok order =>
      weigh (fun s => (Job.start { service := s, run := 0 } : Job t.size).effort attempts) order
    | .error _ => 0
  jobs + (Controller.reportOrder t).length + 2

/-- What a stop of all services has to do: its jobs, and then the report. -/
def stopAllEffort (t : Topology) : Nat :=
  let jobs := match t.stopOrder with
    | .ok order => weigh (fun s => (t.dependents s).length + (t.volumesOf s).length + 5) order
    | .error _ => 0
  jobs + (Controller.reportOrder t).length + 2

/-- What a call has left to do when the call it waits for has answered. -/
def Sequel.effort (attempts : Nat) (t : Topology) : Sequel → Nat
  | .report | .interrupt => 1
  | .stopAll => stopAllEffort t + 2
  | .shutDown => t.size + stopAllEffort t + 5
  | .drain _ => t.size + stopAllEffort t + 6
  | .startAll => startAllEffort attempts t + t.size + stopAllEffort t + 6
  | .finish => 2 * t.size + stopAllEffort t + 8

/-- What a call has left to do, if containers are asked so many times. -/
def CallPhase.effort (attempts : Nat) : CallPhase t.size → Nat
  | .answered .. => 0
  | .joining => (Controller.reportOrder t).length + 2
  | .reporting left _ => left.length + 1
  | .sweeping left => left.length + 1
  | .reading _ => 1
  | .starting .. => 2
  | .stopping s _ => (Job.start { service := s, run := 0 } : Job t.size).effort attempts + 3
  | .checking s => (Job.start { service := s, run := 0 } : Job t.size).effort attempts +
      (Job.stop { service := s } : Job t.size).effort attempts + 4
  | .beginning => startAllEffort attempts t + 2 * t.size + stopAllEffort t + 9
  | .following _ sequel => sequel.effort attempts t

/-- What jobs and calls have left to do, if containers are asked so many times. -/
def Controller.effort (attempts : Nat) (c : Controller t) : Nat :=
  c.total (Job.effort attempts) +
    weigh (fun call : Call t.size => call.phase.effort attempts) c.calls.toList

/-! ## Turns -/

section Turns

variable {c c' : Controller t} {now : Nat} {id : JobId} {action : Action} {slot : Slot} {aside : Aside}
  {effects : List Effect}

theorem Halt.effort_pos (halt : Halt) : 0 < halt.effort := by
  cases halt <;> simp [effort]

/-- A container is killed only while it is asked to stop. -/
theorem Halt.killing_lt_of_kill {halt : Halt} {reply : Reply}
    (h : halt.answered reply = some .kill) : killing.effort < halt.effort := by
  cases halt with
  | stopping deadline => exact Nat.lt_succ_self 1
  | killing => rcases reply with (_ | _ | _ | _) | _ <;> cases h

theorem Halt.killing_lt_of_timedOut {halt : Halt} (h : halt.timedOut now) :
    killing.effort < halt.effort := by
  cases halt with
  | stopping deadline => exact Nat.lt_succ_self 1
  | killing => cases h

theorem StopPhase.effort_detachPhase (volumes : List Volume) :
    (Controller.detachPhase volumes).effort volumes.length ≤ volumes.length + 1 := by
  cases volumes with
  | nil => exact Nat.le_refl _
  | cons volume rest => exact Nat.le_refl _

theorem StartPhase.effort_await (attempts dependencies volumes : Nat) (left : List (Fin n)) :
    (if left = [] then entering else awaiting left : StartPhase n).effort attempts dependencies
      volumes ≤ left.length + volumes + 13 + 3 * attempts := by
  split
  next h => simp only [h, effort, List.length_nil]; omega
  next => exact Nat.le_refl _

/-- An attempt that was not the last leaves less to do than before. -/
theorem effort_retryPhase (s : Fin t.size) (handle : Container.Handle) (attempt : UInt32)
    (dependencies volumes : Nat) :
    (c.retryPhase now s handle attempt).effort c.config.retry.maxAttempts.toNat dependencies volumes
      < 2 + 3 * (c.config.retry.maxAttempts.toNat - attempt.toNat) := by
  rcases c.retryPhase_cases now s handle attempt with ⟨hlt, deadline, he⟩ | ⟨-, he⟩
  · have hlt' : attempt.toNat < c.config.retry.maxAttempts.toNat := hlt
    have hsucc : (attempt + 1).toNat = attempt.toNat + 1 := by
      rw [UInt32.toNat_add]
      have := c.config.retry.maxAttempts.toNat_lt
      exact Nat.mod_eq_of_lt (by simp only [UInt32.toNat_one]; omega)
    rw [he, StartPhase.effort, hsucc]
    omega
  · rw [he, StartPhase.effort]
    omega

/-- What a turn creates beside its job. -/
def Aside.effort : Aside → Nat
  | .launches => 5
  | _ => 0

/-- **The turn of a start job** leaves less to do, also with the launch that it creates. -/
theorem StartTurn.effort_lt {job job' : StartJob t.size}
    (turn : StartTurn c now id job action job' slot aside effects) :
    (Job.start job').effort c.config.retry.maxAttempts.toNat + aside.effort
      < (Job.start job).effort c.config.retry.maxAttempts.toNat := by
  simp only [Job.effort, turn.same.1]
  generalize hA : c.config.retry.maxAttempts.toNat = attempts
  cases turn with
  | arrive hp hs =>
      have := StartPhase.effort_await attempts (t.dependencies job.service).length
        (t.volumesOf job.service).length (t.dependencies job.service)
      rw [StartJob.phase_await, hp]
      refine Nat.lt_of_le_of_lt this ?_
      simp only [StartPhase.effort]
      omega
  | @accept d rest hp hc hd =>
      have := StartPhase.effort_await attempts (t.dependencies job.service).length
        (t.volumesOf job.service).length rest
      rw [StartJob.phase_await, hp]
      refine Nat.lt_of_le_of_lt this ?_
      simp only [StartPhase.effort, List.length_cons]
      omega
  | @retry handle attempt probe hp hr =>
      have : (c.retryPhase now job.service handle attempt).effort _ _ _ < _ :=
        effort_retryPhase job.service handle attempt (t.dependencies job.service).length
          (t.volumesOf job.service).length
      rw [hA] at this
      rw [hp]
      simpa [StartJob.goTo, Aside.effort, StartPhase.effort] using this
  | overrun hp hh =>
      rw [hp]
      exact Halt.killing_lt_of_timedOut hh
  | @discarded handle halt reply hp hr =>
      rw [hp]
      simpa [StartJob.finish, Aside.effort, StartPhase.effort] using halt.effort_pos
  | kill hp hr =>
      rw [hp]
      exact Halt.killing_lt_of_kill hr
  | follow hp =>
      rcases hp with hp | ⟨hp, -⟩ <;> rw [hp] <;>
        simp only [StartJob.follow, Aside.effort, StartPhase.effort] <;> omega
  | heed hp =>
      rcases hp with ⟨_, _, _, hp⟩ | ⟨_, _, hp⟩ <;> rw [hp] <;>
        simp only [StartJob.goTo, Aside.effort, StartPhase.effort] <;> omega
  | @conclude verdict hp =>
      rw [hp]
      rcases verdict with _ | _ | (_ | _) <;> exact Nat.lt_succ_self 0
  | @enter volume rest hp hc hs hv =>
      rw [hp]
      simp only [StartJob.goTo, Aside.effort, StartPhase.effort, hv, List.length_cons]
      omega
  | cease hp | refuse hp | forgo hp | pass hp | giveUp hp | decline hp | enterBare hp | abandon hp
  | collect hp | lose hp | record hp | discard hp | ask hp | heedProbe hp | wake hp | bind hp
  | bindLast hp | miss hp | ready hp =>
      rw [hp]
      simp only [StartJob.finish, StartJob.goTo, Aside.effort, StartPhase.effort,
        Controller.beginHalt, Halt.effort, List.length_cons, List.length_nil, UInt32.toNat_one]
      omega

/-- **The turn of a stop job** leaves less to do. -/
theorem StopTurn.effort_lt {job : StopJob t.size} {phase : StopPhase}
    (turn : StopTurn c now id job action phase slot effects) :
    phase.effort (t.volumesOf job.service).length < job.phase.effort (t.volumesOf job.service).length := by
  have hdetach := StopPhase.effort_detachPhase (t.volumesOf job.service)
  have htaken : (c.takenPhase now job.service (c.slot job.service).handle).effort
      (t.volumesOf job.service).length < (t.volumesOf job.service).length + 4 := by
    cases (c.slot job.service).handle with
    | some handle => exact Nat.lt_succ_self _
    | none => exact Nat.lt_of_le_of_lt hdetach (by omega)
  cases turn with
  | take hp | takeLeft hp =>
      rw [hp]
      exact htaken
  | skip hp =>
      rw [hp]
      exact Nat.lt_of_le_of_lt hdetach (by simp only [StopPhase.effort]; omega)
  | @halted handle halt reply hp hr =>
      have := halt.effort_pos
      rw [hp]
      exact Nat.lt_of_le_of_lt hdetach (by simp only [StopPhase.effort]; omega)
  | @unbind volume rest result hp =>
      rw [hp]
      cases rest <;> simp [Controller.detachPhase, StopPhase.effort]
  | overrun hp hh =>
      rw [hp]
      exact Nat.add_lt_add_left (Halt.killing_lt_of_timedOut hh) _
  | kill hp hr =>
      rw [hp]
      exact Nat.add_lt_add_left (Halt.killing_lt_of_kill hr) _
  | go hp | pass hp | idle hp | retire hp | leave hp =>
      rw [hp]
      simp only [StopPhase.effort, List.length_cons, List.length_nil]
      omega

/-- **The turn of a launch** leaves less to do. -/
theorem LaunchTurn.effort_lt {l : Launch t.size} {phase : LaunchPhase}
    (turn : LaunchTurn c now id l action phase effects) : phase.effort < l.phase.effort := by
  cases turn with
  | overrun hp hh =>
      rw [hp]
      exact Halt.killing_lt_of_timedOut hh
  | kill hp hr =>
      rw [hp]
      exact Halt.killing_lt_of_kill hr
  | @halted handle halt reply hp hr =>
      rw [hp]
      exact halt.effort_pos
  | call hp | halt hp | drop hp | «return» hp =>
      rw [hp]
      simp [LaunchPhase.effort, Controller.beginHalt, Halt.effort]

end Turns

/-! ## Steps -/

namespace Controller

variable {c c' : Controller t} {now attempts : Nat} {id : Nat} {call : Call t.size}
  {effects : List Effect}

/-- A turn of a job leaves less to do. -/
theorem TurnsTo.effort_lt {action : Action} (h : TurnsTo c now id action c' effects)
    (hlink : c.Linked) :
    c'.effort c.config.retry.maxAttempts.toNat < c.effort c.config.retry.maxAttempts.toNat := by
  generalize hA : c.config.retry.maxAttempts.toNat = attempts
  obtain ⟨old, new, slot, aside, hj, turn, rfl⟩ := h
  simp only [effort, calls_after]
  refine Nat.add_lt_add_right ?_ _
  cases turn with
  | @start job job' _ _ _ _ turn =>
      have hlt := turn.effort_lt
      rw [hA] at hlt
      rcases turn.launch_cases with ⟨rfl, -⟩ | ⟨rfl, -⟩ | ⟨launch, l, result, rfl, hl, hr, -⟩ |
        ⟨launch, rfl, hw, -⟩
      · have := total_after_nothing (.start job') job.service slot (Job.effort attempts) hj
        simp only [Aside.effort, Job.service_start] at *
        omega
      · have := total_after_launches (.start job') job.service slot (Job.effort attempts) hj
        simp only [Aside.effort, Job.effort, LaunchPhase.effort, Job.service_start] at *
        omega
      · have := total_after_takes (.start job') job.service slot (Job.effort attempts)
          (launch_ne_start hj hl).symm hj hl
        simp only [Aside.effort, Job.effort, LaunchPhase.effort, Job.service_start] at *
        omega
      · obtain ⟨l, hl, -⟩ := hlink.launch hj hw
        have := total_after_leaves (.start job') job.service slot (Job.effort attempts)
          (launch_ne_start hj hl).symm hj hl
        simp only [Aside.effort, Job.effort, Job.service_start] at *
        omega
  | @stop job phase _ _ _ turn =>
      have hlt := turn.effort_lt
      have := total_after_nothing (.stop { job with phase }) job.service slot (Job.effort attempts) hj
      simp only [Job.effort, Job.service_stop] at *
      omega
  | @launch l phase _ _ turn =>
      have hlt := turn.effort_lt
      have := total_after_nothing (.launch { l with phase }) l.service (c.slot l.service)
        (Job.effort attempts) hj
      simp only [Job.effort, Job.service_launch] at *
      omega

/-- No step changes the settings. -/
theorem config_step {action : Action} (hs : c.step now action = some (c', effects)) :
    c'.config = c.config := by
  refine step_induct (P := fun d => d.config = c.config) hs ?_ ?_ rfl
  · rintro id ⟨old, new, slot, aside, hj, turn, rfl⟩
    exact config_after
  · exact fun h change => change.config_eq.trans h

/-! ### Calls -/

@[simp] theorem effort_cancelRuns : c.cancelRuns.effort attempts = c.effort attempts := rfl

@[simp] theorem effort_setSlot (s : Fin t.size) (slot : Slot) :
    (c.setSlot s slot).effort attempts = c.effort attempts := rfl

@[simp] theorem effort_arm : c.arm.effort attempts = c.effort attempts := by
  simp [effort, total]

@[simp] theorem effort_spawn (jobs : List (Job t.size)) :
    (c.spawn jobs).effort attempts = c.effort attempts + weigh (Job.effort attempts) jobs := by
  simp only [effort, total_spawn, calls_spawn]
  omega

theorem effort_openCall (operation : Operation) (jobs : List JobId) (phase : CallPhase t.size) :
    (c.openCall operation jobs phase).1.effort attempts
      = c.effort attempts + phase.effort attempts := by
  simp [effort, total, openCall, weigh_append, Nat.add_assoc]

/-- A call that moves on changes what is left to do by what it has left itself. -/
theorem effort_setCallPhase (hc : c.calls[id]? = some call) (phase : CallPhase t.size) :
    (c.setCallPhase id phase).effort attempts + call.phase.effort attempts
      = c.effort attempts + phase.effort attempts := by
  have hl : c.calls.toList[id]? = some call := by simpa using hc
  have := weigh_set (fun call : Call t.size => call.phase.effort attempts) hl { call with phase }
  simp only [effort, total, setCallPhase, hc, setCall, Array.toList_setIfInBounds] at this ⊢
  omega

/-- What a call that moves on creates is paid by what it has left to do less. -/
theorem effort_move_lt (hc : c.calls[id]? = some call) {d : Controller t}
    (hd : d.calls[id]? = c.calls[id]?) {phase : CallPhase t.size}
    (hlt : d.effort attempts + phase.effort attempts < c.effort attempts + call.phase.effort attempts) :
    (d.setCallPhase id phase).effort attempts < c.effort attempts := by
  have : (d.setCallPhase id phase).effort attempts + _ = _ := effort_setCallPhase (hd.trans hc) phase
  omega

theorem effort_spawnStarts (services : List (Fin t.size)) :
    (c.spawnStarts services).effort attempts = c.effort attempts +
      weigh (fun s => (Job.start { service := s, run := 0 } : Job t.size).effort attempts) services := by
  have hspawn : (c.spawnStarts services).effort attempts
      = (c.spawn (services.map fun s => .start { service := s, run := c.currentRun })).effort attempts := by
    simp only [effort, total, jobs_spawnStarts, calls_spawnStarts, calls_spawn]
  have hjobs (run : Nat) :
      weigh (Job.effort attempts) (services.map fun s => .start { service := s, run }) = weigh
        (fun s => (Job.start { service := s, run := 0 } : Job t.size).effort attempts) services := by
    clear hspawn
    induction services with
    | nil => rfl
    | cons s rest ih => rw [List.map_cons, weigh_cons, weigh_cons, ih]; rfl
  rw [hspawn, effort_spawn, hjobs]

/-- A start of all services creates no more than it is said to have to do. -/
theorem effort_startAll :
    c.startAll.1.effort attempts ≤ c.effort attempts + startAllEffort attempts t := by
  unfold startAll startAllEffort
  cases h : t.startOrder with
  | error error =>
      simp only [openReport, effort_openCall, CallPhase.effort]
      omega
  | ok order =>
      simp only [effort_openCall, effort_spawnStarts, effort_arm, CallPhase.effort]
      omega

/-- A stop of all services creates no more than it is said to have to do. -/
theorem effort_stopAll : c.stopAll.1.effort attempts ≤ c.effort attempts + stopAllEffort t := by
  unfold stopAll stopAllEffort
  dsimp only
  cases h : t.stopOrder with
  | error error =>
      simp only [openReport, effort_openCall, effort_cancelRuns, CallPhase.effort]
      omega
  | ok order =>
      have hjobs (waits : Fin t.size → List JobId)
          (hw : ∀ s, (waits s).length = (t.dependents s).length) :
          weigh (Job.effort attempts) (order.map fun s => .stop { service := s, phase := .awaiting (waits s) })
            = weigh (fun s => (t.dependents s).length + (t.volumesOf s).length + 5) order := by
        clear h
        induction order with
        | nil => rfl
        | cons s rest ih =>
            rw [List.map_cons, weigh_cons, weigh_cons, ih]
            simp [Job.effort, StopPhase.effort, hw]
      simp only [effort_openCall, spawnStops, effort_spawn, effort_cancelRuns, CallPhase.effort]
      rw [hjobs _ (fun s => List.length_map _)]
      omega

theorem effort_cancel : c.cancel.1.effort attempts = c.effort attempts + t.size + 1 := by
  simp only [cancel, effort_openCall, effort_cancelRuns, CallPhase.effort, List.length_finRange]
  omega

theorem effort_shutDown : (c.invoke now .shutDown).1.effort attempts
    = c.effort attempts + t.size + stopAllEffort t + 3 := by
  have : c.cancel.1.effort attempts = _ := effort_cancel
  simp only [invoke, effort_openCall, CallPhase.effort, Sequel.effort]
  omega

/-- A call that goes on after another one leaves less to do, with all that it calls. -/
theorem effort_follow_lt (hc : c.calls[id]? = some call) {other : CallId} {sequel : Sequel}
    (hp : call.phase = .following other sequel) (answer : Answer) :
    (c.follow now id sequel answer).effort attempts < c.effort attempts := by
  have hlt : id < c.calls.size := (Array.getElem?_eq_some_iff.1 hc).1
  have hanswer (answer : Answer) (hpos : 0 < sequel.effort attempts t) :
      (c.answerCall now id answer).effort attempts < c.effort attempts :=
    effort_move_lt hc rfl (by simpa [hp, CallPhase.effort] using hpos)
  cases sequel with
  | report | finish | interrupt => exact hanswer _ (by simp [Sequel.effort])
  | drain up => exact effort_move_lt hc rfl (by simp only [hp, CallPhase.effort, Sequel.effort]; omega)
  | startAll =>
      have hstart : c.startAll.1.effort attempts ≤ _ := effort_startAll
      refine effort_move_lt hc (calls_startAll_of_lt hlt) ?_
      simp only [hp, CallPhase.effort, Sequel.effort]
      omega
  | stopAll =>
      have hstop : c.stopAll.1.effort attempts ≤ _ := effort_stopAll
      refine effort_move_lt hc (calls_stopAll_of_lt hlt) ?_
      simp only [hp, CallPhase.effort, Sequel.effort]
      omega
  | shutDown =>
      have hshut : (c.invoke now .shutDown).1.effort attempts = _ := effort_shutDown
      have hkept : (c.invoke now .shutDown).1.calls[id]? = c.calls[id]? := by
        rw [invoke, calls_openCall_of_lt, calls_cancel_of_lt hlt]
        simp only [Controller.cancel, size_calls_openCall, calls_cancelRuns]
        omega
      refine effort_move_lt hc hkept ?_
      simp only [hp, CallPhase.effort, Sequel.effort]
      omega

theorem effort_proceed_lt (hc : c.calls[id]? = some call)
    (h : c.proceed now id call = some (c', effects)) : c'.effort attempts < c.effort attempts := by
  unfold proceed at h
  -- One case for each phase, in the order of `proceed`.
  split at h
  next hp =>
    split at h
    next =>
      obtain ⟨rfl, -⟩ := by simpa using h
      exact effort_move_lt hc rfl (by simp [hp, CallPhase.effort])
    next => cases h
  next taken hp =>
    obtain ⟨rfl, -⟩ := by simpa using h
    exact effort_move_lt hc rfl (by simp [hp, CallPhase.effort])
  next s rest taken hp =>
    obtain ⟨rfl, -⟩ := by simpa using h
    exact effort_move_lt hc rfl (by simp [hp, CallPhase.effort])
  next s hp =>
    dsimp only at h
    split at h
    next =>
      obtain ⟨rfl, -⟩ := by simpa using h
      refine effort_move_lt hc (congrArg (·[id]?) (calls_spawn [.stop { service := s }])) ?_
      simp only [hp, CallPhase.effort, effort_spawn, weigh_cons, weigh_nil]
      omega
    next =>
      obtain ⟨rfl, -⟩ := by simpa using h
      exact effort_move_lt hc rfl (by simp [hp, CallPhase.effort])
  next s job hp =>
    split at h
    next =>
      obtain ⟨rfl, -⟩ := by simpa using h
      have hspawn : (c.arm.spawnStarts [s]).effort attempts = _ := effort_spawnStarts [s]
      rw [effort_arm, weigh_cons, weigh_nil] at hspawn
      refine effort_move_lt hc (by simp) ?_
      simp only [hp, CallPhase.effort]
      omega
    next => cases h
  next s job hp =>
    split at h
    next =>
      obtain ⟨rfl, -⟩ := by simpa using h
      exact effort_move_lt hc rfl (by simp [hp, CallPhase.effort])
    next => cases h
  next s hp =>
    obtain ⟨rfl, -⟩ := by simpa using h
    exact effort_move_lt hc rfl (by simp [hp, CallPhase.effort])
  next hp =>
    obtain ⟨rfl, -⟩ := by simpa using h
    exact effort_move_lt hc rfl (by simp [hp, CallPhase.effort])
  next s rest hp =>
    rw [moveFromStarting_eq _ _ _ (by rfl)] at h
    obtain ⟨rfl, -⟩ := by simpa using h
    refine effort_move_lt hc (congrArg (·[id]?) (calls_setSlot s _)) ?_
    simp [hp, CallPhase.effort]
  next hp =>
    obtain ⟨rfl, -⟩ := by simpa using h
    have hstart : c.startAll.1.effort attempts ≤ _ := effort_startAll
    refine effort_move_lt hc (calls_startAll_of_lt (Array.getElem?_eq_some_iff.1 hc).1) ?_
    simp only [hp, CallPhase.effort, Sequel.effort]
    omega
  next other sequel hp =>
    split at h
    next answer time hf =>
      obtain ⟨rfl, -⟩ := by simpa using h
      exact effort_follow_lt hc hp answer
    next => cases h
  next => cases h

theorem effort_interrupt_lt (hc : c.calls[id]? = some call)
    (h : c.interrupt id call = some (c', effects)) : c'.effort attempts < c.effort attempts := by
  have hlt : id < c.calls.size := (Array.getElem?_eq_some_iff.1 hc).1
  have hcancel : c.cancel.1.effort attempts = _ := effort_cancel
  unfold interrupt at h
  split at h
  next hp =>
    obtain ⟨rfl, -⟩ := by simpa using h
    refine effort_move_lt hc (calls_cancel_of_lt hlt) ?_
    simp only [hp, CallPhase.effort, Sequel.effort]
    omega
  next up hp =>
    obtain ⟨rfl, -⟩ := by simpa using h
    refine effort_move_lt hc (calls_cancel_of_lt hlt) ?_
    simp only [hp, CallPhase.effort, Sequel.effort]
    omega
  next => cases h

/-- **Every step but a new call leaves less to do.** -/
theorem effort_lt_of_step {action : Action} (hlink : c.Linked)
    (hs : c.step now action = some (c', effects)) (ha : ∀ operation, action ≠ .invoke operation) :
    c'.effort c.config.retry.maxAttempts.toNat < c.effort c.config.retry.maxAttempts.toNat := by
  cases action with
  | invoke operation => exact absurd rfl (ha operation)
  | proceed id =>
      obtain ⟨call, hc, h⟩ := Option.bind_eq_some_iff.1 hs
      exact effort_proceed_lt hc h
  | interrupt id =>
      obtain ⟨call, hc, h⟩ := Option.bind_eq_some_iff.1 hs
      exact effort_interrupt_lt hc h
  | run id | heed id | timeout id | answer id reply =>
      exact (turnsTo_of_step (rfl : Action.job? _ = some id) hs).effort_lt hlink

end Controller

end Bringup.Lifecycle
