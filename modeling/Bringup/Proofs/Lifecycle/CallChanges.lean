import Bringup.Lifecycle.Step
import Bringup.Proofs.Lifecycle.Inversion

/-!
# Changes that calls make

Everything a call can do to a controller, told once. Making a call, a step of a call and an interrupt
are each a few changes one after another: a call is opened, moves to its next phase, or sets a job to
work. `CallChange` lists the changes, and `changesTo_of_step` reads the definitions of the steps, so an
invariant is kept by all calls if every single change keeps it.
-/

namespace Bringup.Lifecycle

variable {n : Nat}

/-- The phases in which a call waits for jobs. -/
def CallPhase.Waits : CallPhase n → Prop
  | .joining | .stopping .. | .starting .. => True
  | _ => False

/-- The phases from which a call that starts every service until interrupted goes on to the start. -/
def CallPhase.begins : CallPhase n → Bool
  | .beginning | .following _ .startAll => true
  | _ => false

/-- The phases that a call can be in. A call made of others follows them until it has answered. -/
def Operation.Allows : Operation → CallPhase n → Prop
  | .startAll, .joining | .startAll, .reporting .. | .startAll, .answered (.report _) _ => True
  | .stopAll, .joining | .stopAll, .reporting .. | .stopAll, .answered (.report _) _ => True
  | .status, .reporting .. | .status, .answered (.report _) _ => True
  | .cancel, .sweeping _ | .cancel, .answered .cancelled _ => True
  | .restart _, .checking _ | .restart _, .stopping .. | .restart _, .starting ..
  | .restart _, .reading _ | .restart _, .answered (.restarted _) _ => True
  | .shutDown, .following .. | .shutDown, .answered .. => True
  | .upUntil, .beginning | .upUntil, .following .. | .upUntil, .answered .. => True
  | _, _ => False

/-- Calls of the operation stop something themselves. -/
def Operation.Stops : Operation → Prop
  | .stopAll | .restart _ => True
  | _ => False

/-- A stop job that has not taken its service yet. -/
def StopJob.Fresh (job : StopJob n) : Prop :=
  job.phase = .taking ∨ ∃ jobs, job.phase = .awaiting jobs

namespace Controller

variable {t : Topology}

/-- The step of a call between two phases that sets nothing to work. -/
inductive Progresses (c : Controller t) (now : Nat) (call : Call t.size) :
    CallPhase t.size → Prop where
  | joined (hp : call.phase = .joining) (hf : ∀ job ∈ call.jobs, c.isFinished job) :
    Progresses c now call (.reporting (reportOrder t) [])
  | reported {taken : List Status} (hp : call.phase = .reporting [] taken) :
    Progresses c now call (.answered (.report ⟨taken.reverse⟩) now)
  | read {s : Fin t.size} {rest : List (Fin t.size)} {taken : List Status}
    (hp : call.phase = .reporting (s :: rest) taken) :
    Progresses c now call (.reporting rest (c.status s :: taken))
  | refused {s : Fin t.size} (hp : call.phase = .checking s)
    (hs : (c.slot s).state ≠ .ready ∧ (c.slot s).state ≠ .stopped) :
    Progresses c now call
      (.answered (.restarted (.error (.notRestartable (t.id s) (c.slot s).state))) now)
  | started {s : Fin t.size} {job : JobId} (hp : call.phase = .starting s job)
    (hf : c.isFinished job) : Progresses c now call (.reading s)
  | restarted {s : Fin t.size} (hp : call.phase = .reading s) :
    Progresses c now call (.answered (.restarted (c.restartResult s)) now)
  | swept (hp : call.phase = .sweeping []) :
    Progresses c now call (.answered .cancelled now)
  /-- A call made of others makes the first one. -/
  | begun {other : CallId} {sequel : Sequel} (hp : call.phase = .beginning) :
    Progresses c now call (.following other sequel)
  /-- A call made of others goes on with the next one. -/
  | followed {other other' : CallId} {sequel sequel' : Sequel}
    (hp : call.phase = .following other sequel) : Progresses c now call (.following other' sequel')
  | handedOn {other : CallId} {sequel : Sequel} {answer answer' : Answer} {time : Nat}
    (hp : call.phase = .following other sequel) (hf : c.answer? other = some (answer, time)) :
    Progresses c now call (.answered answer' now)

/-- A change that a call makes, with what was called. -/
inductive CallChange (now : Nat) (c : Controller t) : Operation → Controller t → Prop where
  /-- A start is called. -/
  | start {order : List (Fin t.size)} (h : t.startOrder = .ok order) :
    CallChange now c .startAll ((c.arm.spawnStarts order).openCall .startAll
      ((List.range order.length).map (c.jobs.size + ·)) .joining).1
  /-- A stop is called. -/
  | stop {order : List (Fin t.size)} (h : t.stopOrder = .ok order) :
    CallChange now c .stopAll ((c.cancelRuns.spawnStops order).openCall .stopAll
      ((List.range order.length).map (c.jobs.size + ·)) .joining).1
  /-- A stop is called where the services have no order. -/
  | stopNothing {error : TopologyError} (h : t.stopOrder = .error error) :
    CallChange now c .stopAll (c.cancelRuns.openReport .stopAll).1
  | cancel :
    CallChange now c .cancel
      (c.cancelRuns.openCall .cancel [] (.sweeping (List.finRange t.size))).1
  /-- A call that sets no jobs to work at first. -/
  | ask {operation : Operation} {phase : CallPhase t.size} (hw : ¬ phase.Waits)
    (hf : operation.Allows phase) (hn : operation ≠ .stopAll) :
    CallChange now c operation (c.openCall operation [] phase).1
  | progress {id : CallId} {call : Call t.size} {phase : CallPhase t.size}
    (hc : c.calls[id]? = some call) (hp : c.Progresses now call phase) :
    CallChange now c call.operation (c.setCallPhase id phase)
  /-- A restart stops its service. -/
  | restop {id : CallId} {call : Call t.size} {s : Fin t.size} (hc : c.calls[id]? = some call)
    (hp : call.phase = .checking s)
    (hs : (c.slot s).state = .ready ∨ (c.slot s).state = .stopped) :
    CallChange now c call.operation
      ((c.spawn [.stop { service := s }]).setCallPhase id (.stopping s c.jobs.size))
  /-- A restart starts its service. -/
  | restart {id : CallId} {call : Call t.size} {s : Fin t.size} {job : JobId}
    (hc : c.calls[id]? = some call) (hp : call.phase = .stopping s job) (hf : c.isFinished job) :
    CallChange now c call.operation
      ((c.arm.spawnStarts [s]).setCallPhase id (.starting s c.jobs.size))
  /-- A cancel takes a service out of the state of starting. -/
  | sweep {id : CallId} {call : Call t.size} {s : Fin t.size} {rest : List (Fin t.size)}
    (hc : c.calls[id]? = some call) (hp : call.phase = .sweeping (s :: rest)) :
    CallChange now c call.operation ((c.setSlot s ((c.slot s).leaveStarting now .stopping
      (some (.cancelled (t.id s))))).setCallPhase id (.sweeping rest))

/-- Some changes one after another. -/
inductive ChangesTo (now : Nat) (c : Controller t) : Controller t → Prop where
  | refl : ChangesTo now c c
  | tail {operation : Operation} {d e : Controller t} (h : ChangesTo now c d)
    (change : CallChange now d operation e) : ChangesTo now c e

namespace ChangesTo

variable {now : Nat} {c d e : Controller t} {operation : Operation}

theorem single (h : CallChange now c operation d) : ChangesTo now c d := .tail .refl h

/-- What every change keeps, some changes keep. -/
theorem induct {P : Controller t → Prop} (h : ChangesTo now c d)
    (keep : ∀ {c operation d}, P c → CallChange now c operation d → P d) (hc : P c) : P d := by
  induction h with
  | refl => exact hc
  | tail _ change ih => exact keep ih change

end ChangesTo

variable {c c' : Controller t} {now : Nat} {effects : List Effect}

/-! ## Reading the calls -/

theorem calls_openCall_of_lt {operation : Operation} {jobs : List JobId} {phase : CallPhase t.size}
    {i : Nat} (h : i < c.calls.size) :
    (c.openCall operation jobs phase).1.calls[i]? = c.calls[i]? := by
  simp [openCall, Array.getElem?_push, Nat.ne_of_lt h]

@[simp] theorem calls_cancelRuns : c.cancelRuns.calls = c.calls := rfl

@[simp] theorem calls_spawn (jobs : List (Job t.size)) : (c.spawn jobs).calls = c.calls := rfl

@[simp] theorem calls_setSlot (s : Fin t.size) (slot : Slot) : (c.setSlot s slot).calls = c.calls := rfl

@[simp] theorem calls_arm : c.arm.calls = c.calls := by
  unfold arm
  split <;> rfl

theorem calls_claims (services : List (Fin t.size)) :
    (services.foldl (fun c s => c.modifySlot s Slot.claim) c).calls = c.calls := by
  induction services generalizing c with
  | nil => rfl
  | cons s rest ih => rw [List.foldl_cons, ih]; rfl

@[simp] theorem calls_spawnStarts (services : List (Fin t.size)) :
    (c.spawnStarts services).calls = c.calls := calls_claims services

@[simp] theorem calls_spawnStops (order : List (Fin t.size)) :
    (c.spawnStops order).calls = c.calls := rfl

theorem calls_startAll_of_lt {i : Nat} (h : i < c.calls.size) :
    c.startAll.1.calls[i]? = c.calls[i]? := by
  unfold startAll
  split
  next => exact calls_openCall_of_lt h
  next order _ =>
    have hcalls : (c.arm.spawnStarts order).calls = c.calls := by simp
    exact (calls_openCall_of_lt (hcalls ▸ h)).trans (by rw [hcalls])

theorem calls_stopAll_of_lt {i : Nat} (h : i < c.calls.size) :
    c.stopAll.1.calls[i]? = c.calls[i]? := by
  unfold stopAll
  dsimp only
  split
  next => exact calls_openCall_of_lt (c := c.cancelRuns) h
  next => exact calls_openCall_of_lt (c := c.cancelRuns.spawnStops _) h

theorem calls_cancel_of_lt {i : Nat} (h : i < c.calls.size) :
    c.cancel.1.calls[i]? = c.calls[i]? := calls_openCall_of_lt (c := c.cancelRuns) h

theorem calls_setCallPhase_self {i : Nat} {call : Call t.size} (h : c.calls[i]? = some call)
    (phase : CallPhase t.size) :
    (c.setCallPhase i phase).calls[i]? = some { call with phase } := by
  have hi := (Array.getElem?_eq_some_iff.1 h).1
  unfold setCallPhase
  rw [h]
  simp [setCall, hi]

theorem calls_setCallPhase_of_ne {i k : Nat} (hne : k ≠ i) (phase : CallPhase t.size) :
    (c.setCallPhase i phase).calls[k]? = c.calls[k]? := by
  unfold setCallPhase
  split
  next => simp [setCall, Array.getElem?_setIfInBounds_ne (Ne.symm hne)]
  next => rfl

@[simp] theorem size_calls_setCallPhase (i : CallId) (phase : CallPhase t.size) :
    (c.setCallPhase i phase).calls.size = c.calls.size := by
  unfold setCallPhase
  split <;> simp [setCall]

@[simp] theorem size_calls_openCall (operation : Operation) (jobs : List JobId)
    (phase : CallPhase t.size) :
    (c.openCall operation jobs phase).1.calls.size = c.calls.size + 1 := by
  simp [openCall]

theorem calls_openCall_size {operation : Operation} {jobs : List JobId} {phase : CallPhase t.size} :
    (c.openCall operation jobs phase).1.calls[c.calls.size]? = some { operation, jobs, phase } := by
  simp [openCall]

/-- The call that is opened comes last. -/
theorem calls_openCall_cases {operation : Operation} {jobs : List JobId} {phase : CallPhase t.size}
    {i : Nat} {call : Call t.size}
    (h : (c.openCall operation jobs phase).1.calls[i]? = some call) :
    c.calls[i]? = some call ∨ (i = c.calls.size ∧ call = { operation, jobs, phase }) := by
  simp only [openCall, Array.getElem?_push] at h
  split at h
  next hi => exact .inr ⟨hi, by simpa using h.symm⟩
  next => exact .inl h

/-- A call after another one moved on, or the one that moved. -/
theorem calls_setCallPhase_cases {i k : Nat} {phase : CallPhase t.size} {call : Call t.size}
    (h : (c.setCallPhase i phase).calls[k]? = some call) :
    (k ≠ i ∧ c.calls[k]? = some call) ∨
      ∃ old, k = i ∧ c.calls[i]? = some old ∧ call = { old with phase } := by
  by_cases hk : k = i
  · subst hk
    have hs := (Array.getElem?_eq_some_iff.1 h).1
    rw [size_calls_setCallPhase] at hs
    have ho : c.calls[k]? = some c.calls[k] := Array.getElem?_eq_getElem hs
    rw [calls_setCallPhase_self ho] at h
    exact .inr ⟨_, rfl, ho, by simpa using h.symm⟩
  · rw [calls_setCallPhase_of_ne hk] at h
    exact .inl ⟨hk, h⟩

/-! ## Every step of a call is made of changes -/

theorem startAll_change : ChangesTo now c c.startAll.1 := by
  unfold startAll
  split
  next => exact .single (.ask (by simp [CallPhase.Waits]) (by simp [Operation.Allows]) (by simp))
  next order h => exact .single (.start h)

theorem stopAll_change : ChangesTo now c c.stopAll.1 := by
  unfold stopAll
  dsimp only
  split
  next error h => exact .single (.stopNothing h)
  next order h => exact .single (.stop h)

theorem cancel_change : ChangesTo now c c.cancel.1 := .single .cancel

theorem invoke_changes (operation : Operation) : ChangesTo now c (c.invoke now operation).1 := by
  cases operation with
  | startAll => exact startAll_change
  | stopAll => exact stopAll_change
  | restart service =>
      simp only [invoke, Controller.restart]
      split <;>
        exact .single (.ask (by simp [CallPhase.Waits]) (by simp [Operation.Allows]) (by simp))
  | cancel => exact cancel_change
  | status => exact .single (.ask (by simp [CallPhase.Waits]) (by simp [Operation.Allows]) (by simp))
  | shutDown =>
      exact cancel_change.tail
        (.ask (by simp [CallPhase.Waits]) (by simp [Operation.Allows]) (by simp))
  | upUntil => exact .single (.ask (by simp [CallPhase.Waits]) (by simp [Operation.Allows]) (by simp))

theorem follow_changes {id : CallId} {call : Call t.size} {other : CallId} {sequel : Sequel}
    {answer : Answer} {time : Nat} (hc : c.calls[id]? = some call)
    (hp : call.phase = .following other sequel) (hf : c.answer? other = some (answer, time)) :
    ChangesTo now c (c.follow now id sequel answer) := by
  have hlt : (id : Nat) < c.calls.size := (Array.getElem?_eq_some_iff.1 hc).1
  cases sequel with
  | startAll =>
      refine startAll_change.tail (.progress ?_ (.followed hp))
      rw [calls_startAll_of_lt hlt, hc]
  | stopAll =>
      refine stopAll_change.tail (.progress ?_ (.followed hp))
      rw [calls_stopAll_of_lt hlt, hc]
  | report | finish | interrupt => exact .single (.progress hc (.handedOn hp hf))
  | drain up => exact .single (.progress hc (.followed hp))
  | shutDown =>
      -- The shutdown opens calls behind this one, which is found where it was.
      refine (invoke_changes .shutDown).tail (.progress ?_ (.followed hp))
      rw [invoke, calls_openCall_of_lt, calls_cancel_of_lt hlt, hc]
      simp only [Controller.cancel, openCall, calls_cancelRuns, Array.size_push]
      exact Nat.lt_succ_of_lt hlt

theorem proceed_changes {id : CallId} {call : Call t.size} (hc : c.calls[id]? = some call)
    (h : c.proceed now id call = some (c', effects)) : ChangesTo now c c' ∧ effects = [] := by
  unfold proceed at h
  -- One case for each phase, in the order of `proceed`.
  split at h
  next hp =>
    split at h
    next hf =>
      obtain ⟨rfl, rfl⟩ := by simpa using h
      exact ⟨.single (.progress hc (.joined hp (List.all_eq_true.1 hf))), rfl⟩
    next => exact absurd h (by simp)
  next taken hp =>
    obtain ⟨rfl, rfl⟩ := by simpa using h
    exact ⟨.single (.progress hc (.reported hp)), rfl⟩
  next s rest taken hp =>
    obtain ⟨rfl, rfl⟩ := by simpa using h
    exact ⟨.single (.progress hc (.read hp)), rfl⟩
  next s hp =>
    dsimp only at h
    split at h
    next hs =>
      obtain ⟨rfl, rfl⟩ := by simpa using h
      exact ⟨.single (.restop hc hp hs), rfl⟩
    next hs =>
      obtain ⟨rfl, rfl⟩ := by simpa using h
      exact ⟨.single (.progress hc (.refused hp (not_or.1 hs))), rfl⟩
  next s job hp =>
    split at h
    next hf =>
      obtain ⟨rfl, rfl⟩ := by simpa using h
      exact ⟨.single (.restart hc hp hf), rfl⟩
    next => exact absurd h (by simp)
  next s job hp =>
    split at h
    next hf =>
      obtain ⟨rfl, rfl⟩ := by simpa using h
      exact ⟨.single (.progress hc (.started hp hf)), rfl⟩
    next => exact absurd h (by simp)
  next s hp =>
    obtain ⟨rfl, rfl⟩ := by simpa using h
    exact ⟨.single (.progress hc (.restarted hp)), rfl⟩
  next hp =>
    obtain ⟨rfl, rfl⟩ := by simpa using h
    exact ⟨.single (.progress hc (.swept hp)), rfl⟩
  next s rest hp =>
    rw [moveFromStarting_eq _ _ _ (by rfl)] at h
    obtain ⟨rfl, rfl⟩ := by simpa using h
    exact ⟨.single (.sweep hc hp), rfl⟩
  next hp =>
    obtain ⟨rfl, rfl⟩ := by simpa using h
    refine ⟨startAll_change.tail (.progress ?_ (.begun hp)), rfl⟩
    rw [calls_startAll_of_lt (Array.getElem?_eq_some_iff.1 hc).1, hc]
  next other sequel hp =>
    split at h
    next answer time hf =>
      obtain ⟨rfl, rfl⟩ := by simpa using h
      exact ⟨follow_changes hc hp hf, rfl⟩
    next => exact absurd h (by simp)
  next => exact absurd h (by simp)

theorem interrupt_changes {id : CallId} {call : Call t.size} (hc : c.calls[id]? = some call)
    (h : c.interrupt id call = some (c', effects)) : ChangesTo now c c' ∧ effects = [] := by
  unfold interrupt at h
  have hcancel : c.cancel.1.calls[id]? = some call := by
    rw [calls_cancel_of_lt (Array.getElem?_eq_some_iff.1 hc).1, hc]
  split at h
  next hp =>
    obtain ⟨rfl, rfl⟩ := by simpa using h
    exact ⟨cancel_change.tail (.progress hcancel (.begun hp)), rfl⟩
  next up hp =>
    obtain ⟨rfl, rfl⟩ := by simpa using h
    exact ⟨cancel_change.tail (.progress hcancel (.followed hp)), rfl⟩
  next => exact absurd h (by simp)

/-- **Every step that is no turn of a job is made of changes**, and shows nothing. -/
theorem changesTo_of_step {action : Action} (ha : action.job? = none)
    (h : c.step now action = some (c', effects)) : ChangesTo now c c' ∧ effects = [] := by
  cases action with
  | invoke operation =>
      obtain ⟨rfl, rfl⟩ := by simpa [step] using h
      exact ⟨invoke_changes operation, rfl⟩
  | proceed id =>
      obtain ⟨call, hc, h⟩ := Option.bind_eq_some_iff.1 h
      exact proceed_changes hc h
  | interrupt id =>
      obtain ⟨call, hc, h⟩ := Option.bind_eq_some_iff.1 h
      exact interrupt_changes hc h
  | run _ | heed _ | timeout _ | answer _ _ => cases ha

/-- What a turn brings about and every change keeps, a step keeps. -/
theorem step_induct {P : Controller t → Prop} {action : Action}
    (h : c.step now action = some (c', effects))
    (turn : ∀ id, TurnsTo c now id action c' effects → P c')
    (keep : ∀ {c operation d}, P c → CallChange now c operation d → P d) (hc : P c) : P c' := by
  cases ha : action.job? with
  | some id => exact turn id (turnsTo_of_step ha h)
  | none => exact (changesTo_of_step ha h).1.induct keep hc

/-! ## What a change leaves of slots and jobs

Of all a change does, the jobs and slots see three things: some services get a start job and a claim
each, some stop jobs are created, or a service is taken out of the state of starting. -/

/-- What a change leaves of slots, jobs and runs. -/
inductive Sets (now : Nat) (c d : Controller t) : Prop where
  | starts (services : List (Fin t.size))
    (jobs : d.jobs = (c.spawn (services.map fun s => .start { service := s, run := d.currentRun })).jobs)
    (slots : ∀ s, d.slot s = { c.slot s with claims := (c.slot s).claims + services.count s })
    (cancelled : d.cancelledRuns = c.cancelledRuns)
    (run : d.currentRun = c.arm.currentRun)
  | stops (stops : List (StopJob t.size)) (fresh : ∀ job ∈ stops, job.Fresh)
    (jobs : d.jobs = (c.spawn (stops.map Job.stop)).jobs) (slots : ∀ s, d.slot s = c.slot s)
    (cancelled : d.cancelledRuns = c.cancelledRuns ∨ d.cancelledRuns = c.currentRun + 1)
    (run : d.currentRun = c.currentRun)
  | sweeps (s : Fin t.size) (jobs : d.jobs = c.jobs)
    (slots : ∀ s', d.slot s' = if s' = s then
      (c.slot s).leaveStarting now .stopping (some (.cancelled (t.id s))) else c.slot s')
    (cancelled : d.cancelledRuns = c.cancelledRuns) (run : d.currentRun = c.currentRun)

theorem setCallPhase_eq (id : CallId) (phase : CallPhase t.size) :
    (c.setCallPhase id phase).jobs = c.jobs ∧ (c.setCallPhase id phase).slots = c.slots ∧
      (c.setCallPhase id phase).currentRun = c.currentRun ∧
      (c.setCallPhase id phase).cancelledRuns = c.cancelledRuns := by
  unfold setCallPhase
  split <;> exact ⟨rfl, rfl, rfl, rfl⟩

@[simp] theorem jobs_setCallPhase (id : CallId) (phase : CallPhase t.size) :
    (c.setCallPhase id phase).jobs = c.jobs := (setCallPhase_eq id phase).1

@[simp] theorem slot_setCallPhase (id : CallId) (phase : CallPhase t.size) (s : Fin t.size) :
    (c.setCallPhase id phase).slot s = c.slot s := by
  simp [Controller.slot, (setCallPhase_eq id phase).2.1]

@[simp] theorem currentRun_setCallPhase (id : CallId) (phase : CallPhase t.size) :
    (c.setCallPhase id phase).currentRun = c.currentRun := (setCallPhase_eq id phase).2.2.1

@[simp] theorem cancelledRuns_setCallPhase (id : CallId) (phase : CallPhase t.size) :
    (c.setCallPhase id phase).cancelledRuns = c.cancelledRuns := (setCallPhase_eq id phase).2.2.2

theorem claims_eq (services : List (Fin t.size)) :
    (services.foldl (fun c s => c.modifySlot s Slot.claim) c).jobs = c.jobs ∧
      (services.foldl (fun c s => c.modifySlot s Slot.claim) c).currentRun = c.currentRun ∧
      (services.foldl (fun c s => c.modifySlot s Slot.claim) c).cancelledRuns = c.cancelledRuns := by
  induction services generalizing c with
  | nil => exact ⟨rfl, rfl, rfl⟩
  | cons s rest ih => exact ih

@[simp] theorem size_jobs_spawnStarts (services : List (Fin t.size)) :
    (c.spawnStarts services).jobs.size = c.jobs.size + services.length := by
  simp [spawnStarts, (claims_eq services).1]

theorem slot_claims (services : List (Fin t.size)) (s : Fin t.size) :
    (services.foldl (fun c s => c.modifySlot s Slot.claim) c).slot s
      = { c.slot s with claims := (c.slot s).claims + services.count s } := by
  induction services generalizing c with
  | nil => simp
  | cons s' rest ih =>
      rw [List.foldl_cons, ih, modifySlot]
      by_cases h : s = s'
      · subst h
        rw [slot_setSlot_self, List.count_cons_self, Slot.claim]
        simp only [Slot.mk.injEq, true_and]
        omega
      · rw [slot_setSlot_of_ne _ h, List.count_cons_of_ne (Ne.symm h)]

theorem jobs_spawnStarts (services : List (Fin t.size)) :
    (c.spawnStarts services).jobs
      = (c.spawn (services.map fun s => .start { service := s, run := c.currentRun })).jobs := by
  simp only [spawnStarts, jobs_spawn, (claims_eq services).1, (claims_eq services).2.1]

theorem slot_spawnStarts (services : List (Fin t.size)) (s : Fin t.size) :
    (c.spawnStarts services).slot s
      = { c.slot s with claims := (c.slot s).claims + services.count s } := by
  simp only [spawnStarts, slot_spawn, slot_claims]

theorem runs_spawnStarts (services : List (Fin t.size)) :
    (c.spawnStarts services).currentRun = c.currentRun ∧
      (c.spawnStarts services).cancelledRuns = c.cancelledRuns :=
  ⟨(claims_eq services).2.1, (claims_eq services).2.2⟩

@[simp] theorem cancelledRuns_arm : c.arm.cancelledRuns = c.cancelledRuns := by
  unfold arm
  split <;> rfl

@[simp] theorem config_spawnStarts (services : List (Fin t.size)) :
    (c.spawnStarts services).config = c.config := by
  have hclaims (c : Controller t) :
      (services.foldl (fun c s => c.modifySlot s Slot.claim) c).config = c.config := by
    induction services generalizing c with
    | nil => rfl
    | cons s rest ih => exact ih _
  exact hclaims c

@[simp] theorem config_arm : c.arm.config = c.config := by
  unfold arm
  split <;> rfl

@[simp] theorem config_setCallPhase (id : CallId) (phase : CallPhase t.size) :
    (c.setCallPhase id phase).config = c.config := by
  unfold setCallPhase
  split <;> rfl

/-- A change leaves the configuration alone. -/
theorem CallChange.config_eq {operation : Operation} {d : Controller t}
    (h : CallChange now c operation d) : d.config = c.config := by
  cases h with
  | @start order => exact (config_spawnStarts order).trans config_arm
  | stop | stopNothing | cancel | ask => rfl
  | progress | restop | sweep => exact config_setCallPhase _ _
  | restart => exact (config_setCallPhase _ _).trans ((config_spawnStarts _).trans config_arm)

theorem jobs_spawn_congr {c d : Controller t} (h : c.jobs = d.jobs) (jobs : List (Job t.size)) :
    (c.spawn jobs).jobs = (d.spawn jobs).jobs := by
  rw [jobs_spawn, jobs_spawn, h]

/-- The jobs of a new start come after those that there are, in the order of the services. -/
theorem job_spawnStarts (order : List (Fin t.size)) (i : Nat) :
    (c.arm.spawnStarts order).jobs[c.jobs.size + i]? = (order[i]?).map fun s =>
      .start { service := s, run := c.arm.currentRun } := by
  rw [jobs_spawnStarts, jobs_spawn_congr (jobs_arm c), jobs_spawn_of_ge _ (Nat.le_add_right _ _),
    Nat.add_sub_cancel_left, List.getElem?_map]

/-- **What every change leaves** of slots, jobs and runs. -/
theorem CallChange.sets {operation : Operation} {d : Controller t}
    (h : CallChange now c operation d) : Sets now c d := by
  cases h with
  | @start order h =>
      refine .starts order ?_ (?_) ?_ ?_
      · exact (jobs_spawnStarts order).trans
          (by rw [← (runs_spawnStarts order).1]; exact jobs_spawn_congr (jobs_arm c) _)
      · intro s
        exact (slot_spawnStarts order s).trans (by rw [slot_arm])
      · exact ((runs_spawnStarts order).2).trans cancelledRuns_arm
      · exact (runs_spawnStarts order).1
  | @stop order h =>
      refine .stops (order.map fun s => { service := s, phase := .awaiting ((t.dependents s).map
        fun d => c.jobs.size + order.idxOf d) }) ?_ ?_ (fun s => rfl) (.inr rfl) rfl
      · intro job hj
        obtain ⟨s, -, rfl⟩ := List.mem_map.1 hj
        exact .inr ⟨_, rfl⟩
      · rw [List.map_map]
        rfl
  | stopNothing h =>
      exact .stops [] (by simp) (by simp [openReport, openCall, jobs_spawn]) (fun s => rfl)
        (.inr rfl) rfl
  | cancel =>
      exact .stops [] (by simp) (by simp [openCall, jobs_spawn]) (fun s => rfl) (.inr rfl) rfl
  | ask hw hf =>
      exact .stops [] (by simp) (by simp [openCall, jobs_spawn]) (fun s => rfl) (.inl rfl) rfl
  | progress hc hp =>
      exact .stops [] (by simp) (by simp [jobs_spawn]) (fun s => slot_setCallPhase _ _ s)
        (.inl (cancelledRuns_setCallPhase _ _)) (currentRun_setCallPhase _ _)
  | @restop id call s hc hp hs =>
      refine .stops [{ service := s }] ?_ (by simp) (fun s => by simp) (.inl ?_) ?_
      · intro job hj
        rw [List.mem_singleton] at hj
        exact .inl (by rw [hj])
      · exact cancelledRuns_setCallPhase _ _
      · exact currentRun_setCallPhase _ _
  | @restart id call s job hc hp hf =>
      refine .starts [s] ?_ (?_) ?_ ?_
      · rw [jobs_setCallPhase, currentRun_setCallPhase, (runs_spawnStarts [s]).1, jobs_spawnStarts]
        exact jobs_spawn_congr (jobs_arm c) _
      · intro s'
        rw [slot_setCallPhase, slot_spawnStarts, slot_arm]
      · rw [cancelledRuns_setCallPhase, (runs_spawnStarts [s]).2, cancelledRuns_arm]
      · rw [currentRun_setCallPhase, (runs_spawnStarts [s]).1]
  | @sweep id call s rest hc hp =>
      refine .sweeps s (jobs_setCallPhase _ _) (?_) (cancelledRuns_setCallPhase _ _)
        (currentRun_setCallPhase _ _)
      intro s'
      rw [slot_setCallPhase, slot_setSlot]

/-- Start jobs after a change: those of before, and new ones for the current run that have not looked
at their service yet and hold their claim. -/
theorem Sets.start_cases {d : Controller t} (h : Sets now c d) {id : Nat} {job : StartJob t.size}
    (hj : d.jobs[id]? = some (.start job)) :
    c.jobs[id]? = some (.start job) ∨
      (c.jobs.size ≤ id ∧ job.phase = .arriving ∧ job.claimed ∧ job.run = d.currentRun) := by
  cases h with
  | starts services jobs =>
      rw [jobs] at hj
      by_cases hid : id < c.jobs.size
      · exact .inl (by rwa [jobs_spawn_of_lt _ hid] at hj)
      · rw [jobs_spawn_of_ge _ (by omega)] at hj
        obtain ⟨s, -, hs⟩ := List.mem_map.1 (List.mem_of_getElem? hj)
        rw [← Job.start.inj hs]
        exact .inr ⟨by omega, rfl, rfl, rfl⟩
  | stops stops fresh jobs =>
      rw [jobs] at hj
      by_cases hid : id < c.jobs.size
      · exact .inl (by rwa [jobs_spawn_of_lt _ hid] at hj)
      · rw [jobs_spawn_of_ge _ (by omega)] at hj
        obtain ⟨s, -, hs⟩ := List.mem_map.1 (List.mem_of_getElem? hj)
        cases hs
  | sweeps s jobs => exact .inl (jobs ▸ hj)

/-- Stop jobs after a change: those of before, and new ones that have not taken their service yet. -/
theorem Sets.stop_cases {d : Controller t} (h : Sets now c d) {id : Nat} {job : StopJob t.size}
    (hj : d.jobs[id]? = some (.stop job)) : c.jobs[id]? = some (.stop job) ∨ job.Fresh := by
  cases h with
  | starts services jobs =>
      rw [jobs] at hj
      by_cases hid : id < c.jobs.size
      · exact .inl (by rwa [jobs_spawn_of_lt _ hid] at hj)
      · rw [jobs_spawn_of_ge _ (by omega)] at hj
        obtain ⟨s, -, hs⟩ := List.mem_map.1 (List.mem_of_getElem? hj)
        cases hs
  | stops stops fresh jobs =>
      rw [jobs] at hj
      by_cases hid : id < c.jobs.size
      · exact .inl (by rwa [jobs_spawn_of_lt _ hid] at hj)
      · rw [jobs_spawn_of_ge _ (by omega)] at hj
        obtain ⟨stop, hs, he⟩ := List.mem_map.1 (List.mem_of_getElem? hj)
        exact .inr (Job.stop.inj he ▸ fresh stop hs)
  | sweeps s jobs => exact .inl (jobs ▸ hj)

/-- Jobs are never lost in a change. -/
theorem Sets.jobs_kept {d : Controller t} (h : Sets now c d) {id : Nat} {job : Job t.size}
    (hj : c.jobs[id]? = some job) : d.jobs[id]? = some job := by
  cases h with
  | starts services jobs | stops stops fresh jobs =>
      rw [jobs, jobs_spawn_of_lt _ (lt_size_of_job hj), hj]
  | sweeps s jobs => rw [jobs, hj]

/-- A change creates no launch. -/
theorem Sets.launch_before {d : Controller t} (h : Sets now c d) {id : Nat} {l : Launch t.size}
    (hj : d.jobs[id]? = some (.launch l)) : c.jobs[id]? = some (.launch l) := by
  cases h with
  | starts services jobs =>
      rw [jobs] at hj
      by_cases hid : id < c.jobs.size
      · rwa [jobs_spawn_of_lt _ hid] at hj
      · rw [jobs_spawn_of_ge _ (by omega)] at hj
        obtain ⟨s, -, hs⟩ := List.mem_map.1 (List.mem_of_getElem? hj)
        cases hs
  | stops stops fresh jobs =>
      rw [jobs] at hj
      by_cases hid : id < c.jobs.size
      · rwa [jobs_spawn_of_lt _ hid] at hj
      · rw [jobs_spawn_of_ge _ (by omega)] at hj
        obtain ⟨s, -, hs⟩ := List.mem_map.1 (List.mem_of_getElem? hj)
        cases hs
  | sweeps s jobs => exact jobs ▸ hj

theorem Sets.size_jobs_le {d : Controller t} (h : Sets now c d) : c.jobs.size ≤ d.jobs.size := by
  cases h with
  | starts services jobs => rw [jobs, size_jobs_spawn]; exact Nat.le_add_right _ _
  | stops stops fresh jobs => rw [jobs, size_jobs_spawn]; exact Nat.le_add_right _ _
  | sweeps s jobs => exact Nat.le_of_eq (by rw [jobs])

/-- Jobs are never taken back. -/
theorem size_jobs_le_of_step {action : Action} {effects : List Effect}
    (hs : c.step now action = some (c', effects)) : c.jobs.size ≤ c'.jobs.size := by
  refine step_induct (P := fun d => c.jobs.size ≤ d.jobs.size) hs ?_ ?_ (Nat.le_refl _)
  · rintro i ⟨old, new, slot, aside, -, -, rfl⟩
    exact size_jobs_le_after
  · intro d operation e hle change
    exact Nat.le_trans hle change.sets.size_jobs_le

end Controller

end Bringup.Lifecycle
