import Bringup.Proofs.Lifecycle.CallChanges

/-!
# Runs

A run is any sequence of steps from a controller on: nothing is said about which of the possible
actions comes next, how much time passes between them, or what is answered from outside. So what holds
of all runs holds whatever the schedule, the container engine and the volume store do.

`Run.invariant` turns what holds at the start and survives a step into what holds in every state that
a run can reach.
-/

namespace Bringup.Lifecycle

variable {t : Topology}

/-- A step of a run. -/
structure Moment (t : Topology) where
  before : Controller t
  now : Nat
  action : Action
  effects : List Effect
  after : Controller t

namespace Controller

/-- A controller that has done nothing yet. -/
def fresh (t : Topology) (config : Config) : Controller t := { config }

/-- A run between two controllers, with its steps, the latest first. -/
inductive Run (start : Controller t) : List (Moment t) → Controller t → Prop where
  | refl : Run start [] start
  | tail {past : List (Moment t)} {c c' : Controller t} {now : Nat} {action : Action}
    {effects : List Effect} (run : Run start past c)
    (h : c.step now action = some (c', effects)) :
    Run start (⟨c, now, action, effects, c'⟩ :: past) c'

/-- The controller at every instant of a run so far, the present one first. -/
def instants (c : Controller t) (past : List (Moment t)) : List (Controller t) :=
  c :: past.map Moment.before

namespace Run

variable {start c : Controller t} {past : List (Moment t)}

/-- **Invariants of runs.** What holds at the start and survives every step holds at the end. -/
theorem invariant {P : Controller t → Prop} (run : Run start past c) (hstart : P start)
    (keep : ∀ {c c' : Controller t} {now action effects}, P c →
      c.step now action = some (c', effects) → P c') : P c := by
  induction run with
  | refl => exact hstart
  | tail _ h ih => exact keep ih h

/-- What holds at the end of all runs that take only some actions holds at every instant. -/
theorem step_of_mem (run : Run start past c) {m : Moment t} (hm : m ∈ past) :
    m.before.step m.now m.action = some (m.after, m.effects) := by
  induction run with
  | refl => cases hm
  | tail _ h ih =>
      rcases List.mem_cons.1 hm with rfl | hm
      · exact h
      · exact ih hm

/-- A run is a run up to each of its steps. -/
theorem split (run : Run start past c) {later earlier : List (Moment t)} {m : Moment t}
    (h : past = later ++ m :: earlier) : Run start earlier m.before ∧ Run m.after later c := by
  induction run generalizing later with
  | refl => simp at h
  | tail run hs ih =>
      cases later with
      | nil =>
          rw [List.nil_append, List.cons.injEq] at h
          obtain ⟨rfl, rfl⟩ := h
          exact ⟨run, .refl⟩
      | cons m' later =>
          rw [List.cons_append, List.cons.injEq] at h
          obtain ⟨rfl, h⟩ := h
          obtain ⟨hb, ha⟩ := ih h
          exact ⟨hb, ha.tail hs⟩

/-- A run goes on with a run from where it came to. -/
theorem trans (run : Run start past c) {later : List (Moment t)} {d : Controller t}
    (rest : Run c later d) : Run start (later ++ past) d := by
  induction rest with
  | refl => exact run
  | tail _ h ih => exact ih.tail h

/-- Every instant of a run is reached by a run of its own. -/
theorem upTo (run : Run start past c) {p : Controller t} (hp : p ∈ instants c past) :
    ∃ before, Run start before p := by
  rcases List.mem_cons.1 hp with rfl | hp
  · exact ⟨past, run⟩
  · obtain ⟨m, hm, rfl⟩ := List.mem_map.1 hp
    obtain ⟨later, earlier, hpast⟩ := List.append_of_mem hm
    exact ⟨earlier, (run.split hpast).1⟩

end Run

/-- A step leaves the configuration alone. -/
theorem config_of_step {c c' : Controller t} {now : Nat} {action : Action} {effects : List Effect}
    (h : c.step now action = some (c', effects)) : c'.config = c.config := by
  refine step_induct (P := fun d => d.config = c.config) h (fun id turn => ?_)
    (fun hc change => change.config_eq.trans hc) rfl
  obtain ⟨old, new, slot, aside, -, -, rfl⟩ := turn
  exact config_after

theorem Run.config_eq {start c : Controller t} {past : List (Moment t)} (run : Run start past c) :
    c.config = start.config :=
  run.invariant (P := fun d => d.config = start.config) rfl fun hc h => (config_of_step h).trans hc

/-- Takes steps one after another, each at its time, as long as they can be taken. -/
def play (past : List (Moment t)) (c : Controller t) :
    List (Nat × Action) → Option (List (Moment t) × Controller t)
  | [] => some (past, c)
  | (now, action) :: rest =>
    match c.step now action with
    | some (c', effects) => play (⟨c, now, action, effects, c'⟩ :: past) c' rest
    | none => none

/-- What was played is a run. -/
theorem Run.of_play {start c c' : Controller t} {past past' : List (Moment t)}
    {steps : List (Nat × Action)} (run : Run start past c)
    (h : c.play past steps = some (past', c')) : Run start past' c' := by
  induction steps generalizing past c with
  | nil =>
      obtain ⟨rfl, rfl⟩ := by simpa [play] using h
      exact run
  | cons step rest ih =>
      rw [play] at h
      split at h
      next hs => exact ih (run.tail hs) h
      next => exact absurd h (by simp)

/-- A run whose end shows something that was looked up by playing it. -/
theorem exists_run (start : Controller t) (steps : List (Nat × Action))
    (shows : List (Moment t) → Controller t → Bool)
    (h : (play [] start steps).any fun (past, c) => shows past c) :
    ∃ past c, Run start past c ∧ shows past c := by
  obtain ⟨⟨past, c⟩, hplay, hshows⟩ := (Option.any_eq_true _ _).1 h
  exact ⟨past, c, Run.refl.of_play hplay, hshows⟩

/-- A run that shows something about its step with the given number of steps after it. -/
theorem exists_run_at (start : Controller t) (steps : List (Nat × Action)) (n : Nat)
    (shows : List (Moment t) → Moment t → List (Moment t) → Controller t → Bool)
    (h : (play [] start steps).any fun (past, c) =>
      past[n]?.any fun m => shows (past.take n) m (past.drop (n + 1)) c) :
    ∃ later m earlier c, Run start (later ++ m :: earlier) c ∧ shows later m earlier c := by
  obtain ⟨past, c, run, hshows⟩ := exists_run start steps
    (fun past c => past[n]?.any fun m => shows (past.take n) m (past.drop (n + 1)) c) h
  obtain ⟨m, hm, hshows⟩ := (Option.any_eq_true _ _).1 hshows
  obtain ⟨hn, rfl⟩ := List.getElem?_eq_some_iff.1 hm
  refine ⟨past.take n, past[n], past.drop (n + 1), c, ?_, hshows⟩
  rwa [List.getElem_cons_drop, List.take_append_drop]

end Controller

/-! ## How a step changes the state of a service -/

namespace Slot

variable {slot : Slot}

@[simp] theorem state_recordIfStartable (error : Error) :
    (slot.recordIfStartable error).state = slot.state := by
  unfold recordIfStartable
  split <;> rfl

theorem state_leaveStarting (now : Nat) (target : ServiceState) (error : Option Error) :
    (slot.leaveStarting now target error).state
      = if slot.state = .starting then target else slot.state := by
  unfold leaveStarting
  split <;> rfl

end Slot

@[simp] theorem StartJob.state_unclaim {n : Nat} (job : StartJob n) (slot : Slot) :
    (job.unclaim slot).state = slot.state := by
  unfold unclaim
  split <;> rfl

@[simp] theorem StartJob.lastError_unclaim {n : Nat} (job : StartJob n) (slot : Slot) :
    (job.unclaim slot).lastError = slot.lastError := by
  unfold unclaim
  split <;> rfl

variable {c : Controller t} {now : Nat} {id : JobId} {action : Action} {slot : Slot}
  {aside : Aside} {effects : List Effect}

/-- A start job leaves the state of its service alone, moves it to starting, or out of it. -/
theorem StartTurn.state_cases {job job' : StartJob t.size}
    (turn : StartTurn c now id job action job' slot aside effects) :
    slot.state = (c.slot job.service).state ∨
    (action = .run id ∧ job.phase = .entering ∧ c.isCancelled job.run = false ∧
      (c.slot job.service).state.isStartable ∧ slot = (c.slot job.service).entered now) ∨
    (∃ verdict, job.phase = .concluding verdict ∧ (c.slot job.service).state = .starting ∧
      slot.state = verdict.target) := by
  cases turn with
  | enter hp hc hs hv | enterBare hp hc hs hv => exact .inr (.inl ⟨rfl, hp, hc, hs, rfl⟩)
  | @conclude verdict hp =>
      rw [StartJob.state_unclaim, Slot.state_leaveStarting]
      split
      next hs => exact .inr (.inr ⟨verdict, hp, hs, rfl⟩)
      next => exact .inl rfl
  | _ => simp

/-- A stop job leaves the state of its service alone, or moves it towards the end. -/
theorem StopTurn.state_cases {job : StopJob t.size} {phase : StopPhase}
    (turn : StopTurn c now id job action phase slot effects) :
    slot.state = (c.slot job.service).state ∨
    (job.phase = .taking ∧ (c.slot job.service).state = .pending ∧ slot.state = .stopped) ∨
    (job.phase = .taking ∧ ((c.slot job.service).state = .starting ∨
      (c.slot job.service).state = .ready) ∧ slot.state = .stopping) ∨
    (job.phase = .retiring ∧ (c.slot job.service).state = .stopping ∧ slot.state = .stopped) := by
  cases turn with
  | skip hp hs => exact .inr (.inl ⟨hp, hs, rfl⟩)
  | take hp hs => exact .inr (.inr (.inl ⟨hp, hs, rfl⟩))
  | retire hp hs => exact .inr (.inr (.inr ⟨hp, hs, rfl⟩))
  | _ => simp

/-- A start job keeps its service and its run. -/
theorem StartTurn.same {job job' : StartJob t.size}
    (turn : StartTurn c now id job action job' slot aside effects) :
    job'.service = job.service ∧ job'.run = job.run := by
  cases turn <;> exact ⟨rfl, rfl⟩

/-- A start job at its end has no more turns. -/
theorem StartTurn.phase_ne_finished {job job' : StartJob t.size}
    (turn : StartTurn c now id job action job' slot aside effects) : job.phase ≠ .finished := by
  intro hf
  cases turn with
  | follow hp hs => simp [hf] at hp
  | heed hp hc => simp [hf] at hp
  | _ => simp_all

/-- A stop job at its end has no more turns. -/
theorem StopTurn.phase_ne_finished {job : StopJob t.size} {phase : StopPhase}
    (turn : StopTurn c now id job action phase slot effects) : job.phase ≠ .finished := by
  intro hf
  cases turn <;> simp_all

/-- A launch at its end has no more turns. -/
theorem LaunchTurn.phase_ne_finished {l : Launch t.size} {phase : LaunchPhase}
    (turn : LaunchTurn c now id l action phase effects) : l.phase ≠ .finished := by
  intro hf
  cases turn <;> simp_all

/-- A job at its end has no more turns. -/
theorem Turn.not_isFinished {old new : Job t.size}
    (turn : Turn c now id old action new slot aside effects) : ¬ old.isFinished := by
  intro hf
  cases turn with
  | start turn => exact turn.phase_ne_finished (Job.isFinished_start.1 hf)
  | stop turn => exact turn.phase_ne_finished (Job.isFinished_stop.1 hf)
  | launch turn => exact turn.phase_ne_finished (Job.isFinished_launch.1 hf)

namespace Controller

variable {c' : Controller t} {s : Fin t.size}

/-- A change of a call leaves the state of a service alone, or takes it out of starting. -/
theorem Sets.state_cases (h : Sets now c c') (s : Fin t.size) :
    (c'.slot s).state = (c.slot s).state ∨
    ((c.slot s).state = .starting ∧ (c'.slot s).state = .stopping) := by
  cases h with
  | starts services jobs slots cancelled run => exact .inl (by rw [slots])
  | stops stops fresh jobs slots cancelled run => exact .inl (by rw [slots])
  | sweeps s' jobs slots cancelled run =>
      rw [slots]
      split
      next h =>
        rw [h, Slot.state_leaveStarting]
        split
        next hs => exact .inr ⟨hs, rfl⟩
        next => exact .inl rfl
      next => exact .inl rfl

/-- The states of other services stay in a turn of a job. -/
theorem TurnsTo.state_cases (h : TurnsTo c now id action c' effects) (s : Fin t.size) :
    (c'.slot s).state = (c.slot s).state ∨
    ∃ old new slot aside, c.jobs[id]? = some old ∧ Turn c now id old action new slot aside effects ∧
      old.service = s ∧ slot.state = (c'.slot s).state ∧ slot.state ≠ (c.slot s).state := by
  obtain ⟨old, new, slot, aside, hj, turn, rfl⟩ := h
  by_cases hs : s = old.service
  · subst hs
    rw [slot_after_self]
    by_cases he : slot.state = (c.slot old.service).state
    · exact .inl he
    · exact .inr ⟨old, new, slot, aside, hj, turn, rfl, rfl, he⟩
  · exact .inl (by rw [slot_after_of_ne hs])

/-- **Only a start job moves a service to starting**, in the step in which it is about to do so. -/
theorem enters_of_step (h : c.step now action = some (c', effects))
    (hb : (c.slot s).state ≠ .starting) (ha : (c'.slot s).state = .starting) :
    ∃ (id : Nat) (job : StartJob t.size), action = .run id ∧
      c.jobs[id]? = some (.start job) ∧ job.service = s ∧ job.phase = .entering ∧
      c.isCancelled job.run = false ∧ (c.slot s).state.isStartable := by
  cases hj : action.job? with
  | none =>
      have keep : (c'.slot s).state ≠ .starting := by
        refine (changesTo_of_step hj h).1.induct (P := fun d => (d.slot s).state ≠ .starting) ?_ hb
        intro c operation d hc change hd
        rcases change.sets.state_cases s with he | ⟨he, -⟩
        · exact hc (he ▸ hd)
        · exact hc he
      exact absurd ha keep
  | some id =>
      rcases (turnsTo_of_step hj h).state_cases s with
        he | ⟨old, new, slot, aside, hi, turn, rfl, hs, hn⟩
      · exact absurd (he ▸ ha) hb
      · rw [ha] at hs
        cases turn with
        | @start job job' =>
            rename_i turn
            rcases turn.state_cases with he | ⟨hr, hp, hc, hst, -⟩ | ⟨verdict, -, he, -⟩
            · exact absurd he hn
            · exact ⟨id, job, hr, hi, rfl, hp, hc, hst⟩
            · exact absurd he hb
        | stop turn =>
            rcases turn.state_cases with he | ⟨-, -, he⟩ | ⟨-, -, he⟩ | ⟨-, -, he⟩
            · exact absurd he hn
            all_goals rw [hs] at he; cases he
        | launch turn => exact absurd rfl hn

end Controller

namespace Moment

/-- The service enters the state of starting. -/
def Enters (m : Moment t) (s : Fin t.size) : Prop :=
  (m.before.slot s).state ≠ .starting ∧ (m.after.slot s).state = .starting

instance (m : Moment t) (s : Fin t.size) : Decidable (m.Enters s) :=
  inferInstanceAs (Decidable (_ ∧ _))

/-- A launch for the service asks the container engine to start its container. -/
def AsksStartBy (m : Moment t) (id : Nat) (s : Fin t.size) : Prop :=
  ∃ l, m.before.jobs[id]? = some (.launch l) ∧ l.service = s ∧
    .asks id (.container (.start (t.service s) (t.volumesOf s))) ∈ m.effects

instance (m : Moment t) (id : Nat) (s : Fin t.size) : Decidable (m.AsksStartBy id s) :=
  decidable_of_iff ((m.before.jobs[id]?).any fun
      | .launch l => l.service = s &&
        .asks id (.container (.start (t.service s) (t.volumesOf s))) ∈ m.effects
      | _ => false) <| by
    rw [AsksStartBy]
    cases m.before.jobs[id]? with
    | none => simp
    | some job => cases job <;> simp

/-- The container engine is asked to start a container of the service. -/
def AsksStart (m : Moment t) (s : Fin t.size) : Prop := ∃ id, m.AsksStartBy id s

/-- What the job asked the engine to start is there, or could not be started. -/
def Returns (m : Moment t) (id : Nat) : Prop :=
  ∃ result, m.action = .answer id (.container (.start result))

instance (m : Moment t) (id : Nat) : Decidable (m.Returns id) :=
  match h : m.action with
  | .answer job (.container (.start result)) =>
    if hj : job = id then .isTrue ⟨result, by rw [h, hj]⟩
    else .isFalse fun ⟨_, he⟩ => hj (by rw [h] at he; cases he; rfl)
  | .answer _ (.container (.stop _)) | .answer _ (.container (.kill _))
  | .answer _ (.container (.probe _)) | .answer _ (.volume _) | .invoke _ | .proceed _
  | .interrupt _ | .run _ | .heed _ | .timeout _ =>
    .isFalse fun ⟨_, he⟩ => by rw [h] at he; cases he

end Moment

/-- Only the job whose turn it is asks for anything. -/
theorem Turn.asker_eq {old new : Job t.size}
    (turn : Turn c now id old action new slot aside effects) {asker : JobId} {request : Request}
    (h : .asks asker request ∈ effects) : asker = id := by
  have hdetach {volumes : List Volume} (h : .asks asker request ∈ Controller.askDetach id volumes) :
      asker = id := by
    cases volumes with
    | nil => cases h
    | cons => exact (Effect.asks.inj (List.mem_singleton.1 h)).1
  have htaken {s : Fin t.size} {handle : Option Container.Handle}
      (h : .asks asker request ∈ c.askTaken id s handle) : asker = id := by
    cases handle with
    | none => exact hdetach h
    | some => exact (Effect.asks.inj (List.mem_singleton.1 h)).1
  cases turn with
  | start turn =>
      cases turn <;> simp [Controller.askAttach, Controller.askStop, Controller.askKill] at h <;>
        exact h.1
  | stop turn =>
      cases turn with
      | take | takeLeft => exact htaken h
      | skip | halted | unbind => exact hdetach h
      | overrun | kill => simp [Controller.askKill] at h; exact h.1
      | _ => cases h
  | launch turn =>
      cases turn <;> simp [Controller.askStop, Controller.askKill] at h <;> exact h.1

/-- A stop job asks to stop or to kill a container, or to unbind a volume. -/
theorem StopTurn.asks_cases {job : StopJob t.size} {phase : StopPhase} {asker : JobId}
    {request : Request} (turn : StopTurn c now id job action phase slot effects)
    (h : .asks asker request ∈ effects) :
    (∃ handle timeout, request = .container (.stop handle timeout)) ∨
    (∃ handle, request = .container (.kill handle)) ∨
    ∃ volume, request = .volume (.detach volume) := by
  have hdetach {volumes : List Volume} (h : .asks asker request ∈ Controller.askDetach id volumes) :
      ∃ volume, request = .volume (.detach volume) := by
    cases volumes with
    | nil => cases h
    | cons => exact ⟨_, (Effect.asks.inj (List.mem_singleton.1 h)).2⟩
  have htaken {s : Fin t.size} {handle : Option Container.Handle}
      (h : .asks asker request ∈ c.askTaken id s handle) :
      (∃ handle timeout, request = .container (.stop handle timeout)) ∨
        ∃ volume, request = .volume (.detach volume) := by
    cases handle with
    | none => exact .inr (hdetach h)
    | some handle => exact .inl ⟨handle, _, (Effect.asks.inj (List.mem_singleton.1 h)).2⟩
  cases turn with
  | take | takeLeft => exact (htaken h).imp_right .inr
  | skip | halted | unbind => exact .inr (.inr (hdetach h))
  | overrun => exact .inr (.inl ⟨_, (Effect.asks.inj (by simpa [Controller.askKill] using h)).2⟩)
  | kill => exact .inr (.inl ⟨_, (Effect.asks.inj (List.mem_singleton.1 h)).2⟩)
  | _ => cases h

/-- Only a launch that is about to ask for its container asks the engine to start one. -/
theorem Turn.asks_start {old new : Job t.size} {asker : JobId} {service : Service}
    {volumes : List Volume} (turn : Turn c now id old action new slot aside effects)
    (h : .asks asker (.container (.start service volumes)) ∈ effects) :
    ∃ l, old = .launch l ∧ action = .run id ∧ l.phase = .calling ∧ asker = id ∧
      service = t.service l.service ∧ volumes = t.volumesOf l.service ∧
      new = .launch { l with phase := .running } := by
  cases turn with
  | start turn =>
      cases turn <;>
        simp [Controller.askAttach, Controller.askStop, Controller.askKill] at h
  | stop turn => rcases turn.asks_cases h with ⟨_, _, he⟩ | ⟨_, he⟩ | ⟨_, he⟩ <;> cases he
  | launch turn =>
      rename_i l phase
      cases turn with
      | call hp =>
          simp only [List.mem_singleton, Effect.asks.injEq, Request.container.injEq,
            Container.Call.start.injEq] at h
          exact ⟨l, rfl, rfl, hp, h.1, h.2.1, h.2.2, rfl⟩
      | _ => simp [Controller.askStop, Controller.askKill] at h

namespace Controller

/-- **Every request to start a container** comes from a launch, and names the service of the launch
and its volumes. -/
theorem asks_start_of_step {c' : Controller t} {asker : Nat} {service : Service}
    {volumes : List Volume} (h : c.step now action = some (c', effects))
    (ha : .asks asker (.container (.start service volumes)) ∈ effects) :
    ∃ l, c.jobs[asker]? = some (.launch l) ∧ action = .run asker ∧ l.phase = .calling ∧
      service = t.service l.service ∧ volumes = t.volumesOf l.service ∧
      c' = c.setJob asker (.launch { l with phase := .running }) := by
  cases hj : action.job? with
  | none =>
      rw [(changesTo_of_step hj h).2] at ha
      cases ha
  | some id =>
      obtain ⟨old, new, slot, aside, hi, turn, rfl⟩ := turnsTo_of_step hj h
      obtain ⟨l, rfl, hr, hp, rfl, hs, hv, rfl⟩ := turn.asks_start ha
      exact ⟨l, hi, hr, hp, hs, hv, by cases turn; simp [after, Controller.aside, Job.service]⟩

end Controller

end Bringup.Lifecycle
