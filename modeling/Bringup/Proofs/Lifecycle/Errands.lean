import Bringup.Proofs.Lifecycle.Remembered

/-!
# What jobs ask of the volume store

A start job has the volumes of its service bound one after another, and a stop job has them unbound.
What a job waits for the store to do is told by its phase (`Job.errand?`): each turn asks the store for
just what the job waits for afterwards (`Turn.errand_cases`), and a job that waits for the store is
moved by its answer alone (`Turn.answers`).

A start job that goes on has asked for every volume of its service but those it still waits for
(`StartTurn.goesOn_cases`), and so has a stop job that unbinds them (`StopTurn.unbinds_cases`).
-/

namespace Bringup.Lifecycle

variable {t : Topology}

/-! ## Errands -/

/-- The volumes that a start job waits to be bound, the one that it asked for first. -/
def StartPhase.toBind {n : Nat} : StartPhase n → List Volume
  | .attaching volumes => volumes
  | _ => []

/-- The volumes that a stop job waits to be unbound, the one that it asked for first. -/
def StopPhase.toUnbind : StopPhase → List Volume
  | .detaching volumes => volumes
  | _ => []

/-- The volumes that a job still waits for. -/
def Job.volumesLeft {n : Nat} : Job n → List Volume
  | .start job => job.phase.toBind
  | .stop job => job.phase.toUnbind
  | .launch _ => []

/-- What a job waits for the store to do. -/
def Job.errand? : Job t.size → Option Volume.Request
  | .start job => job.phase.toBind.head?.map fun volume => .attach volume.id (t.id job.service)
  | .stop job => job.phase.toUnbind.head?.map fun volume => .detach volume.id
  | .launch _ => none

/-- A job waits for something that is done to a volume it waits for. -/
theorem Job.errand_mem {job : Job t.size} {request : Volume.Request}
    (h : job.errand? = some request) : ∃ volume ∈ job.volumesLeft,
      request = .attach volume.id (t.id job.service) ∨ request = .detach volume.id := by
  cases job with
  | start job =>
      obtain ⟨volume, hv, rfl⟩ := Option.map_eq_some_iff.1 h
      exact ⟨volume, List.mem_of_mem_head? hv, .inl rfl⟩
  | stop job =>
      obtain ⟨volume, hv, rfl⟩ := Option.map_eq_some_iff.1 h
      exact ⟨volume, List.mem_of_mem_head? hv, .inr rfl⟩
  | launch => cases h

@[simp] theorem StartPhase.toBind_await {n : Nat} (dependencies : List (Fin n)) :
    (if dependencies = [] then entering else awaiting dependencies).toBind = [] := by
  split <;> rfl

@[simp] theorem StopPhase.toUnbind_detachPhase (volumes : List Volume) :
    (Controller.detachPhase volumes).toUnbind = volumes := by
  cases volumes <;> rfl

section Turns

open Controller (askAttach askDetach detachPhase)

variable {c : Controller t} {now : Nat} {id : JobId} {action : Action} {slot : Slot} {aside : Aside}
  {effects : List Effect}

@[simp] theorem StartPhase.toBind_retryPhase (s : Fin t.size) (handle : Container.Handle)
    (attempt : UInt32) : (c.retryPhase now s handle attempt).toBind = [] := by
  rcases c.retryPhase_cases now s handle attempt with ⟨-, _, he⟩ | ⟨-, he⟩ <;> rw [he] <;> rfl

/-- What the turn of a stop job asks of the store: to unbind the first of the volumes that the job
waits for afterwards. -/
theorem StopTurn.asks_detach {job : StopJob t.size} {phase : StopPhase}
    (turn : StopTurn c now id job action phase slot effects) :
    effects = askDetach id phase.toUnbind ∨
      (phase.toUnbind = [] ∧ ∀ asker request, .asks asker (.volume request) ∉ effects) := by
  cases turn with
  | skip | halted | unbind => exact .inl (by rw [StopPhase.toUnbind_detachPhase])
  | take | takeLeft =>
      cases (c.slot job.service).handle with
      | none =>
          exact .inl (by rw [Controller.takenPhase, StopPhase.toUnbind_detachPhase,
            Controller.askTaken])
      | some handle => exact .inr ⟨rfl, by simp [Controller.askTaken, Controller.askStop]⟩
  | _ => exact .inr ⟨rfl, by simp [Controller.askKill]⟩

/-- **What a turn asks of the store** is what the job waits for afterwards. -/
theorem Turn.errand_cases {old new : Job t.size}
    (turn : Turn c now id old action new slot aside effects) :
    (∃ request, new.errand? = some request ∧ effects = [.asks id (.volume request)]) ∨
    (new.errand? = none ∧ ∀ asker request, .asks asker (.volume request) ∉ effects) := by
  cases turn with
  | start turn =>
      cases turn with
      | enter | bind => exact .inl ⟨_, rfl, rfl⟩
      | arrive | accept => exact .inr ⟨by simp [Job.errand?], by simp⟩
      | retry => exact .inr ⟨by simp [Job.errand?, StartJob.goTo], by simp⟩
      | _ => exact .inr ⟨rfl, by simp [Controller.askStop, Controller.askKill]⟩
  | @stop _ phase _ _ _ turn =>
      rcases turn.asks_detach with he | ⟨hn, he⟩
      · cases hu : phase.toUnbind with
        | nil => exact .inr ⟨by simp [Job.errand?, hu], by simp [he, hu, askDetach]⟩
        | cons volume rest => exact .inl ⟨.detach volume.id, by simp [Job.errand?, hu], by rw [he, hu]; rfl⟩
      · exact .inr ⟨by simp [Job.errand?, hn], he⟩
  | launch turn =>
      refine .inr ⟨rfl, ?_⟩
      cases turn <;> simp [Controller.askStop, Controller.askKill]

/-- **A job that waits for the store** is moved by its answer alone. -/
theorem Turn.answers {old new : Job t.size}
    (turn : Turn c now id old action new slot aside effects) {request : Volume.Request}
    (h : old.errand? = some request) : ∃ result, action = .answer id (.volume result) := by
  cases turn with
  | @start job _ _ _ _ _ turn =>
      have hphase {phase : StartPhase t.size} (hp : job.phase = phase) (hn : phase.toBind = []) :
          False := by simp [Job.errand?, hp, hn] at h
      cases turn with
      | bind | bindLast | miss => exact ⟨_, rfl⟩
      | follow hp => rcases hp with hp | ⟨hp, -⟩ <;> exact (hphase hp rfl).elim
      | heed hp => rcases hp with ⟨_, _, _, hp⟩ | ⟨_, _, hp⟩ <;> exact (hphase hp rfl).elim
      | arrive hp | cease hp | pass hp | giveUp hp | accept hp | decline hp | refuse hp | forgo hp
      | enter hp | enterBare hp | abandon hp | collect hp | lose hp | record hp | discard hp | ask hp
      | conclude hp | heedProbe hp | wake hp | overrun hp | ready hp | retry hp | discarded hp
      | kill hp => exact (hphase hp rfl).elim
  | @stop job _ _ _ _ turn =>
      have hphase {phase : StopPhase} (hp : job.phase = phase) (hn : phase.toUnbind = []) :
          False := by simp [Job.errand?, hp, hn] at h
      cases turn with
      | unbind => exact ⟨_, rfl⟩
      | go hp | pass hp | idle hp | skip hp | take hp | takeLeft hp | retire hp | leave hp
      | overrun hp | halted hp | kill hp => exact (hphase hp rfl).elim
  | launch => cases h

/-- A turn waits for fewer volumes than before, or for all those of the service. -/
theorem Turn.volumesLeft_cases {old new : Job t.size}
    (turn : Turn c now id old action new slot aside effects) :
    new.volumesLeft ⊆ old.volumesLeft ∨ new.volumesLeft = t.volumesOf old.service := by
  cases turn with
  | start turn =>
      cases turn with
      | enter hp hc hs hv => exact .inr hv.symm
      | bind hp =>
          refine .inl ?_
          simp only [Job.volumesLeft, hp]
          exact List.subset_cons_self _ _
      | arrive | accept => exact .inl (by simp [Job.volumesLeft])
      | retry => exact .inl (by simp [Job.volumesLeft, StartJob.goTo])
      | _ => exact .inl (List.nil_subset _)
  | stop turn =>
      cases turn with
      | skip | halted => exact .inr (StopPhase.toUnbind_detachPhase _)
      | unbind hp =>
          refine .inl ?_
          simp only [Job.volumesLeft, hp, StopPhase.toUnbind_detachPhase]
          exact List.subset_cons_self _ _
      | take | takeLeft =>
          cases (c.slot _).handle with
          | none => exact .inr (StopPhase.toUnbind_detachPhase _)
          | some handle => exact .inl (List.nil_subset _)
      | _ => exact .inl (List.nil_subset _)
  | launch => exact .inl (List.nil_subset _)

end Turns

/-! ## How far a job has come with the volumes -/

/-- The start owns its service and has come to nothing that keeps it from being ready. -/
def StartPhase.GoesOn {n : Nat} : StartPhase n → Prop
  | .attaching _ | .launching _ | .recording _ | .pausing .. | .asking .. | .probing ..
  | .concluding .ready => True
  | _ => False

/-- The stop has begun to unbind the volumes. -/
def StopPhase.Unbinds : StopPhase → Prop
  | .detaching _ | .retiring => True
  | _ => False

theorem StartPhase.GoesOn.owns {n : Nat} {phase : StartPhase n} (h : phase.GoesOn) :
    phase.Owns := by
  cases phase <;> trivial

theorem StopPhase.Unbinds.active {phase : StopPhase} (h : phase.Unbinds) : phase.Active := by
  cases phase <;> trivial

theorem StartPhase.goesOn_of_toBind {n : Nat} {phase : StartPhase n} {volume : Volume}
    (h : volume ∈ phase.toBind) : phase.GoesOn := by
  cases phase <;> trivial

theorem StopPhase.unbinds_of_toUnbind {phase : StopPhase} {volume : Volume}
    (h : volume ∈ phase.toUnbind) : phase.Unbinds := by
  cases phase <;> trivial

section Turns

open Controller (detachPhase)

variable {c : Controller t} {now : Nat} {id : JobId} {action : Action} {slot : Slot} {aside : Aside}
  {effects : List Effect}

/-- **A start job that goes on** has all volumes bound, as before; or it takes the service up, and
waits for all of them; or it learned that the first of those it waits for is bound. -/
theorem StartTurn.goesOn_cases {job job' : StartJob t.size}
    (turn : StartTurn c now id job action job' slot aside effects) (h : job'.phase.GoesOn) :
    (job.phase.GoesOn ∧ job.phase.toBind = [] ∧ job'.phase.toBind = []) ∨
    (job.phase = .entering ∧ slot.state = .starting ∧
      job'.phase.toBind = t.volumesOf job.service) ∨
    (∃ volume answer, job.phase.toBind = volume :: job'.phase.toBind ∧
      action = .answer id (.volume (.ok answer))) := by
  cases turn with
  | enter hp hc hs hv | enterBare hp hc hs hv => exact .inr (.inl ⟨hp, rfl, hv.symm⟩)
  | bind hp | bindLast hp => exact .inr (.inr ⟨_, _, by rw [hp]; rfl, rfl⟩)
  | collect hp | record hp | ask hp | wake hp | ready hp =>
      exact .inl ⟨by rw [hp]; trivial, by rw [hp]; rfl, rfl⟩
  | retry hp => exact .inl ⟨by rw [hp]; trivial, by rw [hp]; rfl, by simp [StartJob.goTo]⟩
  | arrive | accept =>
      rw [StartJob.phase_await] at h
      split at h <;> exact h.elim
  | _ => exact h.elim

/-- **A stop job that unbinds volumes** begins with all of them, or it is done with the first of
those it waited for. -/
theorem StopTurn.unbinds_cases {job : StopJob t.size} {phase : StopPhase}
    (turn : StopTurn c now id job action phase slot effects) (h : phase.Unbinds) :
    phase.toUnbind = t.volumesOf job.service ∨
      (job.phase.Unbinds ∧ job.phase.toUnbind.tail = phase.toUnbind) := by
  cases turn with
  | skip | halted => exact .inl (StopPhase.toUnbind_detachPhase _)
  | unbind hp =>
      refine .inr ⟨by rw [hp]; trivial, ?_⟩
      rw [hp, StopPhase.toUnbind_detachPhase]
      rfl
  | take | takeLeft =>
      cases hh : (c.slot job.service).handle with
      | none => exact .inl (StopPhase.toUnbind_detachPhase _)
      | some handle =>
          rw [hh] at h
          exact h.elim
  | _ => exact h.elim

end Turns

namespace Controller

/-- A start job has yet to ask for a volume that a stop job has asked to unbind, or the service is
down already. -/
def BindsBehind (c : Controller t) (s : Fin t.size) : Prop :=
  ∃ (i : Nat) (job : StartJob t.size), c.jobs[i]? = some (.start job) ∧ job.service = s ∧
    ∃ volume ∈ job.phase.toBind.tail, (c.slot s).state.isStartable ∨
      ∃ (j : Nat) (stop : StopJob t.size), c.jobs[j]? = some (.stop stop) ∧ stop.service = s ∧
        stop.phase.Unbinds ∧ volume ∉ stop.phase.toUnbind.tail

/-- Starts and stops of the service keep clear of each other: it is not starting under a stop that is
still at work, two starts do not own it, and no start asks for a volume after a stop has given it
up. -/
structure KeepsClear (c : Controller t) (s : Fin t.size) : Prop where
  under : ¬ c.StartsUnderStop s
  overlap : ¬ c.StartsOverlap s
  behind : ¬ c.BindsBehind s

variable {c c' d : Controller t} {now : Nat} {id : JobId} {action : Action} {effects : List Effect}
  {operation : Operation} {s : Fin t.size}

/-- Jobs wait for volumes of their own services only. -/
def KeepToVolumes (c : Controller t) : Prop :=
  ∀ (id : Nat) (job : Job t.size), c.jobs[id]? = some job →
    ∀ volume ∈ job.volumesLeft, volume ∈ t.volumesOf job.service

theorem KeepToVolumes.turn (h : KeepToVolumes c) (ht : TurnsTo c now id action c' effects) :
    KeepToVolumes c' := by
  obtain ⟨old, new, slot, aside, hj, turn, rfl⟩ := ht
  intro i job hi volume hv
  rcases jobs_after_cases (lt_size_of_job hj) hi with
    ⟨-, rfl⟩ | ⟨-, hi⟩ | ⟨-, -, rfl⟩ | ⟨-, l, -, ⟨-, rfl⟩ | ⟨-, rfl⟩⟩
  · rw [turn.service_eq]
    rcases turn.volumesLeft_cases with hsub | he
    · exact h id old hj volume (hsub hv)
    · exact he ▸ hv
  · exact h i job hi volume hv
  all_goals cases hv

theorem KeepToVolumes.change (h : KeepToVolumes c) (change : CallChange now c operation d) :
    KeepToVolumes d := by
  intro i job hi volume hv
  cases job with
  | start job =>
      rcases change.sets.start_cases hi with hi | ⟨-, hp, -⟩
      · exact h i _ hi volume hv
      · simp [Job.volumesLeft, hp, StartPhase.toBind] at hv
  | stop job =>
      rcases change.sets.stop_cases hi with hi | hp | ⟨_, hp⟩
      · exact h i _ hi volume hv
      all_goals simp [Job.volumesLeft, hp, StopPhase.toUnbind] at hv
  | launch => cases hv

theorem KeepToVolumes.step (h : KeepToVolumes c) (hs : c.step now action = some (c', effects)) :
    KeepToVolumes c' :=
  step_induct hs (fun _ turn => h.turn turn) KeepToVolumes.change h

/-- One start at most owns the service, and none while a stop is at work on it. -/
def countsClear (c : Controller t) (s : Fin t.size) : Bool :=
  c.total (Job.owning s) ≤ 1 && ((c.slot s).state ≠ .starting || c.total (Job.atWork s) = 0) &&
    (c.total (Job.owning s) = 0 || (c.total (Job.atWork s) = 0 && !(c.slot s).state.isStartable))

/-- Whether starts and stops keep clear of each other can be told by counting jobs. -/
theorem keepsClear_of_counts (h : c.countsClear s) : c.KeepsClear s := by
  simp only [countsClear, Bool.and_eq_true, Bool.or_eq_true, decide_eq_true_iff,
    Bool.not_eq_true'] at h
  obtain ⟨⟨hone, hunder⟩, hnone⟩ := h
  refine ⟨not_startsUnderStop hunder, not_startsOverlap hone, ?_⟩
  rintro ⟨i, job, hj, rfl, volume, hv, hpassed⟩
  have howns : job.phase.Owns := (StartPhase.goesOn_of_toBind (List.mem_of_mem_tail hv)).owns
  rcases hnone with hnone | ⟨hquiet, hidle⟩
  · have := (total_eq_zero_iff (Job.owning job.service)).1 hnone i _ hj
    simp [Job.owning, howns] at this
  · rcases hpassed with hs | ⟨j, stop, hk, hks, hunbinds, -⟩
    · rw [hs] at hidle
      cases hidle
    · have := (total_eq_zero_iff (Job.atWork job.service)).1 hquiet j _ hk
      simp [Job.atWork, hks, hunbinds.active] at this

end Controller

end Bringup.Lifecycle
