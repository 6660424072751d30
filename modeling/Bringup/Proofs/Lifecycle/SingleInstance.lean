import Bringup.Proofs.Lifecycle.Custody

/-!
# One container at a time

A start owes its service a container from the step that moves the service to starting until it has
recorded one or given it up (`Job.Owes`). A service is moved to starting only when it is pending or
stopped, and a stop job moves it to stopped only after it has halted the container it took. So where the
service can be started, and while a start owes it a container, nothing is left of earlier ones but what
was forgotten, what another start has recorded meanwhile, and what a stop job halts that has met another
one. This is the invariant `Lone`, kept by every step. A launch that asks for a container asks for one that
is owed; so by the books of `Custody` every container that was handed over for the service before has been
halted, but for what is left (`Run.single_instance`).

Five things can be left (`Leftover`): a start that was cut off leaves its launch behind; a stop job that
meets another one at work does not wait for it; a start can cross one that was cut off and still owes a
container, and the container that one of them records is there while the other one is still at it; and a
container can be forgotten. None of them lasts longer than the container that it leaves
(`Run.alive_of_leftover`), and each of the five lets two containers live at once for itself alone
(`two_instances`).
-/

namespace Bringup.Lifecycle

open Container (Handle)

variable {t : Topology}

/-- The phases of the start job that has moved its service to starting. -/
def StartPhase.Owns {n : Nat} : StartPhase n → Prop
  | .attaching _ | .launching _ | .recording _ | .pausing .. | .asking .. | .probing ..
  | .concluding _ => True
  | _ => False

/-- The phases of such a job before it has recorded a container. -/
def StartPhase.Unrecorded {n : Nat} : StartPhase n → Prop
  | .attaching _ | .launching _ | .recording _ | .concluding (.cancelled (some _)) => True
  | _ => False

/-- The phases of a stop job between taking its service out of use and its end. -/
def StopPhase.Active : StopPhase → Prop
  | .halting .. | .detaching _ | .retiring => True
  | _ => False

/-- The stop job halts the container. -/
def StopPhase.Halts (phase : StopPhase) (handle : Handle) : Prop :=
  phase.halt?.map Prod.fst = some handle

theorem StopPhase.not_halts {phase : StopPhase} {handle : Handle} (hp : phase.halt? = none) :
    ¬ phase.Halts handle := by
  rw [StopPhase.Halts, hp]
  simp

theorem StopPhase.Halts.active {phase : StopPhase} {handle : Handle} (h : phase.Halts handle) :
    phase.Active := by
  cases phase with
  | halting => trivial
  | _ => cases h

theorem StartPhase.Unrecorded.owns {n : Nat} {phase : StartPhase n} (h : phase.Unrecorded) :
    phase.Owns := by
  cases phase <;> trivial

theorem StartPhase.unrecorded_of_launch? {n : Nat} {phase : StartPhase n} {launch : JobId}
    (h : phase.launch? = some launch) : phase.Unrecorded ∧ phase.kept? = none := by
  cases phase with
  | launching => exact ⟨trivial, rfl⟩
  | concluding verdict =>
      cases verdict with
      | cancelled launch =>
          cases launch with
          | some => exact ⟨trivial, rfl⟩
          | none => cases h
      | _ => cases h
  | _ => cases h

/-- Two stop jobs of the service are at work. -/
def Controller.StopsOverlap (c : Controller t) (s : Fin t.size) : Prop :=
  ∃ (i j : Nat) (job job' : StopJob t.size), i ≠ j ∧ c.jobs[i]? = some (.stop job) ∧
    c.jobs[j]? = some (.stop job') ∧ job.service = s ∧ job'.service = s ∧ job.phase.Active ∧
    job'.phase.Active

/-- The container was halted as often as it was handed over for the service. -/
def Halted (past : List (Moment t)) (s : Fin t.size) (handle : Handle) : Prop :=
  (past.countP fun m => m.hands s handle) = past.countP fun m => m.endsHalt s handle

instance (past : List (Moment t)) (s : Fin t.size) (handle : Handle) : Decidable (Halted past s handle) :=
  inferInstanceAs (Decidable (_ = _))

/-- No container of the service may be alive: every start that the engine was asked for has returned,
and every container that was handed over has been halted. -/
def NoneAlive (past : List (Moment t)) (s : Fin t.size) : Prop :=
  (∀ m ∈ past, ∀ id, m.AsksStartBy id s → ∃ m' ∈ past, m'.Returns id) ∧
  ∀ handle, Halted past s handle

/-! ## What may be left -/

/-- The engine was asked for a container, which may be alive: it was not returned yet, or its halt is not
over. -/
def LaunchPhase.UnderWay : LaunchPhase → Prop
  | .running | .returned (.ok _) | .halting .. => True
  | _ => False

theorem LaunchPhase.underWay_of_kept {phase : LaunchPhase} {handle : Handle}
    (h : phase.kept? = some handle) : phase.UnderWay := by
  cases phase with
  | returned result =>
      cases result with
      | ok => trivial
      | error => cases h
  | _ => cases h

theorem LaunchPhase.UnderWay.ne_finished {phase : LaunchPhase} (h : phase.UnderWay) :
    phase ≠ .finished := by
  rintro rfl
  exact h

namespace Job

variable {n : Nat}

/-- The job owes its service a container: it has moved the service to starting and recorded none, or it
is the launch of a start that is gone and has yet to ask for one. -/
def Owes : Job n → Prop
  | .start job => job.phase.Unrecorded
  | .launch l => l.orphaned ∧ l.phase = .calling
  | .stop _ => False

/-- The job is what a start leaves behind that was cut off: a launch that nobody waits for, or the halt
of a container that came too late. -/
def LeftBehind : Job n → Prop
  | .start job => job.phase.halt? ≠ none
  | .launch l => l.orphaned ∧ l.phase.UnderWay
  | .stop _ => False

/-- A container is on its way to the service, or has come: the engine was asked for it, or a start job
has got it and not recorded it yet. -/
def InHand : Job n → Prop
  | .start job => job.phase.kept? ≠ none
  | .launch l => l.phase.UnderWay
  | .stop _ => False

instance (phase : StartPhase n) : Decidable phase.Unrecorded :=
  match phase with
  | .attaching _ | .launching _ | .recording _ | .concluding (.cancelled (some _)) => .isTrue trivial
  | .arriving | .following | .awaiting _ | .refusing _ | .entering | .discarding .. | .pausing ..
  | .asking .. | .probing .. | .concluding .ready | .concluding (.failed _)
  | .concluding (.cancelled none) | .finished => .isFalse id

instance (phase : LaunchPhase) : Decidable (phase = .calling) :=
  match phase with
  | .calling => .isTrue rfl
  | .running | .returned _ | .halting .. | .finished => .isFalse nofun

instance (phase : LaunchPhase) : Decidable phase.UnderWay :=
  match phase with
  | .running | .returned (.ok _) | .halting .. => .isTrue trivial
  | .calling | .returned (.error _) | .finished => .isFalse id

instance (phase : StopPhase) : Decidable phase.Active :=
  match phase with
  | .halting .. | .detaching _ | .retiring => .isTrue trivial
  | .awaiting _ | .taking | .finished => .isFalse id

instance (job : Job n) : Decidable job.Owes :=
  match job with
  | .start job => inferInstanceAs (Decidable job.phase.Unrecorded)
  | .launch l => inferInstanceAs (Decidable (l.orphaned ∧ l.phase = .calling))
  | .stop _ => .isFalse id

instance (job : Job n) : Decidable job.LeftBehind :=
  match job with
  | .start job => inferInstanceAs (Decidable (job.phase.halt? ≠ none))
  | .launch l => inferInstanceAs (Decidable (l.orphaned ∧ l.phase.UnderWay))
  | .stop _ => .isFalse id

instance (job : Job n) : Decidable job.InHand :=
  match job with
  | .start job => inferInstanceAs (Decidable (job.phase.kept? ≠ none))
  | .launch l => inferInstanceAs (Decidable l.phase.UnderWay)
  | .stop _ => .isFalse id

/-- Counts a job that owes the service a container. -/
def owed (s : Fin n) (job : Job n) : Nat := if job.service = s ∧ job.Owes then 1 else 0

/-- Counts a stop job that is at work on the service. -/
def atWork (s : Fin n) : Job n → Nat
  | .stop job => if job.service = s ∧ job.phase.Active then 1 else 0
  | _ => 0

variable {s : Fin n} {job : Job n}

theorem owed_eq_one (hs : job.service = s) (h : job.Owes) : job.owed s = 1 :=
  if_pos ⟨hs, h⟩

theorem owed_eq_zero (h : job.service = s → ¬ job.Owes) : job.owed s = 0 :=
  if_neg fun ⟨hs, he⟩ => h hs he

theorem owed_le {job' : Job n} (hs : job'.service = job.service)
    (h : job'.Owes → job.Owes) : job'.owed s ≤ job.owed s := by
  unfold owed
  split
  next h' => exact Nat.le_of_eq (if_pos ⟨hs ▸ h'.1, h h'.2⟩).symm
  next => exact Nat.zero_le _

end Job

/-- A start owes the service a container. -/
def Controller.Owing (c : Controller t) (s : Fin t.size) : Prop :=
  0 < c.total (Job.owed s)

instance (c : Controller t) (s : Fin t.size) : Decidable (c.Owing s) :=
  inferInstanceAs (Decidable (0 < _))

/-- The container that the job is about to record in the slot of the service. -/
def Job.recorded? (c : Controller t) (s : Fin t.size) : Job t.size → Option Handle
  | .start job => if job.service = s ∧ (c.slot s).state = .starting then job.phase.kept? else none
  | _ => none

/-- The container that the step records in the slot of the service. -/
def Moment.recorded? (m : Moment t) (s : Fin t.size) : Option Handle :=
  m.job?.bind (Job.recorded? m.before s)

/-- The container is forgotten: its service becomes stopped with it in its slot, or another container is
recorded over it. -/
def Moment.Forgets (m : Moment t) (s : Fin t.size) (handle : Handle) : Prop :=
  ((m.before.slot s).state ≠ .stopped ∧ (m.after.slot s).state = .stopped ∧
    (m.after.slot s).handle = some handle) ∨ m.loses s handle

/-- The container was forgotten. -/
def Forgotten (past : List (Moment t)) (s : Fin t.size) (handle : Handle) : Prop :=
  ∃ m ∈ past, m.Forgets s handle

theorem Forgotten.mono {past past' : List (Moment t)} {s : Fin t.size} {handle : Handle}
    (h : Forgotten past s handle) (hpast : ∀ m ∈ past, m ∈ past') : Forgotten past' s handle := by
  obtain ⟨m, hm, hf⟩ := h
  exact ⟨m, hpast m hm, hf⟩

/-- The stop job has been at work on the service together with another one. -/
def Met (past : List (Moment t)) (s : Fin t.size) (id : Nat) : Prop :=
  ∃ m ∈ past, ∃ (other : Nat) (job job' : StopJob t.size), other ≠ id ∧
    m.before.jobs[id]? = some (.stop job) ∧ m.before.jobs[other]? = some (.stop job') ∧
    job.service = s ∧ job'.service = s ∧ job.phase.Active ∧ job'.phase.Active

theorem Met.mono {past past' : List (Moment t)} {s : Fin t.size} {id : Nat} (h : Met past s id)
    (hpast : ∀ m ∈ past, m ∈ past') : Met past' s id := by
  obtain ⟨m, hm, hmet⟩ := h
  exact ⟨m, hpast m hm, hmet⟩

/-- The container was recorded by a start while another one owed the service one. -/
def Beside (past : List (Moment t)) (s : Fin t.size) (handle : Handle) : Prop :=
  ∃ m ∈ past, m.recorded? s = some handle ∧ m.after.Owing s

theorem Beside.mono {past past' : List (Moment t)} {s : Fin t.size} {handle : Handle}
    (h : Beside past s handle) (hpast : ∀ m ∈ past, m ∈ past') : Beside past' s handle := by
  obtain ⟨m, hm, hb⟩ := h
  exact ⟨m, hpast m hm, hb⟩

/-- The container was forgotten, or recorded beside a start that owed one. -/
def Stray (past : List (Moment t)) (s : Fin t.size) (handle : Handle) : Prop :=
  Forgotten past s handle ∨ Beside past s handle

theorem Stray.mono {past past' : List (Moment t)} {s : Fin t.size} {handle : Handle}
    (h : Stray past s handle) (hpast : ∀ m ∈ past, m ∈ past') : Stray past' s handle :=
  h.imp (·.mono hpast) (·.mono hpast)

/-- What may be left of the earlier containers of a service. -/
inductive Leftover where
  /-- The launch of a start that was cut off, or the halt of the container that it brought. -/
  | late
  /-- The halt of a stop job that has met another one at work. -/
  | met
  /-- A start that another one has crossed: both owe the service a container, and one is on its way. -/
  | crossed
  /-- A container that was recorded while another start owed one, and has not been halted since. -/
  | beside
  /-- A container that was forgotten and has not been halted since. -/
  | forgotten
  deriving DecidableEq

/-- What is left of the earlier containers of the service. -/
def Leftover.Holds (c : Controller t) (past : List (Moment t)) (s : Fin t.size) : Leftover → Prop
  | .late => ∃ job ∈ c.jobs, job.service = s ∧ job.LeftBehind
  | .met => ∃ (id : Nat) (job : StopJob t.size), c.jobs[id]? = some (.stop job) ∧ job.service = s ∧
      job.phase.halt? ≠ none ∧ Met past s id
  | .crossed => 1 < c.total (Job.owed s) ∧ ∃ job ∈ c.jobs, job.service = s ∧ job.InHand
  | .beside => ∃ handle, Beside past s handle ∧ ¬ Halted past s handle
  | .forgotten => ∃ handle, Forgotten past s handle ∧ ¬ Halted past s handle

/-! ## Turns -/

section Turns

variable {c : Controller t} {now : Nat} {id : JobId} {action : Action} {slot : Slot} {aside : Aside}
  {effects : List Effect}

/-- **What a turn means for the ownership of a service**: a start job comes to own it, goes on owning
it, or ends that; one that does not own it leaves it as it is. -/
theorem StartTurn.owns_cases {job job' : StartJob t.size}
    (turn : StartTurn c now id job action job' slot aside effects) :
    (job.phase = .entering ∧ (c.slot job.service).state.isStartable ∧ job'.phase.Owns ∧
      job'.phase.halt? = none ∧ slot.state = .starting ∧
      slot.handle = (c.slot job.service).handle ∧ c.isCancelled job.run = false) ∨
    (job.phase.Owns ∧ job'.phase.Owns ∧ job'.phase.halt? = none ∧
      slot.state = (c.slot job.service).state ∧
      (job'.phase.Unrecorded → job.phase.Unrecorded ∧
        slot.handle = (c.slot job.service).handle)) ∨
    (∃ verdict, job.phase = .concluding verdict ∧ ¬ job'.phase.Owns ∧ job'.phase.halt? = none ∧
      slot.handle = (c.slot job.service).handle ∧
      ((c.slot job.service).state = .starting → slot.state = verdict.target)) ∨
    (job.phase.Owns ∧ (c.slot job.service).state ≠ .starting ∧ ¬ job'.phase.Owns ∧
      slot = c.slot job.service) ∨
    (¬ job.phase.Owns ∧ ¬ job'.phase.Owns ∧ (job.phase.halt? = none → job'.phase.halt? = none) ∧
      slot.state = (c.slot job.service).state ∧
      slot.handle = (c.slot job.service).handle) := by
  cases turn with
  | enter hp hc hs | enterBare hp hc hs => exact .inl ⟨hp, hs, trivial, rfl, rfl, rfl, hc⟩
  | conclude hp =>
      refine .inr (.inr (.inl ⟨_, hp, False.elim, rfl, by simp, ?_⟩))
      intro hs
      rw [StartJob.state_unclaim, Slot.state_leaveStarting, if_pos hs]
  | discard hp hs => exact .inr (.inr (.inr (.inl ⟨by rw [hp]; trivial, hs, False.elim, rfl⟩)))
  | record hp => exact .inr (.inl ⟨by rw [hp]; trivial, trivial, rfl, rfl, False.elim⟩)
  | @retry handle attempt probe hp =>
      refine .inr (.inl ?_)
      rw [hp]
      rcases c.retryPhase_cases now job.service handle attempt with ⟨-, deadline, he⟩ | ⟨-, he⟩ <;>
        exact ⟨trivial, by rw [StartJob.goTo, he]; trivial, by rw [StartJob.goTo, he]; rfl, rfl,
          by rw [StartJob.goTo, he]; exact False.elim⟩
  | heed hp =>
      refine .inr (.inl ⟨?_, trivial, rfl, rfl, False.elim⟩)
      rcases hp with ⟨_, _, _, hp⟩ | ⟨_, _, hp⟩ <;> rw [hp] <;> trivial
  | abandon hp | collect hp | bind hp | bindLast hp =>
      exact .inr (.inl ⟨by rw [hp]; trivial, trivial, rfl, rfl, fun _ => ⟨by rw [hp]; trivial, rfl⟩⟩)
  | lose hp | ask hp | heedProbe hp | wake hp | miss hp | ready hp =>
      exact .inr (.inl ⟨by rw [hp]; trivial, trivial, rfl, rfl, False.elim⟩)
  | arrive hp | accept hp =>
      refine .inr (.inr (.inr (.inr ?_)))
      rw [hp, StartJob.phase_await]
      split <;> exact ⟨False.elim, False.elim, fun _ => rfl, rfl, rfl⟩
  | follow hp =>
      refine .inr (.inr (.inr (.inr ⟨?_, False.elim, fun _ => rfl, by simp, by simp⟩)))
      rcases hp with hp | ⟨hp, -⟩ <;> rw [hp] <;> exact False.elim
  | overrun hp | kill hp =>
      refine .inr (.inr (.inr (.inr ⟨by rw [hp]; exact False.elim, False.elim, ?_, rfl, rfl⟩)))
      rw [hp]
      intro h
      cases h
  | cease hp | pass hp | giveUp hp | decline hp | refuse hp | forgo hp | discarded hp =>
      exact .inr (.inr (.inr (.inr
        ⟨by rw [hp]; exact False.elim, False.elim, fun _ => rfl, by simp, by simp⟩)))

/-- A start job puts its container into the slot of a service that is starting, and otherwise leaves
the slot its container. -/
theorem StartTurn.records_cases {job job' : StartJob t.size}
    (turn : StartTurn c now id job action job' slot aside effects) :
    slot.handle = (c.slot job.service).handle ∨
      ∃ handle, job.phase = .recording handle ∧ (c.slot job.service).state = .starting ∧
        slot.state = .starting ∧ slot.handle = some handle := by
  cases turn with
  | record hp hs => exact .inr ⟨_, hp, hs, hs, rfl⟩
  | _ => exact .inl (by simp)

/-- A start job that owes its service a container did so before its turn, or has just moved the service
to starting. -/
theorem StartTurn.owes_cases {job job' : StartJob t.size}
    (turn : StartTurn c now id job action job' slot aside effects) :
    (job'.phase.Unrecorded → job.phase.Unrecorded) ∨
    ((c.slot job.service).state.isStartable ∧ slot.handle = (c.slot job.service).handle) := by
  rcases turn.owns_cases with
    ⟨-, hst, -, -, -, hh, -⟩ | ⟨-, -, -, -, hu⟩ | ⟨-, -, ho, -⟩ | ⟨-, -, ho, -⟩ | ⟨-, ho, -⟩
  · exact .inr ⟨hst, hh⟩
  · exact .inl fun h => (hu h).1
  all_goals exact .inl fun h => absurd h.owns ho

/-- A start job that gives up its launch is done. -/
theorem StartTurn.finished_of_leaves {job job' : StartJob t.size} {launch : JobId}
    (turn : StartTurn c now id job action job' slot aside effects) (ha : aside = .leaves launch) :
    job'.phase = .finished := by
  cases turn with
  | conclude => rfl
  | _ => cases ha

theorem halts_takenPhase {s : Fin t.size} {taken : Option Handle} {handle : Handle}
    (h : (c.takenPhase now s taken).Halts handle) : taken = some handle := by
  cases taken with
  | none => exact absurd h (StopPhase.not_halts (halt?_detachPhase _))
  | some => exact h

/-- **What a stop job does with the container of its service**: nothing, except that it goes on with a
halt, or moves the service to stopped; or it takes the container to halt it, and the service cannot be
started. -/
theorem StopTurn.clears_cases {job : StopJob t.size} {phase : StopPhase}
    (turn : StopTurn c now id job action phase slot effects) :
    (slot.handle = (c.slot job.service).handle ∧
      (∀ handle, phase.Halts handle → job.phase.Halts handle) ∧
      (slot.state = (c.slot job.service).state ∨ (c.slot job.service).state = .pending ∨
        (job.phase = .retiring ∧ (c.slot job.service).state = .stopping ∧ slot.state = .stopped))) ∨
    (slot.handle = none ∧ (∀ handle, phase.Halts handle → (c.slot job.service).handle = some handle) ∧
      ¬ slot.state.isStartable) := by
  have hquiet {phase : StopPhase} (hp : phase.halt? = none) (handle : Handle) (h : phase.Halts handle) :
      job.phase.Halts handle := absurd h (StopPhase.not_halts hp)
  cases turn with
  | skip hp hs => exact .inl ⟨rfl, hquiet (halt?_detachPhase _), .inr (.inl hs)⟩
  | take hp hs =>
      exact .inr ⟨rfl, fun _ => halts_takenPhase, by simp [Slot.moved, ServiceState.isStartable]⟩
  | takeLeft hp hs =>
      refine .inr ⟨rfl, fun _ => halts_takenPhase, ?_⟩
      rcases hs with hs | hs <;> simp [hs, ServiceState.isStartable]
  | retire hp hs => exact .inl ⟨rfl, hquiet rfl, .inr (.inr ⟨hp, hs, rfl⟩)⟩
  | halted | unbind => exact .inl ⟨rfl, hquiet (halt?_detachPhase _), .inl rfl⟩
  | overrun hp | kill hp => exact .inl ⟨rfl, fun _ h => by rw [hp]; exact h, .inl rfl⟩
  | go | pass | idle | leave => exact .inl ⟨rfl, hquiet rfl, .inl rfl⟩

/-- A launch asks for its container in its first turn. -/
theorem LaunchTurn.phase_ne_calling {l : Launch t.size} {phase : LaunchPhase}
    (turn : LaunchTurn c now id l action phase effects) : phase ≠ .calling := by
  cases turn <;> exact nofun

end Turns

namespace Controller

variable {c c' : Controller t} {now : Nat} {id : JobId} {action : Action} {slot : Slot}
  {aside : Aside} {effects : List Effect} {past : List (Moment t)} {s : Fin t.size}

/-! ## Who owes a container -/

/-- No more jobs owe a container unless the job whose turn it is comes to owe one. -/
theorem owed_after_le {old new : Job t.size} (hlink : c.Linked) (hj : c.jobs[id]? = some old)
    (turn : Turn c now id old action new slot aside effects) (hle : new.owed s ≤ old.owed s) :
    (c.after id new old.service slot aside).total (Job.owed s) ≤ c.total (Job.owed s) := by
  have hnothing {job : Job t.size} (hle : job.owed s ≤ old.owed s) :
      (c.after id job old.service slot .nothing).total (Job.owed s) ≤ c.total (Job.owed s) := by
    have := total_after_nothing job old.service slot (Job.owed s) hj
    omega
  cases turn with
  | stop | launch => exact hnothing hle
  | @start job job' _ _ _ _ turn =>
      have hne {launch : Nat} {l : Launch t.size} (hl : c.jobs[launch]? = some (.launch l)) :
          id ≠ launch := (launch_ne_start hj hl).symm
      rcases turn.launch_cases with
        ⟨rfl, -⟩ | ⟨rfl, -⟩ | ⟨launch, l, result, rfl, hl, -⟩ | ⟨launch, rfl, hw, -, hp, -⟩
      · exact hnothing hle
      · have hnew : (Job.launch { service := job.service }).owed s = 0 :=
          Job.owed_eq_zero fun _ h => Bool.false_ne_true h.1
        have := total_after_launches (.start job') job.service slot (Job.owed s) hj
        simp only [Job.service]
        omega
      · have hend : (Job.launch { l with phase := .finished }).owed s = 0 :=
          Job.owed_eq_zero fun _ h => by cases h.2
        have := total_after_takes (.start job') job.service slot (Job.owed s) (hne hl) hj hl
        simp only [Job.service]
        omega
      · -- The launch may owe the container that its start job owed before.
        obtain ⟨l, hl, hls, -⟩ := hlink.launch hj hw
        have hnew : (Job.start job').owed s = 0 := Job.owed_eq_zero fun _ h => by
          rw [Job.Owes, turn.finished_of_leaves rfl] at h
          exact h
        have hleft : (Job.launch { l with orphaned := true }).owed s
            ≤ (Job.start job).owed s :=
          Job.owed_le hls fun _ => by rw [Job.Owes, hp]; trivial
        have := total_after_leaves (.start job') job.service slot (Job.owed s) (hne hl) hj hl
        simp only [Job.service]
        omega

/-- Two jobs that owe a container. -/
theorem one_lt_owed {i j : Nat} {job job' : Job t.size} (hne : i ≠ j) (hi : c.jobs[i]? = some job)
    (hj : c.jobs[j]? = some job') (hs : job.service = s) (hs' : job'.service = s) (he : job.Owes)
    (he' : job'.Owes) : 1 < c.total (Job.owed s) := by
  have := add_le_total (Job.owed s) hne hi hj
  rw [Job.owed_eq_one hs he, Job.owed_eq_one hs' he'] at this
  omega

theorem owing_of_job {job : Job t.size} (hj : c.jobs[id]? = some job) (hs : job.service = s)
    (he : job.Owes) : c.Owing s := by
  have := le_total (Job.owed s) hj
  rw [Job.owed_eq_one hs he] at this
  exact this

/-! ## The invariant -/

/-- Nothing is left of the earlier containers of the service but strays: no other one is in its slot, and
only stop jobs that have met others halt another one. -/
structure Cleared (c : Controller t) (past : List (Moment t)) (s : Fin t.size) : Prop where
  slot : ∀ {handle : Handle}, (c.slot s).handle = some handle → Stray past s handle
  halted : ∀ {id : Nat} {job : StopJob t.size} {handle : Handle}, c.jobs[id]? = some (.stop job) →
    job.service = s → job.phase.Halts handle → Met past s id ∨ Stray past s handle

/-- Nothing else is left when the service can be started, and while a start owes it a container. -/
def Lone (c : Controller t) (past : List (Moment t)) (s : Fin t.size) : Prop :=
  (c.slot s).state.isStartable ∨ c.Owing s → c.Cleared past s

theorem lone_fresh (config : Config) (s : Fin t.size) : Lone (fresh t config) [] s :=
  fun _ => ⟨fun h => by simp [fresh, Controller.slot] at h, fun h => by simp [fresh] at h⟩

/-- No halt of a stop job of the service begins. -/
def NoHaltBegins (c c' : Controller t) (s : Fin t.size) : Prop :=
  ∀ (id : Nat) (job : StopJob t.size) (handle : Handle), c'.jobs[id]? = some (.stop job) →
    job.service = s → job.phase.Halts handle → ∃ job' : StopJob t.size,
      c.jobs[id]? = some (.stop job') ∧ job'.service = s ∧ job'.phase.Halts handle

theorem Cleared.mono {past' : List (Moment t)} (h : c.Cleared past s)
    (hpast : ∀ m ∈ past, m ∈ past') (hhandle : (c'.slot s).handle = (c.slot s).handle)
    (hhalts : NoHaltBegins c c' s) : c'.Cleared past' s where
  slot hh := (h.slot (hhandle ▸ hh)).mono hpast
  halted hj hs hh := by
    obtain ⟨job', hj', hs', hh'⟩ := hhalts _ _ _ hj hs hh
    exact (h.halted hj' hs' hh').imp (·.mono hpast) (·.mono hpast)

section

variable {m : Moment t}

/-- The invariant is kept where neither the service comes to be one that can be started nor a job to owe
it a container, and what was cleared stays so. -/
theorem Lone.keep (h : Lone m.before past s)
    (hle : m.after.total (Job.owed s) ≤ m.before.total (Job.owed s))
    (hstate : (m.after.slot s).state.isStartable → (m.before.slot s).state.isStartable)
    (hclear : (m.after.slot s).state.isStartable ∨ m.after.Owing s → m.before.Cleared past s →
      m.after.Cleared (m :: past) s) : Lone m.after (m :: past) s :=
  fun ha => hclear ha (h (ha.imp hstate fun he => Nat.lt_of_lt_of_le he hle))

/-- The invariant is kept by what leaves the service alone. -/
theorem Lone.frame (h : Lone m.before past s)
    (hle : m.after.total (Job.owed s) ≤ m.before.total (Job.owed s))
    (hstate : (m.after.slot s).state.isStartable → (m.before.slot s).state.isStartable)
    (hhandle : (m.after.slot s).handle = (m.before.slot s).handle)
    (hhalts : NoHaltBegins m.before m.after s) : Lone m.after (m :: past) s :=
  h.keep hle hstate fun _ hc => hc.mono (fun _ => List.mem_cons_of_mem m) hhandle hhalts

end

section

variable {m : Moment t} {old : Job t.size}

theorem noHaltBegins_of_turn {new : Job t.size} (hid : id < c.jobs.size)
    (hnew : ∀ (job : StopJob t.size) (handle : Handle), new = .stop job → job.service = s →
      job.phase.Halts handle → ∃ job' : StopJob t.size, c.jobs[id]? = some (.stop job') ∧
        job'.service = s ∧ job'.phase.Halts handle) {service : Fin t.size} :
    NoHaltBegins c (c.after id new service slot aside) s := by
  intro i job handle hj hs hh
  rcases stop_after_cases hid hj with ⟨rfl, hn⟩ | ⟨-, hj⟩
  · exact hnew job handle hn hs hh
  · exact ⟨job, hj, hs, hh⟩

theorem Lone.start_turn {job job' : StartJob t.size} (h : Lone m.before past job.service)
    (hlink : m.before.Linked) (ha : m.action.job? = some id)
    (hj : m.before.jobs[id]? = some (.start job))
    (turn : StartTurn m.before m.now id job m.action job' slot aside m.effects)
    (hm : m.after = m.before.after id (.start job') job.service slot aside) :
    Lone m.after (m :: past) job.service := by
  have hslot : m.after.slot job.service = slot := by rw [hm, slot_after_self]
  have hhalts : NoHaltBegins m.before m.after job.service := by
    rw [hm]
    exact noHaltBegins_of_turn (lt_size_of_job hj) fun _ _ he => by cases he
  have hpast : ∀ m' ∈ past, m' ∈ m :: past := fun _ => List.mem_cons_of_mem m
  rcases turn.owes_cases with hu | ⟨hst, hh⟩
  · have hle : m.after.total (Job.owed job.service)
        ≤ m.before.total (Job.owed job.service) := by
      have hle : (Job.start job').owed job.service ≤ (Job.start job).owed job.service :=
        Job.owed_le turn.same.1 hu
      have := owed_after_le hlink hj (.start turn) hle
      rwa [Job.service_start, ← hm] at this
    rcases turn.records_cases with hh | ⟨handle, hp, hst, hst', hh⟩
    · refine h.frame hle (fun hst => ?_) (by rw [hslot, hh]) hhalts
      rw [hslot] at hst
      rcases turn.state_cases with he | ⟨-, -, -, he, -⟩ | ⟨verdict, -, -, he⟩
      · exact he ▸ hst
      · exact he
      · rw [he] at hst
        cases verdict <;> cases hst
    · have hclosed : ¬ (m.after.slot job.service).state.isStartable := by
        rw [hslot, hst']
        exact Bool.false_ne_true
      refine h.keep hle (fun hs => absurd hs hclosed) fun howes hc => ⟨fun hh' => ?_, fun hi hs hk => ?_⟩
      · -- The container is recorded beside whoever owes one then.
        obtain rfl := Option.some.inj (hh.symm.trans (hslot ▸ hh'))
        have hrecorded : m.recorded? job.service = some handle := by
          simp [Moment.recorded?, Moment.job?, ha, hj, Job.recorded?, hp, hst, StartPhase.kept?]
        exact .inr ⟨m, List.mem_cons_self, hrecorded, howes.resolve_left hclosed⟩
      · obtain ⟨job'', hi', hs', hk'⟩ := hhalts _ _ _ hi hs hk
        exact (hc.halted hi' hs' hk').imp (·.mono hpast) (·.mono hpast)
  · exact fun _ => (h (.inl hst)).mono hpast (by rw [hslot, hh]) hhalts

theorem Lone.stop_turn {job : StopJob t.size} {phase : StopPhase}
    (h : Lone m.before past job.service) (hlink : m.before.Linked)
    (hj : m.before.jobs[id]? = some (.stop job))
    (turn : StopTurn m.before m.now id job m.action phase slot m.effects)
    (hm : m.after = m.before.after id (.stop { job with phase }) job.service slot .nothing) :
    Lone m.after (m :: past) job.service := by
  have hid := lt_size_of_job hj
  have hslot : m.after.slot job.service = slot := by rw [hm, slot_after_self]
  have hle : m.after.total (Job.owed job.service)
      ≤ m.before.total (Job.owed job.service) := by
    rw [hm]
    exact owed_after_le hlink hj (.stop turn) (Job.owed_le rfl False.elim)
  have hpast : ∀ m' ∈ past, m' ∈ m :: past := fun _ => List.mem_cons_of_mem m
  rcases turn.clears_cases with ⟨hh, hgoes, hst⟩ | ⟨hh, htakes, hst⟩
  · have hhalts : NoHaltBegins m.before m.after job.service := by
      rw [hm]
      refine noHaltBegins_of_turn hid fun _ handle he _ hhalt => ?_
      cases he
      exact ⟨job, hj, rfl, hgoes handle hhalt⟩
    rcases hst with he | he | ⟨hp, he, he'⟩
    · exact h.frame hle (by rw [hslot, he]; exact fun h => h) (by rw [hslot, hh]) hhalts
    · exact h.frame hle (by rw [he]; exact fun _ => rfl) (by rw [hslot, hh]) hhalts
    · -- The job has halted its container, so whoever still halts one has met it.
      refine fun _ => ⟨fun hh' => .inl ?_, fun {i k handle} hi hs hk => .inl ?_⟩
      · refine ⟨m, List.mem_cons_self, .inl ⟨?_, by rw [hslot, he'], hh'⟩⟩
        rw [he]
        decide
      · obtain ⟨k', hi', hs', hk'⟩ := hhalts i k handle hi hs hk
        refine ⟨m, List.mem_cons_self, id, k', job, ?_, hi', hj, hs', rfl, hk'.active,
          by rw [hp]; trivial⟩
        rintro rfl
        cases hi'.symm.trans hj
        rw [hp] at hk'
        cases hk'
  · refine h.keep hle (fun he => absurd (hslot ▸ he) hst) fun _ hc => ?_
    refine ⟨fun {handle} hn => ?_, fun {i k handle} hi hs hk => ?_⟩
    · rw [hslot, hh] at hn
      cases hn
    rw [hm] at hi
    rcases stop_after_cases hid hi with ⟨-, he⟩ | ⟨-, hi⟩
    · -- The container that the job takes is the one that was left in the slot.
      cases he
      exact .inr ((hc.slot (htakes handle hk)).mono hpast)
    · exact (hc.halted hi hs hk).imp (·.mono hpast) (·.mono hpast)

theorem Lone.turn (h : Lone m.before past s) (hlink : m.before.Linked) (ha : m.action.job? = some id)
    (ht : TurnsTo m.before m.now id m.action m.after m.effects) : Lone m.after (m :: past) s := by
  obtain ⟨old, new, slot, aside, hj, turn, hm⟩ := ht
  have hid := lt_size_of_job hj
  by_cases hs : old.service = s
  · subst hs
    cases turn with
    | start turn => exact h.start_turn hlink ha hj turn hm
    | stop turn => exact h.stop_turn hlink hj turn hm
    | launch turn =>
        rename_i l phase
        have hslot : m.after.slot l.service = m.before.slot l.service := by
          rw [hm, Job.service_launch, slot_after_self]
        rw [Job.service_launch] at *
        refine h.frame ?_ (by rw [hslot]; exact fun h => h) (by rw [hslot]) ?_
        · rw [hm]
          refine owed_after_le hlink hj (.launch turn) (Job.owed_le rfl ?_)
          exact fun he => absurd he.2 turn.phase_ne_calling
        · rw [hm]
          exact noHaltBegins_of_turn hid fun _ _ he => by cases he
  · have hslot : m.after.slot s = m.before.slot s := by rw [hm, slot_after_of_ne (Ne.symm hs)]
    have hzero : new.owed s = 0 :=
      Job.owed_eq_zero fun hn => absurd (turn.service_eq.symm.trans hn) hs
    refine h.frame ?_ (by rw [hslot]; exact fun h => h) (by rw [hslot]) ?_
    · rw [hm]
      exact owed_after_le hlink hj turn (hzero ▸ Nat.zero_le _)
    · rw [hm]
      refine noHaltBegins_of_turn hid fun job _ he hjs => ?_
      exact absurd (turn.service_eq.symm.trans (he ▸ hjs)) hs

theorem Lone.step (h : Lone m.before past s) (hlink : m.before.Linked)
    (hs : m.before.step m.now m.action = some (m.after, m.effects)) : Lone m.after (m :: past) s := by
  cases ha : m.action.job? with
  | some id => exact h.turn hlink ha (turnsTo_of_step ha hs)
  | none =>
      -- What a call changes leaves the invariant alone.
      have hkept : m.after.total (Job.owed s) = m.before.total (Job.owed s) ∧
          ((m.after.slot s).state.isStartable → (m.before.slot s).state.isStartable) ∧
          (m.after.slot s).handle = (m.before.slot s).handle ∧ NoHaltBegins m.before m.after s := by
        refine (changesTo_of_step ha hs).1.induct
          (P := fun d => d.total (Job.owed s) = m.before.total (Job.owed s) ∧
            ((d.slot s).state.isStartable → (m.before.slot s).state.isStartable) ∧
            (d.slot s).handle = (m.before.slot s).handle ∧ NoHaltBegins m.before d s)
          ?_ ⟨rfl, fun h => h, rfl, fun _ job _ hj hs hh => ⟨job, hj, hs, hh⟩⟩
        rintro d operation e ⟨htotal, hst, hh, hhalts⟩ change
        refine ⟨?_, fun he => ?_, (change.sets.handle_eq s).trans hh, fun i job handle hj hs hk => ?_⟩
        · refine (change.sets.total_eq (Job.owed s) (fun _ _ => ?_) fun _ _ => ?_).trans htotal
          · exact Job.owed_eq_zero fun _ => False.elim
          · exact Job.owed_eq_zero fun _ => False.elim
        · rcases change.sets.state_cases s with hd | ⟨-, hd⟩
          · exact hst (hd ▸ he)
          · rw [hd] at he
            cases he
        · rcases change.sets.stop_cases hj with hj | hf
          · exact hhalts i job handle hj hs hk
          · exact absurd hk (StopPhase.not_halts (halt?_of_fresh hf))
      obtain ⟨htotal, hst, hh, hhalts⟩ := hkept
      exact h.frame (Nat.le_of_eq htotal) hst hh hhalts

end

theorem Run.lone {config : Config} (run : Run (fresh t config) past c) (s : Fin t.size) :
    Lone c past s := by
  induction run with
  | refl => exact lone_fresh config s
  | @tail past c c' now action effects run hs ih =>
      exact Lone.step (m := ⟨c, now, action, effects, c'⟩) ih run.linked hs

/-! ## When the engine is asked -/

/-- The job is the one that the launch brings its container to: the start job that waits for it, or the
launch itself when nobody does. -/
def Brings (c : Controller t) (launch id : Nat) (job : Job t.size) : Prop :=
  c.jobs[id]? = some job ∧ match job with
    | .start job => job.phase.launch? = some launch
    | .launch _ => id = launch
    | .stop _ => False

theorem eq_of_brings {launch launch' : Nat} {job : Job t.size} (h : c.Brings launch id job)
    (h' : c.Brings launch' id job) : launch = launch' := by
  obtain ⟨-, h⟩ := h
  obtain ⟨-, h'⟩ := h'
  cases job with
  | start job => exact Option.some.inj (h.symm.trans h')
  | launch l => exact h.symm.trans h'
  | stop job => exact h.elim

theorem not_leftBehind (hlate : ¬ Leftover.late.Holds c past s) {job : Job t.size}
    (hj : c.jobs[id]? = some job) (hs : job.service = s) : ¬ job.LeftBehind :=
  fun h => hlate ⟨job, Array.mem_of_getElem? hj, hs, h⟩

section

variable {l : Launch t.size}

/-- A launch that calls or is under way and was not left behind brings its container to a job that owes
it. -/
theorem brings_of_launch (hlink : c.Linked) (hl : c.jobs[id]? = some (.launch l))
    (hp : l.phase = .calling ∨ l.phase.UnderWay) (hleft : ¬ (Job.launch l).LeftBehind) :
    ∃ (k : Nat) (job : Job t.size), c.Brings id k job ∧ job.service = l.service ∧ job.Owes := by
  cases ho : l.orphaned with
  | true => exact ⟨id, .launch l, ⟨hl, rfl⟩, rfl, ho, hp.resolve_right fun h => hleft ⟨ho, h⟩⟩
  | false =>
      have hne : l.phase ≠ .finished := by
        rcases hp with hp | hp
        · rw [hp]
          exact nofun
        · exact hp.ne_finished
      obtain ⟨k, job, hj, hw⟩ := hlink.waited hl ho hne
      obtain ⟨l', hl', hs, -⟩ := hlink.launch hj hw
      obtain rfl := Job.launch.inj (Option.some.inj (hl.symm.trans hl'))
      exact ⟨k, .start job, ⟨hj, hw⟩, hs.symm, (StartPhase.unrecorded_of_launch? hw).1⟩

/-- A job with a container in hand: a start job that has got one, which it owes, or a launch that is under
way and brings it to a job that owes it. -/
theorem owes_of_inHand (hlink : c.Linked) (hlate : ¬ Leftover.late.Holds c past s) {job : Job t.size}
    (hj : c.jobs[id]? = some job) (hs : job.service = s) (hhand : job.InHand) :
    ∃ (k : Nat) (owner : Job t.size), c.jobs[k]? = some owner ∧ owner.service = s ∧ owner.Owes ∧
      ∀ launch, c.Brings launch k owner → id = launch := by
  cases job with
  | stop => exact hhand.elim
  | launch l =>
      obtain ⟨k, owner, hb, hks, howes⟩ :=
        brings_of_launch hlink hj (.inr hhand) (not_leftBehind hlate hj hs)
      exact ⟨k, owner, hb.1, hks.trans hs, howes, fun launch => eq_of_brings hb⟩
  | start job =>
      have howes : (Job.start job).Owes ∧ job.phase.launch? = none := by
        rw [Job.InHand] at hhand
        rw [Job.Owes]
        revert hhand
        cases job.phase <;> simp [StartPhase.kept?, StartPhase.Unrecorded, StartPhase.launch?]
      exact ⟨id, _, hj, hs, howes.1, fun launch hb => by cases howes.2.symm.trans hb.2⟩

/-- While a launch is about to ask for its container, no other one is on its way. -/
theorem not_inHand (hlink : c.Linked) (hlate : ¬ Leftover.late.Holds c past s)
    (hcrossed : ¬ Leftover.crossed.Holds c past s) (hl : c.jobs[id]? = some (.launch l))
    (hs : l.service = s) (hp : l.phase = .calling) {i : Nat} {job : Job t.size}
    (hi : c.jobs[i]? = some job) (his : job.service = s) : ¬ job.InHand := by
  intro hhand
  obtain ⟨k, owner, hb, hks, howes⟩ :=
    brings_of_launch hlink hl (.inl hp) (not_leftBehind hlate hl hs)
  obtain ⟨k', owner', hk', hks', howes', hbrings⟩ := owes_of_inHand hlink hlate hi his hhand
  have hne : k ≠ k' := by
    rintro rfl
    obtain rfl := Option.some.inj (hb.1.symm.trans hk')
    obtain rfl := hbrings id hb
    obtain rfl := Option.some.inj (hi.symm.trans hl)
    rw [Job.InHand, hp] at hhand
    exact hhand
  exact hcrossed ⟨one_lt_owed hne hb.1 hk' (hks.trans hs) hks' howes howes', job,
    Array.mem_of_getElem? hi, his, hhand⟩

/-- Nothing is kept where the slot is bare and no container is on its way. -/
theorem kept_eq_zero (hbare : (c.slot s).handle = none)
    (hhand : ∀ (i : Nat) (job : Job t.size), c.jobs[i]? = some job → job.service = s → ¬ job.InHand)
    (handle : Handle) : c.kept s handle = 0 := by
  have hnone {i : Nat} {job : Job t.size} (hi : c.jobs[i]? = some job) (his : job.service = s) :
      job.kept? = none := by
    have hidle := hhand i job hi his
    cases job with
    | stop => rfl
    | start job => exact Classical.not_not.1 hidle
    | launch l =>
        refine Option.eq_none_iff_forall_ne_some.2 fun handle' hk => hidle ?_
        exact LaunchPhase.underWay_of_kept hk
  rw [Controller.kept, hbare, tally_none, Nat.add_zero, total_eq_zero_iff]
  intro i job hi
  by_cases his : job.service = s
  · rw [Job.keeps, if_pos his, hnone hi his, tally_none]
  · rw [Job.keeps, if_neg his]

end

section

variable {config : Config} (run : Run (fresh t config) past c)

include run

/-- A container that is kept, being halted or lost was not halted as often as it was handed over. -/
theorem Run.not_halted {handle : Handle} (hpos : 0 < c.kept s handle ∨ 0 < c.halting s handle ∨
    0 < past.countP fun m => m.loses s handle) : ¬ Halted past s handle := by
  intro hhalted
  have hkept := run.kept s handle
  have hhalting := run.halting s handle
  rw [Halted] at hhalted
  omega

/-- A container on its way may be alive. -/
theorem Run.alive_of_inHand {job : Job t.size} (hj : c.jobs[id]? = some job) (hs : job.service = s)
    (hhand : job.InHand) : ¬ NoneAlive past s := by
  rintro ⟨hreturned, hhalted⟩
  have hkeeps {handle : Handle} (hk : job.kept? = some handle) : False :=
    run.not_halted (.inl (kept_pos_of_job hj hs hk)) (hhalted handle)
  cases job with
  | stop => exact hhand
  | start job =>
      obtain ⟨handle, hk⟩ := Option.ne_none_iff_exists'.1 hhand
      exact hkeeps hk
  | launch l =>
      rw [Job.InHand] at hhand
      cases hp : l.phase with
      | calling | finished =>
          rw [hp] at hhand
          exact hhand
      | running =>
          obtain ⟨hnone, hasked⟩ := run.not_returned hj (.inr hp)
          obtain ⟨m, hm, hasks⟩ := hasked hp
          obtain ⟨m', hm', hr⟩ := hreturned m hm id (hs ▸ hasks)
          exact hnone m' hm' hr
      | halting handle halt =>
          have hh : (Job.launch l).halt? = some (handle, halt) := by rw [Job.halt?, hp]; rfl
          exact run.not_halted (.inr (.inl (halting_pos_of_job hj hs hh))) (hhalted handle)
      | returned result =>
          cases result with
          | ok handle => exact hkeeps (by rw [Job.kept?, hp]; rfl)
          | error =>
              rw [hp] at hhand
              exact hhand

/-- A container that is being halted may be alive. -/
theorem Run.alive_of_halt {job : Job t.size} (hj : c.jobs[id]? = some job) (hs : job.service = s)
    (hh : job.halt? ≠ none) : ¬ NoneAlive past s := by
  rintro ⟨-, hhalted⟩
  obtain ⟨⟨handle, halt⟩, hh⟩ := Option.ne_none_iff_exists'.1 hh
  exact run.not_halted (.inr (.inl (halting_pos_of_job hj hs hh))) (hhalted handle)

/-- **What is left may be alive**, whatever it is. -/
theorem Run.alive_of_leftover {left : Leftover} (h : left.Holds c past s) : ¬ NoneAlive past s := by
  have hnot {handle : Handle} (hn : ¬ Halted past s handle) : ¬ NoneAlive past s :=
    fun hnone => hn (hnone.2 handle)
  cases left with
  | late =>
      obtain ⟨job, hj, hs, hb⟩ := h
      obtain ⟨id, hj⟩ := Array.mem_iff_getElem?.1 hj
      cases job with
      | start job => exact run.alive_of_halt hj hs hb
      | launch l => exact run.alive_of_inHand hj hs hb.2
      | stop => exact hb.elim
  | met =>
      obtain ⟨id, job, hj, hs, hh, -⟩ := h
      exact run.alive_of_halt hj hs hh
  | crossed =>
      obtain ⟨-, job, hj, hs, hhand⟩ := h
      obtain ⟨id, hj⟩ := Array.mem_iff_getElem?.1 hj
      exact run.alive_of_inHand hj hs hhand
  | beside | forgotten =>
      obtain ⟨handle, -, hn⟩ := h
      exact hnot hn

variable (hforgot : ¬ Leftover.forgotten.Holds c past s) (hbeside : ¬ Leftover.beside.Holds c past s)

include hforgot

/-- Where no forgotten container is left, none was lost. -/
theorem Run.none_lost (handle : Handle) : (past.countP fun m => m.loses s handle) = 0 := by
  refine Nat.eq_zero_of_not_pos fun hpos => ?_
  obtain ⟨m, hm, hl⟩ := List.countP_pos_iff.1 hpos
  exact hforgot ⟨handle, ⟨m, hm, .inr hl⟩, run.not_halted (.inr (.inr hpos))⟩

include hbeside

/-- Where no stray is left, each one was halted. -/
theorem Run.not_stray {handle : Handle} (hpos : 0 < c.kept s handle ∨ 0 < c.halting s handle) :
    ¬ Stray past s handle := by
  have hn : ¬ Halted past s handle := run.not_halted (hpos.imp_right .inl)
  rintro (hf | hb)
  · exact hforgot ⟨handle, hf, hn⟩
  · exact hbeside ⟨handle, hb, hn⟩

theorem Cleared.bare (h : c.Cleared past s) : (c.slot s).handle = none := by
  refine Option.eq_none_iff_forall_ne_some.2 fun handle hh => ?_
  have hkept : 0 < c.kept s handle := by
    rw [kept, hh, tally_some, if_pos rfl]
    exact Nat.succ_pos _
  exact run.not_stray hforgot hbeside (.inl hkept) (h.slot hh)

/-- Nothing is being halted where only stop jobs would halt a container that have met others, and none
does. -/
theorem Cleared.halting_eq_zero (h : c.Cleared past s) (hlate : ¬ Leftover.late.Holds c past s)
    (hmet : ¬ Leftover.met.Holds c past s)
    (hhand : ∀ (i : Nat) (job : Job t.size), c.jobs[i]? = some job → job.service = s → ¬ job.InHand)
    (handle : Handle) : c.halting s handle = 0 := by
  have hnone {i : Nat} {job : Job t.size} (hi : c.jobs[i]? = some job) (his : job.service = s) :
      job.halt? = none := by
    refine Classical.byContradiction fun hh => ?_
    cases job with
    | start job => exact not_leftBehind hlate hi his hh
    | stop job =>
        obtain ⟨⟨handle', halt⟩, hh'⟩ := Option.ne_none_iff_exists'.1 hh
        have hhalts : job.phase.Halts handle' := congrArg (Option.map Prod.fst) hh'
        rcases h.halted hi his hhalts with hm | hstray
        · exact hmet ⟨i, job, hi, his, hh, hm⟩
        · exact run.not_stray hforgot hbeside (.inr (halting_pos_of_job hi his hh')) hstray
    | launch l =>
        refine hhand i _ hi his ?_
        rw [Job.halt?] at hh
        rw [Job.InHand]
        revert hh
        cases l.phase <;> simp [LaunchPhase.halt?, LaunchPhase.UnderWay]
  rw [Controller.halting, total_eq_zero_iff]
  intro i job hi
  by_cases his : job.service = s
  · rw [Job.halts, if_pos his, hnone hi his, Option.map_none, tally_none]
  · rw [Job.halts, if_neg his]

end

end Controller

instance (m : Moment t) (s : Fin t.size) (handle : Handle) : Decidable (m.Forgets s handle) :=
  inferInstanceAs (Decidable ((_ ∧ _ ∧ _) ∨ _))

/-- The containers of a service that a step could forget. -/
def Moment.inSlot (m : Moment t) (s : Fin t.size) : List Handle :=
  (m.before.slot s).handle.toList ++ (m.after.slot s).handle.toList

theorem Moment.Forgets.inSlot {m : Moment t} {s : Fin t.size} {handle : Handle}
    (h : m.Forgets s handle) : handle ∈ m.inSlot s := by
  rcases h with ⟨-, -, hh⟩ | hl
  · exact List.mem_append_right _ (by rw [hh]; exact List.mem_singleton_self _)
  · obtain ⟨job, -, hl⟩ := (Option.any_eq_true _ _).1 hl
    cases job with
    | stop | launch => cases hl
    | start job =>
        have hh := of_decide_eq_true (Bool.and_eq_true_iff.1 hl).2
        exact List.mem_append_left _ (by rw [hh]; exact List.mem_singleton_self _)

namespace Leftover

/-- The five of them. -/
def all : List Leftover := [.late, .met, .crossed, .beside, .forgotten]

theorem mem_all (left : Leftover) : left ∈ all := by
  cases left <;> decide

/-- What can be computed to see that nothing of the kind is left: no stop job at work halts anything. -/
def absent (c : Controller t) (past : List (Moment t)) (s : Fin t.size) : Leftover → Bool
  | .late => ¬ ∃ job ∈ c.jobs, job.service = s ∧ job.LeftBehind
  | .met => c.total (Job.atWork s) = 0
  | .crossed => ¬ (1 < c.total (Job.owed s) ∧ ∃ job ∈ c.jobs, job.service = s ∧ job.InHand)
  | .beside => ∀ m ∈ past, m.after.Owing s → ∀ handle ∈ (m.recorded? s).toList, Halted past s handle
  | .forgotten => ∀ m ∈ past, ∀ handle ∈ m.inSlot s, m.Forgets s handle → Halted past s handle

theorem not_holds_of_absent {c : Controller t} {past : List (Moment t)} {s : Fin t.size}
    {left : Leftover} (h : left.absent c past s) : ¬ left.Holds c past s := by
  cases left with
  | late => exact fun hl => of_decide_eq_true h hl
  | crossed => exact fun hc => of_decide_eq_true h hc
  | beside =>
      rintro ⟨handle, ⟨m, hm, hb, howes⟩, hn⟩
      exact hn (of_decide_eq_true h m hm howes handle (by rw [hb]; exact List.mem_singleton_self _))
  | forgotten =>
      rintro ⟨handle, ⟨m, hm, hf⟩, hn⟩
      exact hn (of_decide_eq_true h m hm handle hf.inSlot hf)
  | met =>
      rintro ⟨id, job, hj, hs, hh, -⟩
      have := (Controller.total_eq_zero_iff _).1 (of_decide_eq_true h) id _ hj
      have hactive : job.phase.Active := by
        revert hh
        cases job.phase <;> simp [StopPhase.halt?, StopPhase.Active]
      simp [Job.atWork, hs, hactive] at this

end Leftover

namespace Controller

/-! ### Runs of one service -/

/-- A database and nothing else. -/
def solo : Topology where
  services := [{ id := ⟨"db"⟩, image := "db:img" }]
  index := [(⟨"db"⟩, 0)]
  graph := { nodes := [⟨"db"⟩] }

def only : Fin solo.size := ⟨0, by decide⟩

/-- The database is started and found ready. -/
def readySteps : List (Nat × Action) :=
  [(0, .invoke .startAll), (0, .run 0), (0, .run 0), (0, .run 1),
    (20, .answer 1 (.container (.start (.ok ⟨⟨"db"⟩, "1"⟩)))), (20, .run 0), (20, .run 0),
    (20, .run 0), (30, .answer 0 (.container (.probe .ready))), (30, .run 0)]

/-- It is stopped, and when its container has stopped, started again. -/
def againSteps : List (Nat × Action) :=
  readySteps ++ [(40, .invoke .stopAll), (40, .run 2), (40, .run 2),
    (50, .answer 2 (.container (.stop (.ok ())))), (50, .run 2), (60, .invoke .startAll),
    (60, .run 3), (60, .run 3), (60, .run 4)]

/-- The start of the database is cancelled while its container is on its way, and the database is
stopped. -/
def cutOffSteps : List (Nat × Action) :=
  [(0, .invoke .startAll), (0, .run 0), (0, .run 0), (0, .run 1), (10, .invoke .cancel),
    (10, .proceed 1), (10, .run 0), (10, .run 0), (10, .invoke .stopAll), (10, .run 2), (10, .run 2),
    (10, .run 2)]

/-- When the container that came too late has been halted, the database is started again. -/
def haltedSteps : List (Nat × Action) :=
  cutOffSteps ++ [(20, .answer 1 (.container (.start (.ok ⟨⟨"db"⟩, "1"⟩)))), (20, .run 1),
    (30, .answer 1 (.container (.stop (.ok ())))), (40, .invoke .startAll), (40, .run 3), (40, .run 3),
    (40, .run 4)]

/-- The last step shows something, with the steps before it. -/
def lastShows (shows : Moment t → List (Moment t) → Bool) : List (Moment t) → Bool
  | [] => false
  | m :: earlier => shows m earlier

theorem exists_of_lastShows {shows : Moment t → List (Moment t) → Bool}
    (h : lastShows shows past) : ∃ m earlier, past = m :: earlier ∧ shows m earlier := by
  cases past with
  | nil => cases h
  | cons m earlier => exact ⟨m, earlier, rfl, h⟩

/-- It is started again at once. -/
def leftBehindSteps : List (Nat × Action) :=
  cutOffSteps ++ [(10, .invoke .startAll), (10, .run 3), (10, .run 3), (10, .run 4)]

/-- Two stops at once, of which the second finds nothing to halt, and another start. -/
def overlapSteps : List (Nat × Action) :=
  readySteps ++ [(40, .invoke .stopAll), (40, .run 2), (40, .run 2), (40, .invoke .stopAll),
    (40, .run 3), (40, .run 3), (40, .run 3), (40, .invoke .startAll), (40, .run 4), (40, .run 4),
    (40, .run 5)]

/-- The database is started again before the job of the first start has noticed that it was
cancelled. -/
def crossingSteps : List (Nat × Action) :=
  [(0, .invoke .startAll), (0, .run 0), (0, .run 0), (0, .run 1), (10, .invoke .cancel),
    (10, .proceed 1), (10, .invoke .stopAll), (10, .run 2), (10, .run 2), (10, .run 2),
    (10, .invoke .startAll), (10, .run 3), (10, .run 3), (10, .run 4)]

/-- The first start has got its container when it is cancelled, and comes to record it only when the
database was stopped and is being started again. -/
def besideSteps : List (Nat × Action) :=
  [(0, .invoke .startAll), (0, .run 0), (0, .run 0), (0, .run 1),
    (10, .answer 1 (.container (.start (.ok ⟨⟨"db"⟩, "1"⟩)))), (10, .run 0), (10, .invoke .cancel),
    (10, .proceed 1), (10, .invoke .stopAll), (10, .run 2), (10, .run 2), (10, .run 2),
    (10, .invoke .startAll), (10, .run 3), (10, .run 3), (10, .run 0), (10, .run 4)]

/-- A stop that meets another one at work moves the database to stopped, and it is started again while
the first stop is still halting the old container. Then the start is cancelled, and the first stop
comes to its end. -/
def forgottenSteps : List (Nat × Action) :=
  readySteps ++ [(40, .invoke .stopAll), (40, .run 2), (40, .run 2), (40, .invoke .stopAll),
    (40, .run 3), (40, .run 3), (40, .run 3), (40, .invoke .startAll), (40, .run 4), (40, .run 4),
    (40, .run 5), (60, .answer 5 (.container (.start (.ok ⟨⟨"db"⟩, "2"⟩)))), (60, .run 4),
    (60, .run 4), (70, .invoke .cancel), (70, .proceed 4),
    (80, .answer 2 (.container (.stop (.ok ())))), (80, .run 2), (80, .heed 4), (80, .run 4),
    (90, .invoke .stopAll), (90, .run 6), (90, .run 6), (90, .proceed 5), (90, .proceed 5),
    (90, .proceed 5)]

/-- The database is started again when everything has come to rest. -/
def afterForgottenSteps : List (Nat × Action) :=
  forgottenSteps ++ [(90, .invoke .startAll), (90, .run 7), (90, .run 7), (90, .run 8)]

/-- A container of the database may be alive: a launch has asked for it and it was not returned, or it
was handed over and not halted. -/
def showsAlive (past : List (Moment solo)) (launch : Nat) (handle : Handle) : Bool :=
  (past.any fun m => m.AsksStartBy launch only) && (past.all fun m => ¬ m.Returns launch) ||
    (past.countP fun m => m.hands only handle) ≠ past.countP fun m => m.endsHalt only handle

theorem not_noneAlive {past : List (Moment solo)} {launch : Nat} {handle : Handle}
    (h : showsAlive past launch handle) : ¬ NoneAlive past only := by
  intro hnone
  simp only [showsAlive, Bool.or_eq_true, Bool.and_eq_true, List.any_eq_true, List.all_eq_true,
    decide_eq_true_iff] at h
  rcases h with ⟨⟨m, hm, hasks⟩, hnever⟩ | h
  · obtain ⟨m', hm', hreturns⟩ := hnone.1 m hm launch hasks
    exact hnever m' hm' hreturns
  · exact h (hnone.2 handle)

/-- The step asks for a container while another one may be alive, and nothing is left that could
explain it, except for one thing. -/
def showsTwo (left : Leftover) (asker launch : Nat) (handle : Handle) (m : Moment solo)
    (earlier : List (Moment solo)) : Bool :=
  m.AsksStartBy asker only && showsAlive earlier launch handle &&
    Leftover.all.all fun other => other = left || other.absent m.before earlier only

/-- The steps of one run for each thing that may be left, with the launch that asks while an earlier
container may be alive, and that container. -/
def twoSteps : Leftover → List (Nat × Action) × Nat × Nat × Handle
  | .late => (leftBehindSteps, 4, 1, ⟨⟨"db"⟩, "1"⟩)
  | .met => (overlapSteps, 5, 1, ⟨⟨"db"⟩, "1"⟩)
  | .crossed => (crossingSteps, 4, 1, ⟨⟨"db"⟩, "1"⟩)
  | .beside => (besideSteps, 4, 1, ⟨⟨"db"⟩, "1"⟩)
  | .forgotten => (afterForgottenSteps, 8, 5, ⟨⟨"db"⟩, "2"⟩)

/-- In some run the engine is asked for a container of the database while an earlier one may be alive,
and of the five things that may be left there is only the given one. -/
def TwoWith (left : Leftover) : Prop :=
  ∃ (config : Config) (past : List (Moment solo)) (c : Controller solo) (m : Moment solo)
    (earlier : List (Moment solo)), Run (fresh solo config) past c ∧ past = m :: earlier ∧
      m.AsksStart only ∧ (∀ other, other ≠ left → ¬ other.Holds m.before earlier only) ∧
      ¬ NoneAlive earlier only

theorem twoWith (left : Leftover) : TwoWith left := by
  obtain ⟨past, c, run, shown⟩ := exists_run (fresh solo {}) (twoSteps left).1
    (fun past _ => lastShows
      (showsTwo left (twoSteps left).2.1 (twoSteps left).2.2.1 (twoSteps left).2.2.2) past)
    (by cases left <;> decide +kernel)
  obtain ⟨m, earlier, rfl, last⟩ := exists_of_lastShows shown
  simp only [showsTwo, Bool.and_eq_true, Bool.or_eq_true, decide_eq_true_iff,
    List.all_eq_true] at last
  obtain ⟨⟨hasks, halive⟩, habsent⟩ := last
  refine ⟨{}, _, c, m, earlier, run, rfl, ⟨_, hasks⟩, fun other hne => ?_, not_noneAlive halive⟩
  exact Leftover.not_holds_of_absent ((habsent other other.mem_all).resolve_left hne)

end Controller

end Bringup.Lifecycle
