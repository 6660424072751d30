import Bringup.Proofs.Lifecycle.Fulfilled
import Bringup.Proofs.Lifecycle.TakingDown
import Bringup.Proofs.Lifecycle.Waiting
import Bringup.Proofs.Topology.Dependencies

/-!
# Nobody waits for ever

Jobs and calls wait for each other, and what they wait for is always further on in an order that goes
round in no circle. A start job holds a claim on its service until it follows another job or is at its
end, and no job that holds a claim follows. So whoever waits for a service to settle waits for a job
that holds a claim on it, and such a job waits for a dependency at most. A stop job waits for jobs with
smaller numbers (`Job.Proper`), and a call made of others for calls of a simpler kind
(`Operation.height`).

So where no job and no call can take a step, and no job waits for an answer or a moment in time, all
calls have answered (`Run.no_deadlock`).
-/

namespace Bringup.Lifecycle

variable {t : Topology} {n : Nat}

/-! ## Jobs -/

/-- A start job holds its claim until it follows another one or is at its end, and waits for
dependencies of its service. A stop job with the given number waits for jobs with smaller numbers. Who
waits for the store waits for a volume. -/
def Job.Proper (id : Nat) : Job t.size → Prop
  | .start job => (job.claimed = false ↔ job.phase = .following ∨ job.phase = .finished) ∧
      (∀ left, job.phase = .awaiting left → left ⊆ t.dependencies job.service) ∧
      job.phase ≠ .attaching []
  | .stop job => (∀ left, job.phase = .awaiting left → ∀ i ∈ left, i < id) ∧
      job.phase ≠ .detaching []
  | .launch _ => True

section Turns

variable {c : Controller t} {now : Nat} {id : JobId} {action : Action} {slot : Slot} {aside : Aside}
  {effects : List Effect}

theorem StartTurn.proper {job job' : StartJob t.size}
    (turn : StartTurn c now id job action job' slot aside effects)
    (h : (Job.start job).Proper id) : (Job.start job').Proper id := by
  obtain ⟨hclaimed, hneeds, -⟩ := h
  have hlets {phase : StartPhase t.size} (hp : phase = .following ∨ phase = .finished) :
      (Job.start { job with claimed := false, phase }).Proper id := by
    refine ⟨by simp [hp], ?_, ?_⟩ <;> rcases hp with rfl | rfl <;> simp
  -- A job that goes on holds the claim that it held before.
  have hgoes {old phase : StartPhase t.size} (hp : job.phase = old)
      (ho : old ≠ .following ∧ old ≠ .finished) (hn : phase ≠ .following ∧ phase ≠ .finished)
      (hneeds : ∀ left, phase = .awaiting left → left ⊆ t.dependencies job.service)
      (hbind : phase ≠ .attaching []) : (Job.start (job.goTo phase)).Proper id := by
    refine ⟨?_, hneeds, hbind⟩
    rw [hp] at hclaimed
    exact hclaimed.trans (iff_of_false (by simp [ho]) (by simp [StartJob.goTo, hn]))
  have hawaits {old : StartPhase t.size} (hp : job.phase = old)
      (ho : old ≠ .following ∧ old ≠ .finished) {left : List (Fin t.size)}
      (hleft : left ⊆ t.dependencies job.service) : (Job.start (job.await left)).Proper id := by
    apply hgoes hp ho
    · split <;> simp
    · intro left' he
      split at he
      · cases he
      · exact StartPhase.awaiting.inj he ▸ hleft
    · split <;> simp
  cases turn with
  | follow => exact hlets (.inl rfl)
  | cease | refuse | forgo | conclude | discarded => exact hlets (.inr rfl)
  | arrive hp => exact hawaits hp (by simp) (List.Subset.refl _)
  | accept hp => exact hawaits hp (by simp) fun d hd => hneeds _ hp (List.mem_cons_of_mem _ hd)
  | @retry handle attempt probe hp hr =>
      rcases c.retryPhase_cases now job.service handle attempt with ⟨-, _, he⟩ | ⟨-, he⟩ <;>
        rw [he] <;> exact hgoes hp (by simp) (by simp) (by simp) (by simp)
  | heed hp =>
      rcases hp with ⟨_, _, _, hp⟩ | ⟨_, _, hp⟩ <;>
        exact hgoes hp (by simp) (by simp) (by simp) (by simp)
  | pass hp | giveUp hp | decline hp | enter hp | enterBare hp | abandon hp | collect hp | lose hp
  | record hp | discard hp | ask hp | heedProbe hp | wake hp | overrun hp | bind hp | bindLast hp
  | miss hp | ready hp | kill hp =>
      exact hgoes hp (by simp) (by simp) (by simp) (by simp)

theorem StopTurn.proper {job : StopJob t.size} {phase : StopPhase}
    (turn : StopTurn c now id job action phase slot effects)
    (h : (Job.stop job).Proper id) : (Job.stop { job with phase }).Proper id := by
  have hdetach (volumes : List Volume) :
      (Job.stop { job with phase := Controller.detachPhase volumes }).Proper id := by
    cases volumes <;> exact ⟨by simp [Controller.detachPhase], by simp [Controller.detachPhase]⟩
  have htaken : (Job.stop { job with
      phase := c.takenPhase now job.service (c.slot job.service).handle }).Proper id := by
    cases (c.slot job.service).handle with
    | some handle => exact ⟨by simp [Controller.takenPhase], by simp [Controller.takenPhase]⟩
    | none => exact hdetach _
  cases turn with
  | @pass other rest hp hf =>
      refine ⟨?_, by simp⟩
      intro left he i hi
      obtain rfl := StopPhase.awaiting.inj he
      exact h.1 _ hp i (List.mem_cons_of_mem _ hi)
  | take | takeLeft => exact htaken
  | skip | halted | unbind => exact hdetach _
  | go | idle | retire | leave | overrun | kill => exact ⟨by simp, by simp⟩

/-- A stop job leaves the claims on its service alone. -/
theorem StopTurn.claims_eq {job : StopJob t.size} {phase : StopPhase}
    (turn : StopTurn c now id job action phase slot effects) :
    slot.claims = (c.slot job.service).claims := by
  cases turn <;> rfl

theorem Turn.proper {old new : Job t.size}
    (turn : Turn c now id old action new slot aside effects) (h : old.Proper id) : new.Proper id := by
  cases turn with
  | start turn => exact turn.proper h
  | stop turn => exact turn.proper h
  | launch turn => trivial

end Turns

namespace Controller

variable {c c' d : Controller t} {now : Nat} {action : Action} {effects : List Effect}
  {operation : Operation}

/-- Every job is as it should be. -/
def AllProper (c : Controller t) : Prop :=
  ∀ (id : Nat) (job : Job t.size), c.jobs[id]? = some job → job.Proper id

theorem AllProper.turn {id : JobId} (h : AllProper c) (ht : TurnsTo c now id action c' effects) :
    AllProper c' := by
  obtain ⟨old, new, slot, aside, hj, turn, rfl⟩ := ht
  intro i job hi
  rcases jobs_after_cases (lt_size_of_job hj) hi with
    ⟨rfl, rfl⟩ | ⟨-, hi⟩ | ⟨-, -, rfl⟩ | ⟨-, l, -, ⟨-, rfl⟩ | ⟨-, rfl⟩⟩
  · exact turn.proper (h _ old hj)
  · exact h i job hi
  all_goals trivial

/-- Whoever is made to stop a service waits for the stops of those that depend on it, and these have
smaller numbers. -/
theorem proper_spawnStops (ht : t.Built) {order : List (Fin t.size)} (ho : t.stopOrder = .ok order)
    (h : AllProper c) : AllProper (c.spawnStops order) := by
  obtain ⟨order', ho', hnodup, -, hbefore⟩ := ht.stopOrder
  obtain rfl : order' = order := Except.ok.inj (ho'.symm.trans ho)
  intro i job hi
  by_cases hlt : i < c.jobs.size
  · rw [spawnStops, jobs_spawn_of_lt _ hlt] at hi
    exact h i job hi
  · rw [spawnStops, jobs_spawn_of_ge _ (Nat.not_lt.1 hlt), List.getElem?_map] at hi
    obtain ⟨s, hs, rfl⟩ := Option.map_eq_some_iff.1 hi
    refine ⟨?_, by simp⟩
    intro left he i' hi'
    obtain rfl := StopPhase.awaiting.inj he
    obtain ⟨e, hdep, rfl⟩ := List.mem_map.1 hi'
    have hidx : order'.idxOf s = i - c.jobs.size := by
      obtain ⟨hrange, rfl⟩ := List.getElem?_eq_some_iff.1 hs
      exact hnodup.idxOf_getElem _ hrange
    have := hbefore s e hdep
    show c.jobs.size + order'.idxOf e < i
    omega

theorem AllProper.change (h : AllProper c) (ht : t.Built) (change : CallChange now c operation d) :
    AllProper d := by
  have hstart {e : Controller t} {services : List (Fin t.size)} (he : e.jobs = c.jobs) :
      AllProper (e.spawnStarts services) := by
    intro i job hi
    rw [jobs_spawnStarts] at hi
    by_cases hlt : i < e.jobs.size
    · rw [jobs_spawn_of_lt _ hlt, he] at hi
      exact h i job hi
    · rw [jobs_spawn_of_ge _ (Nat.not_lt.1 hlt)] at hi
      obtain ⟨s, -, rfl⟩ := List.mem_map.1 (List.mem_of_getElem? hi)
      exact ⟨by simp, by simp, by simp⟩
  have hmoved {e : Controller t} (he : AllProper e) (k : CallId) (phase : CallPhase t.size) :
      AllProper (e.setCallPhase k phase) := by
    intro i job hi
    rw [jobs_setCallPhase] at hi
    exact he i job hi
  cases change with
  | start _ => exact hstart (jobs_arm c)
  | stop ho => exact proper_spawnStops ht ho h
  | stopNothing | cancel | ask => exact h
  | progress => exact hmoved h _ _
  | @restop k call s hc hp hs =>
      apply hmoved
      intro i job hi
      by_cases hlt : i < c.jobs.size
      · rw [jobs_spawn_of_lt _ hlt] at hi
        exact h i job hi
      · rw [jobs_spawn_of_ge _ (Nat.not_lt.1 hlt)] at hi
        obtain rfl := List.mem_singleton.1 (List.mem_of_getElem? hi)
        exact ⟨by simp, by simp⟩
  | restart => exact hmoved (hstart (jobs_arm c)) _ _
  | @sweep _ _ s => exact hmoved (e := c.setSlot s _) h _ _

theorem Run.proper {config : Config} {past : List (Moment t)} (ht : t.Built)
    (run : Run (fresh t config) past c) : AllProper c := by
  refine run.invariant (by simp [AllProper, fresh]) fun h hs => ?_
  exact step_induct hs (fun i turn => h.turn turn) (fun h change => h.change ht change) h

/-! ## Claims -/

/-- A service counts the start jobs that hold a claim on it. -/
def Counts (c : Controller t) : Prop := ∀ s, (c.slot s).claims = c.total (Job.claims s)

theorem counts_fresh (config : Config) : Counts (fresh t config) := by
  intro s
  simp [fresh, Controller.slot, total]

theorem Counts.turn {id : JobId} (h : Counts c) (hlink : c.Linked)
    (ht : TurnsTo c now id action c' effects) : Counts c' := by
  obtain ⟨old, new, slot, aside, hj, turn, rfl⟩ := ht
  cases turn with
  | start turn => exact claims_turn h hlink hj turn
  | @stop job phase _ slot _ turn =>
      intro s
      have htotal := total_after_nothing (.stop { job with phase }) job.service slot (Job.claims s) hj
      have hslot : ((c.after id (.stop { job with phase }) job.service slot .nothing).slot s).claims
          = (c.slot s).claims := by
        by_cases hs : s = job.service
        · rw [hs, slot_after_self, turn.claims_eq]
        · rw [slot_after_of_ne hs]
      rw [Job.service_stop, hslot, h]
      exact htotal.symm
  | @launch l phase _ _ turn =>
      intro s
      have htotal := total_after_nothing (.launch { l with phase }) l.service (c.slot l.service)
        (Job.claims s) hj
      rw [Job.service_launch, after_slot, slot_setJob, h]
      exact htotal.symm

theorem Counts.change (h : Counts c) (change : CallChange now c operation d) : Counts d := by
  intro s
  cases change.sets with
  | starts services jobs slots =>
      have htotal : d.total (Job.claims s) = c.total (Job.claims s) + services.count s := by
        rw [← claims_spawned services s d.currentRun, ← total_spawn]
        simp only [total, jobs]
      rw [slots, htotal, h s]
  | stops stops fresh jobs slots =>
      have htotal : d.total (Job.claims s) = c.total (Job.claims s) := by
        have := total_spawn (c := c) (Job.claims s) (stops.map Job.stop)
        rw [weigh_eq_zero, Nat.add_zero] at this
        · rw [← this, total, total, jobs]
        · intro job hj
          obtain ⟨stop, -, rfl⟩ := List.mem_map.1 hj
          rfl
      rw [slots, htotal, h s]
  | sweeps s' jobs slots =>
      rw [slots, show d.total (Job.claims s) = c.total (Job.claims s) by simp only [total, jobs]]
      split
      next he => rw [Slot.claims_leaveStarting, he, h]
      next => exact h s

/-- **A service counts the start jobs that hold a claim on it**, at every instant of a run. -/
theorem Run.counts {config : Config} {past : List (Moment t)} (run : Run (fresh t config) past c) :
    Counts c := by
  have hboth : c.Linked ∧ Counts c := by
    refine run.invariant (P := fun c => c.Linked ∧ Counts c)
      ⟨linked_fresh config, counts_fresh config⟩ ?_
    intro c c' now action effects h hs
    refine ⟨h.1.step hs, ?_⟩
    exact step_induct hs (fun i turn => h.2.turn h.1 turn) Counts.change h.2
  exact hboth.2

/-- Who holds a claim on a service that is not settled. -/
theorem Counts.holder (h : Counts c) {s : Fin t.size} (hs : ¬ (c.slot s).progress.settled) :
    ∃ (id : Nat) (job : StartJob t.size), c.jobs[id]? = some (.start job) ∧ job.service = s ∧
      job.claimed := by
  rw [Slot.progress_settled_iff, not_or, h s, total_eq_zero_iff] at hs
  have hsome : ∃ (id : Nat) (job : Job t.size), c.jobs[id]? = some job ∧ Job.claims s job ≠ 0 := by
    simpa using hs.2
  obtain ⟨id, job, hj, hw⟩ := hsome
  cases job with
  | start job =>
      simp only [Job.claims, ne_eq, ite_eq_right_iff, Nat.one_ne_zero, imp_false, not_not] at hw
      exact ⟨id, job, hj, hw⟩
  | stop | launch => exact absurd rfl hw

end Controller

/-! ## Calls -/

/-- Calls of a kind are made of calls of smaller heights. -/
def Operation.height : Operation → Nat
  | .upUntil => 2
  | .shutDown => 1
  | _ => 0

namespace Controller

variable {c c' d : Controller t} {now : Nat} {action : Action} {effects : List Effect}
  {operation : Operation}

/-- There is such a call, and it is of a smaller height. -/
def Below (c : Controller t) (height : Nat) (other : CallId) : Prop :=
  ∃ call, c.calls[other]? = some call ∧ call.operation.height < height

/-- What a call of some height waits for is there, and what it is going to wait for. -/
def Finds (c : Controller t) (height : Nat) (jobs : List JobId) : CallPhase t.size → Prop
  | .joining => ∀ id ∈ jobs, id < c.jobs.size
  | .stopping _ job | .starting _ job => job < c.jobs.size
  | .following other sequel => c.Below height other ∧ match sequel with
    | .drain up => 1 < height ∧ c.Below height up
    | .startAll | .finish | .shutDown => 1 < height
    | _ => True
  | .beginning => 1 < height
  | _ => True

/-- What every call waits for is there. -/
def AllFound (c : Controller t) : Prop :=
  ∀ (k : Nat) (call : Call t.size), c.calls[k]? = some call →
    c.Finds call.operation.height call.jobs call.phase

/-- All jobs and calls are still there. -/
structure Grows (c d : Controller t) : Prop where
  jobs : c.jobs.size ≤ d.jobs.size
  calls : ∀ {k : Nat} {call : Call t.size}, c.calls[k]? = some call →
    ∃ call', d.calls[k]? = some call' ∧ call'.operation = call.operation

theorem Grows.trans {e : Controller t} (h : Grows c d) (h' : Grows d e) : Grows c e where
  jobs := Nat.le_trans h.jobs h'.jobs
  calls hk := by
    obtain ⟨call', hk', ho⟩ := h.calls hk
    obtain ⟨call'', hk'', ho'⟩ := h'.calls hk'
    exact ⟨call'', hk'', ho'.trans ho⟩

/-- More jobs, and the same calls. -/
theorem grows_of_calls (hj : c.jobs.size ≤ d.jobs.size) (hc : d.calls = c.calls) : Grows c d where
  jobs := hj
  calls hk := ⟨_, hc ▸ hk, rfl⟩

theorem grows_openCall (jobs : List JobId) (phase : CallPhase t.size) :
    Grows c (c.openCall operation jobs phase).1 where
  jobs := Nat.le_refl _
  calls hk := ⟨_, (calls_openCall_of_lt (Array.getElem?_eq_some_iff.1 hk).1).trans hk, rfl⟩

theorem grows_setCallPhase (id : CallId) (phase : CallPhase t.size) :
    Grows c (c.setCallPhase id phase) where
  jobs := by rw [jobs_setCallPhase]
  calls {k call} hk := by
    by_cases h : k = id
    · subst h
      exact ⟨_, calls_setCallPhase_self hk phase, rfl⟩
    · exact ⟨call, by rw [calls_setCallPhase_of_ne h, hk], rfl⟩

theorem Below.mono {height : Nat} {other : CallId} (h : c.Below height other) (hg : Grows c d) :
    d.Below height other := by
  obtain ⟨call, hk, hlt⟩ := h
  obtain ⟨call', hk', ho⟩ := hg.calls hk
  exact ⟨call', hk', ho ▸ hlt⟩

theorem Finds.mono {height : Nat} {jobs : List JobId} {phase : CallPhase t.size}
    (h : c.Finds height jobs phase) (hg : Grows c d) : d.Finds height jobs phase := by
  cases phase with
  | joining => exact fun id hid => Nat.lt_of_lt_of_le (h id hid) hg.jobs
  | stopping | starting => exact Nat.lt_of_lt_of_le h hg.jobs
  | following other sequel =>
      refine ⟨h.1.mono hg, ?_⟩
      cases sequel with
      | drain up => exact ⟨h.2.1, h.2.2.mono hg⟩
      | _ => exact h.2
  | _ => trivial

theorem AllFound.of_calls (h : AllFound c) (hj : c.jobs.size ≤ d.jobs.size)
    (hc : d.calls = c.calls) : AllFound d := by
  intro k call hk
  rw [hc] at hk
  exact (h k call hk).mono (grows_of_calls hj hc)

theorem AllFound.openCall (h : AllFound c) {jobs : List JobId} {phase : CallPhase t.size}
    (hf : c.Finds operation.height jobs phase) : AllFound (c.openCall operation jobs phase).1 := by
  intro k call hk
  rcases calls_openCall_cases hk with hk | ⟨-, rfl⟩
  · exact (h k call hk).mono (grows_openCall _ _)
  · exact hf.mono (grows_openCall _ _)

theorem AllFound.setCallPhase (h : AllFound c) {id : Nat} {call : Call t.size}
    {phase : CallPhase t.size} (hc : c.calls[id]? = some call)
    (hf : c.Finds call.operation.height call.jobs phase) : AllFound (c.setCallPhase id phase) := by
  intro k call' hk
  rcases calls_setCallPhase_cases hk with ⟨-, hk⟩ | ⟨old, rfl, ho, rfl⟩
  · exact (h k call' hk).mono (grows_setCallPhase _ _)
  · obtain rfl : call = old := Option.some.inj (hc.symm.trans ho)
    exact hf.mono (grows_setCallPhase _ _)

/-- A call that was just made can be followed by calls of greater heights. -/
theorem below_openCall {height : Nat} {jobs : List JobId} {phase : CallPhase t.size}
    (hlt : operation.height < height) :
    (c.openCall operation jobs phase).1.Below height (c.openCall operation jobs phase).2 :=
  ⟨_, calls_openCall_size, hlt⟩

theorem finds_range {height : Nat} (m : Nat) (hm : c.jobs.size + m ≤ d.jobs.size) :
    d.Finds height ((List.range m).map (c.jobs.size + ·)) .joining := by
  intro id hid
  obtain ⟨i, hi, rfl⟩ := List.mem_map.1 hid
  have := List.mem_range.1 hi
  show c.jobs.size + i < d.jobs.size
  omega

/-- Starting all services leaves every call with what it waits for, and makes a call that can be
followed. -/
theorem AllFound.startAll (h : AllFound c) :
    AllFound c.startAll.1 ∧ c.startAll.1.Below 1 c.startAll.2 ∧ Grows c c.startAll.1 := by
  unfold Controller.startAll
  split
  next => exact ⟨h.openCall trivial, below_openCall Nat.zero_lt_one, grows_openCall _ _⟩
  next order ho =>
    have hsize : (c.arm.spawnStarts order).jobs.size = c.jobs.size + order.length := by simp
    have hle : c.jobs.size ≤ (c.arm.spawnStarts order).jobs.size := by omega
    exact ⟨(h.of_calls hle (by simp)).openCall (finds_range _ (by omega)),
      below_openCall Nat.zero_lt_one, (grows_of_calls hle (by simp)).trans (grows_openCall _ _)⟩

theorem AllFound.stopAll (h : AllFound c) :
    AllFound c.stopAll.1 ∧ c.stopAll.1.Below 1 c.stopAll.2 ∧ Grows c c.stopAll.1 := by
  have hcancelled : AllFound c.cancelRuns := h
  have hgrows : Grows c c.cancelRuns := grows_of_calls (Nat.le_refl _) rfl
  unfold Controller.stopAll
  dsimp only
  split
  next =>
    exact ⟨hcancelled.openCall trivial, below_openCall Nat.zero_lt_one,
      hgrows.trans (grows_openCall _ _)⟩
  next order ho =>
    have hsize : (c.cancelRuns.spawnStops order).jobs.size = c.jobs.size + order.length := by
      rw [spawnStops, size_jobs_spawn, List.length_map, jobs_cancelRuns]
    have hle : c.jobs.size ≤ (c.cancelRuns.spawnStops order).jobs.size := by omega
    exact ⟨(h.of_calls hle rfl).openCall (finds_range (c := c) _ (by omega)),
      below_openCall Nat.zero_lt_one, (grows_of_calls hle rfl).trans (grows_openCall _ _)⟩

theorem AllFound.cancel (h : AllFound c) :
    AllFound c.cancel.1 ∧ c.cancel.1.Below 1 c.cancel.2 ∧ Grows c c.cancel.1 := by
  have hcancelled : AllFound c.cancelRuns := h
  have hgrows : Grows c c.cancelRuns := grows_of_calls (Nat.le_refl _) rfl
  exact ⟨hcancelled.openCall trivial, below_openCall Nat.zero_lt_one,
    hgrows.trans (grows_openCall _ _)⟩

theorem AllFound.shutDown (h : AllFound c) : AllFound (c.invoke now .shutDown).1 ∧
    (c.invoke now .shutDown).1.Below 2 (c.invoke now .shutDown).2 ∧
      Grows c (c.invoke now .shutDown).1 := by
  obtain ⟨hfound, hbelow, hgrows⟩ := h.cancel
  exact ⟨hfound.openCall ⟨hbelow, trivial⟩, below_openCall Nat.one_lt_two,
    hgrows.trans (grows_openCall _ _)⟩

theorem Below.le {height height' : Nat} {other : CallId} (h : c.Below height other)
    (hle : height ≤ height') : c.Below height' other := by
  obtain ⟨call, hk, hlt⟩ := h
  exact ⟨call, hk, Nat.lt_of_lt_of_le hlt hle⟩

theorem Below.pos {height : Nat} {other : CallId} (h : c.Below height other) : 1 ≤ height := by
  obtain ⟨call, -, hlt⟩ := h
  omega

theorem AllFound.invoke (h : AllFound c) (operation : Operation) :
    AllFound (c.invoke now operation).1 := by
  cases operation with
  | startAll => exact h.startAll.1
  | stopAll => exact h.stopAll.1
  | restart id =>
      simp only [Controller.invoke, Controller.restart]
      split <;> exact h.openCall trivial
  | cancel => exact h.cancel.1
  | status => exact h.openCall trivial
  | shutDown => exact h.shutDown.1
  | upUntil => exact h.openCall Nat.one_lt_two

theorem AllFound.follow (h : AllFound c) {id : CallId} {call : Call t.size} {other : CallId}
    {sequel : Sequel} (hc : c.calls[id]? = some call) (hp : call.phase = .following other sequel)
    (answer : Answer) : AllFound (c.follow now id sequel answer) := by
  have hfinds := h id call hc
  rw [hp] at hfinds
  have hlt : (id : Nat) < c.calls.size := (Array.getElem?_eq_some_iff.1 hc).1
  -- The calls that are made come behind this one, which is found where it was.
  cases sequel with
  | report | finish | interrupt => exact h.setCallPhase hc trivial
  | drain up => exact h.setCallPhase hc ⟨hfinds.2.2, hfinds.2.1⟩
  | startAll =>
      obtain ⟨hfound, hbelow, -⟩ := h.startAll
      exact hfound.setCallPhase ((calls_startAll_of_lt hlt).trans hc)
        ⟨hbelow.le hfinds.1.pos, hfinds.2⟩
  | stopAll =>
      obtain ⟨hfound, hbelow, -⟩ := h.stopAll
      exact hfound.setCallPhase ((calls_stopAll_of_lt hlt).trans hc)
        ⟨hbelow.le hfinds.1.pos, trivial⟩
  | shutDown =>
      obtain ⟨hfound, hbelow, -⟩ : AllFound (c.invoke now .shutDown).1 ∧ _ := h.shutDown
      have hkept : (c.invoke now .shutDown).1.calls[id]? = some call := by
        rw [Controller.invoke, calls_openCall_of_lt, calls_cancel_of_lt hlt, hc]
        rw [Controller.cancel, size_calls_openCall, calls_cancelRuns]
        exact Nat.lt_succ_of_lt hlt
      exact hfound.setCallPhase hkept ⟨hbelow.le hfinds.2, trivial⟩

theorem AllFound.proceed (h : AllFound c) {id : CallId} {call : Call t.size}
    (hc : c.calls[id]? = some call) (hs : c.proceed now id call = some (c', effects)) :
    AllFound c' := by
  unfold Controller.proceed at hs
  -- One case for each phase, in the order of `proceed`.
  split at hs
  next hp =>
    split at hs
    next =>
      obtain ⟨rfl, -⟩ := by simpa using hs
      exact h.setCallPhase hc trivial
    next => cases hs
  next taken hp =>
    obtain ⟨rfl, -⟩ := by simpa using hs
    exact h.setCallPhase hc trivial
  next s rest taken hp =>
    obtain ⟨rfl, -⟩ := by simpa using hs
    exact h.setCallPhase hc trivial
  next s hp =>
    dsimp only at hs
    split at hs
    next =>
      obtain ⟨rfl, -⟩ := by simpa using hs
      have hsize : (c.spawn [.stop { service := s }]).jobs.size = c.jobs.size + 1 := by simp
      have hfound : AllFound (c.spawn [.stop { service := s }]) := h.of_calls (by omega) rfl
      exact hfound.setCallPhase hc (Nat.lt_of_lt_of_eq (Nat.lt_succ_self _) hsize.symm)
    next =>
      obtain ⟨rfl, -⟩ := by simpa using hs
      exact h.setCallPhase hc trivial
  next s job hp =>
    split at hs
    next =>
      obtain ⟨rfl, -⟩ := by simpa using hs
      have hsize : (c.arm.spawnStarts [s]).jobs.size = c.jobs.size + 1 := by simp
      have hfound : AllFound (c.arm.spawnStarts [s]) := h.of_calls (by omega) (by simp)
      exact hfound.setCallPhase (by simpa using hc)
        (Nat.lt_of_lt_of_eq (Nat.lt_succ_self _) hsize.symm)
    next => cases hs
  next s job hp =>
    split at hs
    next =>
      obtain ⟨rfl, -⟩ := by simpa using hs
      exact h.setCallPhase hc trivial
    next => cases hs
  next s hp =>
    obtain ⟨rfl, -⟩ := by simpa using hs
    exact h.setCallPhase hc trivial
  next hp =>
    obtain ⟨rfl, -⟩ := by simpa using hs
    exact h.setCallPhase hc trivial
  next s rest hp =>
    rw [moveFromStarting_eq _ _ _ (by rfl)] at hs
    obtain ⟨rfl, -⟩ := by simpa using hs
    have hfound := h.of_calls (d := c.setSlot s ((c.slot s).leaveStarting now .stopping
      (some (.cancelled (t.id s))))) (Nat.le_refl _) rfl
    have hfinds : c.Finds call.operation.height call.jobs (.sweeping rest) := trivial
    exact hfound.setCallPhase hc hfinds
  next hp =>
    obtain ⟨rfl, -⟩ := by simpa using hs
    have hfinds := h id call hc
    rw [hp] at hfinds
    obtain ⟨hfound, hbelow, -⟩ := h.startAll
    exact hfound.setCallPhase ((calls_startAll_of_lt (Array.getElem?_eq_some_iff.1 hc).1).trans hc)
      ⟨hbelow.le (Nat.le_of_lt hfinds), hfinds⟩
  next other sequel hp =>
    split at hs
    next answer time hf =>
      obtain ⟨rfl, -⟩ := by simpa using hs
      exact h.follow hc hp answer
    next => cases hs
  next => cases hs

/-- **Whatever happens, what every call waits for is there.** -/
theorem AllFound.step (h : AllFound c) (hs : c.step now action = some (c', effects)) :
    AllFound c' := by
  cases action with
  | invoke operation =>
      obtain ⟨rfl, -⟩ := by simpa [Controller.step] using hs
      exact h.invoke operation
  | proceed id =>
      obtain ⟨call, hc, hs⟩ := Option.bind_eq_some_iff.1 hs
      exact h.proceed hc hs
  | interrupt id =>
      obtain ⟨call, hc, hs⟩ := Option.bind_eq_some_iff.1 hs
      have hfinds := h id call hc
      obtain ⟨hfound, hbelow, hgrows⟩ := h.cancel
      have hkept : c.cancel.1.calls[id]? = some call :=
        (calls_cancel_of_lt (Array.getElem?_eq_some_iff.1 hc).1).trans hc
      unfold Controller.interrupt at hs
      split at hs
      next hp =>
        obtain ⟨rfl, -⟩ := by simpa using hs
        rw [hp] at hfinds
        exact hfound.setCallPhase hkept ⟨hbelow.le (Nat.le_of_lt hfinds), hfinds⟩
      next up hp =>
        obtain ⟨rfl, -⟩ := by simpa using hs
        rw [hp] at hfinds
        exact hfound.setCallPhase hkept ⟨hbelow.le hfinds.1.pos, hfinds.2, hfinds.1.mono hgrows⟩
      next => cases hs
  | run id | heed id | timeout id | answer id reply =>
      obtain ⟨old, new, slot, aside, hj, turn, rfl⟩ := turnsTo_of_step (rfl : Action.job? _ = some id) hs
      exact h.of_calls size_jobs_le_after calls_after

theorem Run.allFound {config : Config} {past : List (Moment t)}
    (run : Run (fresh t config) past c) : AllFound c :=
  run.invariant (by simp [AllFound, fresh]) fun h hs => h.step hs

end Controller

/-! ## Nobody waits for ever -/

/-- The job waits for an answer of the engine or of the store, or for a moment in time. -/
def Job.WaitsOutside (job : Job t.size) : Prop :=
  (∃ call, job.Expects call) ∨ job.errand? ≠ none ∨ job.deadline? ≠ none

/-- A job or call takes a step of its own. -/
def Action.Own : Action → Prop
  | .proceed _ | .run _ | .heed _ => True
  | _ => False

namespace Controller

variable {c : Controller t} {now : Nat}

/-- **Every start job has come to its end** that does not wait for a service, by induction along the
dependencies. Who waits for a service waits for a job that holds a claim on it, which follows nobody, and so
for a dependency of the service. -/
theorem starts_finished_of_waits (ht : t.Built) (hproper : AllProper c) (hcounts : Counts c)
    (hwaits : ∀ {id : Nat} {job : StartJob t.size}, c.jobs[id]? = some (.start job) →
      job.phase = .finished ∨
      (job.phase = .following ∧ ¬ (c.slot job.service).progress.settled) ∨
      ∃ d ∈ t.dependencies job.service, ¬ (c.slot d).progress.settled) {id : Nat}
    {job : StartJob t.size} (hj : c.jobs[id]? = some (.start job)) : job.phase = .finished := by
  have hall (s : Fin t.size) : ∀ (id : Nat) (job : StartJob t.size),
      c.jobs[id]? = some (.start job) → job.service = s → job.phase = .finished := by
    refine ht.induct (P := fun s => ∀ (id : Nat) (job : StartJob t.size),
      c.jobs[id]? = some (.start job) → job.service = s → job.phase = .finished) ?_ s
    intro s ih
    have hdependency {d : Fin t.size} (hd : d ∈ t.dependencies s) :
        (c.slot d).progress.settled := by
      by_contra hs
      obtain ⟨holder, job, hj, hservice, hclaimed⟩ := hcounts.holder hs
      have hf := ih d hd holder job hj hservice
      rw [(hproper holder _ hj).1.2 (.inr hf)] at hclaimed
      cases hclaimed
    intro id job hj hservice
    subst hservice
    rcases hwaits hj with hf | ⟨-, hs⟩ | ⟨d, hd, hs⟩
    · exact hf
    · obtain ⟨holder, job', hj', hservice, hclaimed⟩ := hcounts.holder hs
      have hphase : ¬ (job'.phase = .following ∨ job'.phase = .finished) := fun hp => by
        rw [(hproper holder _ hj').1.2 hp] at hclaimed
        cases hclaimed
      rcases hwaits hj' with hf | ⟨hf, -⟩ | ⟨d, hd, hs⟩
      · exact absurd (.inr hf) hphase
      · exact absurd (.inl hf) hphase
      · exact absurd (hdependency (hservice ▸ hd)) hs
    · exact absurd (hdependency hd) hs
  exact hall job.service id job hj rfl

/-- No job and no call can take a step of its own, and no job waits for something outside. -/
structure Stuck (now : Nat) (c : Controller t) : Prop where
  own : ∀ action : Action, action.Own → c.step now action = none
  waits : ∀ {id : Nat} {job : Job t.size}, c.jobs[id]? = some job → ¬ job.WaitsOutside

namespace Stuck

/-- A launch that has not been given up has not returned yet, or has been taken. -/
theorem launch_finished (h : Stuck now c) {id : Nat} {l : Launch t.size}
    (hl : c.jobs[id]? = some (.launch l)) :
    l.phase = .finished ∨ ∃ result, l.phase = .returned result ∧ l.orphaned = false := by
  have hwaits : ¬ ∃ call, (Job.launch l).Expects call := fun he => h.waits hl (.inl he)
  cases launchBlock_of_stuck hl (h.own (.run id) trivial) with
  | engine hp =>
      refine absurd ⟨.start default [], ?_⟩ hwaits
      rw [Job.Expects, hp]
      exact ⟨_, _, rfl⟩
  | kept hp ho => exact .inr ⟨_, hp, ho⟩
  | @halt handle halt hp =>
      rw [Job.Expects, hp] at hwaits
      exact absurd (halt.exists_expects handle) hwaits
  | finished hp => exact .inl hp

/-- A start job that has not come to its end waits for a service. -/
theorem start_cases (h : Stuck now c) (hlink : c.Linked) (hproper : AllProper c) {id : Nat}
    {job : StartJob t.size} (hj : c.jobs[id]? = some (.start job)) :
    job.phase = .finished ∨
    (job.phase = .following ∧ ¬ (c.slot job.service).progress.settled) ∨
    ∃ d ∈ t.dependencies job.service, ¬ (c.slot d).progress.settled := by
  have hwaits := h.waits hj
  cases startBlock_of_stuck hj (h.own (.run id) trivial) (h.own (.heed id) trivial) with
  | following hp _ hs => exact .inr (.inl ⟨hp, hs⟩)
  | dependency hp _ hs =>
      exact .inr (.inr ⟨_, (hproper id _ hj).2.1 _ hp List.mem_cons_self, hs⟩)
  | @store volumes hp =>
      refine absurd (.inr (.inl ?_)) hwaits
      have hne : volumes ≠ [] := fun he => (hproper id _ hj).2.2 (he ▸ hp)
      simpa [Job.errand?, hp, StartPhase.toBind] using hne
  | launch hp _ hl =>
      obtain ⟨l, hlaunch, -, -, hopen⟩ := hlink.launch hj (by rw [hp]; rfl)
      rcases h.launch_finished hlaunch with hf | ⟨result, hr, -⟩
      · rw [hf] at hopen
        exact hopen.elim
      · simp [takeLaunch?, hlaunch, hr] at hl
  | @halt handle halt hp =>
      refine absurd (.inl ?_) hwaits
      rw [Job.Expects, hp]
      exact halt.exists_expects handle
  | pause hp =>
      refine absurd (.inr (.inr ?_)) hwaits
      simp [Job.deadline?, hp]
  | @probe handle attempt hp =>
      refine absurd (.inl ⟨.probe handle, ?_⟩) hwaits
      rw [Job.Expects, hp]
      exact rfl
  | finished hp => exact .inl hp

/-- Every start job has come to its end. -/
theorem starts_finished (h : Stuck now c) (ht : t.Built) (hlink : c.Linked) (hproper : AllProper c)
    (hcounts : Counts c) {id : Nat} {job : StartJob t.size} (hj : c.jobs[id]? = some (.start job)) :
    job.phase = .finished :=
  starts_finished_of_waits ht hproper hcounts (h.start_cases hlink hproper) hj

/-- **Every job has come to its end**: a stop job waits for stop jobs with smaller numbers at most. -/
theorem jobs_finished (h : Stuck now c) (ht : t.Built) (hlink : c.Linked) (hproper : AllProper c)
    (hcounts : Counts c) {id : Nat} (hlt : id < c.jobs.size) : c.isFinished id := by
  induction id using Nat.strong_induction_on with
  | _ id ih =>
    obtain ⟨job, hj⟩ : ∃ job, c.jobs[id]? = some job := ⟨_, Array.getElem?_eq_getElem hlt⟩
    have hwaits := h.waits hj
    have hfinished : job.isFinished := by
      cases job with
      | start job =>
          obtain ⟨service, run, claimed, phase⟩ := job
          obtain rfl : phase = .finished := h.starts_finished ht hlink hproper hcounts hj
          rfl
      | stop job =>
          cases stopBlock_of_stuck hj (h.own (.run id) trivial) with
          | @job other rest hp hf =>
              have hother := (hproper id _ hj).1 _ hp other List.mem_cons_self
              exact absurd (ih other hother (Nat.lt_trans hother hlt)) hf
          | @halt handle halt hp =>
              refine absurd (.inl ?_) hwaits
              rw [Job.Expects, hp]
              exact halt.exists_expects handle
          | @store volumes hp =>
              refine absurd (.inr (.inl ?_)) hwaits
              have hne : volumes ≠ [] := fun he => (hproper id _ hj).2 (he ▸ hp)
              simpa [Job.errand?, hp, StopPhase.toUnbind] using hne
          | finished hp =>
              obtain ⟨service, phase⟩ := job
              obtain rfl : phase = .finished := hp
              rfl
      | launch l =>
          rcases h.launch_finished hj with hf | ⟨result, hr, ho⟩
          · obtain ⟨service, orphaned, phase⟩ := l
            obtain rfl : phase = .finished := hf
            rfl
          · -- It was not given up, so a start job waits for it, and these are all at their ends.
            obtain ⟨waiter, job, hw, hl⟩ := hlink.waited hj ho (by rw [hr]; simp)
            rw [h.starts_finished ht hlink hproper hcounts hw] at hl
            cases hl
    rw [isFinished, hj]
    exact hfinished

/-- **Every call has answered**: it waits for jobs, or for a call of a smaller height. -/
theorem calls_answered (h : Stuck now c) (hjobs : ∀ id < c.jobs.size, c.isFinished id)
    (hfound : AllFound c) {k : Nat} {call : Call t.size} (hk : c.calls[k]? = some call) :
    ∃ answer time, call.phase = .answered answer time := by
  induction hh : call.operation.height using Nat.strong_induction_on generalizing k call with
  | _ height ih =>
    have hfinds := hfound k call hk
    have hstuck : c.proceed now k call = none := by
      have := h.own (.proceed k) trivial
      simpa [step, hk] using this
    cases hp : call.phase with
    | answered answer time => exact ⟨answer, time, rfl⟩
    | following other sequel =>
        rw [hp] at hfinds
        obtain ⟨call', hk', hlt⟩ := hfinds.1
        obtain ⟨answer, time, hp'⟩ := ih _ (hh ▸ hlt) hk' rfl
        have hanswer : c.answer? other = some (answer, time) := by
          simp [answer?, hk', Call.answer?, hp']
        simp [proceed, hp, hanswer] at hstuck
    | joining =>
        rw [hp] at hfinds
        have hall : call.jobs.all c.isFinished := by
          rw [List.all_eq_true]
          exact fun id hid => hjobs id (hfinds id hid)
        simp [proceed, hp, hall] at hstuck
    | stopping s job =>
        rw [hp] at hfinds
        simp [proceed, hp, hjobs job hfinds] at hstuck
    | starting s job =>
        rw [hp] at hfinds
        simp [proceed, hp, hjobs job hfinds] at hstuck
    | reporting services taken => cases services <;> simp [proceed, hp] at hstuck
    | sweeping services => cases services <;> simp [proceed, hp] at hstuck
    | checking s =>
        simp only [proceed, hp] at hstuck
        split at hstuck <;> cases hstuck
    | reading s => simp [proceed, hp] at hstuck
    | beginning => simp [proceed, hp] at hstuck

end Stuck

/-- **Nobody waits for ever**: where no job and no call can take a step and no job waits for something
outside, all jobs are at their ends and all calls have answered. -/
theorem Run.no_deadlock {config : Config} {past : List (Moment t)} (ht : t.Built)
    (run : Run (fresh t config) past c) (h : Stuck now c) :
    (∀ id < c.jobs.size, c.isFinished id) ∧ ∀ {k : Nat} {call : Call t.size},
      c.calls[k]? = some call → ∃ answer time, call.phase = .answered answer time := by
  have hjobs (id : Nat) (hlt : id < c.jobs.size) : c.isFinished id :=
    h.jobs_finished ht run.linked (run.proper ht) run.counts hlt
  exact ⟨hjobs, fun hk => h.calls_answered hjobs run.allFound hk⟩

end Controller

end Bringup.Lifecycle
