import Bringup.Proofs.Lifecycle.Settling
import Bringup.Proofs.Simulation.Lull

/-!
# Starts in step

All services are started, as often and whenever somebody likes, and nobody cancels. Every service stays in
step with the pace that the first start sets (`InStep`): the first of its start jobs that gets there moves
it to starting on time, and the jobs of later starts follow it, or find the same thing out. What a job has
found out has come to pass by then (`Abreast`), so a job that goes on is never too early, and as long as
nothing happens by itself none is late (`InStep.until_leave`).
-/

namespace Bringup

namespace Lifecycle

/-- Attempts are counted from one, and no pause comes before the first. -/
def StartPhase.Counted {n : Nat} : StartPhase n → Prop
  | .pausing _ attempt _ => 1 < attempt.toNat
  | .asking _ attempt | .probing _ attempt => 0 < attempt.toNat
  | _ => True

theorem StartTurn.counted {t : Topology} {c : Controller t} {now : Nat} {id : JobId}
    {job job' : StartJob t.size} {action : Action} {slot : Slot} {aside : Aside} {effects : List Effect}
    (turn : StartTurn c now id job action job' slot aside effects) (h : job.phase.Counted) :
    job'.phase.Counted := by
  have hawait (left : List (Fin t.size)) : (job.await left).phase.Counted := by
    rw [StartJob.phase_await]
    split <;> trivial
  cases turn with
  | arrive | accept => exact hawait _
  | record => exact Nat.one_pos
  | ask hp =>
      rw [hp] at h
      exact h
  | wake hp =>
      rw [hp] at h
      exact Nat.lt_of_succ_lt h
  | @retry handle attempt probe hp hr =>
      rw [hp] at h
      show (c.retryPhase now job.service handle attempt).Counted
      rcases c.retryPhase_cases now job.service handle attempt with ⟨hlt, deadline, he⟩ | ⟨-, he⟩
      · rw [he]
        show 1 < (attempt + 1).toNat
        rw [Prospect.toNat_succ hlt]
        exact Nat.succ_lt_succ h
      · rw [he]
        trivial
  | _ => trivial

end Lifecycle

namespace Simulation

open Lifecycle
open Lifecycle.Controller (Foretold)

variable {t : Topology}

namespace Setting

section

variable (start : Scene t) (x : Setting Engine.Scripted.engine t) (s : Fin t.size)

/-- What a start job of the service has found out has come to pass by now, and a job that owns the service
is on time. -/
def Abreast : StartPhase t.size → Prop
  | .arriving | .following | .finished => True
  | .awaiting left => ∃ seen, t.dependencies s = seen ++ left ∧
    ∀ d ∈ seen, start.pace.leave d ≤ x.now
  | .refusing _ => start.pace.Settled x.now s
  | .entering => ∀ d ∈ t.dependencies s, start.pace.leave d ≤ x.now
  | phase => x.Timely start s phase

end

variable {start : Scene t} {x y : Setting Engine.Scripted.engine t} {s : Fin t.size} {event : Event}
  {moments : List (Moment t)} {id : JobId} {action : Action} {slot : Slot} {aside : Aside}
  {effects : List Effect} {phase : StartPhase t.size}

theorem abreast_iff_of_owns (ho : phase.Owns) :
    x.Abreast start s phase ↔ x.Timely start s phase := by
  cases phase <;> first | exact Iff.rfl | exact ho.elim

/-- A job that does not own its service stays abreast of the clock. -/
theorem Abreast.later (h : x.Abreast start s phase) (ho : ¬ phase.Owns) (hnow : x.now ≤ y.now) :
    y.Abreast start s phase := by
  cases phase with
  | arriving | following | finished => trivial
  | awaiting =>
      obtain ⟨seen, he, hseen⟩ := h
      exact ⟨seen, he, fun d hd => Nat.le_trans (hseen d hd) hnow⟩
  | refusing => exact Pace.Settled.mono h hnow
  | entering => exact fun d hd => Nat.le_trans (h d hd) hnow
  | discarding => exact h.elim
  | _ => exact absurd trivial ho

/-- All services have been started, perhaps more than once, and are in step with the pace. -/
structure InStep (start : Scene t) (x : Setting Engine.Scripted.engine t) : Prop where
  called : start.pace.called ≤ x.now
  config : x.controller.config = start.controller.config
  all : ∀ s, ∃ (id : Nat) (job : StartJob t.size),
    x.controller.jobs[id]? = some (.start job) ∧ job.service = s
  abreast : ∀ {id : Nat} {job : StartJob t.size}, x.controller.jobs[id]? = some (.start job) →
    x.Abreast start job.service job.phase
  counted : ∀ {id : Nat} {job : StartJob t.size}, x.controller.jobs[id]? = some (.start job) →
    job.phase.Counted
  pending : ∀ s, (x.controller.slot s).state = .pending → x.Shows start s [] [] ∧
    (start.pace.blocker? s = none → x.now ≤ start.pace.enter s) ∧
    ((x.controller.slot s).lastError ≠ none → start.pace.Settled x.now s)
  left : ∀ s, (x.controller.slot s).state ≠ .pending → (x.controller.slot s).state ≠ .starting →
    start.pace.leave s ≤ x.now ∧ x.Shows start s (start.pace.history s) (callsOf start.pace s)
  due : ∀ entry ∈ x.ongoing, ∃ job, x.controller.jobs[entry.job]? = some job ∧
    Due start x.now entry.due job

/-- What is tied to the prospect and in step follows the pace. -/
theorem InStep.follows (h : InStep start x) (htied : Tied start x.scene)
    (hcourse : ∀ s, Course .pending (x.controller.slot s).transitions (x.controller.slot s).state) :
    x.Follows start where
  foretold := htied.told.foretold
  linked := htied.told.linked
  scripts := htied.scripts
  course := hcourse
  config := h.config
  called := h.called
  ready d hd := (h.left d (by simp [hd]) (by simp [hd])).1

/-! ## Turns -/

/-- New start jobs, and whatever engine and store do while the engine has no new calls, leave everything in
step. -/
theorem InStep.extend (h : InStep start x) (hnow : y.now = x.now)
    (hconfig : y.controller.config = x.controller.config)
    (hold : ∀ {id : Nat} {job : Job t.size}, x.controller.jobs[id]? = some job →
      y.controller.jobs[id]? = some job)
    (hnew : ∀ {id : Nat} {job : StartJob t.size}, y.controller.jobs[id]? = some (.start job) →
      x.controller.jobs[id]? = some (.start job) ∨ job.phase = .arriving)
    (hsight : ∀ s, (y.controller.slot s).sight = (x.controller.slot s).sight)
    (hmoves : ∀ s, (y.controller.slot s).transitions = (x.controller.slot s).transitions)
    (hcalls : ∀ s, y.engine.callsFor (t.id s) = x.engine.callsFor (t.id s))
    (ho : ∀ entry ∈ y.ongoing, entry ∈ x.ongoing) : InStep start y where
  called := hnow ▸ h.called
  config := hconfig.trans h.config
  all s := by
    obtain ⟨id, job, hj, hs⟩ := h.all s
    exact ⟨id, job, hold hj, hs⟩
  abreast {id job} hj := by
    rcases hnew hj with hj | hp
    · by_cases howns : job.phase.Owns
      · rw [abreast_iff_of_owns howns]
        have htimely := (abreast_iff_of_owns howns).1 (h.abreast hj)
        have hcongr (hlaunch : ∀ launch, job.phase.launch? = some launch →
            y.controller.jobs[launch]? = x.controller.jobs[launch]?) :
            y.Timely start job.service job.phase :=
          htimely.congr hnow (hmoves _) (hcalls _) hlaunch
        cases hp : job.phase with
        | launching launch =>
            -- The launch that the job waits for is there still.
            rw [hp] at htimely hcongr
            obtain ⟨l, hl, -⟩ := htimely
            refine hcongr fun launch' he => ?_
            obtain rfl := Option.some.inj he
            exact (hold hl).trans hl.symm
        | concluding verdict =>
            rw [hp] at htimely
            exact ⟨hnow.trans htimely.1, htimely.2.congr (hmoves _) (hcalls _)⟩
        | _ => exact hp ▸ hcongr fun launch he => by rw [hp] at he; cases he
      · exact (h.abreast hj).later howns (Nat.le_of_eq hnow.symm)
    · rw [hp]
      trivial
  counted {id job} hj := by
    rcases hnew hj with hj | hp
    · exact h.counted hj
    · rw [hp]
      trivial
  pending s hs := by
    have hstate : (x.controller.slot s).state = .pending :=
      (congrArg Prod.fst (hsight s)).symm.trans hs
    have herror : (y.controller.slot s).lastError = (x.controller.slot s).lastError :=
      congrArg Prod.snd (hsight s)
    obtain ⟨hshows, hpace, hsettled⟩ := h.pending s hstate
    rw [hnow, herror]
    exact ⟨hshows.congr (hmoves s) (hcalls s), hpace, hsettled⟩
  left s hp hs := by
    have hstate : (y.controller.slot s).state = (x.controller.slot s).state :=
      congrArg Prod.fst (hsight s)
    obtain ⟨hle, hshows⟩ := h.left s (hstate ▸ hp) (hstate ▸ hs)
    exact ⟨hnow ▸ hle, hshows.congr (hmoves s) (hcalls s)⟩
  due entry hm := by
    obtain ⟨job, hj, hdue⟩ := h.due entry (ho entry hm)
    exact ⟨job, hold hj, hnow ▸ hdue⟩

/-- Engine and store change as they like while the engine has no new calls. -/
theorem InStep.meanwhile (h : InStep start x) (hc : y.controller = x.controller) (hnow : y.now = x.now)
    (hcalls : ∀ s, y.engine.callsFor (t.id s) = x.engine.callsFor (t.id s))
    (ho : ∀ entry ∈ y.ongoing, entry ∈ x.ongoing) : InStep start y :=
  h.extend hnow (by rw [hc]) (fun hj => by rwa [hc]) (fun hj => .inl (by rwa [← hc]))
    (fun s => by rw [hc]) (fun s => by rw [hc]) hcalls ho

section

variable {old new : Job t.size} (h : InStep start x) (hf : x.Follows start)

include h

/-- The services for which nothing is done stay in step. -/
theorem InStep.frame (hlink : x.controller.Linked) (hj : x.controller.jobs[id]? = some old)
    (turn : Turn x.controller x.now id old action new slot aside effects)
    (hy : y = x.after (x.controller.after id new old.service slot aside) effects)
    (hcalls : ∀ s, s ≠ old.service → y.engine.callsFor (t.id s) = x.engine.callsFor (t.id s))
    (hdue : ∀ entry ∈ y.ongoing, entry ∈ x.ongoing ∨
      entry.job = id ∧ Due start x.now entry.due new)
    (hself : ∀ {i : Nat} {job : StartJob t.size}, y.controller.jobs[i]? = some (.start job) →
      job.service = old.service → y.Abreast start job.service job.phase)
    (hpending : slot.state = .pending → y.Shows start old.service [] [] ∧
      (start.pace.blocker? old.service = none → x.now ≤ start.pace.enter old.service) ∧
      (slot.lastError ≠ none → start.pace.Settled x.now old.service))
    (hleft : slot.state ≠ .pending → slot.state ≠ .starting →
      start.pace.leave old.service ≤ x.now ∧
      y.Shows start old.service (start.pace.history old.service) (callsOf start.pace old.service)) :
    InStep start y := by
  have hc : y.controller = x.controller.after id new old.service slot aside := by
    rw [hy, controller_after]
  have hnow : y.now = x.now := by rw [hy, now_after]
  have hid := Controller.lt_size_of_job hj
  have hslot {s : Fin t.size} (hs : s ≠ old.service) :
      y.controller.slot s = x.controller.slot s := by
    rw [hc, Controller.slot_after_of_ne hs]
  have hown : y.controller.slot old.service = slot := by rw [hc, Controller.slot_after_self]
  constructor
  case called => exact hnow ▸ h.called
  case config =>
    rw [hc, Controller.config_after]
    exact h.config
  case all =>
    intro s
    rw [hc]
    exact start_kept hj turn (h.all s)
  case abreast =>
    intro i job hi
    by_cases hs : job.service = old.service
    · exact hself hi hs
    · rw [hc] at hi
      rcases Controller.start_after_cases hid hi with ⟨-, rfl⟩ | ⟨hne, hi⟩
      · exact absurd turn.service_eq hs
      · have hcalls := hcalls _ hs
        by_cases howns : job.phase.Owns
        · subst hy
          rw [abreast_iff_of_owns howns]
          exact ((abreast_iff_of_owns howns).1 (h.abreast hi)).elsewhere hj turn hlink hi hne hs hcalls
        · exact (h.abreast hi).later howns (Nat.le_of_eq hnow.symm)
  case counted =>
    intro i job hi
    rw [hc] at hi
    rcases Controller.start_after_cases hid hi with ⟨-, rfl⟩ | ⟨-, hi⟩
    · cases turn with
      | start turn => exact turn.counted (h.counted hj)
    · exact h.counted hi
  case pending =>
    intro s hs
    rw [hnow]
    by_cases he : s = old.service
    · subst he
      rw [hown] at hs ⊢
      exact hpending hs
    · rw [hslot he] at hs ⊢
      obtain ⟨hshows, hpace⟩ := h.pending s hs
      exact ⟨hshows.congr (by rw [hslot he]) (hcalls s he), hpace⟩
  case left =>
    intro s hp hs
    rw [hnow]
    by_cases he : s = old.service
    · subst he
      rw [hown] at hp hs
      exact hleft hp hs
    · rw [hslot he] at hp hs
      obtain ⟨hle, hshows⟩ := h.left s hp hs
      exact ⟨hle, hshows.congr (by rw [hslot he]) (hcalls s he)⟩
  case due =>
    intro entry hm
    rw [hc, hnow]
    exact due_turn hj turn h.due (hdue entry hm)

variable {job job' : StartJob t.size} (hj : x.controller.jobs[id]? = some (.start job))

include hf hj

/-- A turn that only finds something out leaves everything in step. -/
theorem InStep.quiet_turn
    (turn : StartTurn x.controller x.now id job action job' slot .nothing [])
    (ho : ¬ job'.phase.Owns) (hself : x.Abreast start job.service job'.phase)
    (htransitions : slot.transitions = (x.controller.slot job.service).transitions)
    (hstate : slot.state = (x.controller.slot job.service).state)
    (herror : slot.lastError = (x.controller.slot job.service).lastError ∨
      start.pace.Settled x.now job.service) :
    InStep start (x.after (x.controller.after id (.start job') job.service slot .nothing) []) := by
  have hshows {moves : List Transition} {calls : List Engine.Scripted.Entry}
      (hs : x.Shows start job.service moves calls) :
      (x.after (x.controller.after id (.start job') job.service slot .nothing) []).Shows start
        job.service moves calls := hs.turned (htransitions.trans hs.moves)
  refine h.frame hf.linked hj (.start turn) rfl (fun s _ => rfl) (fun entry hm => .inl hm)
    (fun {i job''} hi hs => ?_) (fun hp => ?_) fun hp hs => ?_
  · rw [controller_after] at hi
    have hnow : x.now ≤ (x.after (x.controller.after id (.start job') job.service slot .nothing)
      []).now := Nat.le_of_eq (now_after _ _).symm
    rcases Controller.start_after_cases (Controller.lt_size_of_job hj) hi with ⟨-, he⟩ | ⟨hne, hi'⟩
    · obtain rfl := Job.start.inj he
      rw [hs]
      exact hself.later ho hnow
    · by_cases howns : job''.phase.Owns
      · rw [abreast_iff_of_owns howns]
        refine ((abreast_iff_of_owns howns).1 (h.abreast hi')).congr (now_after _ _) ?_ rfl
          fun launch hw => ?_
        · have hs : job''.service = job.service := hs
          rw [controller_after, hs, Controller.slot_after_self, htransitions]
        · obtain ⟨l, hl, -⟩ := hf.linked.launch hi' hw
          have hli : launch ≠ id := by
            rintro rfl
            cases hj.symm.trans hl
          rw [controller_after,
            Controller.jobs_after_of_ne hli (Controller.lt_size_of_job hl) (by simp) (by simp)]
      · exact (h.abreast hi').later howns hnow
  · obtain ⟨hpend, hpace, hsettled⟩ := h.pending job.service (hstate ▸ hp)
    exact ⟨hshows hpend, hpace, fun he => herror.elim (fun hl => hsettled (hl ▸ he)) fun hs => hs⟩
  · obtain ⟨hle, hshown⟩ := h.left job.service (hstate ▸ hp) (hstate ▸ hs)
    exact ⟨hle, hshows hshown⟩

variable (ht : t.Built) (hprobes : ∀ s, (start.engine.script (t.id s)).probeDelay = 0)

include ht hprobes

/-- The turn of a job that owns its service, or comes to own it, leaves everything in step. -/
theorem InStep.active_turn (turn : StartTurn x.controller x.now id job action job' slot aside effects)
    (hnew : (x.after (x.controller.after id (.start job') job.service slot aside) effects).Timely start
      job.service job'.phase)
    (halone : ∀ {i : Nat} {other : StartJob t.size}, x.controller.jobs[i]? = some (.start other) →
      other.service = job.service → i ≠ id → ¬ other.phase.Owns)
    (hslot : (slot.state = .starting ∧ job'.phase.Owns) ∨
      (slot.state ≠ .pending ∧ start.pace.blocker? job.service = none ∧ job'.phase = .finished)) :
    InStep start
      (x.after (x.controller.after id (.start job') job.service slot aside) effects) := by
  obtain ⟨hcalls, hdue⟩ := hf.told_engine ht hprobes hj turn
    (x.controller.after id (.start job') job.service slot aside)
  refine h.frame hf.linked hj (.start turn) rfl hcalls hdue (fun {i job''} hi hs => ?_)
    (fun hp => ?_) fun hp hst => ?_
  · rw [controller_after] at hi
    rcases Controller.start_after_cases (Controller.lt_size_of_job hj) hi with ⟨-, he⟩ | ⟨hne, hi'⟩
    · obtain rfl := Job.start.inj he
      rw [hs]
      rcases hslot with ⟨-, ho⟩ | ⟨-, -, hp⟩
      · exact (abreast_iff_of_owns ho).2 hnew
      · rw [hp]
        trivial
    · exact (h.abreast hi').later (halone hi' hs hne) (Nat.le_of_eq (now_after _ _).symm)
  · rcases hslot with ⟨hst, -⟩ | ⟨hn, -⟩
    · rw [hp] at hst
      cases hst
    · exact absurd hp hn
  · rcases hslot with ⟨hst', -⟩ | ⟨-, hb, hp'⟩
    · exact absurd hst' hst
    · rw [hp'] at hnew
      exact ⟨(now_after _ _) ▸ hnew.1 hb, hnew.2⟩

/-- The turn of a job that owns its service leaves everything in step. -/
theorem InStep.owner_turn (turn : StartTurn x.controller x.now id job action job' slot aside effects)
    (hfair : action.Fair start.pace.toProspect x.controller) (ho : job.phase.Owns) :
    InStep start
      (x.after (x.controller.after id (.start job') job.service slot aside) effects) := by
  have hstate := hf.foretold.owner hj ho
  have hb := hf.unblocked hj ho
  refine h.active_turn hf hj ht hprobes turn
    (hf.start_turn ht hj turn hfair ((abreast_iff_of_owns ho).1 (h.abreast hj)))
    (fun hi hs hne ho' => hne (hf.foretold.sole hi hj hs ho' ho)) ?_
  cases hf.foretold.course hj turn with
  | stays he hiff => exact .inl ⟨(congrArg Prod.fst he).trans hstate, hiff.2 ho⟩
  | enters hp => exact absurd (hstate.symm.trans hp) (by simp)
  | ends he hfin =>
      refine .inr ⟨?_, hb, hfin⟩
      rw [show slot.state = _ from congrArg Prod.fst he]
      exact Prospect.outcome_ne_pending hb

omit hprobes in
/-- A dependency that is settled and not ready has settled the service. -/
theorem InStep.settled_of_declined {d : Fin t.size} {rest : List (Fin t.size)}
    (hp : job.phase = .awaiting (d :: rest)) (hd : (x.controller.slot d).state ≠ .ready)
    (hn : (x.controller.slot d).claims = 0) : start.pace.Settled x.now job.service := by
  have habreast := h.abreast hj
  have hb := hf.foretold.backs hj
  rw [hp] at habreast hb
  obtain ⟨seen, he, hleft⟩ := habreast
  obtain ⟨seen', he', hready⟩ := hb
  obtain rfl : seen = seen' := List.append_cancel_right (he.symm.trans he')
  have houtcome := hf.foretold.settled hj hn
  refine .refused he (fun d hm => ⟨hready d hm, hleft d hm⟩)
    (mt (Prospect.shown_ready ht houtcome).2 hd) ?_
  have hstarting : (x.controller.slot d).state ≠ .starting := fun hs =>
    Prospect.outcome_ne_starting d ((congrArg Prod.fst houtcome).trans hs)
  by_cases hpend : (x.controller.slot d).state = .pending
  · refine (h.pending d hpend).2.2 fun hnone => ?_
    have hsome := start.pace.outcome_state d
    rw [houtcome, show (x.controller.slot d).sight.1 = .pending from hpend] at hsome
    obtain ⟨-, hblocked⟩ := hsome.resolve_left (by simp) |>.resolve_left (by simp)
    obtain ⟨d', hd'⟩ := Option.ne_none_iff_exists'.1 hblocked
    rw [Prospect.outcome_of_blocker hd'] at houtcome
    cases (congrArg Prod.snd houtcome).trans hnone
  · refine .left ?_ (h.left d hpend hstarting).1
    by_contra hblocked
    obtain ⟨d', hd'⟩ := Option.ne_none_iff_exists'.1 hblocked
    rw [Prospect.outcome_of_blocker hd'] at houtcome
    exact hpend (congrArg Prod.fst houtcome).symm

/-- **The turn of a start job** leaves everything in step. -/
theorem InStep.start_turn (turn : StartTurn x.controller x.now id job action job' slot aside effects)
    (hfair : action.Fair start.pace.toProspect x.controller) : InStep start
      (x.after (x.controller.after id (.start job') job.service slot aside) effects) := by
  by_cases ho : job.phase.Owns
  · exact h.owner_turn hf hj ht hprobes turn hfair ho
  have habreast := h.abreast hj
  have hawait {left : List (Fin t.size)} (hleft : ∃ seen, t.dependencies job.service = seen ++ left ∧
      ∀ d ∈ seen, start.pace.leave d ≤ x.now) :
      ¬ (job.await left).phase.Owns ∧ x.Abreast start job.service (job.await left).phase := by
    rw [StartJob.phase_await]
    split
    next hnil =>
      obtain ⟨seen, he, hseen⟩ := hleft
      rw [hnil, List.append_nil] at he
      exact ⟨not_false, fun d hd => hseen d (he ▸ hd)⟩
    next => exact ⟨not_false, hleft⟩
  -- A job that enters finds its service pending, and it is on time.
  have henters (hp : job.phase = .entering)
      (hs : (x.controller.slot job.service).state.isStartable) (ho' : job'.phase.Owns)
      (hst : slot.state = .starting) : InStep start
        (x.after (x.controller.after id (.start job') job.service slot aside) effects) := by
    have hpend := (hf.foretold.slot job.service).pending hs
    obtain ⟨hshows, hpace, -⟩ := h.pending job.service hpend
    have hb := hf.foretold.backs hj
    rw [hp] at hb habreast
    have htimely : x.Timely start job.service job.phase := by
      rw [hp]
      exact ⟨Nat.le_antisymm (hpace hb) (Pace.latest_le h.called habreast), hshows⟩
    refine h.active_turn hf hj ht hprobes turn (hf.start_turn ht hj turn hfair htimely)
      (fun hi he _ howns => ?_) (.inl ⟨hst, ho'⟩)
    have hstate := hf.foretold.owner hi howns
    rw [he, hpend] at hstate
    cases hstate
  have hquiet (turn : StartTurn x.controller x.now id job action job' slot .nothing []) :=
    h.quiet_turn hf hj turn
  cases turn with
  | arrive hp hs =>
      obtain ⟨ho', hself⟩ := hawait ⟨[], rfl, by simp⟩
      exact hquiet (.arrive hp hs) ho' hself rfl rfl (.inl rfl)
  | follow hp hs => exact hquiet (.follow hp hs) not_false trivial (by simp) (by simp) (.inl (by simp))
  | cease hp hs => exact hquiet (.cease hp hs) not_false trivial (by simp) (by simp) (.inl (by simp))
  | pass hp =>
      rw [hp] at habreast
      obtain ⟨seen, he, hseen⟩ := habreast
      rw [List.append_nil] at he
      exact hquiet (.pass hp) not_false (fun d hd => hseen d (he ▸ hd)) rfl rfl (.inl rfl)
  | @accept d rest hp hc hd =>
      rw [hp] at habreast
      obtain ⟨seen, he, hseen⟩ := habreast
      have hleft : ∀ d' ∈ seen ++ [d], start.pace.leave d' ≤ x.now := by
        intro d' hm
        rcases List.mem_append.1 hm with hm | hm
        · exact hseen d' hm
        · exact List.mem_singleton.1 hm ▸ hf.ready d ((hf.foretold.published d).symm.trans hd)
      have he : t.dependencies job.service = (seen ++ [d]) ++ rest := by simp [he]
      obtain ⟨ho', hself⟩ := hawait ⟨_, he, hleft⟩
      exact hquiet (.accept hp hc hd) ho' hself rfl rfl (.inl rfl)
  | decline hp hc hd hn =>
      exact hquiet (.decline hp hc hd hn) not_false
        (h.settled_of_declined hf hj ht hp (hf.foretold.published _ ▸ hd) hn) rfl rfl (.inl rfl)
  | refuse hp =>
      rw [hp] at habreast
      exact hquiet (.refuse hp) not_false trivial (by simp) (by simp) (.inr habreast)
  | enter hp hc hs hv => exact henters hp hs trivial rfl
  | enterBare hp hc hs hv => exact henters hp hs trivial rfl
  | giveUp hp hc | forgo hp hc =>
      rw [hf.foretold.isCancelled] at hc
      cases hc
  | heed hp =>
      rcases hp with ⟨_, _, _, hp⟩ | ⟨_, _, hp⟩ <;> rw [hp] at ho <;> exact absurd trivial ho
  | abandon hp | collect hp | lose hp | record hp | discard hp | ask hp | conclude hp | heedProbe hp
  | wake hp | bind hp | bindLast hp | miss hp | ready hp | retry hp =>
      rw [hp] at ho
      exact absurd trivial ho
  | overrun hp | discarded hp | kill hp =>
      rw [hp] at habreast
      exact habreast.elim

omit hj hprobes in
/-- **The turn of a launch** leaves everything in step. -/
theorem InStep.launch_turn {l : Launch t.size} {phase : LaunchPhase}
    (hj : x.controller.jobs[id]? = some (.launch l))
    (turn : LaunchTurn x.controller x.now id l action phase effects)
    (hreturn : ∀ result, action = .answer id (.container (.start result)) →
      start.pace.probed l.service 0 ≤ x.now) :
    InStep start (x.after (x.controller.after id (.launch { l with phase }) l.service
      (x.controller.slot l.service) .nothing) effects) := by
  have hopen : l.phase ≠ .finished := fun hp =>
    (Turn.launch turn).not_isFinished (Job.isFinished_launch.2 hp)
  obtain ⟨i, job, hi, hs, hp⟩ := hf.waited hj hopen
  have ho : job.phase.Owns := by
    rw [hp]
    trivial
  have htimely := LaunchTimely.of_waited hj hs hp ((abreast_iff_of_owns ho).1 (h.abreast hi))
  obtain ⟨hcalls, hdue⟩ := LaunchTurn.told_engine hf ht hj turn htimely
    (x.controller.after id (.launch { l with phase }) l.service (x.controller.slot l.service) .nothing)
  have hstate : (x.controller.slot l.service).state = .starting := hs ▸ hf.foretold.owner hi ho
  refine h.frame hf.linked hj (.launch turn) rfl hcalls hdue (fun {i' job'} hi' hs' => ?_)
    (fun hpend => ?_) fun _ hst => absurd hstate hst
  · rw [controller_after] at hi'
    have hi' := Controller.start_of_after (Controller.lt_size_of_job hj) (by simp) hi'
    by_cases ho' : job'.phase.Owns
    · -- The start job that owns the service is the one that waits for the launch.
      obtain rfl := hf.foretold.sole hi hi' (hs.trans hs'.symm) ho ho'
      obtain rfl := Job.start.inj (Option.some.inj (hi.symm.trans hi'))
      rw [abreast_iff_of_owns ho, hp, hs]
      refine ⟨{ l with phase }, ?_, hf.launch_turn hj turn hreturn htimely⟩
      rw [controller_after]
      exact Controller.jobs_after_self (Controller.lt_size_of_job hj)
    · exact (h.abreast hi').later ho' (Nat.le_of_eq (now_after _ _).symm)
  · rw [hstate] at hpend
    cases hpend

omit hj in
/-- **The turn of a job** leaves everything in step. -/
theorem InStep.turn {c : Controller t} (ha : action.job? = some id)
    (hs : x.controller.step x.now action = some (c, effects))
    (hfair : action.Fair start.pace.toProspect x.controller)
    (hreturn : ∀ (l : Launch t.size) (result : Except Container.Error Container.Handle),
      action = .answer id (.container (.start result)) → x.controller.jobs[id]? = some (.launch l) →
        start.pace.probed l.service 0 ≤ x.now) : InStep start (x.after c effects) := by
  obtain ⟨old, new, slot, aside, hj, turn, rfl⟩ := Controller.turnsTo_of_step ha hs
  cases turn with
  | start turn => exact h.start_turn hf hj ht hprobes turn hfair
  | stop => exact absurd hj (hf.foretold.stop _ _)
  | @launch l phase _ _ turn => exact h.launch_turn hf ht hj turn fun result he => hreturn l result he hj

end

/-! ## What happens by itself -/

/-- **What happens by itself** leaves everything in step. -/
theorem InStep.moves (h : InStep start x) (ht : t.Built)
    (hprobes : ∀ s, (start.engine.script (t.id s)).probeDelay = 0) (htied : Tied start x.scene)
    (hcourse : ∀ s, Course .pending (x.controller.slot s).transitions (x.controller.slot s).state)
    (hcalls : x.controller.calls = #[]) (halarms : x.alarms = []) (hm : Moves x event moments y)
    (hi : event.Inner) : InStep start y := by
  have hf := h.follows htied hcourse
  cases hm with
  | @act action c effects hs ha =>
      cases haction : action.job? with
      | some id =>
          refine h.turn hf ht hprobes haction hs ?_ fun l result he => absurd he (ha _ _)
          cases action with
          | invoke => exact hi.elim
          | answer job reply => exact absurd rfl (ha job reply)
          | _ => trivial
      | none =>
          cases action with
          | proceed k => simp [Controller.step, hcalls] at hs
          | invoke | interrupt => exact hi.elim
          | run | heed | timeout | answer => cases haction
  | ring hm =>
      rw [halarms] at hm
      cases hm
  | @reply job call engine reply c effects hm hd he hs =>
      obtain ⟨rfl, hreply⟩ := Prod.mk.inj he
      obtain rfl := Engine.Next.answer.inj hreply
      obtain rfl : call.job = job := by simpa using List.find?_some hm
      have hmem := List.mem_of_find?_eq_some hm
      have hin : InStep start { x with
          engine := (x.engine.finish call.work).1
          ongoing := x.others call.job } :=
        h.meanwhile rfl rfl (fun _ => Engine.Scripted.State.callsFor_finish call.work)
          fun entry he => (List.mem_filter.1 he).1
      refine hin.turn (hf.finish call.work _) ht hprobes rfl hs ?_ fun l result he hl => ?_
      · intro job hj
        obtain ⟨job', hj', -, htakes⟩ := htied.awaited.working call hmem
        obtain rfl := Option.some.inj (hj.symm.trans hj')
        exact htakes _ htied.scripts.kept
      · -- The engine answers when the start is due, which is not before the pace has it.
        obtain ⟨job, hj, hdue⟩ := h.due call hmem
        obtain rfl : Job.launch l = job := Option.some.inj (hl.symm.trans hj)
        exact (hdue.1 rfl) ▸ hd
  | work hm hd he => cases (Prod.mk.inj he).2
  | serve => exact h.meanwhile rfl rfl (fun _ => rfl) fun _ hm => hm
  | @deliver place job result c effects ha hs =>
      have hin : InStep start { x with
          store := { x.store with answers := x.store.answers.eraseIdx place } } :=
        h.meanwhile rfl rfl (fun _ => rfl) fun _ hm => hm
      have hf : Follows start { x with
          store := { x.store with answers := x.store.answers.eraseIdx place } } :=
        ⟨hf.foretold, hf.linked, hf.scripts, hf.course, hf.config, hf.called, hf.ready⟩
      refine hin.turn hf ht hprobes rfl hs ?_ (by simp)
      intro job' hj
      obtain ⟨id, old, hi, hold, -, htakes⟩ :=
        htied.awaited.answering _ (List.mem_of_getElem? ha)
      obtain rfl := (Client.job.inj hi).2
      obtain rfl := Option.some.inj (hj.symm.trans hold)
      exact htakes
  | hand ha =>
      obtain ⟨id, job, hclient, -⟩ := htied.awaited.answering _ (List.mem_of_getElem? ha)
      cases hclient
  | pass => exact hi.elim

end Setting

end Simulation

end Bringup
