import Bringup.Proofs.Simulation.Begun

/-!
# What a cancel cuts off

Services are being started, nothing happens by itself, and everything is cancelled (`Poised`). At the same
instant all start jobs come to their ends, without asking anybody anything: a service that is starting is
taken out of that state, one that waits for a dependency is refused, and all others stay as they are
(`Cutting`). What is left are launches whose containers have not come back, and nobody waits for them any
more (`Stranded`).
-/

namespace Bringup

namespace Lifecycle

/-! ## Slots and jobs at the instant of a cancel -/

namespace Slot

/-- What a cancel at this instant makes of the slot of a service. -/
inductive Cut (id : ServiceId) (now : Nat) (old new : Slot) : Prop where
  | stays (hs : new.sight = old.sight) (ht : new.transitions = old.transitions)
  /-- Waits for nothing any more. -/
  | refused (hp : old.state = .pending) (he : old.lastError = none)
    (hs : new.sight = (.pending, some (.cancelled id))) (ht : new.transitions = old.transitions)
  | taken (hp : old.state = .starting) (hs : new.sight = (.stopping, some (.cancelled id)))
    (ht : new.transitions = old.transitions ++ [⟨.starting, .stopping, now⟩])

variable {id : ServiceId} {now : Nat} {old new next : Slot}

theorem Cut.congr (h : Cut id now old new) (hs : next.sight = new.sight)
    (ht : next.transitions = new.transitions) : Cut id now old next := by
  cases h with
  | stays hs' ht' => exact .stays (hs.trans hs') (ht.trans ht')
  | refused hp he hs' ht' => exact .refused hp he (hs.trans hs') (ht.trans ht')
  | taken hp hs' ht' => exact .taken hp (hs.trans hs') (ht.trans ht')

/-- A service that is starting is taken out of that state, and every other one stays as it is. -/
theorem Cut.leaveStarting (h : Cut id now old new) :
    Cut id now old (new.leaveStarting now .stopping (some (.cancelled id))) := by
  by_cases hst : new.state = .starting
  · cases h with
    | stays hs ht =>
        refine .taken ((congrArg Prod.fst hs).symm.trans hst) ?_ ?_ <;>
          simp [Slot.leaveStarting, hst, moved, sight, ht]
    | refused _ _ hs | taken _ hs =>
        cases (congrArg Prod.fst hs).symm.trans hst
  · exact h.congr (by rw [Slot.leaveStarting, if_neg hst]) (by rw [Slot.leaveStarting, if_neg hst])

/-- An error stays. -/
theorem leaveStarting_error {slot : Slot} (h : slot.lastError ≠ none) :
    (slot.leaveStarting now .stopping (some (.cancelled id))).lastError ≠ none := by
  unfold leaveStarting
  split
  · simp
  · exact h

/-- A service that waits for a dependency is refused. -/
theorem Cut.recordIfStartable (h : Cut id now old new) (hp : old.state = .pending)
    (he : old.lastError = none) : Cut id now old (new.recordIfStartable (.cancelled id)) ∧
      (new.recordIfStartable (.cancelled id)).lastError ≠ none := by
  obtain ⟨hstate, htransitions⟩ : new.state = .pending ∧ new.transitions = old.transitions := by
    cases h with
    | stays hs ht => exact ⟨(congrArg Prod.fst hs).trans hp, ht⟩
    | refused _ _ hs ht => exact ⟨congrArg Prod.fst hs, ht⟩
    | taken hst =>
        rw [hp] at hst
        cases hst
  have hrecord : new.recordIfStartable (.cancelled id) = new.record (.cancelled id) :=
    if_pos (by rw [hstate]; rfl)
  rw [hrecord]
  exact ⟨.refused hp he (by rw [sight, record, hstate]) htransitions, by simp [record]⟩

theorem sight_unclaim {n : Nat} (job : StartJob n) (slot : Slot) :
    (job.unclaim slot).sight = slot.sight := by
  rw [sight, sight, StartJob.state_unclaim, StartJob.lastError_unclaim]

theorem Cut.unclaim {n : Nat} (h : Cut id now old new) (job : StartJob n) :
    Cut id now old (job.unclaim new) :=
  h.congr (sight_unclaim job new) (StartJob.transitions_unclaim job new)

end Slot

/-- Where a start job stood when its run was cancelled, and where it stands at that instant. -/
inductive Ebbs {n : Nat} (id : ServiceId) : StartPhase n → StartPhase n → Prop where
  | finished {phase : StartPhase n} : Ebbs id phase .finished
  | following : Ebbs id .following .following
  | awaiting {d : Fin n} {rest : List (Fin n)} : Ebbs id (.awaiting (d :: rest)) (.awaiting (d :: rest))
  | refusing {d : Fin n} {rest : List (Fin n)} :
    Ebbs id (.awaiting (d :: rest)) (.refusing (.cancelled id))
  | launching {launch : JobId} : Ebbs id (.launching launch) (.launching launch)
  | pausing {handle : Container.Handle} {attempt : UInt32} {deadline : Nat} :
    Ebbs id (.pausing handle attempt deadline) (.pausing handle attempt deadline)
  | concluding {phase : StartPhase n} {launch : Option JobId} (ho : phase.Owns) :
    Ebbs id phase (.concluding (.cancelled launch))

/-- What a turn at the instant of the cancel makes of a start job and the slot of its service. -/
structure Ebbing {n : Nat} (id : ServiceId) (now : Nat) (old before slot : Slot)
    (phase phase' : StartPhase n) (aside : Aside) (effects : List Effect) : Prop where
  ebbs : Ebbs id phase phase'
  quiet : effects = []
  aside : aside = .nothing ∨ ∃ launch, aside = .leaves launch
  cut : Slot.Cut id now old slot
  error : before.lastError ≠ none → slot.lastError ≠ none
  refused : phase' = .finished → (∃ left, phase = .awaiting left) → slot.lastError ≠ none

/-- **The turn of a start job whose run has been cancelled** where nothing happened by itself: the job goes
on to its end, and asks nobody anything. -/
theorem Ebbs.turn {t : Topology} {c : Controller t} {now : Nat} {id : JobId} {job job' : StartJob t.size}
    {action : Action} {slot old : Slot} {aside : Aside} {effects : List Effect}
    {phase : StartPhase t.size} (turn : StartTurn c now id job action job' slot aside effects)
    (hc : c.isCancelled job.run) (h : Ebbs (t.id job.service) phase job.phase)
    (hlate : ∀ handle attempt deadline, job.phase = .pausing handle attempt deadline → now < deadline)
    (hcut : Slot.Cut (t.id job.service) now old (c.slot job.service))
    (hawait : (∃ left, phase = .awaiting left) → old.state = .pending ∧ old.lastError = none) :
    Ebbing (t.id job.service) now old (c.slot job.service) slot phase job'.phase aside effects := by
  cases turn with
  | cease hp =>
      rw [hp] at h
      cases h
      exact ⟨.finished, rfl, .inl rfl, hcut.unclaim job, by rw [StartJob.lastError_unclaim]; exact fun h => h,
        fun _ ⟨_, he⟩ => by cases he⟩
  | giveUp hp =>
      rw [hp] at h
      cases h
      exact ⟨.refusing, rfl, .inl rfl, hcut, fun h => h, fun he => by cases he⟩
  | refuse hp =>
      rw [hp] at h
      cases h with
      | refusing =>
          obtain ⟨hpend, hnone⟩ := hawait ⟨_, rfl⟩
          obtain ⟨hcut, herror⟩ := hcut.recordIfStartable hpend hnone
          rw [← StartJob.lastError_unclaim job] at herror
          exact ⟨.finished, rfl, .inl rfl, hcut.unclaim job, fun _ => herror, fun _ _ => herror⟩
  | abandon hp =>
      rw [hp] at h
      cases h
      exact ⟨.concluding trivial, rfl, .inl rfl, hcut, fun h => h, fun he => by cases he⟩
  | @conclude verdict hp =>
      rw [hp] at h
      cases h with
      | @concluding _ launch ho =>
          refine ⟨.finished, rfl, ?_, (hcut.leaveStarting).unclaim job, fun hne => ?_,
            fun _ ⟨_, he⟩ => ?_⟩
          · cases launch with
            | none => exact .inl rfl
            | some launch => exact .inr ⟨launch, rfl⟩
          · rw [StartJob.lastError_unclaim]
            exact Slot.leaveStarting_error hne
          · rw [he] at ho
            exact ho.elim
  | heed hp =>
      rcases hp with ⟨_, _, _, hp⟩ | ⟨_, _, hp⟩ <;> rw [hp] at h <;> cases h
      exact ⟨.concluding trivial, rfl, .inl rfl, hcut, fun h => h, fun he => by cases he⟩
  | wake hp hd => exact absurd hd (Nat.not_le.2 (hlate _ _ _ hp))
  | accept _ hn | decline _ hn | collect _ hn | lose _ hn =>
      rw [hc] at hn
      cases hn
  | follow hp =>
      rcases hp with hp | ⟨hp, -⟩ <;> rw [hp] at h <;> cases h
  | arrive hp | pass hp | forgo hp | enter hp | enterBare hp | record hp | discard hp | ask hp
  | heedProbe hp | overrun hp | bind hp | bindLast hp | miss hp | ready hp | retry hp | discarded hp
  | kill hp =>
      rw [hp] at h
      cases h

end Lifecycle

namespace Simulation

open Lifecycle
open Lifecycle.Controller (TurnsTo)

variable {t : Topology}

namespace Setting

/-- Services are being started, and nothing happens by itself. -/
structure Poised (x : Setting Engine.Scripted.engine t) : Prop where
  stop : ∀ (id : Nat) (job : StopJob t.size), x.controller.jobs[id]? ≠ some (.stop job)
  waits : ∀ {id : Nat} {job : StartJob t.size}, x.controller.jobs[id]? = some (.start job) →
    x.Waits job
  launch : ∀ {id : Nat} {l : Launch t.size}, x.controller.jobs[id]? = some (.launch l) →
    l.phase = .finished ∨ l.phase = .running
  state : ∀ s, (x.controller.slot s).state ≠ .stopping ∧ (x.controller.slot s).state ≠ .stopped
  /-- Who waits for a dependency has not been refused. -/
  awaiting : ∀ {id : Nat} {job : StartJob t.size} {left : List (Fin t.size)},
    x.controller.jobs[id]? = some (.start job) → job.phase = .awaiting left →
      (x.controller.slot job.service).state = .pending ∧
      (x.controller.slot job.service).lastError = none
  /-- Who has not been refused waits for a dependency. -/
  waited : ∀ {s : Fin t.size}, (x.controller.slot s).state = .pending →
    (x.controller.slot s).lastError = none → ∃ (id : Nat) (job : StartJob t.size)
      (left : List (Fin t.size)), x.controller.jobs[id]? = some (.start job) ∧ job.service = s ∧
        job.phase = .awaiting left
  stuck : ∀ {s : Fin t.size}, (x.controller.slot s).state = .pending →
    ∃ d ∈ t.dependencies s, (x.controller.slot d).state ≠ .ready
  due : ∀ entry ∈ x.ongoing, x.now < entry.due
  deadline : ∀ {id due : Nat} {job : Job t.size}, x.controller.jobs[id]? = some job →
    job.deadline? = some due → x.now < due
  queue : x.store.queue = []
  answers : x.store.answers = []

section

variable {opening start : Scene t} {x : Setting Engine.Scripted.engine t} {run : Nat}

theorem waits_of_anew {job : StartJob t.size} (h : (x.anew run).Waits job) : x.Waits job := by
  cases h with
  | finished hp => exact .finished hp
  | following hp hs => exact .following hp hs
  | dependency hp hs => exact .dependency hp hs
  | launch hp hl =>
      refine .launch hp ?_
      have hl : (x.controller.anew run).takeLaunch? _ = none := hl
      rwa [Controller.takeLaunch?_anew, Option.map_eq_none_iff] at hl
  | pause hp => exact .pause hp

variable (ht : t.Built) (hx : opening.Fresh) (h : Steered opening x) (hb : Begun start run x)
  (hstore : opening.store.mode = .serving 0) (hidle : x.world.Idle)

include ht hx h hb hstore hidle

/-- A launch that is not at its end is waited for, and its container is to come when the pace has it. -/
theorem Begun.launch {id : Nat} {l : Launch t.size}
    (hl : x.controller.jobs[id]? = some (.launch l)) (hp : l.phase ≠ .finished) :
    l.phase = .running ∧ l.orphaned = false ∧ x.now < start.pace.probed l.service 0 ∧
    ∃ (i : Nat) (job : StartJob t.size), x.controller.jobs[i]? = some (.start job) ∧
      job.service = l.service ∧ job.phase = .launching id := by
  have hf := hb.follows hx h
  have hlull := hb.lull hx h hstore hidle
  have hproper : x.controller.AllProper := h.proper ht hx
  obtain ⟨i, job, hj, hs, hlaunch⟩ := hf.waited hl hp
  have htimely := (abreast_iff_of_owns (by rw [hlaunch]; trivial)).1 (hb.inStep.abreast hj)
  cases hb.inStep.waits hlull hproper hj with
  | @launch launch hp' hnone =>
      obtain rfl : id = launch := StartPhase.launching.inj (hlaunch.symm.trans hp')
      obtain ⟨l', hl', -, hrunning, hlt, -⟩ :=
        hf.launching_lull hlull hb.inStep.due hj hp' hnone htimely
      obtain rfl := Job.launch.inj (Option.some.inj (hl.symm.trans hl'))
      exact ⟨hrunning, (hf.foretold.launches hl).1, hs ▸ hlt, i, job, hj, hs, hlaunch⟩
  | finished hp' | following hp' | dependency hp' | pause hp' => cases hlaunch.symm.trans hp'

/-- The engine works for launches only, and each of their containers is to come when the pace has it. -/
theorem Begun.works {entry : Ongoing Engine.Scripted.Work} (hm : entry ∈ x.ongoing) :
    ∃ l, x.controller.jobs[entry.job]? = some (.launch l) ∧ l.phase = .running ∧
      entry.due = start.pace.probed l.service 0 := by
  have hlull := hb.lull hx h hstore hidle
  have hproper : x.controller.AllProper := h.proper ht hx
  obtain ⟨job, call, hj, hexpects, -⟩ := (h.attends hx).engine.works entry hm
  obtain ⟨job', hj', hdue, -⟩ := hb.inStep.due entry hm
  obtain rfl := Option.some.inj (hj.symm.trans hj')
  cases job with
  | start job =>
      have hphase : job.phase.Expects call := hexpects
      cases hb.inStep.waits hlull hproper hj with
      | finished hp | following hp | dependency hp | launch hp | pause hp =>
          rw [hp] at hphase
          exact hphase.elim
  | stop job => exact absurd hj (hb.tied.told.foretold.stop _ _)
  | launch l =>
      have hopen : l.phase ≠ .finished := by
        intro hp
        have hphase : l.phase.Expects call := hexpects
        rw [hp] at hphase
        exact hphase
      exact ⟨l, hj, (hb.launch ht hx h hstore hidle hj hopen).1, hdue rfl⟩

/-- Who waits for a dependency is pending, and was not refused. -/
theorem Begun.awaiting {id : Nat} {job : StartJob t.size} {left : List (Fin t.size)}
    (hj : x.controller.jobs[id]? = some (.start job)) (hp : job.phase = .awaiting left) :
    (x.controller.slot job.service).state = .pending ∧
      (x.controller.slot job.service).lastError = none := by
  have hf := hb.follows hx h
  have hlull := hb.lull hx h hstore hidle
  have hproper : x.controller.AllProper := h.proper ht hx
  have hinStep := hb.inStep
  cases hinStep.waits hlull hproper hj with
  | @dependency d rest hp hd =>
      have hs := hinStep.unsettled hf ht hlull hproper hj hp hd
      refine ⟨?_, (hinStep.charted hf ht hlull hproper hb.logged job.service).unsettled hs⟩
      by_contra hpend
      by_cases hst : (x.controller.slot job.service).state = .starting
      · -- All dependencies had left by the time at which the service entered.
        obtain ⟨seen, he, -⟩ := hf.mem_dependencies hj hp
        have hmem : d ∈ t.dependencies job.service := by rw [he]; simp
        obtain ⟨hblock, henter, -⟩ := hinStep.starting_lull hf hlull hproper hb.logged hst
        exact hinStep.not_settled hf ht hlull hproper d hd
          (.left (Prospect.blocker?_of_dependency ht hblock hmem)
            (Nat.le_trans (Pace.leave_le_enter hmem) henter))
      · obtain ⟨hblock, -⟩ := hf.shown_of_left ht hpend hst
        exact hs (.left hblock (hinStep.left _ hpend hst).1)
  | finished hp' | following hp' | launch hp' | pause hp' => cases hp.symm.trans hp'

/-- Who was not refused waits for a dependency that is not ready. -/
theorem Begun.awaited {s : Fin t.size} (hp : (x.controller.slot s).state = .pending)
    (he : (x.controller.slot s).lastError = none) : ∃ (id : Nat) (job : StartJob t.size)
      (left : List (Fin t.size)), x.controller.jobs[id]? = some (.start job) ∧ job.service = s ∧
        job.phase = .awaiting left ∧ ∃ d ∈ t.dependencies s, (x.controller.slot d).state ≠ .ready := by
  have hf := hb.follows hx h
  have hproper : x.controller.AllProper := h.proper ht hx
  obtain ⟨id, job, d, rest, hj, rfl, hawait, hd⟩ :=
    hb.inStep.awaiting_of_pending hf (hb.lull hx h hstore hidle) hproper hp (.inr he)
  obtain ⟨seen, he, -⟩ := hf.mem_dependencies hj hawait
  exact ⟨id, job, _, hj, rfl, hawait, d, by rw [he]; simp,
    fun hr => hd ((hf.foretold.published d).settled_iff.2 (.inl (by simp [anew, hr])))⟩

/-- Who is pending has a dependency that is not ready. -/
theorem Begun.stuck {s : Fin t.size} (hp : (x.controller.slot s).state = .pending) :
    ∃ d ∈ t.dependencies s, (x.controller.slot d).state ≠ .ready := by
  have hf := hb.follows hx h
  by_cases he : (x.controller.slot s).lastError = none
  · obtain ⟨-, -, -, -, -, -, hstuck⟩ := hb.awaited ht hx h hstore hidle hp he
    exact hstuck
  · have hadmits := hf.foretold.slot s
    rw [anew, Controller.slot_anew, Slot.sight, hp] at hadmits
    have hblock : start.pace.blocker? s ≠ none := fun hn =>
      Prospect.outcome_ne_pending hn (congrArg Prod.fst (hadmits.resolve_left he))
    obtain ⟨d, hd⟩ := Option.ne_none_iff_exists'.1 hblock
    refine ⟨d, List.mem_of_find?_eq_some hd, fun hr => ?_⟩
    have hshown := (hf.foretold.slot d).eq_outcome (by simp [anew, hr]) (by simp [anew, hr])
    have hnot : d ∉ start.pace.ready := by simpa using List.find?_some hd
    exact hnot ((Prospect.shown_ready ht hshown).1 hr)

/-- **Where nothing happens by itself** everything is ready to be cancelled. -/
theorem Begun.poised : Poised x := by
  have hf := hb.follows hx h
  have hlull := hb.lull hx h hstore hidle
  have hproper : x.controller.AllProper := h.proper ht hx
  obtain ⟨hqueue, hanswers⟩ := (h.lull hx hstore hidle).silent (h.attends hx)
  constructor
  case stop => exact hf.foretold.stop
  case waits => exact fun hj => waits_of_anew (hb.inStep.waits hlull hproper hj)
  case launch =>
    intro id l hl
    by_cases hp : l.phase = .finished
    · exact .inl hp
    · exact .inr (hb.launch ht hx h hstore hidle hl hp).1
  case state =>
    intro s
    have hstate : ∀ state, (x.controller.slot s).state = state → state ≠ .pending →
        state ≠ .starting → state = .ready ∨ state = .failed := by
      rintro state rfl hp hs
      have houtcome : (start.pace.outcome s).1 = _ :=
        congrArg Prod.fst ((hf.foretold.slot s).eq_outcome hp hs)
      rcases start.pace.outcome_state s with hr | hr | ⟨hr, -⟩
      · exact .inl (houtcome.symm.trans hr)
      · exact .inr (houtcome.symm.trans hr)
      · exact absurd (houtcome.symm.trans hr) hp
    constructor <;> intro hs <;> simpa using hstate _ hs (by simp) (by simp)
  case awaiting => exact hb.awaiting ht hx h hstore hidle
  case waited =>
    intro s hp he
    obtain ⟨id, job, left, hj, hs, hawait, -⟩ := hb.awaited ht hx h hstore hidle hp he
    exact ⟨id, job, left, hj, hs, hawait⟩
  case stuck => exact hb.stuck ht hx h hstore hidle
  case due =>
    intro entry hm
    obtain ⟨l, hl, hp, hdue⟩ := hb.works ht hx h hstore hidle hm
    exact hdue ▸ (hb.launch ht hx h hstore hidle hl (by simp [hp])).2.2.1
  case deadline => exact fun hj hd => hlull.deadline hj hd
  case queue => exact hqueue
  case answers => exact hanswers

end

/-- What has become of a setting at the instant at which everything was cancelled. -/
structure Cutting (x y : Setting Engine.Scripted.engine t) : Prop where
  now : y.now = x.now
  engine : y.engine = x.engine
  ongoing : y.ongoing = x.ongoing
  store : y.store = x.store
  config : y.controller.config = x.controller.config
  quelled : y.controller.Quelled
  kept : x.controller.jobs.size ≤ y.controller.jobs.size
  stop : ∀ (id : Nat) (job : StopJob t.size), y.controller.jobs[id]? ≠ some (.stop job)
  start : ∀ {id : Nat} {job : StartJob t.size}, y.controller.jobs[id]? = some (.start job) →
    ∃ old : StartJob t.size, x.controller.jobs[id]? = some (.start old) ∧
      old.service = job.service ∧ Ebbs (t.id job.service) old.phase job.phase ∧
      (job.phase = .finished → (∃ left, old.phase = .awaiting left) →
        (y.controller.slot job.service).lastError ≠ none)
  launch : ∀ {id : Nat} {l : Launch t.size}, y.controller.jobs[id]? = some (.launch l) →
    ∃ old : Launch t.size, x.controller.jobs[id]? = some (.launch old) ∧
      old.service = l.service ∧ old.phase = l.phase
  slot : ∀ s, Slot.Cut (t.id s) x.now (x.controller.slot s) (y.controller.slot s)

section

variable {x y z : Setting Engine.Scripted.engine t} {event : Event} {moments : List (Moment t)}
  {opening : Scene t} (hp : Poised x) (h : Cutting x y)

/-- When the cancel has just been called nothing has happened yet. -/
theorem Poised.cutting (hp : Poised x) (hopened : x.controller.RunsOpened) :
    Cutting x x.cancelled where
  now := rfl
  engine := rfl
  ongoing := rfl
  store := rfl
  config := rfl
  quelled := hopened.cancel
  kept := Nat.le_refl _
  stop := hp.stop
  start {id job} hj := by
    have hj : x.controller.jobs[id]? = some (.start job) := hj
    refine ⟨job, hj, rfl, ?_, fun hf ⟨_, he⟩ => by rw [hf] at he; cases he⟩
    cases hp.waits hj with
    | finished he | following he | dependency he | launch he | pause he =>
        rw [he]
        constructor
  launch hj := ⟨_, hj, rfl, rfl⟩
  slot s := .stays rfl rfl

include hp h

/-- No pause is over at the instant of the cancel. -/
theorem Cutting.late {id deadline : Nat} {attempt : UInt32} {job : StartJob t.size}
    {handle : Container.Handle} (hj : y.controller.jobs[id]? = some (.start job))
    (hpause : job.phase = .pausing handle attempt deadline) : y.now < deadline := by
  obtain ⟨before, hb, -, hebbs, -⟩ := h.start hj
  rw [hpause] at hebbs
  have hbefore : before.phase = .pausing handle attempt deadline := by
    generalize hphase : before.phase = phase at hebbs
    cases hebbs
    rfl
  rw [h.now]
  exact hp.deadline hb (by simp [Job.deadline?, hbefore])

/-- The launches are waiting for the engine, or are over. -/
theorem Cutting.launch_waits {id : Nat} {l : Launch t.size} {action : Action} {phase : LaunchPhase}
    {effects : List Effect} (hl : y.controller.jobs[id]? = some (.launch l))
    (turn : LaunchTurn y.controller y.now id l action phase effects) :
    ∃ reply, action = .answer id reply := by
  obtain ⟨before, hb, -, hphase⟩ := h.launch hl
  have hstands := hp.launch hb
  rw [hphase] at hstands
  cases turn with
  | «return» => exact ⟨_, rfl⟩
  | call he | halt he | drop he | overrun he | halted he | kill he =>
      rw [he] at hstands
      simp at hstands

/-- The turn of a start job at the instant of the cancel. -/
theorem Cutting.start_turn {id : Nat} {job job' : StartJob t.size} {action : Action} {slot : Slot}
    {aside : Aside} {effects : List Effect} (hj : y.controller.jobs[id]? = some (.start job))
    (turn : StartTurn y.controller y.now id job action job' slot aside effects) :
    Cutting x (y.after (y.controller.after id (.start job') job.service slot aside) effects) := by
  have hid := Controller.lt_size_of_job hj
  obtain ⟨before, hb, hservice, hebbs, hrefused⟩ := h.start hj
  have hcut := h.slot job.service
  rw [← h.now] at hcut
  obtain ⟨hebbs', rfl, haside, hcut', herror, hrefused'⟩ := hebbs.turn turn
    (h.quelled.isCancelled hj) (fun _ _ _ => h.late hp hj) hcut (by
      rintro ⟨left, he⟩
      exact hservice ▸ hp.awaiting hb he)
  have hsame : job'.service = job.service := turn.same.1
  -- No service loses its error.
  have herrors (s : Fin t.size) (hne : (y.controller.slot s).lastError ≠ none) :
      ((y.controller.after id (.start job') job.service slot aside).slot s).lastError ≠ none := by
    by_cases he : s = job.service
    · subst he
      rw [Controller.slot_after_self]
      exact herror hne
    · rwa [Controller.slot_after_of_ne he]
  constructor
  case now => exact (now_after _ _).trans h.now
  case engine => exact h.engine
  case ongoing => exact h.ongoing
  case store => exact h.store
  case config => exact Controller.config_after.trans h.config
  case quelled => exact h.quelled.turn ⟨_, _, _, _, hj, .start turn, rfl⟩
  case kept => exact Nat.le_trans h.kept Controller.size_jobs_le_after
  case stop =>
    intro i stop hi
    exact h.stop i stop (Controller.stop_of_after hid (by simp) hi)
  case start =>
    intro i other hi
    rw [controller_after]
    rcases Controller.start_after_cases hid hi with ⟨rfl, he⟩ | ⟨-, hi⟩
    · obtain rfl := Job.start.inj he
      refine ⟨before, hb, hservice.trans hsame.symm, hsame ▸ hebbs', fun hf hw => ?_⟩
      rw [hsame, Controller.slot_after_self]
      exact hrefused' hf hw
    · obtain ⟨old, ho, hs, hold, hrefused⟩ := h.start hi
      exact ⟨old, ho, hs, hold, fun hf hw => herrors _ (hrefused hf hw)⟩
  case launch =>
    intro i l hi
    rcases Controller.jobs_after_cases hid hi with ⟨-, he⟩ | ⟨-, hi⟩ | ⟨rfl, -⟩ |
      ⟨-, l', hl, ⟨rfl, -⟩ | ⟨-, he⟩⟩
    · cases he
    · exact h.launch hi
    · simp at haside
    · simp at haside
    · obtain rfl := Job.launch.inj he
      obtain ⟨old, ho, hs, hphase⟩ := h.launch hl
      exact ⟨old, ho, hs, hphase⟩
  case slot =>
    intro s
    rw [controller_after]
    by_cases he : s = job.service
    · subst he
      rw [Controller.slot_after_self, ← h.now]
      exact hcut'
    · rw [Controller.slot_after_of_ne he]
      exact h.slot s

/-- **The turn of a job** at the instant of the cancel. -/
theorem Cutting.turn {id : JobId} {action : Action} {c : Controller t} {effects : List Effect}
    (ht : TurnsTo y.controller y.now id action c effects)
    (hanswer : ∀ reply, action ≠ .answer id reply) : Cutting x (y.after c effects) := by
  obtain ⟨old, new, slot, aside, hj, turn, rfl⟩ := ht
  cases turn with
  | stop => exact absurd hj (h.stop _ _)
  | launch turn =>
      obtain ⟨reply, ha⟩ := h.launch_waits hp hj turn
      exact absurd ha (hanswer reply)
  | start turn => exact h.start_turn hp hj turn

omit hp in
/-- A call that moves on changes slots at most. -/
theorem Cutting.changed {c : Controller t} (hjobs : c.jobs = y.controller.jobs)
    (hconfig : c.config = y.controller.config) (hquelled : c.Quelled)
    (hcut : ∀ s, Slot.Cut (t.id s) x.now (x.controller.slot s) (c.slot s))
    (herror : ∀ s, (y.controller.slot s).lastError ≠ none → (c.slot s).lastError ≠ none) :
    Cutting x { y with controller := c } where
  now := h.now
  engine := h.engine
  ongoing := h.ongoing
  store := h.store
  config := hconfig.trans h.config
  quelled := hquelled
  kept := by rw [hjobs]; exact h.kept
  stop id job := by rw [hjobs]; exact h.stop id job
  start {id job} hj := by
    rw [hjobs] at hj
    obtain ⟨old, ho, hs, hold, hrefused⟩ := h.start hj
    exact ⟨old, ho, hs, hold, fun hf hw => herror _ (hrefused hf hw)⟩
  launch {id l} hl := by
    rw [hjobs] at hl
    exact h.launch hl
  slot := hcut

omit hp in
/-- A call that goes on at the instant of the cancel. -/
theorem Cutting.proceed (hx : opening.Fresh) (hsteered : Steered opening y) {k : Nat}
    {c : Controller t} {effects : List Effect}
    (hs : y.controller.step y.now (.proceed k) = some (c, effects)) :
    Cutting x (y.after c effects) := by
  obtain ⟨call, hk, hs⟩ := Option.bind_eq_some_iff.1 hs
  obtain ⟨rfl, ⟨phase, rfl, -⟩ | ⟨s, rest, -, rfl⟩⟩ :=
    hsteered.calls.proceed_cases (hsteered.fits hx) hk hs
  · exact h.changed (Controller.jobs_setCallPhase _ _) (Controller.config_setCallPhase _ _)
      (h.quelled.setCallPhase _ _)
      (fun s => by rw [Controller.slot_setCallPhase]; exact h.slot s)
      fun s => by rw [Controller.slot_setCallPhase]; exact id
  · have hmoved (slot : Slot) : (y.controller.setSlot s slot).Quelled :=
      h.quelled.frame rfl rfl id
    refine h.changed (Controller.jobs_setCallPhase _ _) (Controller.config_setCallPhase _ _)
      ((hmoved _).setCallPhase _ _) (fun s' => ?_) fun s' hne => ?_
    · rw [Controller.slot_setCallPhase]
      by_cases he : s' = s
      · subst he
        rw [Controller.slot_setSlot_self, h.now]
        exact (h.slot s').leaveStarting
      · rw [Controller.slot_setSlot_of_ne _ he]
        exact h.slot s'
    · rw [Controller.slot_setCallPhase]
      by_cases he : s' = s
      · subst he
        rw [Controller.slot_setSlot_self]
        exact Slot.leaveStarting_error hne
      · rwa [Controller.slot_setSlot_of_ne _ he]

/-- **What happens by itself** at the instant of the cancel. -/
theorem Cutting.moves (hx : opening.Fresh) (hsteered : Steered opening y)
    (hm : Moves y event moments z) (hi : event.Inner) : Cutting x z := by
  cases hm with
  | @act action c effects hs ha =>
      cases haction : action.job? with
      | some id =>
          exact h.turn hp (Controller.turnsTo_of_step haction hs) (ha _)
      | none =>
          cases action with
          | proceed k => exact h.proceed hx hsteered hs
          | invoke | interrupt => exact hi.elim
          | run | heed | timeout | answer => cases haction
  | ring hm =>
      rw [hsteered.alarms] at hm
      cases hm
  | reply hm hd | work hm hd =>
      have hmem := List.mem_of_find?_eq_some hm
      rw [h.ongoing] at hmem
      rw [h.now] at hd
      exact absurd hd (Nat.not_le.2 (hp.due _ hmem))
  | serve hs =>
      obtain ⟨client, request, queue, hq, -⟩ := Store.serve?_eq_some hs
      rw [h.store, hp.queue] at hq
      cases hq
  | deliver ha | hand ha =>
      rw [h.store, hp.answers] at ha
      cases ha
  | pass => exact hi.elim

end

end Setting

end Simulation

end Bringup
