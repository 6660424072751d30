import Bringup.Proofs.Lifecycle.DependentsDown
import Bringup.Proofs.Lifecycle.Effort
import Bringup.Proofs.Lifecycle.WaitOrder
import Bringup.Proofs.Simulation.Outstanding

/-!
# Every call returns

A controller in a setting whose engine answers every call: any topology, any settings, a store of any
kind, and any calls made at any time. As long as a call has not answered, some job or call can take a
step, or something is outstanding: a call to the engine, a request to the store, or a moment for which
a job waits. And on the virtual clock everything comes to rest, with all calls answered, whatever
happens first of what can happen (`Setting.Run.all_answered`).

Each tick brings a measure down: a step of the controller its effort, where engine and store go on what
they have left to do, and where time passes the moments that are still to come.
-/

namespace Bringup.Simulation

open Lifecycle
open Lifecycle.Controller (front front_built)

variable {t : Topology} {e : Engine}

/-- All calls to all controllers have answered. -/
def World.AllAnswered (w : World e) : Prop :=
  ∀ stack ∈ w.members, ∀ call ∈ stack.controller.calls, call.answer?.isSome

namespace Setting

variable {start x y : Setting e t} {past moments : List (Moment t)} {event : Event}

/-- Nothing has been asked of anybody. -/
structure Opening (x : Setting e t) : Prop where
  controller : ∃ config, x.controller = Controller.fresh t config
  ongoing : x.ongoing = []
  queue : x.store.queue = []
  answers : x.store.answers = []

/-- The engine works on something, the store owes an answer, or a job waits for a moment in time. -/
def Outstanding (x : Setting e t) : Prop :=
  x.ongoing ≠ [] ∨ x.store.clients ≠ [] ∨ ∃ (id : Nat) (job : Job t.size) (due : Nat),
    x.controller.jobs[id]? = some job ∧ job.deadline? = some due

/-- A job or a call can take a step of its own. -/
def CanStep (x : Setting e t) : Prop :=
  ∃ action : Action, action.Own ∧ (x.controller.step x.now action).isSome

theorem Opening.attends (h : x.Opening) : Attends x := by
  obtain ⟨⟨config, hc⟩, hongoing, hqueue, hanswers⟩ := h
  have hclients : x.store.clients = [] := by simp [Store.clients, hqueue, hanswers]
  refine ⟨⟨?_, by simp [hongoing]⟩, ⟨?_, by simp [hclients], by simp [hclients], ?_⟩⟩
  · intro id job call _ hi
    simp [hc, Controller.fresh] at hi
  · intro id job request _ hi
    simp [hc, Controller.fresh] at hi
  · exact fun hq => absurd hqueue hq

theorem Run.attends (h : start.Opening) (run : Run start past x) : Attends x :=
  run.invariant h.attends fun h hm => h.moves hm

/-! ## Nobody waits for ever -/

/-- Where nothing is outstanding and nobody can take a step, nobody waits for anything outside. -/
theorem stuck_of_settled (h : Attends x) (hstep : ¬ x.CanStep) (hout : ¬ x.Outstanding) :
    x.controller.Stuck x.now := by
  constructor
  · intro action ha
    rw [← Option.not_isSome_iff_eq_none]
    exact fun hs => hstep ⟨action, ha, hs⟩
  rintro id job hj (⟨call, hexpects⟩ | hr | hd)
  · obtain ⟨entry, hm, -⟩ := h.engine.engaged (by simp) hj hexpects
    exact hout (.inl (List.ne_nil_of_mem hm))
  · obtain ⟨request, hr⟩ := Option.ne_none_iff_exists'.1 hr
    exact hout (.inr (.inl (List.ne_nil_of_mem (h.store.attended (by simp) hj hr))))
  · obtain ⟨due, hd⟩ := Option.ne_none_iff_exists'.1 hd
    exact hout (.inr (.inr ⟨id, job, due, hj, hd⟩))

/-! ## Where nothing happens by itself -/

section

variable {id : Nat} {job : Job t.size}

theorem not_inner_of_idle (hidle : x.world.Idle) (hm : Moves x event moments y) : ¬ event.Inner := by
  intro hi
  have := step_of_moves hm
  rw [hidle event hi] at this
  cases this

/-- No job and no call can take a step of its own. -/
theorem own_of_idle (hidle : x.world.Idle) {action : Action} (ha : action.Own) :
    x.controller.step x.now action = none := by
  rw [Option.eq_none_iff_forall_ne_some]
  rintro ⟨c, effects⟩ hs
  have hact (hinner : (Event.control 0 action).Inner)
      (hanswer : ∀ job reply, action ≠ .answer job reply) : False :=
    not_inner_of_idle hidle (.act hs hanswer) hinner
  cases action with
  | proceed | run | heed => exact hact trivial (by simp)
  | _ => exact ha.elim

/-- No call goes on. -/
theorem proceed_of_idle (hidle : x.world.Idle) {k : Nat} {call : Call t.size}
    (hk : x.controller.calls[k]? = some call) : x.controller.proceed x.now k call = none := by
  have hown : x.controller.step x.now (.proceed k) = none := own_of_idle hidle trivial
  simpa [Controller.step, hk] using hown

/-- What a job waits for the engine to do the engine works on. -/
theorem find?_of_expects (h : Attends x) (hj : x.controller.jobs[id]? = some job)
    {call : Container.Call} (hexpects : job.Expects call) : ∃ entry ∈ x.ongoing, entry.job = id ∧
      x.ongoing.find? (fun call => call.job = id) = some entry := by
  obtain ⟨entry, hm, rfl⟩ := h.engine.engaged (by simp) hj hexpects
  obtain ⟨found, hf⟩ : ∃ found, x.ongoing.find? (fun call => call.job = entry.job) = some found :=
    Option.isSome_iff_exists.1 (List.find?_isSome.2 ⟨entry, hm, by simp⟩)
  exact ⟨found, List.mem_of_find?_eq_some hf, by simpa using List.find?_some hf, hf⟩

/-- An engine that is to go on with something can. -/
theorem exists_resume_of_find (he : e.Answering) (h : Attends x) {entry : Ongoing e.Work}
    (hfind : x.ongoing.find? (fun call => call.job = id) = some entry) (hd : entry.due ≤ x.now) :
    ∃ moments y, Moves x (.resume 0 id) moments y := by
  obtain rfl : entry.job = id := by simpa using List.find?_some hfind
  obtain ⟨value, asked, hj, hexpects, hpends⟩ :=
    h.engine.works entry (List.mem_of_find?_eq_some hfind)
  cases hr : e.resume x.engine entry.work with
  | mk engine next =>
      cases next with
      | wait millis work => exact ⟨_, _, .work hfind hd hr⟩
      | answer reply =>
          have htaken : ∃ step, x.controller.step x.now (.answer entry.job (.container reply))
              = some step := Controller.step_of_expects hj hexpects (he.fits hpends hr)
          obtain ⟨⟨c, effects⟩, hs⟩ := htaken
          exact ⟨_, _, .reply hfind hd hr hs⟩

/-- What a job waits for the engine to do is due later: else the engine would go on with it, or answer
it. -/
theorem due_of_expects (he : e.Answering) (h : Attends x) (hidle : x.world.Idle)
    (hj : x.controller.jobs[id]? = some job) {call : Container.Call} (hexpects : job.Expects call) :
    ∃ entry ∈ x.ongoing, entry.job = id ∧ x.now < entry.due := by
  obtain ⟨entry, hm, hentry, hfind⟩ := find?_of_expects h hj hexpects
  refine ⟨entry, hm, hentry, Nat.lt_of_not_le fun hd => ?_⟩
  obtain ⟨moments, y, hmoves⟩ := exists_resume_of_find he h hfind hd
  exact not_inner_of_idle hidle hmoves trivial

/-- What a job waits for the store to do is due later: else the store would serve it, or its answer
would reach the job. -/
theorem due_of_errand (h : Attends x) (hidle : x.world.Idle)
    (hj : x.controller.jobs[id]? = some job) {request : Volume.Request}
    (hr : job.errand? = some request) : x.store.queue ≠ [] ∧ x.now < x.store.due := by
  rcases List.mem_append.1 (h.store.attended (by simp) hj hr) with hm | hm
  · obtain ⟨entry, hentry, -⟩ := List.mem_map.1 hm
    have hne := List.ne_nil_of_mem hentry
    refine ⟨hne, Nat.lt_of_not_le fun hd => ?_⟩
    obtain ⟨delay, hmode⟩ := h.store.serving hne
    have hserve : ∃ store, x.store.serve? x.now = some store := by
      unfold Store.serve?
      cases hq : x.store.queue with
      | nil => exact absurd hq hne
      | cons entry rest => simp [hmode, hd]
    obtain ⟨store, hserve⟩ := hserve
    exact not_inner_of_idle hidle (.serve hserve) trivial
  · obtain ⟨⟨client, result⟩, hentry, rfl⟩ := List.mem_map.1 hm
    obtain ⟨place, ha⟩ := List.getElem?_of_mem hentry
    have htaken : ∃ step, x.controller.step x.now (.answer id (.volume result)) = some step :=
      Controller.step_of_errand hj hr result
    obtain ⟨⟨c, effects⟩, hs⟩ := htaken
    exact (not_inner_of_idle hidle (.deliver ha hs) trivial).elim

/-- The moment for which a job waits comes later. -/
theorem due_of_deadline (hidle : x.world.Idle) (hj : x.controller.jobs[id]? = some job) {due : Nat}
    (hd : job.deadline? = some due) : x.now < due := by
  refine Nat.lt_of_not_le fun hle => ?_
  obtain ⟨⟨c, effects⟩, hs⟩ := Controller.step_of_deadline hj hd hle
  exact not_inner_of_idle hidle (.act hs (by simp)) trivial

end

/-- Where nothing happens by itself and nothing is due later, nobody waits for anything outside. -/
theorem stuck_of_atRest (he : e.Answering) (h : Attends x) (hrest : x.world.AtRest) :
    x.controller.Stuck x.now := by
  obtain ⟨hidle, hdue⟩ := World.atRest_iff.1 hrest
  refine ⟨fun action ha => own_of_idle hidle ha, ?_⟩
  rintro id job hj (⟨call, hexpects⟩ | hr | hd)
  · obtain ⟨entry, hm, -, hlt⟩ := due_of_expects he h hidle hj hexpects
    exact absurd (hdue _ (mem_deadlines.2 (.inl ⟨entry, hm, rfl⟩))) (Nat.not_le.2 hlt)
  · obtain ⟨request, hr⟩ := Option.ne_none_iff_exists'.1 hr
    obtain ⟨hne, hlt⟩ := due_of_errand h hidle hj hr
    exact absurd (hdue _ (mem_deadlines.2 (.inr (.inr (.inl ⟨hne, rfl⟩))))) (Nat.not_le.2 hlt)
  · obtain ⟨due, hd⟩ := Option.ne_none_iff_exists'.1 hd
    have hlt := due_of_deadline hidle hj hd
    exact absurd (hdue _ (mem_deadlines.2 (.inr (.inl ⟨id, job, hj, hd⟩)))) (Nat.not_le.2 hlt)

/-! ## Each tick brings the end nearer -/

/-- What engine and store have left to do. -/
noncomputable def chores (x : Setting e t) : Nat :=
  weigh (fun entry : Ongoing e.Work => e.waits entry.work + 1) x.ongoing +
    2 * x.store.queue.length + x.store.answers.length

/-- What the controller has left to do. -/
def effort (x : Setting e t) : Nat :=
  x.controller.effort x.controller.config.retry.maxAttempts.toNat

/-- What is left to do: by the controller, then by engine and store, then by the clock. -/
noncomputable def measure (x : Setting e t) : Nat × Nat × Nat := (x.effort, x.chores, x.world.pending)

/-- Less to do. -/
abbrev Less : Nat × Nat × Nat → Nat × Nat × Nat → Prop :=
  Prod.Lex (· < ·) (Prod.Lex (· < ·) (· < ·))

theorem wellFounded_less : WellFounded Less :=
  (Prod.lex Nat.lt_wfRel (Prod.lex Nat.lt_wfRel Nat.lt_wfRel)).wf

/-- What the engine works on for others weighs no more than all but what it works on for the job. -/
theorem weigh_others_le (weight : Ongoing e.Work → Nat) {entry : Ongoing e.Work}
    (hm : entry ∈ x.ongoing) : weigh weight (x.others entry.job) + weight entry
      ≤ weigh weight x.ongoing := by
  have hall (ongoing : List (Ongoing e.Work)) (hm : entry ∈ ongoing) :
      weigh weight (ongoing.filter fun call => call.job ≠ entry.job) + weight entry
        ≤ weigh weight ongoing := by
    have hle (ongoing : List (Ongoing e.Work)) :
        weigh weight (ongoing.filter fun call => call.job ≠ entry.job) ≤ weigh weight ongoing := by
      induction ongoing with
      | nil => exact Nat.le_refl _
      | cons call rest ih =>
          rw [List.filter_cons]
          split
          · rw [weigh_cons, weigh_cons]
            omega
          · rw [weigh_cons]
            omega
    induction ongoing with
    | nil => cases hm
    | cons call rest ih =>
        rw [List.filter_cons, weigh_cons]
        rcases List.mem_cons.1 hm with rfl | hm
        · simpa [Nat.add_comm] using hle rest
        · have := ih hm
          split
          · rw [weigh_cons]
            omega
          · omega
  exact hall x.ongoing hm

/-- A step of the controller leaves it less to do. -/
theorem less_of_step (hlink : x.controller.Linked) {action : Action} {c : Controller t}
    {effects : List Effect} (hs : x.controller.step x.now action = some (c, effects))
    (ha : ∀ operation, action ≠ .invoke operation) {y : Setting e t} (hy : y.controller = c) :
    Less y.measure x.measure := by
  refine .left _ _ ?_
  rw [effort, effort, hy, Controller.config_step hs]
  exact Controller.effort_lt_of_step hlink hs ha

/-- **Each tick leaves less to do.** -/
theorem less_of_ticks (he : e.Answering) (h : Attends x) (hlink : x.controller.Linked)
    (hm : Moves x event moments y) (hi : event.Inner ∨ x.world.Idle ∧
      ∃ time, event = .pass time ∧ x.world.horizon? = some time) : Less y.measure x.measure := by
  have hcalls {action : Action} (hi : (Event.control 0 action).Inner) (operation : Operation) :
      action ≠ .invoke operation := by
    rintro rfl
    exact hi
  cases hm with
  | act hs ha =>
      rcases hi with hi | ⟨-, time, he, -⟩
      · exact less_of_step hlink hs (hcalls hi) (controller_after _ _)
      · cases he
  | ring _ _ _ hs => exact less_of_step hlink hs (by simp) (controller_after _ _)
  | reply _ _ _ hs => exact less_of_step hlink hs (by simp) (controller_after _ _)
  | deliver _ hs => exact less_of_step hlink hs (by simp) (controller_after _ _)
  | @work job entry engine millis work hm hd hr =>
      obtain rfl : entry.job = job := by simpa using List.find?_some hm
      have hentry := List.mem_of_find?_eq_some hm
      obtain ⟨_, call, -, -, hpends⟩ := h.engine.works entry hentry
      have hwaits := he.waits_lt hpends hr
      have hothers := weigh_others_le (fun entry => e.waits entry.work + 1) hentry
      refine .right _ (.left _ _ ?_)
      simp only [chores, weigh_append, weigh_cons, weigh_nil]
      omega
  | serve hs =>
      obtain ⟨client, request, queue, hq, hq', ha, -⟩ := Store.serve?_eq_some hs
      refine .right _ (.left _ _ ?_)
      simp only [chores, hq, hq', ha, List.length_append, List.length_cons, List.length_nil]
      omega
  | hand ha =>
      have hlt := (List.getElem?_eq_some_iff.1 ha).1
      refine .right _ (.left _ _ ?_)
      simp only [chores, List.length_eraseIdx, hlt, if_true]
      omega
  | pass hlt =>
      rcases hi with hi | ⟨-, time, he, hh⟩
      · exact hi.elim
      · obtain rfl := Event.pass.inj he
        exact .right _ (.right _ (World.pending_pass hh))

/-! ## All calls answer -/

theorem allAnswered_of_calls (h : ∀ {k : Nat} {call : Call t.size},
    x.controller.calls[k]? = some call → ∃ answer time, call.phase = .answered answer time) :
    x.world.AllAnswered := by
  intro stack hstack call hcall
  obtain rfl : stack = x.stack := by simpa [world] using hstack
  obtain ⟨k, hk⟩ := Array.mem_iff_getElem?.1 hcall
  obtain ⟨answer, time, hp⟩ := h hk
  simp [Call.answer?, hp]

/-- **Every call returns.** In a setting with a fresh controller of a built topology, any settings, an
engine that answers every call, and a store of any kind, let anything happen, any calls made among it,
in any order. As long as a call has not answered, some job or call can take a step, or a call to the
engine, a request to the store or a moment in time is outstanding. And on the virtual clock, whatever
then happens first of what can happen, everything comes to rest with all calls answered. -/
theorem Run.all_answered (ht : t.Built) (he : e.Answering) (h : start.Opening)
    (run : Run start past x) :
    ((∃ call ∈ x.controller.calls, call.answer? = none) → x.CanStep ∨ x.Outstanding) ∧
    Inevitably World.Ticks (fun w => w.AtRest ∧ w.AllAnswered) x.world := by
  obtain ⟨config, hconfig⟩ := h.controller
  have hcontroller {past : List (Moment t)} {x : Setting e t} (run : Run start past x) :
      Controller.Run (Controller.fresh t config) past x.controller := hconfig ▸ run.controller
  constructor
  · rintro ⟨call, hcall, hnone⟩
    by_contra hn
    obtain ⟨hstep, hout⟩ := not_or.1 hn
    have hstuck := stuck_of_settled (run.attends h) hstep hout
    obtain ⟨k, hk⟩ := Array.mem_iff_getElem?.1 hcall
    obtain ⟨answer, time, hp⟩ := ((hcontroller run).no_deadlock ht hstuck).2 hk
    simp [Call.answer?, hp] at hnone
  · refine inevitably_of_wf (I := fun x => ∃ past, Run start past x) wellFounded_less measure ?_ ?_
      ⟨past, run⟩
    · rintro x w ⟨past, run⟩ - hticks
      obtain ⟨event, moments, y, hm, rfl, hi⟩ := ticks_cases hticks
      exact ⟨y, rfl, ⟨_, run.tail hm⟩,
        less_of_ticks he (run.attends h) (hcontroller run).linked hm hi⟩
    · rintro x ⟨past, run⟩
      by_cases hrest : x.world.AtRest
      · have hstuck := stuck_of_atRest he (run.attends h) hrest
        exact .inl ⟨hrest, allAnswered_of_calls ((hcontroller run).no_deadlock ht hstuck).2⟩
      · exact .inr (by simpa [World.AtRest] using hrest)

/-! ### Four calls at once -/

/-- A shop front and its database, which are started on the scripted engine. -/
def frontOpening : Setting Engine.Scripted.engine front where
  controller := .fresh front default
  engine := { scripts := [(⟨"db"⟩, { startTime := .ofMillis 20 })] }

/-- A start of all services, a stop, a restart of the database and a cancel, the stop of the front
having taken its first step. -/
def fourCalls : List Event :=
  [.control 0 (.invoke .startAll), .control 0 (.run 0), .control 0 (.invoke .stopAll),
    .control 0 (.run 2), .control 0 (.invoke (.restart ⟨"db"⟩)), .pass 5,
    .control 0 (.invoke .cancel)]

/-- The theorem where none of the four calls has answered. -/
theorem all_answered_front : ∃ (past : List (Moment front))
    (x : Setting Engine.Scripted.engine front), front.Built ∧ Engine.Scripted.engine.Answering ∧
      frontOpening.Opening ∧ Run frontOpening past x ∧ x.controller.calls.size = 4 ∧
      (∃ call ∈ x.controller.calls, call.answer? = none) ∧ (x.CanStep ∨ x.Outstanding) ∧
      Inevitably World.Ticks (fun w => w.AtRest ∧ w.AllAnswered) x.world := by
  have opening : frontOpening.Opening := ⟨⟨default, rfl⟩, rfl, rfl, rfl⟩
  obtain ⟨past, x, run, shown⟩ := exists_run frontOpening fourCalls
    (fun w => w.members.toList.all fun stack =>
      stack.controller.calls.size = 4 && stack.controller.calls.any fun call => call.answer?.isNone)
    (by decide +kernel)
  have calls : x.controller.calls.size = 4 ∧ ∃ call ∈ x.controller.calls, call.answer? = none := by
    simpa [world, stack, Array.mem_iff_getElem] using shown
  obtain ⟨waits, ends⟩ := run.all_answered front_built Engine.Scripted.answering opening
  exact ⟨past, x, front_built, Engine.Scripted.answering, opening, run, calls.1, calls.2,
    waits calls.2, ends⟩

end Setting

end Bringup.Simulation
