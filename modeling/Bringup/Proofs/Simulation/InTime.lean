import Bringup.Proofs.Simulation.Termination

/-!
# Answers in time

An engine that answers at the very moment at which a job stops waiting for it answers in time. On the
virtual clock either of the two could come first; `World.TicksInTime` is the clock on which the end of a
wait comes last. No path gets stuck for that (`Setting.exists_ticksInTime`): where the answer is due the
engine can give it.
-/

namespace Bringup.Simulation

open Lifecycle

variable {e : Engine} {t : Topology}

namespace World

variable {w w' : World e}

/-- The engine of the stack is to go on now with what it does for the job. -/
def Due (w : World e) (k : Nat) (job : JobId) : Prop :=
  ∃ stack call, w.members[k]? = some stack ∧
    stack.ongoing.find? (fun call => call.job = job) = some call ∧ call.due ≤ w.now

/-- What happens on the virtual clock, where no wait for the engine ends while its answer is due. -/
inductive TicksInTime (w : World e) : World e → Prop where
  | inner {event : Event} {w' : World e} (hi : event.Inner) (h : w.step event = some w')
    (hin : ∀ k job, event = .control k (.timeout job) → ¬ w.Due k job) : TicksInTime w w'
  | pass {time : Nat} (hi : w.Idle) (h : w.horizon? = some time) :
    TicksInTime w { w with now := time }

theorem TicksInTime.ticks (h : w.TicksInTime w') : w.Ticks w' := by
  cases h with
  | inner hi h => exact .inner hi h
  | pass hi h => exact .pass hi h

/-- Whether a world finds no event, and its stores have no answer that nobody takes. -/
def rests (w : World e) : Bool := w.next?.isNone && w.stores.all fun store => store.answers.isEmpty

end World

namespace Setting

variable {x y : Setting e t} {event : Event} {moments : List (Moment t)}

/-- What a tick in time makes of a setting: something happens by itself, or time passes. -/
theorem ticksInTime_cases {w : World e} (h : x.world.TicksInTime w) : ∃ event moments y,
    Moves x event moments y ∧ w = y.world ∧
      (event.Inner ∧ (∀ job, event = .control 0 (.timeout job) → ¬ x.world.Due 0 job) ∨
        x.world.Idle ∧ ∃ time, event = .pass time ∧ x.world.horizon? = some time) := by
  cases h with
  | inner hi h hin =>
      obtain ⟨moments, y, hm, rfl⟩ := moves_of_step h
      exact ⟨_, moments, y, hm, rfl, .inl ⟨hi, hin 0⟩⟩
  | @pass time hi h =>
      exact ⟨_, [], _, .pass (World.horizon?_eq_some.1 h).1.2, rfl, .inr ⟨hi, time, rfl, h⟩⟩

theorem exists_resume (he : e.Answering) (h : Attends x) {job : JobId} (hdue : x.world.Due 0 job) :
    ∃ moments y, Moves x (.resume 0 job) moments y := by
  obtain ⟨stack, call, hstack, hfind, hd⟩ := hdue
  obtain rfl : x.stack = stack := Option.some.inj hstack
  exact exists_resume_of_find he h hfind hd

/-- What a job waits for the engine to do is due later where the engine is not to go on with it now. -/
theorem undue_of_expects (h : Attends x) {id : JobId} {job : Job t.size}
    (hj : x.controller.jobs[id]? = some job) {call : Container.Call} (hexpects : job.Expects call)
    (hdue : ¬ x.world.Due 0 id) : ∃ entry ∈ x.ongoing, entry.job = id ∧ x.now < entry.due := by
  obtain ⟨entry, hm, hentry, hfind⟩ := find?_of_expects h hj hexpects
  exact ⟨entry, hm, hentry, Nat.lt_of_not_le fun hle => hdue ⟨_, entry, rfl, hfind, hle⟩⟩

/-- Where something happens by itself, something happens so in time. -/
theorem exists_inTime (he : e.Answering) (h : Attends x) (hidle : ¬ x.world.Idle) :
    ∃ event moments y, Moves x event moments y ∧ event.Inner ∧
      ∀ job, event = .control 0 (.timeout job) → ¬ x.world.Due 0 job := by
  simp only [World.Idle, not_forall] at hidle
  obtain ⟨event, hi, hs⟩ := hidle
  obtain ⟨w, hw⟩ := Option.ne_none_iff_exists'.1 hs
  by_cases hdue : ∃ job, event = .control 0 (.timeout job) ∧ x.world.Due 0 job
  · obtain ⟨job, -, hdue⟩ := hdue
    obtain ⟨moments, y, hm⟩ := exists_resume he h hdue
    exact ⟨_, moments, y, hm, trivial, by simp⟩
  · obtain ⟨moments, y, hm, -⟩ := moves_of_step hw
    exact ⟨event, moments, y, hm, hi, fun job hj hd => hdue ⟨job, hj, hd⟩⟩

/-- **No path gets stuck** because an answer that is due has to come first. -/
theorem exists_ticksInTime (he : e.Answering) (h : Attends x) (hrest : ¬ x.world.AtRest) :
    ∃ w, x.world.TicksInTime w := by
  obtain ⟨w, hticks⟩ : ∃ w, x.world.Ticks w := by simpa [World.AtRest] using hrest
  by_cases hidle : x.world.Idle
  · cases hticks with
    | inner hi hs =>
        rw [hidle _ hi] at hs
        cases hs
    | pass _ hh => exact ⟨_, .pass hidle hh⟩
  · obtain ⟨event, moments, y, hm, hi, hin⟩ := exists_inTime he h hidle
    refine ⟨y.world, .inner hi (step_of_moves hm) ?_⟩
    rintro k job rfl hd
    cases hm
    exact hin job rfl hd

section

variable (x) (operation : Operation)

/-- A call is made. -/
theorem moves_invoke : Moves x (.control 0 (.invoke operation))
    [x.moment (.invoke operation) [] (x.controller.invoke x.now operation).1]
    (x.after (x.controller.invoke x.now operation).1 []) :=
  have hs : x.controller.step x.now (.invoke operation)
      = some ((x.controller.invoke x.now operation).1, []) := rfl
  .act hs (by simp)

theorem world_invoke : (x.world.invoke 0 operation).1
    = (x.after (x.controller.invoke x.now operation).1 []).world := by
  have hcontrol : x.world.control 0 (.invoke operation)
      = some (x.after (x.controller.invoke x.now operation).1 []).world :=
    step_of_moves (x.moves_invoke operation)
  rw [World.invoke, hcontrol]
  rfl

end

/-- **What every tick in time keeps** of the settings of a run holds when everything has come to rest,
with all jobs at their ends and all calls answered. -/
theorem Run.comes_to_rest {start : Setting e t} {past : List (Moment t)} (ht : t.Built) (he : e.Answering)
    (h : start.Opening) {I : Setting e t → Prop}
    (hkeeps : ∀ {past moments : List (Moment t)} {event : Event} {y z : Setting e t}, Run start past y →
      I y → Moves y event moments z →
      (event.Inner ∧ (∀ job, event = .control 0 (.timeout job) → ¬ y.world.Due 0 job) ∨
        y.world.Idle ∧ ∃ time, event = .pass time ∧ y.world.horizon? = some time) → I z)
    (run : Run start past x) (hx : I x) :
    Inevitably World.TicksInTime (fun w => w.AtRest ∧ ∃ past y, w = y.world ∧ Run start past y ∧ I y ∧
      (∀ (id : JobId) (job : Job t.size), y.controller.jobs[id]? = some job → job.isFinished) ∧
      ∀ (k : Nat) (call : Call t.size), y.controller.calls[k]? = some call → call.answer?.isSome)
      x.world := by
  obtain ⟨config, hconfig⟩ := h.controller
  have hcontroller {past : List (Moment t)} {x : Setting e t} (run : Run start past x) :
      Controller.Run (Controller.fresh t config) past x.controller := hconfig ▸ run.controller
  refine inevitably_of_wf (I := fun y => (∃ past, Run start past y) ∧ I y) wellFounded_less measure ?_ ?_
    ⟨⟨past, run⟩, hx⟩
  · rintro y w ⟨⟨past, run⟩, hy⟩ - hticks
    obtain ⟨event, moments, z, hm, rfl, hi⟩ := ticksInTime_cases hticks
    exact ⟨z, rfl, ⟨⟨_, run.tail hm⟩, hkeeps run hy hm hi⟩,
      less_of_ticks he (run.attends h) (hcontroller run).linked hm (hi.imp_left And.left)⟩
  · rintro y ⟨⟨past, run⟩, hy⟩
    by_cases hrest : y.world.AtRest
    · obtain ⟨hfinished, hanswered⟩ :=
        (hcontroller run).no_deadlock ht (stuck_of_atRest he (run.attends h) hrest)
      refine .inl ⟨hrest, past, y, rfl, run, hy, fun id job hj => ?_, fun k call hk => ?_⟩
      · have hf := hfinished id (Controller.lt_size_of_job hj)
        rwa [Controller.isFinished_of_job hj] at hf
      · obtain ⟨answer, time, hp⟩ := hanswered hk
        simp [Call.answer?, hp]
    · exact .inr (exists_ticksInTime he (run.attends h) hrest)

/-! ## The schedule that a world picks -/

/-- The events among which a world picks. -/
theorem mem_events : event ∈ x.world.events ↔
    (∃ call < x.controller.calls.size, event = .control 0 (.proceed call)) ∨
    (∃ job < x.controller.jobs.size, event = .control 0 (.run job) ∨ event = .control 0 (.heed job)) ∨
    event = .deliver 0 0 ∨ (∃ entry ∈ x.ongoing, event = .resume 0 entry.job) ∨ event = .serve 0 ∨
    (∃ job < x.controller.jobs.size, event = .control 0 (.timeout job)) ∨
    ∃ alarm ∈ x.alarms, event = .ring alarm := by
  simp only [World.events, List.append_assoc, List.mem_append]
  rw [or_iff_right_of_imp]
  · simp [World.stepEvents, World.timeoutEvents, World.stackEvents, world, stack, eq_comm, or_assoc]
  · intro hm
    obtain ⟨alarm, halarm, rfl⟩ := World.exists_alarm_of_mem_earlyEvents hm
    simp [halarm]

/-- **Where a world rests** nothing happens by itself. -/
theorem idle_of_rests (h : x.world.rests) : x.world.Idle := by
  obtain ⟨hnone, hanswers⟩ : x.world.next? = none ∧ x.store.answers = [] := by
    simpa [World.rests, world] using h
  intro event hi
  rw [Option.eq_none_iff_forall_ne_some]
  intro w hw
  refine absurd (List.findSome?_eq_none_iff.1 hnone event (mem_events.2 ?_)) (by simp [hw])
  obtain ⟨moments, y, hm, -⟩ := moves_of_step hw
  cases hm with
  | @act action c effects hs ha =>
      have hjob {id : JobId} (haction : action.job? = some id) : id < x.controller.jobs.size := by
        obtain ⟨old, -, -, -, hj, -⟩ := Controller.turnsTo_of_step haction hs
        exact Controller.lt_size_of_job hj
      cases action with
      | proceed k =>
          obtain ⟨call, hk, -⟩ := Option.bind_eq_some_iff.1 hs
          exact .inl ⟨k, (Array.getElem?_eq_some_iff.1 hk).1, rfl⟩
      | run id => exact .inr (.inl ⟨id, hjob rfl, .inl rfl⟩)
      | heed id => exact .inr (.inl ⟨id, hjob rfl, .inr rfl⟩)
      | timeout id => exact .inr (.inr (.inr (.inr (.inr (.inl ⟨id, hjob rfl, rfl⟩)))))
      | answer job reply => exact absurd rfl (ha job reply)
      | invoke | interrupt => exact hi.elim
  | ring hm => exact .inr (.inr (.inr (.inr (.inr (.inr ⟨_, hm, rfl⟩)))))
  | @reply job call _ _ _ _ hm | @work job call _ _ _ hm =>
      obtain rfl : call.job = job := by simpa using List.find?_some hm
      exact .inr (.inr (.inr (.inl ⟨call, List.mem_of_find?_eq_some hm, rfl⟩)))
  | serve => exact .inr (.inr (.inr (.inr (.inl rfl))))
  | deliver ha | hand ha => simp [hanswers] at ha
  | pass => exact hi.elim

/-- **The event that a world picks** is one in time: the end of a wait comes last. -/
theorem moves_of_next {w : World e} (he : e.Answering) (h : Attends x) (hnext : x.world.next? = some w) :
    ∃ event moments y, Moves x event moments y ∧ w = y.world ∧ event.Inner ∧
      ∀ job, event = .control 0 (.timeout job) → ¬ x.world.Due 0 job := by
  -- The answers of the engine are looked at before the ends of waits.
  obtain ⟨before, after, hevents, hanswers, hwaits⟩ : ∃ before after, x.world.events = before ++ after ∧
      (∀ entry ∈ x.ongoing, .resume 0 entry.job ∈ before) ∧
      ∀ job, .control 0 (.timeout job) ∉ before :=
    ⟨x.world.earlyEvents ++ x.world.stepEvents ++
        (List.range x.world.stores.size).map (fun i => .deliver i 0) ++
        x.world.stackEvents (fun k stack => stack.ongoing.map fun call => .resume k call.job),
      (List.range x.world.stores.size).map .serve ++ x.world.timeoutEvents ++ x.world.alarms.map .ring,
      by simp [World.events],
      fun entry hm => List.mem_append_right _
        (by simpa [World.stackEvents, world, stack] using ⟨entry, hm, rfl⟩),
      by simp [World.stepEvents, World.stackEvents, world, stack]⟩
  obtain ⟨event, hmem, hs, hin⟩ : ∃ event ∈ x.world.events, x.world.step event = some w ∧
      ∀ job, event = .control 0 (.timeout job) → ¬ x.world.Due 0 job := by
    rw [World.next?, hevents, List.findSome?_append] at hnext
    cases hfound : before.findSome? x.world.step with
    | some w' =>
        rw [hfound] at hnext
        obtain ⟨event, hmem, hs⟩ := List.exists_of_findSome?_eq_some hfound
        refine ⟨event, hevents ▸ List.mem_append_left _ hmem, hs.trans hnext, ?_⟩
        rintro job rfl
        exact absurd hmem (hwaits job)
    | none =>
        rw [hfound] at hnext
        obtain ⟨event, hmem, hs⟩ := List.exists_of_findSome?_eq_some hnext
        refine ⟨event, hevents ▸ List.mem_append_right _ hmem, hs, fun job _ hdue => ?_⟩
        obtain ⟨moments, y, hm⟩ := exists_resume he h hdue
        obtain ⟨stack, call, hstack, hfind, -⟩ := hdue
        obtain rfl : x.stack = stack := Option.some.inj hstack
        obtain rfl : call.job = job := by simpa using List.find?_some hfind
        have hnone := List.findSome?_eq_none_iff.1 hfound _
          (hanswers call (List.mem_of_find?_eq_some hfind))
        rw [step_of_moves hm] at hnone
        cases hnone
  obtain ⟨moments, y, hm, rfl⟩ := moves_of_step hs
  refine ⟨event, moments, y, hm, rfl, ?_, hin⟩
  rcases mem_events.1 hmem with ⟨_, -, rfl⟩ | ⟨_, -, rfl | rfl⟩ | rfl | ⟨_, -, rfl⟩ | rfl |
    ⟨_, -, rfl⟩ | ⟨_, -, rfl⟩ <;> trivial

end Setting

end Bringup.Simulation
