import Bringup.Proofs.Lifecycle.Runs
import Bringup.Proofs.Simulation.Exchange
import Bringup.Proofs.Simulation.VirtualClock

/-!
# A controller in its setting

A world with one stack and one store, taken apart: the controller, an engine of any kind with what it
works on, the store, the clock, and the interrupts that are going to happen. `Moves` lists what can
happen in it, together with the step that the controller takes in it if it takes one, and
`step_iff_moves` says that this is just what can happen in the world. So a run of the setting is a run
of the world and of the controller at once (`Setting.Run.controller`).
-/

namespace Bringup.Simulation

open Lifecycle (Action Controller Effect JobId Moment)

variable {t : Topology} {e : Engine}

/-- A controller, the engine that runs its containers, the store of its volumes, and the clock. -/
structure Setting (e : Engine) (t : Topology) where
  controller : Controller t
  engine : e.State
  ongoing : List (Ongoing e.Work) := []
  store : Store := {}
  now : Nat := 0
  alarms : List Alarm := []
  received : List Store.Result := []

namespace Setting

variable (x : Setting e t)

/-- The stack of the setting. -/
def stack : Stack e where
  topology := t
  controller := x.controller
  engine := x.engine
  ongoing := x.ongoing
  store := 0

/-- The setting as a world. -/
def world : World e where
  now := x.now
  members := #[x.stack]
  stores := #[x.store]
  alarms := x.alarms
  received := x.received

/-- What the engine works on for other jobs. -/
def others (job : JobId) : List (Ongoing e.Work) := x.ongoing.filter fun call => call.job ≠ job

/-- Carries to engine and store what the controller shows. -/
def carry (x : Setting e t) : Effect → Setting e t
  | .asks job (.container call) =>
    let taken := e.take x.engine x.now call
    { x with
      engine := taken.1
      ongoing := x.others job ++ [⟨job, x.now + taken.2.1, taken.2.2⟩] }
  | .asks job (.volume request) => { x with store := x.store.request x.now (.job 0 job) request }
  | .withdraws job => { x with ongoing := x.others job }
  | .refusedMove .. => x

/-- The setting after a step of the controller. -/
def after (controller : Controller t) (effects : List Effect) : Setting e t :=
  effects.foldl carry { x with controller }

/-- A step of the controller as a moment of its run. -/
def moment (action : Action) (effects : List Effect) (c : Controller t) : Moment t :=
  ⟨x.controller, x.now, action, effects, c⟩

end Setting

/-! ## What can happen -/

/-- An engine goes on only with what is due. -/
theorem World.due_of_resume {w w' : World e} {k : Nat} {job : JobId}
    (h : w.resume k job = some w') : ∃ stack call, w.members[k]? = some stack ∧
      stack.ongoing.find? (fun call => call.job = job) = some call ∧ call.due ≤ w.now := by
  unfold World.resume at h
  split at h
  next => cases h
  next stack hk =>
    split at h
    next => cases h
    next call hcall =>
      split at h
      next hd => exact ⟨stack, call, hk, hcall, hd⟩
      next => cases h

/-- What can happen in a setting, with the steps that its controller takes in it, one at most. -/
inductive Setting.Moves (x : Setting e t) : Event → List (Moment t) → Setting e t → Prop where
  /-- The controller takes a step that is no answer. -/
  | act {action : Action} {c : Controller t} {effects : List Effect}
    (hs : x.controller.step x.now action = some (c, effects))
    (ha : ∀ job reply, action ≠ .answer job reply) :
    Moves x (.control 0 action) [x.moment action effects c] (x.after c effects)
  /-- An interrupt happens. -/
  | ring {alarm : Alarm} {c : Controller t} {effects : List Effect} (hm : alarm ∈ x.alarms)
    (hd : alarm.due ≤ x.now) (hk : alarm.stack = 0)
    (hs : x.controller.step x.now (.interrupt alarm.call) = some (c, effects)) :
    Moves x (.ring alarm) [x.moment (.interrupt alarm.call) effects c]
      ({ x with alarms := x.alarms.erase alarm }.after c effects)
  /-- The engine answers. -/
  | reply {job : JobId} {call : Ongoing e.Work} {engine : e.State} {reply : Container.Reply}
    {c : Controller t} {effects : List Effect}
    (hm : x.ongoing.find? (fun call => call.job = job) = some call) (hd : call.due ≤ x.now)
    (he : e.resume x.engine call.work = (engine, .answer reply))
    (hs : x.controller.step x.now (.answer job (.container reply)) = some (c, effects)) :
    Moves x (.resume 0 job) [x.moment (.answer job (.container reply)) effects c]
      ({ x with
        engine
        ongoing := x.others job }.after c effects)
  /-- The engine goes on with its work, and waits again. -/
  | work {job : JobId} {call : Ongoing e.Work} {engine : e.State} {millis : Nat} {work : e.Work}
    (hm : x.ongoing.find? (fun call => call.job = job) = some call) (hd : call.due ≤ x.now)
    (he : e.resume x.engine call.work = (engine, .wait millis work)) :
    Moves x (.resume 0 job) [] { x with
      engine
      ongoing := x.others job ++ [⟨job, x.now + millis, work⟩] }
  | serve {store : Store} (hs : x.store.serve? x.now = some store) :
    Moves x (.serve 0) [] { x with store }
  /-- An answer of the store reaches the job that asked. -/
  | deliver {place : Nat} {job : JobId} {result : Store.Result} {c : Controller t}
    {effects : List Effect} (ha : x.store.answers[place]? = some (.job 0 job, result))
    (hs : x.controller.step x.now (.answer job (.volume result)) = some (c, effects)) :
    Moves x (.deliver 0 place) [x.moment (.answer job (.volume result)) effects c]
      ({ x with
        store := { x.store with answers := x.store.answers.eraseIdx place } }.after c effects)
  /-- An answer of the store reaches somebody outside. -/
  | hand {place : Nat} {result : Store.Result}
    (ha : x.store.answers[place]? = some (.visitor, result)) :
    Moves x (.deliver 0 place) [] { x with
      store := { x.store with answers := x.store.answers.eraseIdx place }
      received := result :: x.received }
  | pass {time : Nat} (h : x.now < time) : Moves x (.pass time) [] { x with now := time }

namespace Setting

variable {x y : Setting e t} {w : World e} {event : Event} {moments : List (Moment t)}

theorem carry_world (x : Setting e t) (effect : Effect) :
    x.world.carry 0 effect = (x.carry effect).world := by
  cases effect with
  | asks job request => cases request <;> rfl
  | _ => rfl

theorem control_world (x : Setting e t) (action : Action) : x.world.control 0 action
    = (x.controller.step x.now action).map fun step => (x.after step.1 step.2).world := by
  have hcarry (effects : List Effect) (x : Setting e t) :
      effects.foldl (fun w effect => w.carry 0 effect) x.world = (effects.foldl carry x).world := by
    induction effects generalizing x with
    | nil => rfl
    | cons effect rest ih => rw [List.foldl_cons, List.foldl_cons, carry_world, ih]
  unfold World.control
  simp only [world, List.getElem?_toArray, List.getElem?_cons_zero, stack]
  cases x.controller.step x.now action with
  | none => rfl
  | some step => exact congrArg some (hcarry step.2 { x with controller := step.1 })

theorem members_ne {k : Nat} (hk : k ≠ 0) : x.world.members[k]? = none :=
  Array.getElem?_eq_none (Nat.pos_of_ne_zero hk)

theorem stores_ne {i : Nat} (hi : i ≠ 0) : x.world.stores[i]? = none :=
  Array.getElem?_eq_none (Nat.pos_of_ne_zero hi)

/-- The number of the stack is zero, and the controller takes a step. -/
theorem control_eq_some {k : Nat} {action : Action} (h : x.world.control k action = some w) :
    k = 0 ∧ ∃ c effects, x.controller.step x.now action = some (c, effects) ∧
      w = (x.after c effects).world := by
  by_cases hk : k = 0
  · subst hk
    rw [control_world] at h
    obtain ⟨⟨c, effects⟩, hs, rfl⟩ := Option.map_eq_some_iff.1 h
    exact ⟨rfl, c, effects, hs, rfl⟩
  · unfold World.control at h
    rw [members_ne hk] at h
    cases h

theorem control_of_step {action : Action} {c : Controller t} {effects : List Effect}
    (hs : x.controller.step x.now action = some (c, effects)) :
    x.world.control 0 action = some (x.after c effects).world := by
  rw [control_world, hs]
  rfl

theorem resume_moves {k : Nat} {job : JobId} (h : x.world.resume k job = some w) :
    ∃ moments y, Moves x (.resume k job) moments y ∧ w = y.world := by
  obtain ⟨stack', call', hk', hcall', hd⟩ := World.due_of_resume h
  obtain ⟨stack, call, hk, hcall, h⟩ := World.resume_eq_some h
  obtain rfl : stack' = stack := Option.some.inj (hk'.symm.trans hk)
  obtain rfl : call' = call := Option.some.inj (hcall'.symm.trans hcall)
  by_cases h0 : k = 0
  · subst h0
    obtain rfl := Option.some.inj hk
    rcases h with ⟨engine, reply, he, h⟩ | ⟨engine, millis, work, he, rfl⟩
    · have hy : (Setting.world { x with
          engine
          ongoing := x.others job }).control 0 (.answer job (.container reply)) = some w := h
      obtain ⟨-, c, effects, hs, rfl⟩ := control_eq_some hy
      exact ⟨_, _, .reply hcall hd he hs, rfl⟩
    · exact ⟨_, _, .work hcall hd he, rfl⟩
  · rw [members_ne h0] at hk
    cases hk

theorem deliver_moves {i place : Nat} (h : x.world.deliver i place = some w) :
    ∃ moments y, Moves x (.deliver i place) moments y ∧ w = y.world := by
  unfold World.deliver at h
  by_cases hi : i = 0
  · subst hi
    simp only [world, List.getElem?_toArray, List.getElem?_cons_zero] at h
    split at h
    next => cases h
    next client result ha =>
      split at h
      next =>
        obtain rfl := Option.some.inj h
        exact ⟨_, _, .hand ha, rfl⟩
      next k job =>
        let y : Setting e t := { x with
          store := { x.store with answers := x.store.answers.eraseIdx place } }
        have hy : y.world.control k (.answer job (.volume result)) = some w := h
        obtain ⟨rfl, c, effects, hs, rfl⟩ := control_eq_some hy
        exact ⟨_, _, .deliver ha hs, rfl⟩
  · rw [stores_ne hi] at h
    cases h

theorem moves_of_step (h : x.world.step event = some w) :
    ∃ moments y, Moves x event moments y ∧ w = y.world := by
  cases event with
  | control k action =>
      have hanswer (job reply) : action ≠ .answer job reply := by
        rintro rfl
        cases h
      have hcontrol : x.world.control k action = some w := by
        cases action with
        | answer job reply => exact absurd rfl (hanswer job reply)
        | _ => exact h
      obtain ⟨rfl, c, effects, hs, rfl⟩ := control_eq_some hcontrol
      exact ⟨_, _, .act hs hanswer, rfl⟩
  | resume k job => exact resume_moves h
  | serve i =>
      simp only [World.step] at h
      by_cases hi : i = 0
      · subst hi
        simp only [world, List.getElem?_toArray, List.getElem?_cons_zero] at h
        obtain ⟨store, hs, rfl⟩ := Option.map_eq_some_iff.1 h
        exact ⟨_, _, .serve hs, rfl⟩
      · rw [stores_ne hi] at h
        cases h
  | deliver i place => exact deliver_moves h
  | ring alarm =>
      simp only [World.step] at h
      split at h
      next ha =>
        have hy : (Setting.world { x with alarms := x.alarms.erase alarm }).control alarm.stack
          (.interrupt alarm.call) = some w := h
        obtain ⟨hk, c, effects, hs, rfl⟩ := control_eq_some hy
        exact ⟨_, _, .ring ha.1 ha.2 hk hs, rfl⟩
      next => cases h
  | pass time =>
      simp only [World.step] at h
      split at h
      next hlt =>
        obtain rfl := Option.some.inj h
        exact ⟨_, _, .pass hlt, rfl⟩
      next => cases h

theorem step_of_moves (h : Moves x event moments y) : x.world.step event = some y.world := by
  cases h with
  | @act action _ _ hs ha =>
      cases action with
      | answer job reply => exact absurd rfl (ha job reply)
      | _ => exact control_of_step hs
  | @ring alarm c effects hm hd hk hs =>
      have hcontrol : (Setting.world { x with alarms := x.alarms.erase alarm }).control 0
        (.interrupt alarm.call) = _ := control_of_step hs
      rw [← hk] at hcontrol
      simp only [World.step]
      exact (if_pos ⟨hm, hd⟩).trans hcontrol
  | @reply job call engine reply c effects hm hd he hs =>
      have hcontrol : (Setting.world { x with
        engine
        ongoing := x.others job }).control 0 (.answer job (.container reply)) = _ :=
          control_of_step hs
      simp only [World.step, World.resume, world, stack, List.getElem?_toArray,
        List.getElem?_cons_zero, hm, hd, if_true, he]
      exact hcontrol
  | work hm hd he =>
      simp only [World.step, World.resume, world, stack, List.getElem?_toArray,
        List.getElem?_cons_zero, hm, hd, if_true, he]
      rfl
  | serve hs =>
      simp only [World.step, world, List.getElem?_toArray, List.getElem?_cons_zero, hs]
      rfl
  | @deliver place job result c effects ha hs =>
      have hcontrol : (Setting.world { x with
        store := { x.store with answers := x.store.answers.eraseIdx place } }).control 0
          (.answer job (.volume result)) = _ := control_of_step hs
      simp only [World.step, World.deliver, world, List.getElem?_toArray, List.getElem?_cons_zero, ha]
      exact hcontrol
  | hand ha =>
      simp only [World.step, World.deliver, world, List.getElem?_toArray, List.getElem?_cons_zero, ha]
      rfl
  | pass h => exact if_pos h

/-- **What can happen in the world** is what can happen in the setting. -/
theorem step_iff_moves :
    x.world.step event = some w ↔ ∃ moments y, Moves x event moments y ∧ w = y.world := by
  constructor
  · exact moves_of_step
  · rintro ⟨moments, y, h, rfl⟩
    exact step_of_moves h

end Setting

/-! ## Runs -/

namespace Setting

/-- A run between two settings, with the steps that the controller takes in it, the latest first. -/
inductive Run (start : Setting e t) : List (Moment t) → Setting e t → Prop where
  | refl : Run start [] start
  | tail {past moments : List (Moment t)} {x y : Setting e t} {event : Event}
    (run : Run start past x) (h : Moves x event moments y) : Run start (moments ++ past) y

variable {start x y : Setting e t} {past moments : List (Moment t)} {event : Event}

@[simp] theorem controller_carry (effect : Effect) : (x.carry effect).controller = x.controller := by
  cases effect with
  | asks job request => cases request <;> rfl
  | _ => rfl

@[simp] theorem now_carry (effect : Effect) : (x.carry effect).now = x.now := by
  cases effect with
  | asks job request => cases request <;> rfl
  | _ => rfl

@[simp] theorem alarms_carry (effect : Effect) : (x.carry effect).alarms = x.alarms := by
  cases effect with
  | asks job request => cases request <;> rfl
  | _ => rfl

@[simp] theorem action_moment (action : Action) (effects : List Effect) (c : Controller t) :
    (x.moment action effects c).action = action := rfl

/-- What the controller shows changes engine and store only. -/
theorem after_eq (c : Controller t) (effects : List Effect) : (x.after c effects).controller = c ∧
    (x.after c effects).now = x.now ∧ (x.after c effects).alarms = x.alarms := by
  have hfold (x : Setting e t) : (effects.foldl carry x).controller = x.controller ∧
      (effects.foldl carry x).now = x.now ∧ (effects.foldl carry x).alarms = x.alarms := by
    induction effects generalizing x with
    | nil => exact ⟨rfl, rfl, rfl⟩
    | cons effect rest ih => simpa using ih (x.carry effect)
  exact hfold _

@[simp] theorem controller_after (c : Controller t) (effects : List Effect) :
    (x.after c effects).controller = c := (after_eq c effects).1

@[simp] theorem now_after (c : Controller t) (effects : List Effect) :
    (x.after c effects).now = x.now := (after_eq c effects).2.1

@[simp] theorem alarms_after (c : Controller t) (effects : List Effect) :
    (x.after c effects).alarms = x.alarms := (after_eq c effects).2.2

/-- Whatever happens, the controller takes one step, or it stays as it is. -/
theorem Moves.controller (h : Moves x event moments y) :
    (moments = [] ∧ y.controller = x.controller) ∨ ∃ action c effects,
      x.controller.step x.now action = some (c, effects) ∧ y.controller = c ∧
        moments = [x.moment action effects c] := by
  cases h with
  | act hs | ring _ _ _ hs | reply _ _ _ hs | deliver _ hs =>
      exact .inr ⟨_, _, _, hs, controller_after _ _, rfl⟩
  | work | serve | hand | pass => exact .inl ⟨rfl, rfl⟩

namespace Run

/-- **A run of a setting is a run of its controller.** -/
theorem controller (run : Run start past x) :
    Controller.Run start.controller past x.controller := by
  induction run with
  | refl => exact .refl
  | tail _ h ih =>
      rcases h.controller with ⟨rfl, hc⟩ | ⟨action, c, effects, hs, hc, rfl⟩
      · rw [hc]
        exact ih
      · rw [hc]
        exact ih.tail hs

theorem trans (run : Run start past x) {later : List (Moment t)} (rest : Run x later y) :
    Run start (later ++ past) y := by
  induction rest with
  | refl => exact run
  | tail _ h ih =>
      rw [List.append_assoc]
      exact ih.tail h

/-- What holds at the start and survives whatever happens holds at the end. -/
theorem invariant {P : Setting e t → Prop} (run : Run start past x) (hstart : P start)
    (keep : ∀ {x y : Setting e t} {event moments}, P x → Moves x event moments y → P y) : P x := by
  induction run with
  | refl => exact hstart
  | tail _ h ih => exact keep ih h

/-- A run of a setting is a run of its world. -/
theorem world (run : Run start past x) : ∃ before, World.Run start.world before x.world := by
  induction run with
  | refl => exact ⟨[], .refl⟩
  | @tail _ _ y _ _ _ h ih =>
      obtain ⟨before, ih⟩ := ih
      exact ⟨_ :: before, ih.tail (step_of_moves h)⟩

/-- A run of the world of a setting is a run of the setting. -/
theorem of_world {before : List (World e)} {w : World e} (run : World.Run start.world before w) :
    ∃ past y, Run start past y ∧ w = y.world := by
  induction run with
  | refl => exact ⟨[], start, .refl, rfl⟩
  | tail _ h ih =>
      obtain ⟨past, x, run, rfl⟩ := ih
      obtain ⟨moments, y, hm, rfl⟩ := moves_of_step h
      exact ⟨moments ++ past, y, run.tail hm, rfl⟩

end Run

/-- A run whose end shows something that was looked up by playing it. -/
theorem exists_run (start : Setting e t) (events : List Event) (shows : World e → Bool)
    (h : (World.play [] start.world events).any fun (_, w) => shows w) :
    ∃ past x, Run start past x ∧ shows x.world := by
  obtain ⟨before, w, run, hshows⟩ := World.exists_run start.world events (fun _ w => shows w) h
  obtain ⟨past, x, hrun, rfl⟩ := Run.of_world run
  exact ⟨past, x, hrun, hshows⟩

/-- A run whose end shows something that was looked up by playing it, with what is known of all steps
that its events make the controller take. -/
theorem exists_run_all {Q : Moment t → Prop} (start : Setting e t) (events : List Event)
    (hQ : ∀ {x y : Setting e t} {event moments}, event ∈ events → Moves x event moments y →
      ∀ m ∈ moments, Q m) (shows : World e → Bool)
    (h : (World.play [] start.world events).any fun (_, w) => shows w) :
    ∃ past x, Run start past x ∧ (∀ m ∈ past, Q m) ∧ shows x.world := by
  have hplay (rest : List Event) (hrest : rest ⊆ events) {before after : List (World e)}
      {past : List (Moment t)} {x : Setting e t} {w : World e} (run : Run start past x)
      (hpast : ∀ m ∈ past, Q m) (hw : World.play before x.world rest = some (after, w)) :
      ∃ past y, Run start past y ∧ (∀ m ∈ past, Q m) ∧ w = y.world := by
    induction rest generalizing before past x with
    | nil =>
        obtain ⟨-, rfl⟩ := by simpa [World.play] using hw
        exact ⟨past, x, run, hpast, rfl⟩
    | cons event rest ih =>
        rw [World.play] at hw
        split at hw
        next hs =>
          obtain ⟨moments, y, hm, rfl⟩ := moves_of_step hs
          have hmoments := hQ (hrest List.mem_cons_self) hm
          exact ih (fun _ h => hrest (List.mem_cons_of_mem _ h)) (run.tail hm)
            (fun m hmem => (List.mem_append.1 hmem).elim (hmoments m) (hpast m)) hw
        next => cases hw
  obtain ⟨⟨after, w⟩, hw, hshows⟩ := (Option.any_eq_true _ _).1 h
  obtain ⟨past, y, run, hpast, rfl⟩ := hplay events (List.Subset.refl _) .refl (by simp) hw
  exact ⟨past, y, run, hpast, hshows⟩

/-! ## Ticks of a setting -/

/-- What is due in a setting. -/
theorem mem_deadlines {due : Nat} : due ∈ x.world.deadlines ↔
    (∃ call ∈ x.ongoing, call.due = due) ∨
    (∃ (id : Nat) (job : Lifecycle.Job t.size),
      x.controller.jobs[id]? = some job ∧ job.deadline? = some due) ∨
    (x.store.queue ≠ [] ∧ x.store.due = due) ∨
    ∃ alarm ∈ x.alarms, x.world.isPending alarm ∧ alarm.due = due := by
  have hjobs : (∃ job ∈ x.controller.jobs, job.deadline? = some due) ↔
      ∃ (id : Nat) (job : Lifecycle.Job t.size),
        x.controller.jobs[id]? = some job ∧ job.deadline? = some due := by
    constructor
    · rintro ⟨job, hm, hd⟩
      obtain ⟨id, hid⟩ := Array.mem_iff_getElem?.1 hm
      exact ⟨id, job, hid, hd⟩
    · rintro ⟨id, job, hid, hd⟩
      exact ⟨job, Array.mem_of_getElem? hid, hd⟩
  have hstore : x.store.deadline? = some due ↔ x.store.queue ≠ [] ∧ x.store.due = due := by
    unfold Store.deadline?
    split <;> simp_all
  simp only [World.deadlines, world, stack, List.mem_append, List.mem_flatMap, List.mem_map,
    List.mem_filterMap, List.mem_filter, List.mem_singleton, exists_eq_left, Array.mem_toList_iff,
    hjobs, or_assoc, hstore, and_assoc]

/-- What a tick makes of a setting: something happens by itself, or time passes. -/
theorem ticks_cases {w : World e} (h : x.world.Ticks w) : ∃ event moments y,
    Moves x event moments y ∧ w = y.world ∧ (event.Inner ∨ x.world.Idle ∧
      ∃ time, event = .pass time ∧ x.world.horizon? = some time) := by
  cases h with
  | inner hi h =>
      obtain ⟨moments, y, hm, rfl⟩ := moves_of_step h
      exact ⟨_, moments, y, hm, rfl, .inl hi⟩
  | @pass time hi h =>
      exact ⟨_, [], _, .pass (World.horizon?_eq_some.1 h).1.2, rfl, .inr ⟨hi, time, rfl, h⟩⟩

end Setting

end Bringup.Simulation
