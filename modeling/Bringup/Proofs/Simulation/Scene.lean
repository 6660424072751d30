import Bringup.Engine.Scripted
import Bringup.Proofs.Simulation.Leads

/-!
# A world with one stack

One stack with an engine that answers from scripts, and a store that nobody else uses. A `Scene` is
such a world taken apart, and `Moves` says what can happen in it as long as all that those outside do
is to call starts: `moves_of_step` reads the step of the world once.
-/

namespace Bringup.Simulation

open Engine (Scripted.State Scripted.Work)
open Lifecycle (Action Controller Effect JobId)

variable {t : Topology}

/-- A stack, its store, and nobody else. -/
structure Scene (t : Topology) where
  controller : Controller t
  engine : Engine.Scripted.State
  ongoing : List (Ongoing Engine.Scripted.Work) := []
  store : Store
  now : Nat := 0

/-- An engine that goes on with what it does for a job answers, or waits again. -/
theorem World.resume_eq_some {e : Engine} {w w' : World e} {k : Nat} {job : JobId}
    (h : w.resume k job = some w') : ∃ stack call, w.members[k]? = some stack ∧
      stack.ongoing.find? (fun call => call.job = job) = some call ∧
      ((∃ engine reply, e.resume stack.engine call.work = (engine, .answer reply) ∧
        (w.setStack k { stack with
          engine
          ongoing := stack.ongoing.filter fun call => call.job ≠ job }).control k
            (.answer job (.container reply)) = some w') ∨
      ∃ engine millis work, e.resume stack.engine call.work = (engine, .wait millis work) ∧
        w' = w.setStack k { stack with
          engine
          ongoing := (stack.ongoing.filter fun call => call.job ≠ job) ++
            [⟨job, w.now + millis, work⟩] }) := by
  unfold World.resume at h
  split at h
  next => cases h
  next stack hk =>
    split at h
    next => cases h
    next call hcall =>
      split at h
      next =>
        dsimp only at h
        split at h
        next engine millis work he =>
          exact ⟨stack, call, hk, hcall, .inr ⟨engine, millis, work, he, (Option.some.inj h).symm⟩⟩
        next engine reply he => exact ⟨stack, call, hk, hcall, .inl ⟨engine, reply, he, h⟩⟩
      next => cases h

namespace Scene

variable (x : Scene t)

/-- The scene as a world. -/
def world : World Engine.Scripted.engine where
  now := x.now
  members := #[{
    topology := t
    controller := x.controller
    engine := x.engine
    ongoing := x.ongoing
    store := 0 }]
  stores := #[x.store]

/-- What the engine works on for other jobs. -/
def others (job : JobId) : List (Ongoing Engine.Scripted.Work) :=
  x.ongoing.filter fun call => call.job ≠ job

/-- Carries to engine and store what the controller shows. -/
def carry (x : Scene t) : Effect → Scene t
  | .asks job (.container call) =>
    let taken := x.engine.take x.now call
    { x with
      engine := taken.1
      ongoing := x.others job ++ [⟨job, x.now + taken.2.1, taken.2.2⟩] }
  | .asks job (.volume request) => { x with store := x.store.request x.now (.job 0 job) request }
  | .withdraws job => { x with ongoing := x.others job }
  | .refusedMove .. => x

/-- The scene after a step of the controller. -/
def after (controller : Controller t) (effects : List Effect) : Scene t :=
  effects.foldl carry { x with controller }

theorem carry_world (effect : Effect) : x.world.carry 0 effect = (x.carry effect).world := by
  cases effect with
  | asks job request => cases request <;> rfl
  | _ => rfl

theorem control_world (action : Action) : x.world.control 0 action
    = (x.controller.step x.now action).map fun step => (x.after step.1 step.2).world := by
  have hcarry (effects : List Effect) (x : Scene t) :
      effects.foldl (fun w effect => w.carry 0 effect) x.world = (effects.foldl carry x).world := by
    induction effects generalizing x with
    | nil => rfl
    | cons effect rest ih => rw [List.foldl_cons, List.foldl_cons, carry_world, ih]
  unfold World.control
  simp only [world, List.getElem?_toArray, List.getElem?_cons_zero]
  cases x.controller.step x.now action with
  | none => rfl
  | some step => exact congrArg some (hcarry step.2 { x with controller := step.1 })

end Scene

/-! ## What can happen -/

open Scene in
/-- What can happen in a scene as long as all that those outside do is to call starts. -/
inductive Moves (x : Scene t) : Scene t → Prop where
  /-- The controller takes a step of its own, or is called. -/
  | act {action : Action} {c : Controller t} {effects : List Effect}
    (hs : x.controller.step x.now action = some (c, effects))
    (ha : ∀ job reply, action ≠ .answer job reply)
    (hi : ∀ operation, action = .invoke operation → operation = .startAll) :
    Moves x (x.after c effects)
  /-- The engine answers. -/
  | reply {call : Ongoing Engine.Scripted.Work} {c : Controller t} {effects : List Effect}
    (hm : call ∈ x.ongoing)
    (hs : x.controller.step x.now (.answer call.job (.container (x.engine.finish call.work).2))
      = some (c, effects)) :
    Moves x ({ x with
      engine := (x.engine.finish call.work).1
      ongoing := x.others call.job }.after c effects)
  | serve {store : Store} (hs : x.store.serve? x.now = some store) : Moves x { x with store }
  /-- An answer of the store reaches its client. -/
  | deliver {place : Nat} {job : JobId} {result : Store.Result} {c : Controller t}
    {effects : List Effect} (ha : x.store.answers[place]? = some (.job 0 job, result))
    (hs : x.controller.step x.now (.answer job (.volume result)) = some (c, effects)) :
    Moves x ({ x with
      store := { x.store with answers := x.store.answers.eraseIdx place } }.after c effects)
  | pass {time : Nat} : Moves x { x with now := time }

namespace Scene

variable {x : Scene t} {w : World Engine.Scripted.engine}

theorem members_ne {k : Nat} (hk : k ≠ 0) : x.world.members[k]? = none :=
  Array.getElem?_eq_none (Nat.pos_of_ne_zero hk)

theorem stores_ne {i : Nat} (hi : i ≠ 0) : x.world.stores[i]? = none :=
  Array.getElem?_eq_none (Nat.pos_of_ne_zero hi)

theorem control_ne {k : Nat} (hk : k ≠ 0) (action : Action) : x.world.control k action = none := by
  unfold World.control
  rw [members_ne hk]

/-- The number of the stack is zero, and the controller takes a step. -/
theorem control_eq_some {k : Nat} {action : Action} (h : x.world.control k action = some w) :
    k = 0 ∧ ∃ c effects, x.controller.step x.now action = some (c, effects) ∧
      w = (x.after c effects).world := by
  by_cases hk : k = 0
  · subst hk
    rw [control_world] at h
    obtain ⟨⟨c, effects⟩, hs, rfl⟩ := Option.map_eq_some_iff.1 h
    exact ⟨rfl, c, effects, hs, rfl⟩
  · rw [control_ne hk] at h
    cases h

theorem resume_moves {k : Nat} {job : JobId} (h : x.world.resume k job = some w) :
    ∃ y, Moves x y ∧ w = y.world := by
  obtain ⟨stack, call, hk, hcall, h⟩ := World.resume_eq_some h
  by_cases h0 : k = 0
  · subst h0
    obtain rfl := Option.some.inj hk
    obtain rfl : call.job = job := by simpa using List.find?_some hcall
    rcases h with ⟨engine, reply, he, h⟩ | ⟨engine, millis, work, he, h⟩
    · obtain ⟨rfl, hr⟩ := Prod.mk.inj he
      obtain rfl := Engine.Next.answer.inj hr
      have hy : (Scene.world { x with
          engine := (x.engine.finish call.work).1
          ongoing := x.others call.job }).control 0
            (.answer call.job (.container (x.engine.finish call.work).2)) = some w := h
      obtain ⟨-, c, effects, hs, rfl⟩ := control_eq_some hy
      exact ⟨_, .reply (List.mem_of_find?_eq_some hcall) hs, rfl⟩
    · -- A scripted engine that goes on with its work answers.
      cases (Prod.mk.inj he).2
  · rw [members_ne h0] at hk
    cases hk

theorem deliver_moves {i place : Nat} (hv : ∀ a ∈ x.store.answers, a.1 ≠ .visitor)
    (h : x.world.deliver i place = some w) : ∃ y, Moves x y ∧ w = y.world := by
  unfold World.deliver at h
  by_cases hi : i = 0
  · subst hi
    simp only [world, List.getElem?_toArray, List.getElem?_cons_zero] at h
    split at h
    next => cases h
    next client result ha =>
      split at h
      next => exact absurd rfl (hv _ (List.mem_of_getElem? ha))
      next k job =>
        let y : Scene t := { x with
          store := { x.store with answers := x.store.answers.eraseIdx place } }
        have hy : y.world.control k (.answer job (.volume result)) = some w := h
        obtain ⟨rfl, c, effects, hs, rfl⟩ := control_eq_some hy
        exact ⟨_, .deliver ha hs, rfl⟩
  · rw [stores_ne hi] at h
    cases h

/-- **Everything that can happen is a move.** -/
theorem moves_of_step {event : Event} (hv : ∀ a ∈ x.store.answers, a.1 ≠ .visitor)
    (he : event.Starts) (h : x.world.step event = some w) : ∃ y, Moves x y ∧ w = y.world := by
  cases event with
  | control k action =>
      have hanswer (job reply) : action ≠ .answer job reply := by
        rintro rfl
        cases h
      have hcontrol : x.world.control k action = some w := by
        cases action with
        | answer job reply => exact absurd rfl (hanswer job reply)
        | _ => exact h
      obtain ⟨-, c, effects, hs, rfl⟩ := control_eq_some hcontrol
      refine ⟨_, .act hs hanswer ?_, rfl⟩
      intro operation ho
      subst ho
      exact he
  | resume k job => exact resume_moves h
  | serve i =>
      simp only [World.step] at h
      by_cases hi : i = 0
      · subst hi
        simp only [world, List.getElem?_toArray, List.getElem?_cons_zero] at h
        obtain ⟨store, hs, rfl⟩ := Option.map_eq_some_iff.1 h
        exact ⟨_, .serve hs, rfl⟩
      · rw [stores_ne hi] at h
        cases h
  | deliver i place => exact deliver_moves hv h
  | ring alarm => exact absurd h (by simp [World.step, world])
  | pass time =>
      simp only [World.step] at h
      split at h
      next =>
        obtain rfl := Option.some.inj h
        exact ⟨_, .pass, rfl⟩
      next => cases h

end Scene

end Bringup.Simulation
