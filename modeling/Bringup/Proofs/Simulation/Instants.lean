import Bringup.Proofs.Lifecycle.Answers
import Bringup.Proofs.Simulation.Termination

/-!
# What happens at one instant

The clock of a setting never goes back, so what a call answers along a run it answers at a time
between the two ends of the run (`Run.answer_between`).

A store that takes no time over a request serves what it is asked at the instant at which it is asked
(`Store.Prompt`). So where nothing happens by itself any more nobody waits for it
(`errand_eq_none_of_idle`). A store that takes its time serves what it is asked that long after it is
asked, as long as it is asked one thing at a time (`ServedAt`).
-/

namespace Bringup.Simulation

open Lifecycle

variable {t : Topology} {e : Engine}

/-! ## A store that answers at once -/

/-- The store takes no time over a request, and whatever it still has to serve is due. -/
structure Store.Prompt (now : Nat) (store : Store) : Prop where
  mode : store.mode = .serving 0
  due : store.queue ≠ [] → store.due ≤ now

namespace Store.Prompt

variable {now : Nat} {store store' : Store}

theorem request (h : store.Prompt now) (client : Client) (request : Volume.Request) :
    (store.request now client request).Prompt now := by
  rw [request_of_serving h.mode]
  refine ⟨h.mode, fun _ => ?_⟩
  show (if store.queue = [] then now + 0 else store.due) ≤ now
  split
  next => exact Nat.le_refl _
  next hq => exact h.due hq

theorem hear (h : store.Prompt now) (effects : List Effect) :
    (effects.foldl (Store.hear now) store).Prompt now := by
  induction effects generalizing store with
  | nil => exact h
  | cons effect rest ih =>
      refine ih ?_
      unfold Store.hear
      split
      next => exact h.request _ _
      next => exact h

theorem serve (h : store.Prompt now) (hs : store.serve? now = some store') : store'.Prompt now := by
  unfold Store.serve? at hs
  rw [h.mode] at hs
  split at hs
  next delay client request queue hmode hq =>
    obtain rfl : 0 = delay := by simpa using hmode
    split at hs
    next =>
      obtain rfl := Option.some.inj hs
      exact ⟨rfl, fun _ => Nat.le_refl _⟩
    next => cases hs
  next => cases hs

end Store.Prompt

namespace Setting

variable {start x y : Setting e t} {past moments : List (Moment t)} {event : Event}

/-- Whatever happens, a store that answers at once stays so. -/
theorem Moves.prompt (hm : Moves x event moments y) (h : x.store.Prompt x.now) :
    y.store.Prompt y.now := by
  have hafter {x : Setting e t} (h : x.store.Prompt x.now) (c : Controller t)
      (effects : List Effect) : (x.after c effects).store.Prompt (x.after c effects).now := by
    rw [store_after, now_after]
    exact h.hear effects
  cases hm with
  | act => exact hafter h _ _
  | @ring alarm =>
      exact hafter (x := { x with alarms := x.alarms.erase alarm }) h _ _
  | @reply job _ engine =>
      exact hafter (x := { x with
        engine
        ongoing := x.others job }) h _ _
  | work => exact h
  | serve hs => exact h.serve hs
  | @deliver place =>
      exact hafter (x := { x with
        store := { x.store with answers := x.store.answers.eraseIdx place } }) ⟨h.mode, h.due⟩ _ _
  | hand => exact ⟨h.mode, h.due⟩
  | pass hlt => exact ⟨h.mode, fun hq => Nat.le_trans (h.due hq) (Nat.le_of_lt hlt)⟩

theorem Run.prompt (h : start.Opening) (hstore : start.store.mode = .serving 0)
    (run : Run start past x) : x.store.Prompt x.now :=
  run.invariant ⟨hstore, fun hq => absurd h.queue hq⟩ fun h hm => hm.prompt h

/-- Where nothing happens by itself nobody waits for a store that answers at once. -/
theorem errand_eq_none_of_idle (h : Attends x) (hprompt : x.store.Prompt x.now)
    (hidle : x.world.Idle) {id : Nat} {job : Job t.size} (hj : x.controller.jobs[id]? = some job) :
    job.errand? = none := by
  rw [Option.eq_none_iff_forall_ne_some]
  intro request hr
  obtain ⟨hq, hlt⟩ := due_of_errand h hidle hj hr
  exact Nat.not_le.2 hlt (hprompt.due hq)

/-! ## A store that takes its time -/

/-- How a store treats requests does not change with what it hears. -/
theorem mode_hear (now : Nat) (effects : List Effect) (store : Store) :
    (effects.foldl (Store.hear now) store).mode = store.mode := by
  induction effects generalizing store with
  | nil => rfl
  | cons effect rest ih =>
      refine (ih _).trans ?_
      unfold Store.hear
      split
      next =>
        unfold Store.request
        split <;> rfl
      next => rfl

/-- Whatever happens, the store treats requests as before. -/
theorem Run.mode (run : Run start past x) : x.store.mode = start.store.mode := by
  refine run.invariant (P := fun x => x.store.mode = start.store.mode) rfl fun {x _ _ _} h hm => ?_
  cases hm with
  | act | ring | reply | deliver =>
      exact (congrArg Store.mode (store_after ..)).trans ((mode_hear ..).trans h)
  | serve hs =>
      obtain ⟨_, _, _, -, -, -, -, hmode⟩ := Store.serve?_eq_some hs
      exact hmode.trans h
  | work | hand | pass => exact h

/-- The store has been asked one thing at most, which it serves at that time; where it has nothing to
serve that time has come. -/
structure ServedAt (x : Setting e t) (time : Nat) : Prop where
  single : x.store.queue.length ≤ 1
  now : x.now ≤ time
  due : x.store.queue ≠ [] → x.store.due = time
  reached : x.store.queue = [] → x.now = time

namespace ServedAt

variable {time : Nat}

theorem congr (h : x.ServedAt time) (hnow : y.now = x.now) (hqueue : y.store.queue = x.store.queue)
    (hdue : y.store.due = x.store.due) : y.ServedAt time where
  single := hqueue ▸ h.single
  now := hnow ▸ h.now
  due hq := hdue.trans (h.due (hqueue ▸ hq))
  reached hq := hnow.trans (h.reached (hqueue ▸ hq))

/-- The store serves what it was asked. -/
theorem serve (h : x.ServedAt time) {store : Store} (hs : x.store.serve? x.now = some store) :
    { x with store }.ServedAt time := by
  have hdue := Store.due_of_serve hs
  obtain ⟨client, request, queue, hq, hq', -⟩ := Store.serve?_eq_some hs
  obtain rfl : queue = [] := by simpa [hq] using h.single
  have hnow := h.now
  have htime := h.due (by simp [hq])
  exact ⟨by simp [hq'], h.now, fun hne => absurd hq' hne, fun _ => by show x.now = time; omega⟩

/-- A job asks a store that has nothing to serve. -/
theorem ask {id : JobId} {action : Action} {old new : Job t.size} {slot : Slot} {aside : Aside}
    {effects : List Effect} {delay : Nat} {request : Volume.Request}
    (hmode : x.store.mode = .serving delay) (hq : x.store.queue = [])
    (turn : Turn x.controller x.now id old action new slot aside effects)
    (hr : new.errand? = some request) (htime : x.now + delay = time) (c : Controller t) :
    (x.after c effects).ServedAt time := by
  subst htime
  rcases turn.errand_cases with ⟨asked, -, rfl⟩ | ⟨hnone, -⟩
  · have hstore : (x.after c [.asks id (.volume asked)]).store = { x.store with
        queue := [(.job 0 id, asked)]
        due := x.now + delay } := by
      rw [store_after, List.foldl_cons, List.foldl_nil, Store.hear, Store.request_of_serving hmode, hq]
      rfl
    refine ⟨?_, ?_, fun _ => ?_, fun hnil => ?_⟩
    · rw [hstore]
      exact Nat.le_refl 1
    · rw [now_after]
      exact Nat.le_add_right _ _
    · rw [hstore]
    · rw [hstore] at hnil
      cases hnil
  · rw [hnone] at hr
    cases hr

/-- The clock does not pass the time at which the store serves what a job waits for. -/
theorem pass (h : x.ServedAt time) (hattends : Attends x) (hidle : x.world.Idle) {id : Nat}
    {job : Job t.size} (hj : x.controller.jobs[id]? = some job) {request : Volume.Request}
    (hr : job.errand? = some request) {later : Nat} (hh : x.world.horizon? = some later) :
    { x with now := later }.ServedAt time := by
  obtain ⟨hq, hlt⟩ := due_of_errand hattends hidle hj hr
  obtain ⟨-, hfirst⟩ := World.horizon?_eq_some.1 hh
  have hle : later ≤ x.store.due := hfirst _ (mem_deadlines.2 (.inr (.inr (.inl ⟨hq, rfl⟩)))) hlt
  exact ⟨h.single, h.due hq ▸ hle, h.due, fun hnil => absurd hnil hq⟩

end ServedAt

/-! ## The clock -/

/-- Only the clock itself moves the clock. -/
theorem Moves.now_cases (hm : Moves x event moments y) :
    y.now = x.now ∨ event = .pass y.now ∧ x.now < y.now := by
  cases hm with
  | act | ring | reply | deliver => exact .inl (now_after _ _)
  | work | serve | hand => exact .inl rfl
  | pass hlt => exact .inr ⟨rfl, hlt⟩

theorem Moves.now_eq (hm : Moves x event moments y) (hi : event.Inner) : y.now = x.now :=
  hm.now_cases.resolve_right fun ⟨he, _⟩ => by
    rw [he] at hi
    exact hi

/-- The clock does not go back. -/
theorem Moves.now_le (hm : Moves x event moments y) : x.now ≤ y.now := by
  rcases hm.now_cases with he | ⟨-, hlt⟩
  · exact Nat.le_of_eq he.symm
  · exact Nat.le_of_lt hlt

theorem Run.now_le (run : Run start past x) : start.now ≤ x.now := by
  induction run with
  | refl => exact Nat.le_refl _
  | tail _ hm ih => exact Nat.le_trans ih hm.now_le

/-- **What a call answers along a run** it answers between the two ends of the run. -/
theorem Run.answer_between (run : Run start past x) {k : CallId}
    (hk : k < start.controller.calls.size) {answer : Answer} {time : Nat}
    (hb : start.controller.answer? k = none) (ha : x.controller.answer? k = some (answer, time)) :
    start.now ≤ time ∧ time ≤ x.now := by
  induction run with
  | refl =>
      rw [hb] at ha
      cases ha
  | @tail past moments x y event run hm ih =>
      have hearlier (ha : x.controller.answer? k = some (answer, time)) :
          start.now ≤ time ∧ time ≤ y.now :=
        ⟨(ih ha).1, Nat.le_trans (ih ha).2 hm.now_le⟩
      rcases hm.controller with ⟨-, hc⟩ | ⟨action, c, effects, hs, hc, -⟩
      · exact hearlier (hc ▸ ha)
      · rw [hc] at ha
        obtain ⟨call, hcall⟩ : ∃ call, start.controller.calls[k]? = some call :=
          ⟨_, Array.getElem?_eq_getElem hk⟩
        obtain ⟨call', hcall', -⟩ := run.controller.call_kept hcall
        rcases Controller.answer_of_step hs (Array.getElem?_eq_some_iff.1 hcall').1 ha with ha | rfl
        · exact hearlier ha
        · exact ⟨run.now_le, hm.now_le⟩

end Setting

end Bringup.Simulation
