import Bringup.Simulation.World

/-!
# One run of a world

Of all the runs a world has, `advance` picks one: as long as something can happen now it happens, and
only then the clock moves, to the next moment at which something is due. At one moment the jobs and
calls come first, then answers of stores, engines and stores in this order, and last what waits for a
time; so what is done in time is never too late. Only an interrupt that finds a start not begun comes
before all of these.
-/

namespace Bringup.Simulation

open Lifecycle (CallId)

namespace World

variable {e : Engine} (w : World e)

/-! ### What can happen -/

/-- The events of all stacks of a kind that is listed for each of them. -/
def stackEvents (f : Nat → Stack e → List Event) : List Event :=
  w.members.toList.zipIdx.flatMap fun (stack, k) => f k stack

/-- The next steps of calls and jobs. -/
def stepEvents : List Event :=
  w.stackEvents fun k stack =>
    (List.range stack.controller.calls.size).map (fun call => .control k (.proceed call)) ++
    (List.range stack.controller.jobs.size).flatMap fun job =>
      [.control k (.run job), .control k (.heed job)]

/-- The moments for which jobs wait. -/
def timeoutEvents : List Event :=
  w.stackEvents fun k stack =>
    (List.range stack.controller.jobs.size).map fun job => .control k (.timeout job)

/-- Whether an interrupt finds a start that has not begun. -/
def isEarly (alarm : Alarm) : Bool :=
  (w.members[alarm.stack]?).any fun stack =>
    (stack.controller.calls[alarm.call]?).any fun call => call.phase matches .beginning

/-- The interrupts that find a start that has not begun. -/
def earlyEvents : List Event := (w.alarms.filter w.isEarly).map .ring

theorem exists_alarm_of_mem_earlyEvents {w : World e} {event : Event} (h : event ∈ w.earlyEvents) :
    ∃ alarm ∈ w.alarms, event = .ring alarm := by
  obtain ⟨alarm, hm, rfl⟩ := List.mem_map.1 h
  exact ⟨alarm, (List.mem_filter.1 hm).1, rfl⟩

@[simp] theorem control_notMem_earlyEvents {w : World e} (k : Nat) (action : Lifecycle.Action) :
    .control k action ∉ w.earlyEvents := by
  simp [earlyEvents]

/-- The events among which the next one is, those that come first in front. -/
def events : List Event :=
  let stores := List.range w.stores.size
  w.earlyEvents ++ w.stepEvents ++ stores.map (fun i => .deliver i 0) ++
    w.stackEvents (fun k stack => stack.ongoing.map fun call => .resume k call.job) ++
    stores.map .serve ++ w.timeoutEvents ++ w.alarms.map .ring

/-- The world after the next event at this moment, if there is one. -/
def next? : Option (World e) := w.events.findSome? w.step

/-! ### The clock -/

/-- Whether an interrupt still finds a call to interrupt. -/
def isPending (alarm : Alarm) : Bool :=
  match w.members[alarm.stack]? with
  | some stack => (stack.controller.answer? alarm.call).isNone
  | none => false

/-- The moments at which something is due. -/
def deadlines : List Nat :=
  (w.members.toList.flatMap fun stack =>
    stack.ongoing.map Ongoing.due ++
      stack.controller.jobs.toList.filterMap Lifecycle.Job.deadline?) ++
    w.stores.toList.filterMap Store.deadline? ++ (w.alarms.filter w.isPending).map Alarm.due

/-- The next moment at which something is due. -/
def horizon? : Option Nat := (w.deadlines.filter (w.now < ·)).min?

/-! ### Running -/

/-- A bound on the events that one stack may still see. -/
def stackLoad (stack : Stack e) : Nat :=
  let c := stack.controller
  let size := stack.topology.size
  let attempts := c.config.retry.maxAttempts.toNat
  (c.jobs.size + 8 * (size + 1) * (c.calls.size + 1)) *
    (32 + 2 * size + 8 * stack.topology.volumes.length + 8 * attempts)

/-- A bound on the events that the world may still see. -/
def load : Nat :=
  w.members.foldl (fun n stack => n + stackLoad stack) 0 +
    2 * w.stores.foldl (fun n store => n + store.queue.length) 0 + w.alarms.length + 1

/-- Lets up to `count` events happen at this moment. -/
def settleIn (w : World e) : (count : Nat) → World e
  | 0 => w
  | count + 1 =>
    match w.next? with
    | some w => settleIn w count
    | none => w

/-- Lets everything happen that can happen at this moment. -/
def settle : World e := w.settleIn w.load

/-- Moves the clock up to `count` times, until something holds or nothing is due before a limit. -/
def advanceIn (done : World e → Bool) (limit : Option Nat) (w : World e) : (count : Nat) → World e
  | 0 => w
  | count + 1 =>
    if done w then w
    else
      match w.horizon? with
      | none => w
      | some time =>
        if limit.any (· < time) then w
        else advanceIn done limit { w with now := time }.settle count

/-- Lets time pass until something holds, or nothing is due before a limit. -/
def advance (done : World e → Bool) (limit : Option Nat) : World e :=
  let w := w.settle
  w.advanceIn done limit w.load

/-- Lets so many milliseconds pass. -/
def sleep (millis : Nat) : World e :=
  let limit := w.now + millis
  { w.advance (fun _ => false) (some limit) with now := limit }.settle

/-- Makes a call to the controller of a stack, and tells its number. -/
def invoke (k : Nat) (operation : Lifecycle.Operation) : World e × CallId :=
  let call := ((w.members[k]?).map fun stack => (stack.controller.invoke w.now operation).2).getD 0
  ((w.control k (.invoke operation)).getD w, call)

/-- What a call of a stack has handed back, and when. -/
def answer? (k : Nat) (call : CallId) : Option (Lifecycle.Answer × Nat) :=
  (w.members[k]?).bind fun stack => stack.controller.answer? call

/-- Lets time pass until a call has answered. -/
def await (k : Nat) (call : CallId) : World e :=
  w.advance (fun w => (w.answer? k call).isSome) none

/-- Puts a request to the store of a stack and lets time pass until it is answered. -/
def ask (k : Nat) (request : Volume.Request) : World e :=
  match w.members[k]? with
  | none => w
  | some stack =>
    let before := w.received.length
    let w := w.modifyStore stack.store fun store => store.request w.now .visitor request
    w.advance (fun w => before < w.received.length) none

end World

end Bringup.Simulation
