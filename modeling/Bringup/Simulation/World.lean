import Bringup.Engine.Basic
import Bringup.Lifecycle.Step
import Bringup.Simulation.Store

/-!
# Worlds

A world puts controllers together with what they talk to: each stack has a controller, an engine that
runs its containers, and a store for its volumes, which it may share with other stacks. All of them
live by one clock, in milliseconds.

`step` says what an event does and that it cannot happen where it answers nothing. A run of a world
is any sequence of events, so everything that is possible at a moment may happen in any order.
-/

namespace Bringup.Simulation

open Lifecycle (Action CallId Controller Effect JobId Request)

/-- A call that an engine works on for a job. -/
structure Ongoing (Work : Type) where
  job : JobId
  /-- When the engine goes on with it. -/
  due : Nat
  work : Work

/-- A controller, the engine that runs its containers, and the store of its volumes. -/
structure Stack (e : Engine) where
  topology : Topology
  controller : Controller topology
  engine : e.State
  ongoing : List (Ongoing e.Work) := []
  /-- The number of its store. -/
  store : Nat

/-- An interrupt that is going to happen. -/
structure Alarm where
  stack : Nat
  call : CallId
  due : Nat
  deriving DecidableEq, Inhabited, Repr

/-- Stacks, stores and a clock. -/
structure World (e : Engine) where
  now : Nat := 0
  /-- The stacks by number. -/
  members : Array (Stack e) := #[]
  stores : Array Store := #[]
  alarms : List Alarm := []
  /-- The answers of stores to those outside of all stacks, the last one first. -/
  received : List Store.Result := []

/-- Something that can happen in a world. -/
inductive Event where
  /-- Something happens to the controller of a stack. -/
  | control (stack : Nat) (action : Action)
  /-- The engine of a stack goes on with what it does for a job. -/
  | resume (stack : Nat) (job : JobId)
  /-- A store serves its oldest request. -/
  | serve (store : Nat)
  /-- The answer of a store at the given place of its list reaches its client. -/
  | deliver (store place : Nat)
  /-- An interrupt happens. -/
  | ring (alarm : Alarm)
  /-- The clock moves on. -/
  | pass (time : Nat)

namespace World

variable {e : Engine}

/-- Replaces a stack. -/
def setStack (w : World e) (k : Nat) (stack : Stack e) : World e :=
  { w with members := w.members.setIfInBounds k stack }

/-- Changes a store. -/
def modifyStore (w : World e) (i : Nat) (f : Store → Store) : World e :=
  { w with stores := w.stores.modify i f }

/-- Carries to engine and store what a controller shows. -/
def carry (w : World e) (k : Nat) (effect : Effect) : World e :=
  match w.members[k]? with
  | none => w
  | some stack =>
    let others (job : JobId) := stack.ongoing.filter fun call => call.job ≠ job
    match effect with
    | .asks job (.container call) =>
      let (engine, millis, work) := e.take stack.engine w.now call
      let ongoing := others job ++ [⟨job, w.now + millis, work⟩]
      w.setStack k { stack with engine, ongoing }
    | .asks job (.volume request) =>
      w.modifyStore stack.store fun store => store.request w.now (.job k job) request
    | .withdraws job => w.setStack k { stack with ongoing := others job }
    | .refusedMove .. => w

/-- Something happens to the controller of a stack. -/
def control (w : World e) (k : Nat) (action : Action) : Option (World e) :=
  match w.members[k]? with
  | none => none
  | some stack =>
    match stack.controller.step w.now action with
    | none => none
    | some (controller, effects) =>
      some (effects.foldl (fun w effect => w.carry k effect)
        (w.setStack k { stack with controller }))

/-- The engine of a stack goes on with what it does for a job, once that is due. -/
def resume (w : World e) (k : Nat) (job : JobId) : Option (World e) :=
  match w.members[k]? with
  | none => none
  | some stack =>
    match stack.ongoing.find? fun call => call.job = job with
    | none => none
    | some call =>
      if call.due ≤ w.now then
        let others := stack.ongoing.filter fun call => call.job ≠ job
        match e.resume stack.engine call.work with
        | (engine, .wait millis work) =>
          let ongoing := others ++ [⟨job, w.now + millis, work⟩]
          some (w.setStack k { stack with engine, ongoing })
        | (engine, .answer reply) =>
          let w := w.setStack k { stack with engine, ongoing := others }
          w.control k (.answer job (.container reply))
      else none

/-- An answer of a store reaches its client. -/
def deliver (w : World e) (i place : Nat) : Option (World e) :=
  match w.stores[i]? with
  | none => none
  | some store =>
    match store.answers[place]? with
    | none => none
    | some (client, result) =>
      let w := w.modifyStore i fun store => { store with answers := store.answers.eraseIdx place }
      match client with
      | .visitor => some { w with received := result :: w.received }
      | .job k job => w.control k (.answer job (.volume result))

/-- The world after an event, or nothing where the event cannot happen. Answers do not come as
actions from outside, but from the engines and stores. -/
def step (w : World e) : Event → Option (World e)
  | .control _ (.answer ..) => none
  | .control k action => w.control k action
  | .resume k job => w.resume k job
  | .serve i =>
    match w.stores[i]? with
    | none => none
    | some store => (store.serve? w.now).map fun store => w.modifyStore i fun _ => store
  | .deliver i place => w.deliver i place
  | .ring alarm =>
    if alarm ∈ w.alarms ∧ alarm.due ≤ w.now then
      { w with alarms := w.alarms.erase alarm }.control alarm.stack (.interrupt alarm.call)
    else none
  | .pass time => if w.now < time then some { w with now := time } else none

end World

end Bringup.Simulation
