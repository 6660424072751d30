import Bringup.Proofs.Lifecycle.Barred
import Bringup.Proofs.Lifecycle.Equipped
import Bringup.Proofs.Lifecycle.WaitOrder
import Bringup.Proofs.Simulation.OnTime
import Bringup.Proofs.Simulation.Teardown
import Bringup.Proofs.Volume.Histories

/-!
# What a lone restart comes to

A service that is ready or stopped is restarted while nothing else goes on (`Renewable`). If it is ready
its container is got out of the way first (`evicts`), which is over at `vacates`. Then a dependency that is
not ready keeps it stopped, or it comes to what its script says of a fresh start (`comesTo`).

Meanwhile the volumes of the service are unbound one after another, which is over at `clears`, and then
bound one after another, which is over at `equips`. `Shelved` tells the whole table of bindings from how
far this has come.
-/

namespace Bringup

namespace Engine.Scripted

namespace State

/-- The scripts are used up by just the questions whether containers are ready that were asked since. -/
def UsesUp (s s' : State) : Prop :=
  ∀ id, ∃ n, s'.count .probe id = s.count .probe id + n ∧ s'.script id = (s.script id).after n

variable {s s' : State}

theorem usesUp_self : s.UsesUp s := fun _ => ⟨0, rfl, (Script.after_zero _).symm⟩

/-- A question is answered by the script, and no other call uses it up. -/
theorem UsesUp.take (h : s.UsesUp s') (now : Nat) (call : Container.Call) :
    s.UsesUp (s'.take now call).1 := by
  intro id
  obtain ⟨n, hn, hscript⟩ := h id
  have hcount {entry : Entry} (hc : (s'.take now call).1.calls = s'.calls ++ [entry]) :
      (s'.take now call).1.count .probe id
        = s.count .probe id + n + if entry.verb = .probe && entry.service = id then 1 else 0 := by
    rw [← hn, count, count, hc, List.countP_append, List.countP_singleton]
  cases call with
  | start declared volumes => exact ⟨n, by simpa using hcount (calls_take_start declared volumes), hscript⟩
  | stop handle timeout => exact ⟨n, by simpa using hcount (calls_take_stop handle timeout), hscript⟩
  | kill handle => exact ⟨n, by simpa using hcount (calls_take_kill handle), hscript⟩
  | probe handle =>
      have hcount := hcount (calls_take_probe handle)
      by_cases hid : id = handle.service
      · subst hid
        exact ⟨n + 1, by simpa [Nat.add_assoc] using hcount, (nextProbe_of_after hscript).2⟩
      · exact ⟨n, by simpa [Ne.symm hid] using hcount, (script_nextProbe_of_ne hid).trans hscript⟩

theorem calls_finish (work : Work) : (s.finish work).1.calls = s.calls := by
  cases work <;> rfl

theorem UsesUp.finish (h : s.UsesUp s') (work : Work) : s.UsesUp (s'.finish work).1 := by
  intro id
  rw [count, calls_finish, script_finish]
  exact h id

/-- How far a script is used up is told by the calls since. -/
theorem UsesUp.script_eq (h : s.UsesUp s') {news : List Entry} (hc : s'.calls = s.calls ++ news)
    (id : ServiceId) : s'.script id
      = (s.script id).after (news.countP fun entry => entry.verb = .probe && entry.service = id) := by
  obtain ⟨n, hn, hscript⟩ := h id
  rw [count, count, hc, List.countP_append] at hn
  rw [hscript, Nat.add_left_cancel hn]

end State

end Engine.Scripted

namespace Lifecycle.Controller

variable {t : Topology} {c c' d : Controller t} {now : Nat} {operation : Operation}

/-- No dependency stands in the way of a service just if all are ready. -/
theorem refusal_eq_none {s : Fin t.size} :
    c.refusal s = none ↔ ∀ d ∈ t.dependencies s, (c.slot d).state = .ready := by
  simp [refusal]

/-- A run that is opened has not been cancelled. -/
theorem cancelledRuns_le_arm (h : c.cancelledRuns ≤ c.currentRun + 1) :
    c.cancelledRuns ≤ c.arm.currentRun := by
  unfold arm
  split
  next => exact h
  next hc => simpa [isCancelled] using hc

theorem opened_change (h : c.cancelledRuns ≤ c.currentRun + 1)
    (change : CallChange now c operation d) : d.cancelledRuns ≤ d.currentRun + 1 := by
  have harm (services : List (Fin t.size)) : (c.arm.spawnStarts services).cancelledRuns
      ≤ (c.arm.spawnStarts services).currentRun + 1 := by
    rw [(runs_spawnStarts services).1, (runs_spawnStarts services).2, cancelledRuns_arm]
    exact Nat.le_succ_of_le (cancelledRuns_le_arm h)
  cases change with
  | start => exact harm _
  | stop | stopNothing | cancel => exact Nat.le_refl _
  | ask => exact h
  | restart =>
      rw [cancelledRuns_setCallPhase, currentRun_setCallPhase]
      exact harm _
  | progress | restop | sweep =>
      rw [cancelledRuns_setCallPhase, currentRun_setCallPhase]
      exact h

/-- No run is cancelled before it is opened. -/
theorem Run.opened {config : Config} {past : List (Moment t)} (run : Run (fresh t config) past c) :
    c.cancelledRuns ≤ c.currentRun + 1 := by
  refine run.invariant (P := fun c => c.cancelledRuns ≤ c.currentRun + 1) (Nat.zero_le _)
    fun h hs => ?_
  refine step_induct hs (fun id turn => ?_) opened_change h
  obtain ⟨old, new, slot, aside, -, -, rfl⟩ := turn
  simpa using h

end Lifecycle.Controller

namespace Simulation

open Lifecycle
open Engine.Scripted (Entry)
open Volume (Bindings Binding)

variable {t : Topology}

namespace Setting

/-! ## What a restart meets -/

variable (x y : Setting Engine.Scripted.engine t) (s : Fin t.size)

/-- When the container of a service that is restarted is out of the way: when it has stopped, or when its
time to stop is over. -/
def vacates : Nat :=
  if (x.controller.slot s).state = .ready then x.now + min (x.teardown.stopDelay s) x.teardown.patience
  else x.now

/-- How long the store takes over a request that it serves. -/
def latency : Nat :=
  match x.store.mode with
  | .serving delay => delay
  | .closed | .dropping => 0

/-- When the volumes of a service that is restarted are unbound. One that is stopped has none bound. -/
def clears : Nat :=
  if (x.controller.slot s).state = .ready then x.vacates s + (t.volumesOf s).length * x.latency
  else x.now

/-- When the volumes of a service that is restarted are bound again. -/
def equips : Nat := x.clears s + (t.volumesOf s).length * x.latency

/-- What the engine is asked to get the container of a service out of the way: to stop it, and to kill it
if that takes too long or is reported to have failed. -/
def evicts : List Entry :=
  if (x.controller.slot s).state = .ready then
    ⟨x.now, .stop, t.id s, none⟩ ::
      if x.teardown.patience < x.teardown.stopDelay s ∨ (x.engine.script (t.id s)).stopFault ≠ none then
        [⟨x.vacates s, .kill, t.id s, none⟩]
      else []
  else []

/-- The state that a restarted service comes to, and the error that is recorded with it. -/
def comesTo : ServiceState × Option Error :=
  match x.controller.refusal s, x.scene.prospect.trial s with
  | some error, _ => (.stopped, some error)
  | none, some error => (.failed, some error)
  | none, none => (.ready, none)

/-- The service is ready or stopped, and nothing is going on. -/
structure Renewable : Prop where
  still : x.Standstill
  state : (x.controller.slot s).state = .ready ∨ (x.controller.slot s).state = .stopped
  equipped : (x.controller.slot s).state = .ready → (x.controller.slot s).handle.isSome
  registered : Registered x.store.table s
  unclaimed : ∀ d, (x.controller.slot d).claims = 0
  published : x.controller.Published
  /-- No run is cancelled before it is opened. -/
  opened : x.controller.cancelledRuns ≤ x.controller.currentRun + 1

variable {x y s} {start : Setting Engine.Scripted.engine t} {past : List (Moment t)}

theorem vacates_of_ready (hs : (x.controller.slot s).state = .ready) :
    x.vacates s = x.now + min (x.teardown.stopDelay s) x.teardown.patience := if_pos hs

theorem latency_of_serving {delay : Nat} (h : x.store.mode = .serving delay) : x.latency = delay := by
  rw [latency, h]

theorem clears_of_ready (hs : (x.controller.slot s).state = .ready) :
    x.clears s = x.vacates s + (t.volumesOf s).length * x.latency := if_pos hs

/-- A service that is stopped has no container in the way. -/
theorem evicts_of_stopped (hs : (x.controller.slot s).state = .stopped) :
    x.clears s = x.now ∧ x.evicts s = [] := by
  simp [clears, evicts, hs]

/-- The old container is out of the way before the volumes are bound again. -/
theorem vacates_le_equips : x.vacates s ≤ x.equips s := by
  refine Nat.le_trans ?_ (Nat.le_add_right _ _)
  by_cases hs : (x.controller.slot s).state = .ready
  · rw [clears_of_ready hs]
    exact Nat.le_add_right _ _
  · rw [clears, vacates, if_neg hs, if_neg hs]

/-- A container that stops in time is not killed. -/
theorem evicts_of_patient (hs : (x.controller.slot s).state = .ready)
    (hle : x.teardown.stopDelay s ≤ x.teardown.patience)
    (hf : (x.engine.script (t.id s)).stopFault = none) :
    x.evicts s = [⟨x.now, .stop, t.id s, none⟩] := by
  rw [evicts, if_pos hs, if_neg]
  exact not_or.2 ⟨Nat.not_lt.2 hle, not_not.2 hf⟩

/-- A container that takes too long to stop, or cannot be stopped, is killed. -/
theorem evicts_of_stubborn (hs : (x.controller.slot s).state = .ready)
    (h : x.teardown.patience < x.teardown.stopDelay s ∨ (x.engine.script (t.id s)).stopFault ≠ none) :
    x.evicts s = [⟨x.now, .stop, t.id s, none⟩, ⟨x.vacates s, .kill, t.id s, none⟩] := by
  rw [evicts, if_pos hs, if_pos h]

/-- What is recorded with a service that is restarted is why it is not ready, and never that it cannot be
restarted. -/
theorem comesTo_error : ((x.comesTo s).1 = .ready ↔ (x.comesTo s).2 = none) ∧
    ∀ error, (x.comesTo s).2 = some error → (∀ id, error ≠ .unknownService id) ∧
      ∀ id state, error ≠ .notRestartable id state := by
  have hrefusal {error : Error} (h : x.controller.refusal s = some error) :
      ∃ d, error = .dependencyFailed (t.id s) d := by
    obtain ⟨d, -, rfl⟩ := Option.map_eq_some_iff.1 h
    exact ⟨t.id d, rfl⟩
  have htrial {error : Error} (h : x.scene.prospect.trial s = some error) :
      (∀ id, error ≠ .unknownService id) ∧ ∀ id state, error ≠ .notRestartable id state := by
    unfold Prospect.trial Fate.trial at h
    split at h
    next => exact Option.some.inj h ▸ ⟨by simp, by simp⟩
    next => exact Option.some.inj h ▸ ⟨by simp, by simp⟩
    next =>
      split at h
      next => cases h
      next => exact Option.some.inj h ▸ ⟨by simp, by simp⟩
  unfold comesTo
  cases hr : x.controller.refusal s with
  | some error =>
      obtain ⟨d, rfl⟩ := hrefusal hr
      exact ⟨by simp, fun e he => Option.some.inj he ▸ ⟨by simp, by simp⟩⟩
  | none =>
      cases ht : x.scene.prospect.trial s with
      | some error => exact ⟨by simp, fun e he => Option.some.inj he ▸ htrial ht⟩
      | none => exact ⟨by simp, fun e he => by cases he⟩

theorem Run.usesUp (run : Run start past x) :
    Engine.Scripted.State.UsesUp start.engine x.engine :=
  run.engine_invariant (P := fun state => Engine.Scripted.State.UsesUp start.engine state)
    (fun _ now call h => h.take now call) (fun _ work h => h.finish work)
    Engine.Scripted.State.usesUp_self

theorem kept_of_usesUp (h : Engine.Scripted.State.UsesUp x.engine y.engine) : Kept x.scene y.engine :=
  fun s => (h (t.id s)).imp fun _ => And.right

/-- **Where all calls have answered** that were made in turn, and no launch is under way, a service that is
ready or stopped can be restarted. -/
theorem Run.renewable {delay : Nat} (ht : t.Built) (h : start.Stocked delay) (run : Run start past x)
    (hturn : ∀ m ∈ past, m.InTurn) (hanswered : ∀ (k : Nat) (call : Call t.size),
      x.controller.calls[k]? = some call → call.answer?.isSome) (hlaunches : LaunchesOver x.controller)
    (hstate : (x.controller.slot s).state = .ready ∨ (x.controller.slot s).state = .stopped) :
    x.Renewable s := by
  obtain ⟨config, hrun⟩ := h.opening.controller_run run
  have hx := run.standstill ht h hturn hanswered hlaunches
  have hclear := hrun.keepsClear ht hturn s
  refine ⟨hx, hstate, (hrun.equipped fun p hp => (hclear p hp).overlap).ready,
    (run.inStep ht h hclear).2, fun d => ?_, hrun.published, hrun.opened⟩
  rw [hrun.counts, Controller.total_eq_zero_iff]
  intro id job hj
  cases job with
  | start job =>
      have hf := Job.isFinished_start.1 (hx.finished id _ hj)
      have hunclaimed : job.claimed = false := (hrun.proper ht id _ hj).1.2 (.inr hf)
      simp [Job.claims, hunclaimed]
  | stop | launch => rfl

namespace Renewable

variable (h : x.Renewable s)

include h

/-- The container of a service that is ready is one of it. -/
theorem exists_handle (hs : (x.controller.slot s).state = .ready) : ∃ handle,
    (x.controller.slot s).handle = some handle ∧ handle.service = t.id s := by
  obtain ⟨handle, hh⟩ := Option.isSome_iff_exists.1 (h.equipped hs)
  exact ⟨handle, hh, h.still.handles s handle hh⟩

/-- No volume of the service is refused to it. -/
theorem bound : x.scene.prospect.Bound s := by
  intro volume hv
  obtain ⟨binding, hg, ho⟩ := h.registered volume hv
  show x.store.table.refusal? volume.id (t.id s) = none
  unfold Bindings.refusal?
  rw [hg]
  rcases ho with ho | ho <;> simp [ho]

end Renewable

/-! ## The bindings -/

section

variable (x s)

/-- The binding of a volume once a restart has unbound some volumes of its service and then bound others. -/
def shelf (gone bound : List Volume) (id : VolumeId) : Option Binding :=
  (x.store.table.get? id).map fun binding =>
    if id ∈ bound.map Volume.id then
      { binding with
        owner := some (t.id s)
        attachCount := binding.attachCount + 1 }
    else if id ∈ gone.map Volume.id then { binding with owner := none }
    else binding

/-- The table of bindings once a restart has unbound some volumes of its service and then bound others. -/
def Shelved (table : Bindings) (gone bound : List Volume) : Prop :=
  ∀ id, table.get? id = x.shelf s gone bound id

end

section

variable {table : Bindings} {gone bound : List Volume} {volume : Volume}

theorem shelved_self : x.Shelved s x.store.table [] [] := by
  intro id
  simp [shelf]

/-- A volume is unbound. -/
theorem Shelved.detach (h : x.Shelved s table gone []) :
    x.Shelved s (table.serve (.detach volume.id)).1 (gone ++ [volume]) [] := by
  intro id
  by_cases hid : id = volume.id
  · subst hid
    refine Bindings.get?_detach_self.trans ?_
    rw [h]
    cases hg : x.store.table.get? volume.id with
    | none => simp [shelf, hg]
    | some binding => by_cases hm : volume.id ∈ gone.map Volume.id <;> simp [shelf, hg, hm]
  · refine (Bindings.get?_detach_of_ne hid).trans ((h id).trans ?_)
    simp [shelf, hid]

/-- A volume of the service that is unbound is bound to it. -/
theorem Shelved.attach (h : x.Shelved s table gone bound)
    (hknown : (x.store.table.get? volume.id).isSome) (hgone : volume ∈ gone)
    (hnew : volume.id ∉ bound.map Volume.id) :
    x.Shelved s (table.serve (.attach volume.id (t.id s))).1 gone (bound ++ [volume]) ∧
      ∃ answer, (table.serve (.attach volume.id (t.id s))).2 = .ok answer := by
  obtain ⟨binding, hg⟩ := Option.isSome_iff_exists.1 hknown
  have hmine : volume.id ∈ gone.map Volume.id := List.mem_map_of_mem hgone
  have hself : table.get? volume.id = some { binding with owner := none } := by
    rw [h, shelf, hg, Option.map_some, if_neg hnew, if_pos hmine]
  obtain ⟨hserved, hanswer⟩ := Bindings.serve_eq table (.attach volume.id (t.id s))
  rw [Volume.Request.volume, hself] at hserved hanswer
  refine ⟨fun id => ?_, _, hanswer⟩
  by_cases hid : id = volume.id
  · subst hid
    refine hserved.trans ?_
    simp [shelf, hg, Bindings.serveOne]
  · refine (Bindings.get?_serve_of_ne (Ne.symm hid)).trans ((h id).trans ?_)
    simp [shelf, hid]

/-- The bindings of all other volumes stay. -/
theorem Shelved.kept (h : x.Shelved s table gone bound) {id : VolumeId}
    (hgone : ∀ volume ∈ gone, volume.id ≠ id) (hbound : ∀ volume ∈ bound, volume.id ≠ id) :
    table.get? id = x.store.table.get? id := by
  have hnot {volumes : List Volume} (hne : ∀ volume ∈ volumes, volume.id ≠ id) :
      id ∉ volumes.map Volume.id := by simpa using hne
  simp [h id, shelf, hnot hgone, hnot hbound]

/-- The volumes of a service that is stopped are unbound already. -/
theorem Renewable.shelved_of_stopped (hx : x.Renewable s)
    (hs : (x.controller.slot s).state = .stopped) (h : x.Shelved s table [] []) :
    x.Shelved s table (t.volumesOf s) [] := by
  intro id
  rw [h]
  by_cases hid : id ∈ (t.volumesOf s).map Volume.id
  · obtain ⟨volume, hv, rfl⟩ := List.mem_map.1 hid
    have hn := hx.still.unbound s (by rw [hs]; rfl) volume hv
    cases hg : x.store.table.get? volume.id with
    | none => simp [shelf, hg]
    | some binding =>
        rw [Bindings.owner?_of_get? hg] at hn
        simp only [shelf, hg, Option.map_some, hid, if_true]
        simp [← hn]
  · simp [shelf, hid]

end

/-! ## What can be seen of a restart -/

section

variable (x y s)

/-- What the engine was asked since `x`, and what has become of the bindings. -/
structure Traces (news : List Entry) (gone bound : List Volume) : Prop where
  calls : Engine.Scripted.State.calls y.engine = Engine.Scripted.State.calls x.engine ++ news
  shelf : x.Shelved s y.store.settled gone bound

/-- Nothing has been done about the service yet. -/
structure Unbegun : Prop where
  now : y.now = x.now
  slot : y.controller.slot s = x.controller.slot s
  traces : x.Traces y s [] [] []

/-- The container of the service is out of the way, and its volumes are unbound. -/
structure Vacated : Prop where
  now : y.now = x.clears s
  state : (y.controller.slot s).state = .stopped
  traces : x.Traces y s (x.evicts s) (t.volumesOf s) []

end

/-- The settings look the same to those who look at services, jobs, the calls to the engine and the
bindings. -/
structure Resembles (y z : Setting Engine.Scripted.engine t) : Prop where
  slot : ∀ s, z.controller.slot s = y.controller.slot s
  jobs : z.controller.jobs = y.controller.jobs
  calls : Engine.Scripted.State.calls z.engine = Engine.Scripted.State.calls y.engine
  settled : z.store.settled = y.store.settled

section

variable {z : Setting Engine.Scripted.engine t} {news : List Entry} {gone bound : List Volume}

theorem Traces.congr (h : x.Traces y s news gone bound)
    (hcalls : Engine.Scripted.State.calls z.engine = Engine.Scripted.State.calls y.engine)
    (hsettled : z.store.settled = y.store.settled) : x.Traces z s news gone bound :=
  ⟨hcalls.trans h.calls, hsettled ▸ h.shelf⟩

variable (hz : y.Resembles z) (hnow : z.now = y.now)

include hz

theorem Traces.resembles (h : x.Traces y s news gone bound) : x.Traces z s news gone bound :=
  h.congr hz.calls hz.settled

include hnow

theorem Unbegun.congr (h : x.Unbegun y s) : x.Unbegun z s :=
  ⟨hnow.trans h.now, (hz.slot s).trans h.slot, h.traces.resembles hz⟩

theorem Vacated.congr (h : x.Vacated y s) : x.Vacated z s :=
  ⟨hnow.trans h.now, (congrArg Slot.state (hz.slot s)).trans h.state, h.traces.resembles hz⟩

end

section

variable {delay : Nat} {news more : List Entry} {gone bound gone' bound' : List Volume} {id : JobId}
  {action : Action} {old new : Job t.size} {slot : Slot} {aside : Aside} {effects : List Effect}

/-- What can be seen after a turn. -/
theorem Traces.after (h : x.Traces y s news gone bound) (hmode : y.store.mode = .serving delay)
    (turn : Turn y.controller y.now id old action new slot aside effects) {c : Controller t}
    (hcalls : Engine.Scripted.State.calls (y.after c effects).engine
      = Engine.Scripted.State.calls y.engine ++ more)
    (hshelf : x.Shelved s (tableAfter y.store.settled new.errand?) gone' bound') :
    x.Traces (y.after c effects) s (news ++ more) gone' bound' := by
  refine ⟨by rw [hcalls, h.calls, List.append_assoc], ?_⟩
  rw [store_after, (hear_turn hmode turn).1]
  exact hshelf

/-- What can be seen after a turn in which the engine is not asked anything. -/
theorem Traces.turned (h : x.Traces y s news gone bound) (hmode : y.store.mode = .serving delay)
    (turn : Turn y.controller y.now id old action new slot aside effects) {c : Controller t}
    (hengine : (y.after c effects).engine = y.engine)
    (hshelf : x.Shelved s (tableAfter y.store.settled new.errand?) gone' bound') :
    x.Traces (y.after c effects) s news gone' bound' :=
  List.append_nil news ▸ h.after hmode turn (by rw [hengine, List.append_nil]) hshelf

end

end Setting

end Simulation

end Bringup
