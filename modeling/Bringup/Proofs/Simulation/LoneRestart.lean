import Bringup.Proofs.Lifecycle.RestartAnswers
import Bringup.Proofs.Simulation.LoneStop
import Bringup.Proofs.Simulation.Renewing

/-!
# A lone restart

Starts, stops and restarts were called one after another, all have answered, and then one service is
restarted. If it is not known, or neither ready nor stopped, the call answers that and nothing else
happens. Else everything comes to rest with the service stopped, ready or failed, as its dependencies and
its script have it, and all others as they were (`Run.lone_restart`).
-/

namespace Bringup.Simulation.Setting

open Lifecycle
open Engine.Scripted (Entry)

variable {t : Topology} {x y z start : Setting Engine.Scripted.engine t} {past moments : List (Moment t)}
  {event : Event} {s : Fin t.size} {id : ServiceId} {error : Error}

/-! ## Calls that are declined -/

/-- **Where all jobs are at their ends** nothing happens but that calls go on. -/
theorem proceeds_of_finished (hattends : Attends y) (halarms : y.alarms = [])
    (hfinished : ∀ (id : JobId) (job : Job t.size), y.controller.jobs[id]? = some job → job.isFinished)
    (hm : Moves y event moments z)
    (hi : event.Inner ∨ ∃ time, event = .pass time ∧ y.world.horizon? = some time) :
    ∃ k c effects, y.controller.step y.now (.proceed k) = some (c, effects) ∧ z = y.after c effects := by
  obtain ⟨hongoing, hclients⟩ := silent_of_finished hattends hfinished
  obtain ⟨hqueue, hanswers⟩ := Store.clients_eq_nil.1 hclients
  rcases hi with hi | ⟨time, rfl, hh⟩
  · cases hm with
    | @act action c effects hs ha =>
        cases hj : action.job? with
        | none =>
            cases action with
            | proceed k => exact ⟨k, c, effects, hs, rfl⟩
            | invoke | interrupt => exact hi.elim
            | run | heed | timeout | answer => cases hj
        | some id =>
            obtain ⟨old, new, slot, aside, hold, turn, -⟩ := Controller.turnsTo_of_step hj hs
            exact absurd (hfinished id old hold) turn.not_isFinished
    | ring hm =>
        rw [halarms] at hm
        cases hm
    | reply hm | work hm => simp [hongoing] at hm
    | serve hs => simp [Store.serve?, hqueue] at hs
    | deliver ha | hand ha => simp [hanswers] at ha
    | pass => exact hi.elim
  · obtain ⟨⟨hdue, -⟩, -⟩ := World.horizon?_eq_some.1 hh
    rcases mem_deadlines.1 hdue with ⟨entry, hm, -⟩ | ⟨id, job, hj, hd⟩ | ⟨hq, -⟩ | ⟨alarm, hm, -⟩
    · rw [hongoing] at hm
      cases hm
    · have hf := hfinished id job hj
      cases job with
      | start job => simp [Job.deadline?, Job.isFinished_start.1 hf] at hd
      | stop job => simp [Job.deadline?, Job.isFinished_stop.1 hf] at hd
      | launch l => simp [Job.deadline?, Job.isFinished_launch.1 hf] at hd
    · exact absurd hqueue hq
    · rw [halarms] at hm
      cases hm

section

variable (x id)

/-- A restart is called, and stands in the given phase. -/
def asked (phase : CallPhase t.size) : Setting Engine.Scripted.engine t :=
  { x with controller := (x.controller.openCall (.restart id) [] phase).1 }

/-- A restart has answered with an error as soon as it was called, and nothing else has changed. -/
def declined (error : Error) : Setting Engine.Scripted.engine t :=
  x.asked id (.answered (.restarted (.error error)) x.now)

/-- A restart has answered with the error, or is about to. -/
def Declines (error : Error) (phase : CallPhase t.size) : Prop :=
  phase = .answered (.restarted (.error error)) x.now ∨ ∃ s, phase = .checking s ∧
    (x.controller.slot s).state ≠ .ready ∧ (x.controller.slot s).state ≠ .stopped ∧
      error = .notRestartable (t.id s) (x.controller.slot s).state

end

theorem setCallPhase_openCall (c : Controller t) (operation : Operation) (jobs : List JobId)
    (phase phase' : CallPhase t.size) :
    (c.openCall operation jobs phase).1.setCallPhase c.calls.size phase'
      = (c.openCall operation jobs phase').1 := by
  simp [Controller.setCallPhase, Controller.setCall, Controller.openCall, ← Array.toList_inj]

/-- All calls but the one that is made have answered. -/
theorem Standstill.lone (hx : x.Standstill) {phase : CallPhase t.size} (k : Nat) (call : Call t.size)
    (hk : (x.asked id phase).controller.calls[k]? = some call) (hne : k ≠ x.controller.calls.size) :
    call.answer?.isSome := by
  rcases Controller.calls_openCall_cases hk with hk | ⟨he, -⟩
  · exact hx.answered k call hk
  · exact absurd he hne

/-- **A restart that declines** does so at once, and nothing else has changed when everything is at rest. -/
theorem Standstill.declined (ht : t.Built) (h : start.Opening) (run : Run start past x)
    (hx : x.Standstill) {phase : CallPhase t.size}
    (hinvoke : x.after (x.controller.invoke x.now (.restart id)).1 [] = x.asked id phase)
    (hphase : x.Declines error phase) : Inevitably World.TicksInTime
      (fun w => w.AtRest ∧ w = (x.declined id error).world) (x.world.invoke 0 (.restart id)).1 := by
  rw [world_invoke, hinvoke]
  refine (Run.comes_to_rest (I := fun y => ∃ phase, y = x.asked id phase ∧ x.Declines error phase) ht
    Engine.Scripted.answering h ?_ (hinvoke ▸ run.tail (x.moves_invoke (.restart id)))
    ⟨phase, rfl, hphase⟩).mono ?_
  · rintro past moments event _ z run ⟨phase, rfl, hphase⟩ hm hi
    obtain ⟨k, c, effects, hs, rfl⟩ := proceeds_of_finished (run.attends h) hx.alarms hx.finished hm
      (hi.imp And.left And.right)
    obtain ⟨rfl, call, hk, hproceed⟩ := Controller.proceed_of_lone hx.lone hs
    obtain rfl := Option.some.inj (Controller.calls_openCall_size.symm.trans hk)
    rcases hphase with rfl | ⟨s, rfl, hready, hstopped, rfl⟩
    · cases hproceed
    · have hslot : ((x.asked id (.checking s)).controller.slot s).state
          = (x.controller.slot s).state := rfl
      simp only [Controller.proceed, hslot, hready, hstopped, or_self, if_false] at hproceed
      obtain ⟨rfl, rfl⟩ := Prod.mk.inj (Option.some.inj hproceed)
      exact ⟨_, congrArg (fun c => { x with controller := c }) (setCallPhase_openCall x.controller _ _
        (.checking s) _), .inl rfl⟩
  · rintro w ⟨hrest, past, _, rfl, run, ⟨phase, rfl, hphase⟩, -, hanswered⟩
    rcases hphase with rfl | ⟨s, rfl, -⟩
    · exact ⟨hrest, rfl⟩
    · cases hanswered _ _ Controller.calls_openCall_size

/-! ## Restarts -/

/-- **A restart is called** of a service that can be restarted. -/
theorem Renewable.renewing (hx : x.Renewable s) : x.Renewing (x.asked id (.checking s)) s where
  slots _ _ := rfl
  granted _ hm := by
    have hm : _ ∈ x.store.owed := hm
    rw [Store.owed_of_clients hx.still.clients] at hm
    cases hm
  due entry hm := by
    have hm : entry ∈ x.ongoing := hm
    rw [hx.still.ongoing] at hm
    cases hm
  call := by
    refine ⟨_, Controller.calls_openCall_size, rfl, fun id job hj => ?_, rfl, rfl, ?_, ?_⟩
    · exact .inr (.inl (hx.still.finished id job hj))
    · exact (List.append_nil _).symm
    · have hshelved : x.Shelved s x.store.settled [] [] := hx.still.settled ▸ shelved_self
      exact hshelved
  lone := hx.still.lone

section

variable (x y s)

/-- What a restarted service comes to: its first dependency that is not ready keeps it stopped, and else
its script has it, as with every start. -/
structure Decides (outcome : ServiceState × Option Error) : Prop where
  dependency : ∀ (seen rest : List (Fin t.size)) (d : Fin t.size), t.dependencies s = seen ++ d :: rest →
    (∀ d ∈ seen, (x.controller.slot d).state = .ready) → (x.controller.slot d).state ≠ .ready →
      outcome = (.stopped, some (.dependencyFailed (t.id s) (t.id d)))
  fault : (∀ d ∈ t.dependencies s, (x.controller.slot d).state = .ready) →
    ∀ error, (Engine.Scripted.State.script x.engine (t.id s)).fault = some error →
      outcome = (.failed, some (.startFailed (t.id s) error))
  timeout : (∀ d ∈ t.dependencies s, (x.controller.slot d).state = .ready) →
    (Engine.Scripted.State.script x.engine (t.id s)).fault = none →
    (∀ i < x.controller.config.retry.maxAttempts.toNat,
      (Engine.Scripted.State.script x.engine (t.id s)).answer i ≠ .ready) →
      outcome = (.failed, some (.probeTimeout (t.id s) x.controller.config.retry.maxAttempts))
  ready : (∀ d ∈ t.dependencies s, (x.controller.slot d).state = .ready) →
    (Engine.Scripted.State.script x.engine (t.id s)).fault = none →
    ∀ i < x.controller.config.retry.maxAttempts.toNat,
      (Engine.Scripted.State.script x.engine (t.id s)).answer i = .ready → outcome = (.ready, none)

/-- The service has been restarted, and come to what it comes to. -/
structure Restarted : Prop where
  sight : ((y.controller.slot s).state, (y.controller.slot s).lastError) = x.comesTo s
  /-- All else that is known of the other services stays, too. -/
  others : ∀ d, d ≠ s → y.controller.slot d = x.controller.slot d
  /-- The container is out of the way, and the volumes are bound again, before a new one is started. -/
  calls : ∃ probes : List Entry, (∀ entry ∈ probes, entry.verb = .probe ∧ entry.service = t.id s) ∧
    Engine.Scripted.State.calls y.engine = Engine.Scripted.State.calls x.engine ++ (x.evicts s ++
      if (x.comesTo s).1 = .stopped then [] else ⟨x.equips s, .start, t.id s, none⟩ :: probes)
  volumes : ∀ volume ∈ t.volumesOf s, ∃ binding, x.store.table.get? volume.id = some binding ∧
    y.store.table.get? volume.id = some (if (x.comesTo s).1 = .stopped then { binding with owner := none }
      else { binding with
        owner := some (t.id s)
        attachCount := binding.attachCount + 1 })
  kept : ∀ id, (∀ volume ∈ t.volumesOf s, volume.id ≠ id) →
    y.store.table.get? id = x.store.table.get? id
  answer : ∃ time, y.controller.answer? x.controller.calls.size
    = some (.restarted ((x.comesTo s).2.elim (.ok (y.controller.status s)) .error), time)

end

/-- A restarted service ends stopped just if it is refused for a dependency. -/
theorem comesTo_stopped : (x.comesTo s).1 = .stopped ↔ x.controller.refusal s ≠ none := by
  unfold comesTo
  cases x.controller.refusal s <;> cases x.scene.prospect.trial s <;> simp

theorem comesTo_of_refusal (h : x.controller.refusal s = some error) :
    x.comesTo s = (.stopped, some error) := by
  rw [comesTo, h]

theorem comesTo_of_trial {outcome : Option Error}
    (hready : ∀ d ∈ t.dependencies s, (x.controller.slot d).state = .ready)
    (h : x.scene.prospect.trial s = outcome) :
    x.comesTo s = (if outcome = none then .ready else .failed, outcome) := by
  rw [comesTo, Controller.refusal_eq_none.2 hready, h]
  cases outcome <;> rfl

theorem Renewable.decides (hx : x.Renewable s) : x.Decides s (x.comesTo s) where
  dependency _ _ _ he hseen hd := comesTo_of_refusal (Controller.refusal_eq_some he hseen hd)
  fault hready _ hf := comesTo_of_trial hready (Prospect.trial_start hx.bound hf)
  timeout hready hf hn := comesTo_of_trial hready (Prospect.trial_unready hx.bound hf hn)
  ready hready hf i hi hr :=
    comesTo_of_trial hready (Prospect.trial_eq_none.2 ⟨hx.bound, hf, i, hi, hr⟩)

/-- **Where everything is at rest**, the service has been restarted. -/
theorem Renewing.restarted (hx : x.Renewable s) (hattends : Attends y) (h : x.Renewing y s)
    (hfinished : ∀ (id : JobId) (job : Job t.size), y.controller.jobs[id]? = some job → job.isFinished)
    (hanswered : ∀ (k : Nat) (call : Call t.size), y.controller.calls[k]? = some call →
      call.answer?.isSome) : x.Restarted y s := by
  obtain ⟨-, hclients⟩ := silent_of_finished hattends hfinished
  have hsettled := Store.settled_of_queue (Store.clients_eq_nil.1 hclients).1
  obtain ⟨call, hk, hrestarting⟩ := h.call
  obtain ⟨answer, time, hp⟩ := Controller.Call.phase_of_answer (hanswered _ call hk)
  rw [hp] at hrestarting
  obtain ⟨-, ⟨hsight, htraces⟩, rfl⟩ := hrestarting
  have hstate : (y.controller.slot s).state = (x.comesTo s).1 := congrArg Prod.fst hsight
  have herror : (y.controller.slot s).lastError = (x.comesTo s).2 := congrArg Prod.snd hsight
  have hanswer : ∃ time, y.controller.answer? x.controller.calls.size
      = some (.restarted ((x.comesTo s).2.elim (.ok (y.controller.status s)) .error), time) := by
    refine ⟨time, ?_⟩
    rw [Controller.answer?_of_call hk, Call.answer?, hp]
    cases he : (x.comesTo s).2 with
    | none => rw [Controller.restartResult_of_none (herror.trans he), Option.elim_none]
    | some error =>
        rw [Controller.restartResult_of_some (herror.trans he), if_neg, Option.elim_some]
        rw [hstate, comesTo_error.1, he]
        simp
  rcases htraces with ⟨hrefused, hcalls, hshelved⟩ | ⟨hadmitted, n, probes, -, hprobes, hcalls, hshelved⟩
  · have hstopped := comesTo_stopped.2 hrefused
    refine ⟨hsight, h.slots, ⟨[], by simp, ?_⟩, fun volume hv => ?_, fun id hid =>
      hsettled ▸ hshelved.kept hid (by simp), hanswer⟩
    · rw [if_pos hstopped, List.append_nil, hcalls]
    · obtain ⟨binding, hg, -⟩ := hx.registered volume hv
      refine ⟨binding, hg, ?_⟩
      rw [if_pos hstopped, ← hsettled, hshelved, shelf, hg]
      simp [List.mem_map_of_mem hv]
  · have hstopped : (x.comesTo s).1 ≠ .stopped := fun he => comesTo_stopped.1 he hadmitted
    refine ⟨hsight, h.slots, ⟨probes, hprobes, ?_⟩, fun volume hv => ?_, fun id hid =>
      hsettled ▸ hshelved.kept hid hid, hanswer⟩
    · rw [if_neg hstopped, hcalls]
    · obtain ⟨binding, hg, -⟩ := hx.registered volume hv
      refine ⟨binding, hg, ?_⟩
      rw [if_neg hstopped, ← hsettled, hshelved, shelf, hg]
      simp [List.mem_map_of_mem hv]

/-- **A restart at a standstill** is under way until everything is at rest, whatever happens first of what
can happen. -/
theorem Renewable.restarts {delay : Nat} (ht : t.Built) (h : start.Stocked delay)
    (run : Run start past x) (hx : x.Renewable s) (hid : t.position? id = some s) :
    Inevitably World.TicksInTime (fun w => w.AtRest ∧ ∃ y, w = y.world ∧ x.Restarted y s)
      (x.world.invoke 0 (.restart id)).1 := by
  have hinvoke : x.after (x.controller.invoke x.now (.restart id)).1 [] = x.asked id (.checking s) := by
    rw [Controller.invoke, Controller.restart, hid]
    rfl
  have hasked : Moves x _ _ (x.asked id (.checking s)) := hinvoke ▸ x.moves_invoke (.restart id)
  rw [world_invoke, hinvoke]
  refine (Run.comes_to_rest (I := fun y => (∃ later, Run x later y) ∧ x.Renewing y s) ht
    Engine.Scripted.answering h.opening ?_ (run.tail hasked)
    ⟨⟨_, Run.refl.tail hasked⟩, hx.renewing⟩).mono ?_
  · rintro past moments event y z run' ⟨⟨later, rest⟩, hy⟩ hm hi
    have hsub := run.subsequent h rest
    have hattends := run'.attends h.opening
    refine ⟨⟨_, rest.tail hm⟩, ?_⟩
    rcases hi with ⟨hi, hin⟩ | ⟨hidle, time, rfl, hh⟩
    · have halarms : y.alarms = [] :=
        run'.invariant (P := fun x => x.alarms = []) h.alarms fun h hm => hm.alarms_eq h
      exact hy.moves ht hx hsub hattends halarms hm hi hin
    · cases hm
      exact hy.pass hattends hidle hh ht hx
  · rintro w ⟨hrest, past, y, rfl, run', ⟨-, hy⟩, hfinished, hanswered⟩
    exact ⟨hrest, y, rfl, hy.restarted hx (run'.attends h.opening) hfinished hanswered⟩

/-! ## The theorem -/

/-- **A lone restart touches nothing else, and comes to what dependencies and script have it come to.** In
a setting with a built topology, a fresh controller with any settings, an engine with any scripts, and a
store that takes some time or none over each request and knows the volumes of the topology, none of them
bound, let starts, stops and restarts be called one after another, and cancels at any time while nothing
but starts of all services and cancels are under way, until all calls have answered and no launch is under
way. Then let one service be restarted. On the virtual clock, where the engine answers in time, everything
comes to rest.

If the service is not known, or is neither ready nor stopped, the call answers that, and nothing but the
call has been added to what there was. Else the container of a service that is ready is stopped first, and
killed if that takes too long or is reported to have failed, and its volumes are unbound. If a dependency
is not ready then, the service ends stopped, with the error that names the first of them, and nothing is
started. Else its volumes are bound to it, each once more, its container is started as soon as they are,
when the old one is out of the way, and it ends ready or failed as its script has it, with no error or with
the one that tells why. The call answers with the status of the service if it is ready, and with that error
if not. All other services are as they were, and so are the bindings of all other volumes. -/
theorem Run.lone_restart {delay : Nat} (ht : t.Built) (h : start.Stocked delay) (run : Run start past x)
    (hturn : ∀ m ∈ past, m.InTurn)
    (hanswered : ∀ (k : Nat) (call : Call t.size), x.controller.calls[k]? = some call →
      call.answer?.isSome) (hlaunches : LaunchesOver x.controller) (id : ServiceId) :
    (t.position? id = none → Inevitably World.TicksInTime
      (fun w => w.AtRest ∧ w = (x.declined id (.unknownService id)).world)
      (x.world.invoke 0 (.restart id)).1) ∧
    ∀ s, t.position? id = some s →
      ((x.controller.slot s).state ≠ .ready → (x.controller.slot s).state ≠ .stopped →
        Inevitably World.TicksInTime (fun w => w.AtRest ∧
          w = (x.declined id (.notRestartable (t.id s) (x.controller.slot s).state)).world)
          (x.world.invoke 0 (.restart id)).1) ∧
      ((x.controller.slot s).state = .ready ∨ (x.controller.slot s).state = .stopped →
        x.Decides s (x.comesTo s) ∧
        ((x.comesTo s).1 = .ready ↔ (x.comesTo s).2 = none) ∧
        (∀ error, (x.comesTo s).2 = some error → (∀ id, error ≠ .unknownService id) ∧
          ∀ id state, error ≠ .notRestartable id state) ∧
        x.vacates s ≤ x.equips s ∧
        Inevitably World.TicksInTime (fun w => w.AtRest ∧ ∃ y, w = y.world ∧ x.Restarted y s)
          (x.world.invoke 0 (.restart id)).1) := by
  have hx := run.standstill ht h hturn hanswered hlaunches
  refine ⟨fun hid => ?_, fun s hid => ⟨fun hready hstopped => ?_, fun hstate => ?_⟩⟩
  · refine hx.declined ht h.opening run ?_ (.inl rfl)
    rw [Controller.invoke, Controller.restart, hid]
    rfl
  · refine hx.declined ht h.opening run ?_ (.inr ⟨s, rfl, hready, hstopped, rfl⟩)
    rw [Controller.invoke, Controller.restart, hid]
    rfl
  · have hrenewable := run.renewable ht h hturn hanswered hlaunches hstate
    exact ⟨hrenewable.decides, comesTo_error.1, comesTo_error.2, vacates_le_equips,
      hrenewable.restarts ht h run hid⟩

/-! ### A stall that is open -/

/-- The stall, with a store that takes five milliseconds over each request. -/
def slowEvening : Setting Engine.Scripted.engine stall :=
  { stallEvening with store := { stallEvening.store with mode := .serving 5 } }

/-- The stall is opened, and the database waits for its volume. -/
def slowOpens : List Event := stallOpens.take 12 ++ .pass 1005 :: stallOpens.drop 12

theorem slowEvening_stocked : slowEvening.Stocked 5 :=
  ⟨⟨⟨_, rfl⟩, rfl, rfl, rfl⟩, rfl, rfl, stallEvening_pristine.volumes⟩

/-- Only the cache is not ready, the volume of the database is bound for the first time, and a container of
the database would start and be ready at once. -/
def showsDatabase (w : World Engine.Scripted.engine) : Bool :=
  w.now = 1005 && (w.members.toList.all fun stack =>
    stack.controller.slots.toList.map (·.state) = [.ready, .failed, .ready] &&
    stack.controller.config.retry.maxAttempts.toNat = 1 &&
    (Engine.Scripted.State.script stack.engine ⟨"db"⟩).fault = none &&
    (Engine.Scripted.State.script stack.engine ⟨"db"⟩).stopFault = none &&
    (Engine.Scripted.State.script stack.engine ⟨"db"⟩).answer 0 = .ready) &&
  w.stores.toList.all fun store =>
    store.table.get? ⟨"data"⟩ = some { volume := stallVolume, owner := some ⟨"db"⟩, attachCount := 1 }

/-- The theorem there. -/
theorem lone_restart_stall : ∃ (past : List (Moment stall)) (x : Setting Engine.Scripted.engine stall),
    stall.Built ∧ slowEvening.Stocked 5 ∧ Run slowEvening past x ∧ (∀ m ∈ past, m.InTurn) ∧
      (∀ (k : Nat) (call : Call stall.size), x.controller.calls[k]? = some call →
        call.answer?.isSome) ∧ LaunchesOver x.controller ∧
      Inevitably World.TicksInTime
        (fun w => w.AtRest ∧ w = (x.declined ⟨"mail"⟩ (.unknownService ⟨"mail"⟩)).world)
        (x.world.invoke 0 (.restart ⟨"mail"⟩)).1 ∧
      Inevitably World.TicksInTime
        (fun w => w.AtRest ∧ w = (x.declined ⟨"cache"⟩ (.notRestartable ⟨"cache"⟩ .failed)).world)
        (x.world.invoke 0 (.restart ⟨"cache"⟩)).1 ∧
      Inevitably World.TicksInTime (fun w => w.AtRest ∧ ∃ y : Setting Engine.Scripted.engine stall,
        w = y.world ∧ (y.controller.slot ⟨0, by decide⟩).state = .ready ∧
        (∃ probes : List Entry, (∀ entry ∈ probes, entry.verb = .probe ∧ entry.service = ⟨"db"⟩) ∧
          Engine.Scripted.State.calls y.engine = Engine.Scripted.State.calls x.engine ++
            ⟨1005, .stop, ⟨"db"⟩, none⟩ :: ⟨1065, .start, ⟨"db"⟩, none⟩ :: probes) ∧
        y.store.table.get? ⟨"data"⟩
          = some { volume := stallVolume, owner := some ⟨"db"⟩, attachCount := 2 } ∧
        ∃ time, y.controller.answer? x.controller.calls.size
          = some (.restarted (.ok (y.controller.status ⟨0, by decide⟩)), time))
        (x.world.invoke 0 (.restart ⟨"db"⟩)).1 := by
  obtain ⟨past, x, opened, inturn, answered, launches, met, shown⟩ :=
    exists_stallOpen slowEvening.store slowOpens (by simp [slowOpens, stallOpens]) showsDatabase
      (by decide +kernel)
  have run : Run slowEvening past x := opened
  simp only [showsDatabase, world, stack, Bool.and_eq_true, decide_eq_true_iff, List.all_cons,
    List.all_nil, Bool.and_true] at shown
  obtain ⟨⟨clock, ⟨⟨⟨states, attempts⟩, fault⟩, stopFault⟩, ready⟩, table⟩ := shown
  have state (s : Fin stall.size) : some (x.controller.slot s).state
      = [ServiceState.ready, .failed, .ready][s.val]? := by
    rw [← states, List.getElem?_map]
    simp [Controller.slot]
  have restart := run.lone_restart stall_built slowEvening_stocked inturn answered launches
  have database : (x.controller.slot ⟨0, by decide⟩).state = .ready := Option.some.inj (state _)
  have cache : (x.controller.slot ⟨1, by decide⟩).state = .failed := Option.some.inj (state _)
  obtain ⟨decides, -, -, -, comes⟩ := ((restart ⟨"db"⟩).2 ⟨0, by decide⟩ rfl).2 (.inl database)
  have alone : stall.dependencies ⟨0, by decide⟩ = [] := by decide +kernel
  have outcome : x.comesTo ⟨0, by decide⟩ = (.ready, none) :=
    decides.ready (by simp [alone]) fault 0 (attempts ▸ Nat.zero_lt_one) ready
  have now : x.now = 1005 := of_decide_eq_true clock
  have delay : x.teardown.stopDelay ⟨0, by decide⟩ = 50 := by
    rw [met]
    show stallTeardown.stopDelay ⟨0, by decide⟩ = 50
    decide +kernel
  have patience : x.teardown.patience = 10000 := congrArg Teardown.patience met
  have latency : x.latency = 5 := latency_of_serving run.mode
  have volume : (stall.volumesOf ⟨0, by decide⟩).length = 1 := by decide +kernel
  have evicts : x.evicts ⟨0, by decide⟩ = [⟨1005, .stop, ⟨"db"⟩, none⟩] := by
    rw [evicts_of_patient database (by omega) stopFault, now]
    rfl
  have equips : x.equips ⟨0, by decide⟩ = 1065 := by
    rw [Setting.equips, clears_of_ready database, vacates_of_ready database, now, delay, patience, latency,
      volume]
    rfl
  refine ⟨past, x, stall_built, slowEvening_stocked, run, inturn, answered, launches,
    (restart ⟨"mail"⟩).1 rfl, ?_, comes.mono ?_⟩
  · have declines := ((restart ⟨"cache"⟩).2 ⟨1, by decide⟩ rfl).1 (by simp [cache]) (by simp [cache])
    rwa [cache] at declines
  · rintro w ⟨hrest, y, rfl, restarted⟩
    obtain ⟨sight, -, calls, volumes, -, answer⟩ := restarted
    rw [outcome] at sight calls volumes answer
    refine ⟨hrest, y, rfl, congrArg Prod.fst sight, ?_, ?_, answer⟩
    · obtain ⟨probes, hprobes, hcalls⟩ := calls
      refine ⟨probes, hprobes, ?_⟩
      rw [hcalls, evicts, equips]
      rfl
    · obtain ⟨binding, hx, hy⟩ := volumes stallVolume (by decide)
      obtain rfl := Option.some.inj (hx.symm.trans table)
      exact hy

end Bringup.Simulation.Setting
