import Bringup.Proofs.Simulation.Cutting
import Bringup.Proofs.Simulation.Dismantling

/-!
# Containers that nobody takes any more

Everything was cancelled while the container of a service was being started. Its launch goes on by itself:
the container still comes when the pace has it, is asked to stop at that instant, and is killed if it has
not stopped when its time is over. `Adrift` says of each phase of the launch what the engine has been asked
for the service since the cancel and how late it can be, and `GoesOn` when the engine goes on with what it
does for the launch.
-/

namespace Bringup.Simulation

open Lifecycle
open Engine.Scripted (Entry)

variable {t : Topology}

namespace Scene

variable (start : Scene t) (s : Fin t.size)

/-- When the container of a service comes. -/
def comes : Nat := start.pace.probed s 0

/-- How long a container has to stop. -/
def patience : Nat := start.controller.config.stopTimeout.ceilMillis

/-- How long the container of a service takes to stop. -/
def stopDelay : Nat := (start.engine.script (t.id s)).stopDelay

/-- When the container of a service is gone that nobody has taken. -/
def goes : Nat := start.comes s + min start.patience (start.stopDelay s)

/-- The question to a container that nobody takes, when it comes. -/
def stray : Entry := ⟨start.comes s, .stop, t.id s, none⟩

/-- What the engine is asked for a container that nobody takes: to stop it, and to kill it if that takes
too long. -/
def strays : List Entry :=
  start.stray s ::
    if start.patience < start.stopDelay s then [⟨start.goes s, .kill, t.id s, none⟩] else []

/-- What it has been asked of that by an instant, if the container comes at all. -/
def strayed (now : Nat) : List Entry :=
  if (start.pace.fate s).fault = none then (start.strays s).filter fun entry => entry.time ≤ now else []

end Scene

/-- Nothing but a question whether a container is ready uses up the scripts. -/
theorem Kept.of_scripts {start : Scene t} {engine engine' : Engine.Scripted.State} (h : Kept start engine)
    (he : engine'.scripts = engine.scripts) : Kept start engine' := by
  intro s
  obtain ⟨n, hn⟩ := h s
  refine ⟨n, ?_⟩
  rw [← hn, Engine.Scripted.State.script, Engine.Scripted.State.script, he]

namespace Setting

section

variable (start : Scene t) (x y : Setting Engine.Scripted.engine t) (s : Fin t.size)

/-- What the engine has been asked for the service since. -/
def Asked (calls : List Entry) : Prop :=
  y.engine.callsFor (t.id s) = x.engine.callsFor (t.id s) ++ calls

/-- The launch of a container that nobody takes is as far as it has to be at this instant. -/
def Adrift : LaunchPhase → Prop
  | .calling => False
  | .running => y.now ≤ start.comes s ∧ Asked x y s []
  | .returned result => y.now = start.comes s ∧ (start.pace.fate s).Starts (t.id s) result ∧
    Asked x y s []
  | .halting handle (.stopping deadline) =>
    handle.service = t.id s ∧ (start.pace.fate s).fault = none ∧
      deadline = start.comes s + start.patience ∧ start.comes s ≤ y.now ∧ y.now ≤ start.goes s ∧
      Asked x y s [start.stray s]
  | .halting handle .killing =>
    handle.service = t.id s ∧ (start.pace.fate s).fault = none ∧
      start.patience < start.stopDelay s ∧ y.now = start.goes s ∧ Asked x y s (start.strays s)
  | .finished =>
    ((start.pace.fate s).fault ≠ none ∧ start.comes s ≤ y.now ∧ Asked x y s []) ∨
      (start.pace.fate s).fault = none ∧ start.goes s ≤ y.now ∧ Asked x y s (start.strays s)

/-- When the engine goes on with what it does for such a launch, and with what answer. -/
def GoesOn (entry : Ongoing Engine.Scripted.Work) : LaunchPhase → Prop
  | .running => entry.due = start.comes s ∧ ∀ engine result, Kept start engine →
    (engine.finish entry.work).2 = .start result → (start.pace.fate s).Starts (t.id s) result
  | .halting _ (.stopping _) => entry.due = start.comes s + start.stopDelay s ∧
    entry.work = .answer (.stop (.ok ()))
  | .halting _ .killing => entry.due = start.goes s ∧ ∃ result, entry.work = .answer (.kill result)
  | _ => False

end

variable {start : Scene t} {x y z : Setting Engine.Scripted.engine t} {s : Fin t.size} {id : JobId}
  {l : Launch t.size} {action : Action} {phase : LaunchPhase} {effects : List Effect}
  {calls : List Entry} {c : Controller t}

theorem Asked.congr (h : Asked x y s calls)
    (hcalls : z.engine.callsFor (t.id s) = y.engine.callsFor (t.id s)) : Asked x z s calls :=
  hcalls.trans h

theorem Asked.append (h : Asked x y s calls) {entry : Entry} (hs : entry.service = t.id s)
    (hcalls : Engine.Scripted.State.calls z.engine
      = Engine.Scripted.State.calls y.engine ++ [entry]) : Asked x z s (calls ++ [entry]) := by
  rw [Asked, Engine.Scripted.State.callsFor_of_calls hcalls, if_pos hs, h, List.append_assoc]

/-- What happens to others at the same instant leaves a launch where it has to be. -/
theorem Adrift.congr (h : Adrift start x y s phase) (hnow : z.now = y.now)
    (hcalls : z.engine.callsFor (t.id s) = y.engine.callsFor (t.id s)) :
    Adrift start x z s phase := by
  have hasked {calls : List Entry} (ha : Asked x y s calls) : Asked x z s calls := ha.congr hcalls
  unfold Adrift at h ⊢
  rw [hnow]
  split at h
  next => exact h.elim
  next => exact ⟨h.1, hasked h.2⟩
  next => exact ⟨h.1, h.2.1, hasked h.2.2⟩
  next => exact ⟨h.1, h.2.1, h.2.2.1, h.2.2.2.1, h.2.2.2.2.1, hasked h.2.2.2.2.2⟩
  next => exact ⟨h.1, h.2.1, h.2.2.1, h.2.2.2.1, hasked h.2.2.2.2⟩
  next => exact h.imp (fun h => ⟨h.1, h.2.1, hasked h.2.2⟩) fun h => ⟨h.1, h.2.1, hasked h.2.2⟩

/-! ## Turns -/

/-- What happens to a launch happens in time: no answer comes too early, nor one that the script does not
have, and no container is killed while its answer is due. -/
structure OnCue (start : Scene t) (y : Setting Engine.Scripted.engine t) (s : Fin t.size)
    (action : Action) (phase : LaunchPhase) : Prop where
  comes : ∀ {id result}, phase = .running → action = .answer id (.container (.start result)) →
    start.comes s ≤ y.now ∧ (start.pace.fate s).Starts (t.id s) result
  stops : ∀ {id handle deadline reply}, phase = .halting handle (.stopping deadline) →
    action = .answer id reply →
      reply = .container (.stop (.ok ())) ∧ start.comes s + start.stopDelay s ≤ y.now
  overruns : ∀ {id handle deadline}, phase = .halting handle (.stopping deadline) →
    action = .timeout id → y.now < start.comes s + start.stopDelay s

theorem strays_of_lt (h : start.patience < start.stopDelay s) :
    start.strays s = [start.stray s] ++ [⟨start.goes s, .kill, t.id s, none⟩] := by
  rw [Scene.strays, if_pos h]
  rfl

theorem strays_of_le (h : start.stopDelay s ≤ start.patience) : start.strays s = [start.stray s] := by
  rw [Scene.strays, if_neg (Nat.not_lt.2 h)]

/-- **The turn of a launch** whose container nobody takes leaves it where it has to be. -/
theorem Adrift.turn (h : Adrift start x y l.service l.phase)
    (turn : LaunchTurn y.controller y.now id l action phase effects)
    (hconfig : y.controller.config = start.controller.config)
    (hin : OnCue start y l.service action l.phase) (c : Controller t) :
    Adrift start x (y.after c effects) l.service phase := by
  cases turn with
  | call hp =>
      rw [hp] at h
      exact h.elim
  | @halt handle hp =>
      rw [hp] at h
      obtain ⟨hnow, ⟨hfault, hservice⟩, hasked⟩ := h
      refine ⟨hservice, hfault, ?_, ?_, ?_, ?_⟩
      · rw [hnow, hconfig]
        rfl
      · exact Nat.le_of_eq hnow.symm
      · rw [now_after, hnow]
        exact Nat.le_add_right _ _
      · have hentry : ⟨y.now, .stop, handle.service, none⟩ = start.stray l.service := by
          rw [hnow, hservice]
          rfl
        exact hasked.append rfl
          (hentry ▸ Engine.Scripted.State.calls_take_stop handle y.controller.config.stopTimeout)
  | drop hp =>
      rw [hp] at h
      obtain ⟨hnow, hfault, hasked⟩ := h
      exact .inl ⟨by rw [show _ = some _ from hfault]; simp, Nat.le_of_eq hnow.symm, hasked⟩
  | @overrun handle halt hp hh =>
      rw [hp] at h
      cases halt with
      | killing => cases hh
      | stopping deadline =>
          obtain ⟨hservice, hfault, rfl, -, hle, hasked⟩ := h
          have hlt := hin.overruns hp rfl
          have hdeadline : start.comes l.service + start.patience ≤ y.now := by
            simpa [Halt.timedOut] using hh
          have hgoes : y.now = start.goes l.service := by
            unfold Scene.goes at hle ⊢
            omega
          have hpatience : start.patience < start.stopDelay l.service := by omega
          refine ⟨hservice, hfault, hpatience, (now_after _ _).trans hgoes, ?_⟩
          have hentry : (⟨y.now, .kill, handle.service, none⟩ : Entry)
              = ⟨start.goes l.service, .kill, t.id l.service, none⟩ := by
            rw [hgoes, hservice]
          rw [strays_of_lt hpatience]
          exact hasked.append rfl (hentry ▸ Engine.Scripted.State.calls_take_kill handle)
  | «return» hp =>
      rw [hp] at h
      obtain ⟨hle, hasked⟩ := h
      obtain ⟨hcomes, hstarts⟩ := hin.comes hp rfl
      exact ⟨Nat.le_antisymm hle hcomes, hstarts, hasked⟩
  | @halted handle halt reply hp hr =>
      rw [hp] at h
      cases halt with
      | killing =>
          obtain ⟨-, hfault, -, hgoes, hasked⟩ := h
          exact .inr ⟨hfault, Nat.le_of_eq hgoes.symm, hasked⟩
      | stopping deadline =>
          obtain ⟨-, hfault, -, -, hle, hasked⟩ := h
          have hstops := (hin.stops hp rfl).2
          unfold Scene.goes at hle
          refine .inr ⟨hfault, ?_, ?_⟩
          · show start.comes l.service + _ ≤ y.now
            omega
          · rw [strays_of_le (by omega)]
            exact hasked
  | @kill handle halt reply hp hr =>
      cases halt with
      | killing =>
          unfold Halt.answered at hr
          split at hr <;> simp_all
      | stopping deadline =>
          obtain ⟨rfl, -⟩ := hin.stops hp rfl
          cases hr

/-- What the turn of a launch leaves of the engine: it was asked for the service of the launch at most, and
goes on with what it does for the launch when it has to. -/
structure Tells (start : Scene t) (y z : Setting Engine.Scripted.engine t) (id : JobId)
    (s : Fin t.size) (phase : LaunchPhase) : Prop where
  log : ∃ news, Engine.Scripted.State.calls z.engine = Engine.Scripted.State.calls y.engine ++ news ∧
    ∀ entry ∈ news, entry.service = t.id s
  kept : Kept start z.engine
  due : ∀ entry ∈ z.ongoing, entry ∈ y.ongoing ∧ entry.job ≠ id ∨
    entry.job = id ∧ GoesOn start s entry phase

/-- **What the engine is asked** by a launch whose container nobody takes. -/
theorem Adrift.tells (h : Adrift start x y l.service l.phase)
    (turn : LaunchTurn y.controller y.now id l action phase effects)
    (hin : OnCue start y l.service action l.phase) (c : Controller t)
    (hnew : Adrift start x (y.after c effects) l.service phase) (hkept : Kept start y.engine)
    (hfault : (start.engine.script (t.id l.service)).stopFault = none)
    (hown : ∀ entry ∈ y.ongoing, entry.job = id →
      GoesOn start l.service entry l.phase ∧ ∀ reply, action ≠ .answer id reply) :
    Tells start y (y.after c effects) id l.service phase := by
  have hquiet (hno : ∀ entry, ¬ GoesOn start l.service entry l.phase ∨
      ∃ reply, action = .answer id reply) : Tells start y (y.after c []) id l.service phase := by
    refine ⟨⟨[], (List.append_nil _).symm, by simp⟩, hkept, fun entry hm => .inl ⟨hm, fun he => ?_⟩⟩
    obtain ⟨hgoes, hanswer⟩ := hown entry hm he
    rcases hno entry with hn | ⟨reply, ha⟩
    · exact hn hgoes
    · exact hanswer reply ha
  have hothers {entry : Ongoing Engine.Scripted.Work} (hm : entry ∈ y.others id) :
      entry ∈ y.ongoing ∧ entry.job ≠ id := by
    obtain ⟨hm, hne⟩ := List.mem_filter.1 hm
    exact ⟨hm, of_decide_eq_true hne⟩
  obtain ⟨n, hscript⟩ := hkept l.service
  cases turn with
  | call hp =>
      rw [hp] at h
      exact h.elim
  | @halt handle hp =>
      rw [hp] at h
      obtain ⟨hnow, ⟨-, hservice⟩, -⟩ := h
      refine ⟨⟨_, Engine.Scripted.State.calls_take_stop handle y.controller.config.stopTimeout,
        by simpa using hservice⟩,
        hkept.of_scripts rfl, fun entry hm => ?_⟩
      rcases List.mem_append.1 hm with hm | hm
      · exact .inl (hothers hm)
      · obtain rfl := List.mem_singleton.1 hm
        refine .inr ⟨rfl, ?_, ?_⟩
        · show y.now + (y.engine.script handle.service).stopDelay = _
          rw [hnow, hservice, hscript]
          rfl
        · show Engine.Scripted.Work.answer (.stop (Engine.Scripted.State.outcome
            (y.engine.script handle.service).stopFault)) = _
          rw [hservice, hscript]
          show Engine.Scripted.Work.answer (.stop (Engine.Scripted.State.outcome
            (start.engine.script (t.id l.service)).stopFault)) = _
          rw [hfault]
          rfl
  | drop hp => exact hquiet fun _ => .inl (by rw [hp]; exact not_false)
  | @overrun handle halt hp =>
      have hservice : handle.service = t.id l.service := hnew.1
      have hgoes := hnew.2.2.2.1
      refine ⟨⟨_, Engine.Scripted.State.calls_take_kill handle, by simpa using hservice⟩,
        hkept.of_scripts rfl, fun entry hm => ?_⟩
      have hm : entry ∈ (y.after c ([.withdraws id] ++ [.asks id (.container (.kill handle))])).ongoing :=
        hm
      rw [ongoing_after_asks c (.inr rfl)] at hm
      rcases List.mem_append.1 hm with hm | hm
      · exact .inl (hothers hm)
      · obtain rfl := List.mem_singleton.1 hm
        exact .inr ⟨rfl, (now_after _ _).symm.trans hgoes, _, rfl⟩
  | «return» | halted => exact hquiet fun _ => .inr ⟨_, rfl⟩
  | @kill handle halt reply hp hr =>
      cases halt with
      | killing =>
          unfold Halt.answered at hr
          split at hr <;> simp_all
      | stopping deadline =>
          obtain ⟨rfl, -⟩ := hin.stops hp rfl
          cases hr

/-! ## Lulls -/

section

variable (h : Adrift start x y l.service l.phase) (ho : l.orphaned)
  (hl : y.controller.jobs[id]? = some (.launch l)) (hlull : y.Lull)
  (hgoes : ∀ entry ∈ y.ongoing, entry.job = id → GoesOn start l.service entry l.phase)

include h ho hl hlull hgoes

/-- What a launch waits for in a lull whose container nobody takes. -/
theorem Adrift.waits :
    (l.phase = .running ∧ y.now < start.comes l.service ∧
      (∀ time, y.Until time → time ≤ start.comes l.service) ∧ Asked x y l.service []) ∨
    (∃ handle, l.phase = .halting handle (.stopping (start.comes l.service + start.patience)) ∧
      (start.pace.fate l.service).fault = none ∧ start.comes l.service ≤ y.now ∧
      y.now < start.goes l.service ∧ (∀ time, y.Until time → time ≤ start.goes l.service) ∧
      Asked x y l.service [start.stray l.service]) ∨
    l.phase = .finished := by
  have hwaits (call : Container.Call) (hexpects : (Job.launch l).Expects call) :
      ∃ entry ∈ y.ongoing, GoesOn start l.service entry l.phase ∧ y.now < entry.due := by
    obtain ⟨entry, hm, he, hlt⟩ := hlull.expects hl hexpects
    exact ⟨entry, hm, hgoes entry hm he, hlt⟩
  cases hp : l.phase with
  | calling =>
      rw [hp] at h
      exact h.elim
  | running =>
      rw [hp] at h
      obtain ⟨entry, hm, hdue, hlt⟩ := hwaits (.start default []) (by
        rw [Job.Expects, hp]
        exact ⟨_, _, rfl⟩)
      rw [hp] at hdue
      exact .inl ⟨rfl, hdue.1 ▸ hlt, fun time hu => hdue.1 ▸ hu.works entry hm hlt, h.2⟩
  | returned result =>
      -- A launch that nobody waits for goes on with its container.
      cases Controller.launchBlock_of_stuck hl (hlull.run id) with
      | kept hp' ho' =>
          rw [ho] at ho'
          cases ho'
      | engine hp' | halt hp' | finished hp' => cases hp.symm.trans hp'
  | halting handle halt =>
      obtain ⟨call, hcall⟩ := halt.exists_expects handle
      obtain ⟨entry, hm, hdue, hlt⟩ := hwaits call (by
        rw [Job.Expects, hp]
        exact hcall)
      rw [hp] at h hdue
      cases halt with
      | killing =>
          have hnow : y.now = start.goes l.service := h.2.2.2.1
          have he : entry.due = start.goes l.service := hdue.1
          omega
      | stopping deadline =>
          obtain ⟨-, hfault, rfl, hcomes, -, hasked⟩ := h
          have hdeadline : (Job.launch l).deadline?
              = some (start.comes l.service + start.patience) := by
            simp [Job.deadline?, hp, Halt.deadline?]
          have hlt' := hlull.deadline hl hdeadline
          have he : entry.due = start.comes l.service + start.stopDelay l.service := hdue.1
          refine .inr (.inl ⟨handle, rfl, hfault, hcomes, ?_, fun time hu => ?_, hasked⟩)
          · unfold Scene.goes
            omega
          · have hle := hu.works entry hm hlt
            have hle' := hu.deadline hl hdeadline hlt'
            unfold Scene.goes
            omega
  | finished => exact .inr (.inr rfl)

/-- **Time passes**, and the launch stays where it has to be. -/
theorem Adrift.pass {time : Nat} (hu : y.Until time) :
    Adrift start x { y with now := time } l.service l.phase := by
  have hlater := Nat.le_of_lt hu.later
  rcases h.waits ho hl hlull hgoes with ⟨hp, -, hle, hasked⟩ |
    ⟨handle, hp, hfault, hcomes, -, hle, hasked⟩ | hp <;> rw [hp] at h ⊢
  · exact ⟨hle time hu, hasked⟩
  · exact ⟨h.1, hfault, rfl, Nat.le_trans hcomes hlater, hle time hu, hasked⟩
  · exact h.imp (fun h => ⟨h.1, Nat.le_trans h.2.1 hlater, h.2.2⟩)
      fun h => ⟨h.1, Nat.le_trans h.2.1 hlater, h.2.2⟩

/-- **In a lull** the engine has been asked what it has to be asked by now. -/
theorem Adrift.strayed : Asked x y l.service (start.strayed l.service y.now) := by
  have hgoes_le : start.comes l.service ≤ start.goes l.service := Nat.le_add_right _ _
  rcases h.waits ho hl hlull hgoes with ⟨hp, hlt, -, hasked⟩ |
    ⟨handle, hp, hfault, hcomes, hlt, -, hasked⟩ | hp
  · have hnone : (start.strays l.service).filter (fun entry => entry.time ≤ y.now) = [] := by
      unfold Scene.strays Scene.stray
      split <;> simp <;> omega
    rw [Scene.strayed, hnone, ite_self]
    exact hasked
  · have hsome : (start.strays l.service).filter (fun entry => entry.time ≤ y.now)
        = [start.stray l.service] := by
      have hfirst : (start.stray l.service).time ≤ y.now := hcomes
      rw [Scene.strays, List.filter_cons_of_pos (by simpa using hfirst)]
      split
      next => simpa using hlt
      next => rfl
    rw [Scene.strayed, if_pos hfault, hsome]
    exact hasked
  · rw [hp] at h
    rcases h with ⟨hfault, -, hasked⟩ | ⟨hfault, hle, hasked⟩
    · rw [Scene.strayed, if_neg hfault]
      exact hasked
    · have hall : (start.strays l.service).filter (fun entry => entry.time ≤ y.now)
          = start.strays l.service := by
        rw [List.filter_eq_self]
        unfold Scene.strays Scene.stray
        split <;> simp <;> omega
      rw [Scene.strayed, if_pos hfault, hall]
      exact hasked

end

end Setting

end Bringup.Simulation
