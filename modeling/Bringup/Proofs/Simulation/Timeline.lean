import Bringup.Proofs.Lifecycle.Histories
import Bringup.Proofs.Lifecycle.Pace
import Bringup.Proofs.Simulation.Instants
import Bringup.Proofs.Simulation.StartOutcome

/-!
# Services in time

What the scripts of an engine, the policy of the controller and the clock say at the beginning is a pace
(`Scene.pace`). `Timely` says how far a service has come at an instant, by the phase of the start job
that works for it: which moves it has made and which calls the engine has had for it, each with its
instant, and that the job is no later than the pace. A turn of a start job or of a launch that happens
at once keeps a service timely (`start_turn`, `launch_turn`).
-/

namespace Bringup

/-! ## The log of the engine -/

namespace Engine.Scripted.State

variable {s : State} {now : Nat} {service : ServiceId}

/-- The calls for a service so far, in their order. -/
def callsFor (s : State) (service : ServiceId) : List Entry :=
  s.calls.filter fun entry => entry.service = service

/-- The calls for a service after one more call for some service. -/
theorem callsFor_of_calls {s' : State} {entry : Entry} (h : s'.calls = s.calls ++ [entry]) :
    s'.callsFor service
      = if entry.service = service then s.callsFor service ++ [entry] else s.callsFor service := by
  rw [callsFor, callsFor, h, List.filter_append, List.filter_singleton]
  split <;> simp_all

theorem calls_take_start (declared : Service) (volumes : List Volume) :
    (s.take now (.start declared volumes)).1.calls = s.calls ++ [⟨now, .start, declared.id, none⟩] := by
  simp [take, write, calls]

theorem calls_take_probe (handle : Container.Handle) : (s.take now (.probe handle)).1.calls
    = s.calls ++ [⟨now, .probe, handle.service, some (s.nextProbe handle.service).2⟩] := by
  have hlog : (s.nextProbe handle.service).1.log = s.log := by
    unfold nextProbe
    dsimp only
    split <;> rfl
  simp [take, write, calls, hlog]

theorem calls_take_stop (handle : Container.Handle) (timeout : Duration) :
    (s.take now (.stop handle timeout)).1.calls
      = s.calls ++ [⟨now, .stop, handle.service, none⟩] := by
  simp [take, write, calls]

theorem calls_take_kill (handle : Container.Handle) :
    (s.take now (.kill handle)).1.calls = s.calls ++ [⟨now, .kill, handle.service, none⟩] := by
  simp [take, write, calls]

/-- The calls for a service after calls for others. -/
theorem callsFor_of_others {s' : State} {news : List Entry} (h : s'.calls = s.calls ++ news)
    (hn : ∀ entry ∈ news, entry.service ≠ service) : s'.callsFor service = s.callsFor service := by
  have hnone : news.filter (fun entry => entry.service = service) = [] := by simpa using hn
  rw [callsFor, callsFor, h, List.filter_append, hnone, List.append_nil]

theorem callsFor_finish (work : Work) :
    (s.finish work).1.callsFor service = s.callsFor service := by
  cases work <;> rfl

end Engine.Scripted.State

namespace Simulation

open Lifecycle
open Lifecycle.Controller (Foretold)
open Engine.Scripted (Entry)

variable {t : Topology}

/-! ## The pace of a scene -/

/-- What engine, store and policy of a scene have in store for the services, and how long they take
over it, from this instant on. -/
def Scene.pace (x : Scene t) : Pace t where
  toProspect := x.prospect
  called := x.now
  startDelay s := (x.engine.script (t.id s)).startDelay
  pause i := (x.controller.config.retry.delayFor (.ofNat i)).ceilMillis

/-- The calls for a service whose container is started, and asked so often whether it is ready. -/
def entries (p : Pace t) (s : Fin t.size) (n : Nat) : List Entry :=
  ⟨p.enter s, .start, t.id s, none⟩ ::
    (List.range n).map fun i => ⟨p.probed s i, .probe, t.id s, some ((p.fate s).probe i)⟩

/-- The calls for a service until its start is over. -/
def callsOf (p : Pace t) (s : Fin t.size) : List Entry :=
  if p.blocker? s = none then (p.asked? s).elim [] (entries p s) else []

section

variable {p : Pace t} {s : Fin t.size}

theorem entries_succ (n : Nat) : entries p s (n + 1)
    = entries p s n ++ [⟨p.probed s n, .probe, t.id s, some ((p.fate s).probe n)⟩] := by
  simp [entries, List.range_succ]

theorem callsOf_of_refused (h : p.asked? s = none) : callsOf p s = [] := by
  rw [callsOf, h]
  split <;> rfl

theorem callsOf_of_asked {n : Nat} (hb : p.blocker? s = none) (h : p.asked? s = some n) :
    callsOf p s = entries p s n := by
  rw [callsOf, if_pos hb, h]
  rfl

theorem callsOf_of_blocked (h : p.blocker? s ≠ none) : callsOf p s = [] := if_neg h

end

/-- The retry with the index before an attempt. -/
theorem pause_of_attempt {start : Scene t} {attempt : UInt32} (h : 0 < attempt.toNat) :
    start.pace.pause (attempt.toNat - 1)
      = (start.controller.config.retry.delayFor (attempt - 1)).ceilMillis := by
  have hone : (1 : UInt32).toNat = 1 := rfl
  have hle : (1 : UInt32) ≤ attempt := UInt32.le_iff_toNat_le.2 h
  have hindex : UInt32.ofNat (attempt.toNat - 1) = attempt - 1 := by
    rw [← UInt32.toNat_inj, UInt32.toNat_sub_of_le _ _ hle, UInt32.toNat_ofNat_of_lt' ?_, hone]
    have := attempt.toNat_lt
    have hsize : UInt32.size = 2 ^ 32 := rfl
    omega
  show (start.controller.config.retry.delayFor (.ofNat (attempt.toNat - 1))).ceilMillis = _
  rw [hindex]

/-! ## How far a service has come -/

namespace Setting

section

variable (start : Scene t) (x : Setting Engine.Scripted.engine t) (s : Fin t.size)

/-- The service has made the moves, and the engine has had the calls for it. -/
structure Shows (moves : List Transition) (calls : List Entry) : Prop where
  moves : (x.controller.slot s).transitions = moves
  calls : x.engine.callsFor (t.id s) = start.engine.callsFor (t.id s) ++ calls

/-- A launch for the service is as far as it has to be at this instant. -/
def LaunchTimely : LaunchPhase → Prop
  | .calling => x.now = start.pace.enter s ∧ x.Shows start s (start.pace.entered s) []
  | .running => x.now ≤ start.pace.probed s 0 ∧
    x.Shows start s (start.pace.entered s) (entries start.pace s 0)
  | .returned _ => x.now = start.pace.probed s 0 ∧
    x.Shows start s (start.pace.entered s) (entries start.pace s 0)
  | .halting .. | .finished => False

/-- The start job of the service is as far as it has to be at this instant. -/
def Timely : StartPhase t.size → Prop
  | .arriving => x.now = start.pace.called ∧ x.Shows start s [] []
  | .awaiting left =>
    (∀ d ∈ t.dependencies s, d ∈ left ∨ start.pace.leave d ≤ x.now) ∧
    (start.pace.blocker? s = none → x.now ≤ start.pace.enter s) ∧ x.Shows start s [] []
  | .refusing _ => x.Shows start s [] []
  | .entering => x.now = start.pace.enter s ∧ x.Shows start s [] []
  | .attaching _ => x.now = start.pace.enter s ∧ x.Shows start s (start.pace.entered s) []
  | .launching launch => ∃ l, x.controller.jobs[launch]? = some (.launch l) ∧
    x.LaunchTimely start s l.phase
  | .recording _ => x.now = start.pace.probed s 0 ∧
    x.Shows start s (start.pace.entered s) (entries start.pace s 0)
  | .pausing _ attempt deadline => deadline = start.pace.probed s (attempt.toNat - 1) ∧
    x.now ≤ deadline ∧
    x.Shows start s (start.pace.entered s) (entries start.pace s (attempt.toNat - 1))
  | .asking _ attempt => x.now = start.pace.probed s (attempt.toNat - 1) ∧
    x.Shows start s (start.pace.entered s) (entries start.pace s (attempt.toNat - 1))
  | .probing _ attempt => x.now = start.pace.probed s (attempt.toNat - 1) ∧
    x.Shows start s (start.pace.entered s) (entries start.pace s attempt.toNat)
  | .concluding _ => x.now = start.pace.leave s ∧
    x.Shows start s (start.pace.entered s) (callsOf start.pace s)
  | .finished => (start.pace.blocker? s = none → start.pace.leave s ≤ x.now) ∧
    x.Shows start s (start.pace.history s) (callsOf start.pace s)
  | .following | .discarding .. => False

end

variable {start : Scene t} {x y : Setting Engine.Scripted.engine t} {s : Fin t.size}
  {moves : List Transition} {calls : List Entry} {phase : StartPhase t.size}

theorem Shows.congr (h : x.Shows start s moves calls)
    (hslot : (y.controller.slot s).transitions = (x.controller.slot s).transitions)
    (hcalls : y.engine.callsFor (t.id s) = x.engine.callsFor (t.id s)) :
    y.Shows start s moves calls :=
  ⟨hslot.trans h.moves, hcalls.trans h.calls⟩

/-- A service stays timely at the same instant as long as nothing is done for it. -/
theorem Timely.congr (h : x.Timely start s phase) (hnow : y.now = x.now)
    (hslot : (y.controller.slot s).transitions = (x.controller.slot s).transitions)
    (hcalls : y.engine.callsFor (t.id s) = x.engine.callsFor (t.id s))
    (hlaunch : ∀ launch, phase.launch? = some launch →
      y.controller.jobs[launch]? = x.controller.jobs[launch]?) : y.Timely start s phase := by
  have hshows {moves : List Transition} {calls : List Entry} (h : x.Shows start s moves calls) :
      y.Shows start s moves calls := h.congr hslot hcalls
  cases phase with
  | refusing => exact hshows h
  | arriving | entering | attaching | recording | asking | probing | concluding =>
      exact ⟨hnow.trans h.1, hshows h.2⟩
  | awaiting => exact ⟨by rw [hnow]; exact h.1, by rw [hnow]; exact h.2.1, hshows h.2.2⟩
  | pausing => exact ⟨h.1, by rw [hnow]; exact h.2.1, hshows h.2.2⟩
  | finished => exact ⟨by rw [hnow]; exact h.1, hshows h.2⟩
  | launching launch =>
      obtain ⟨l, hl, h⟩ := h
      refine ⟨l, (hlaunch launch rfl).trans hl, ?_⟩
      cases hp : l.phase with
      | calling | returned =>
          rw [hp] at h
          exact ⟨hnow.trans h.1, hshows h.2⟩
      | running =>
          rw [hp] at h
          exact ⟨by rw [hnow]; exact h.1, hshows h.2⟩
      | halting | finished =>
          rw [hp] at h
          exact h
  | following | discarding => exact h

/-! ## Turns -/

/-- A service that has not moved is pending. -/
theorem Shows.pending (h : x.Shows start s [] calls) (hcourse : Course .pending
    (x.controller.slot s).transitions (x.controller.slot s).state) :
    (x.controller.slot s).state = .pending := by
  rw [h.moves] at hcourse
  exact hcourse.symm

/-- A service that is timely and neither pending nor starting has left the state of starting. -/
theorem Timely.left (h : x.Timely start s phase)
    (hcourse : Course .pending (x.controller.slot s).transitions (x.controller.slot s).state)
    (hp : (x.controller.slot s).state ≠ .pending) (hs : (x.controller.slot s).state ≠ .starting) :
    start.pace.blocker? s = none → start.pace.leave s ≤ x.now := by
  have hpending {calls : List Entry} (h : x.Shows start s [] calls) : False :=
    hp (h.pending hcourse)
  have hstarting {calls : List Entry} (h : x.Shows start s (start.pace.entered s) calls) :
      False := by
    rw [h.moves] at hcourse
    exact hs hcourse.2.2.symm
  cases phase with
  | finished => exact h.1
  | following | discarding => exact h.elim
  | refusing => exact (hpending h).elim
  | arriving | entering => exact (hpending h.2).elim
  | awaiting => exact (hpending h.2.2).elim
  | attaching | recording | asking | probing | concluding => exact (hstarting h.2).elim
  | pausing => exact (hstarting h.2.2).elim
  | launching =>
      obtain ⟨l, -, h⟩ := h
      cases hp : l.phase <;> rw [hp] at h
      case calling | running | returned => exact (hstarting h.2).elim
      case halting | finished => exact h.elim

/-- The slot of a service that enters the state of starting on time. -/
theorem Shows.entered (h : x.Shows start s [] calls) (hcourse : Course .pending
    (x.controller.slot s).transitions (x.controller.slot s).state)
    (hnow : x.now = start.pace.enter s) :
    ((x.controller.slot s).entered x.now).transitions = start.pace.entered s := by
  simp [Slot.entered, Slot.moved, h.moves, h.pending hcourse, hnow, Pace.entered]

section

variable {id : JobId} {action : Action} {slot : Slot} {aside : Aside} {effects : List Effect}

/-- What a service shows after a step in which the engine is not asked anything. -/
theorem Shows.after (h : x.Shows start s moves calls) {c : Controller t} {moves' : List Transition}
    (hslot : (c.slot s).transitions = moves')
    (hasks : ∀ asker call, .asks asker (.container call) ∉ effects)
    (hwithdraws : ∀ asker, .withdraws asker ∉ effects) :
    (x.after c effects).Shows start s moves' calls := by
  constructor
  · rw [controller_after]
    exact hslot
  · rw [(x.ongoing_after_leaves c hasks hwithdraws).2]
    exact h.calls

/-- What a service shows after a turn in which nobody outside is asked anything. -/
theorem Shows.turned (h : x.Shows start s moves calls) {new : Job t.size} {moves' : List Transition}
    (hslot : slot.transitions = moves') :
    (x.after (x.controller.after id new s slot aside) []).Shows start s moves' calls :=
  h.after (by rw [Controller.slot_after_self]; exact hslot) (by simp) (by simp)

/-- What a service shows after a call for it. -/
theorem Shows.asked (h : x.Shows start s moves calls) {c : Controller t} {call : Container.Call}
    {entry : Entry} (hslot : (c.slot s).transitions = moves)
    (hcalls : (x.engine.take x.now call).1.calls = x.engine.calls ++ [entry])
    (hservice : entry.service = t.id s) :
    (x.after c [.asks id (.container call)]).Shows start s moves (calls ++ [entry]) := by
  constructor
  · rw [controller_after]
    exact hslot
  · have hlog : (x.after c [.asks id (.container call)]).engine.calls = x.engine.calls ++ [entry] :=
      hcalls
    rw [Engine.Scripted.State.callsFor_of_calls hlog, if_pos hservice, h.calls, List.append_assoc]

/-- What the job of a service knows and does is what the pace has in store for the service. -/
structure Follows (start : Scene t) (x : Setting Engine.Scripted.engine t) : Prop where
  foretold : Foretold start.pace.toProspect x.controller
  linked : x.controller.Linked
  scripts : Scripts start x.controller x.engine
  course : ∀ s, Course .pending (x.controller.slot s).transitions (x.controller.slot s).state
  config : x.controller.config = start.controller.config
  called : start.pace.called ≤ x.now
  ready : ∀ d, (x.controller.slot d).state = .ready → start.pace.leave d ≤ x.now

variable {job job' : StartJob t.size}

/-- The service of a job that owns it has all that it needs. -/
theorem Follows.unblocked (h : x.Follows start) (hj : x.controller.jobs[id]? = some (.start job))
    (ho : job.phase.Owns) : start.pace.blocker? job.service = none :=
  ((h.foretold.slot job.service).starting (h.foretold.owner hj ho)).2

/-- A job that goes on to the dependencies that are left is no later than the pace. -/
theorem timely_await {left : List (Fin t.size)} (hcalled : start.pace.called ≤ x.now)
    (hseen : ∀ d ∈ t.dependencies job.service, d ∈ left ∨ start.pace.leave d ≤ x.now)
    (hpace : start.pace.blocker? job.service = none → x.now ≤ start.pace.enter job.service)
    (hbacks : start.pace.Backs job.service (job.await left).phase)
    (hshows : x.Shows start job.service [] []) :
    x.Timely start job.service (job.await left).phase := by
  rw [StartJob.phase_await] at hbacks ⊢
  split at hbacks
  next hnil =>
    subst hnil
    rw [if_pos rfl]
    have hdone (d : Fin t.size) (hd : d ∈ t.dependencies job.service) :
        start.pace.leave d ≤ x.now := (hseen d hd).resolve_left (by simp)
    exact ⟨Nat.le_antisymm (hpace hbacks) (Pace.latest_le hcalled hdone), hshows⟩
  next hne =>
    rw [if_neg hne]
    exact ⟨hseen, hpace, hshows⟩

/-- After an attempt at which the container was not ready the job waits for the next one, if there is
one. -/
theorem Follows.retry_cases (h : x.Follows start) (handle : Container.Handle) {attempt : UInt32}
    (hu : start.pace.Untold s attempt) :
    ((attempt + 1).toNat - 1 = attempt.toNat ∧ x.controller.retryPhase x.now s handle attempt
      = .pausing handle (attempt + 1) (x.now + start.pace.pause (attempt.toNat - 1))) ∨
    (¬ attempt < start.pace.attempts ∧ x.controller.retryPhase x.now s handle attempt
      = .concluding (.failed (.probeTimeout (t.id s) start.pace.attempts))) := by
  unfold Controller.retryPhase
  rw [h.config, pause_of_attempt hu.1]
  dsimp only
  split
  next hlt => exact .inl ⟨by rw [Prospect.toNat_succ hlt, Nat.add_sub_cancel], rfl⟩
  next hlast => exact .inr ⟨hlast, rfl⟩

/-- A service whose volumes cannot all be bound leaves at once. -/
theorem timely_of_refused (ht : t.Built) {verdict : Verdict} (hasked : start.pace.asked? s = none)
    (hnow : x.now = start.pace.enter s) (hshows : x.Shows start s (start.pace.entered s) []) :
    x.Timely start s (.concluding verdict) := by
  refine ⟨hnow.trans (Pace.leave_of_refused ht hasked).symm, ?_⟩
  rw [callsOf_of_refused hasked]
  exact hshows

/-- A service leaves at the instant of the last question. -/
theorem timely_of_asked (ht : t.Built) {verdict : Verdict} {n : Nat}
    (hb : start.pace.blocker? s = none) (hasked : start.pace.asked? s = some n)
    (hnow : x.now = start.pace.probed s (n - 1))
    (hshows : x.Shows start s (start.pace.entered s) (entries start.pace s n)) :
    x.Timely start s (.concluding verdict) := by
  refine ⟨hnow.trans (Pace.leave_of_asked ht hasked).symm, ?_⟩
  rw [callsOf_of_asked hb hasked]
  exact hshows

/-- The moves of a service when its job concludes. -/
theorem Follows.moves_concluding (h : x.Follows start) {verdict : Verdict}
    (hj : x.controller.jobs[id]? = some (.start job)) (hp : job.phase = .concluding verdict)
    (htimely : x.Timely start job.service (.concluding verdict)) :
    (x.controller.slot job.service).transitions ++ [⟨.starting, verdict.target, x.now⟩]
      = start.pace.history job.service := by
  have hunblocked := h.unblocked hj (by rw [hp]; trivial)
  have hb := h.foretold.backs hj
  rw [hp] at hb
  have htarget : verdict.target = (start.pace.outcome job.service).1 := by
    rw [Prospect.outcome_of_trial hunblocked]
    cases verdict with
    | ready =>
        have hb : start.pace.trial job.service = none := hb
        simp [hb, Verdict.target]
    | failed error =>
        have hb : start.pace.trial job.service = some error := hb
        simp [hb, Verdict.target]
    | cancelled => exact hb.elim
  rw [Pace.history_of_started hunblocked, htimely.2.moves, ← htarget, ← htimely.1]

/-- A job asks a container whether it is ready when the question is due. -/
theorem Follows.ask_turn (h : x.Follows start) {handle : Container.Handle} {attempt : UInt32}
    {new : Job t.size} (hj : x.controller.jobs[id]? = some (.start job))
    (hp : job.phase = .asking handle attempt)
    (htimely : x.Timely start job.service (.asking handle attempt)) :
    (x.after (x.controller.after id new job.service (x.controller.slot job.service) aside)
      [.asks id (.container (.probe handle))]).Timely start job.service
        (.probing handle attempt) := by
  have hb := h.foretold.backs hj
  rw [hp] at hb
  obtain ⟨⟨-, -, hservice⟩, hpos, -⟩ := hb
  obtain ⟨hanswer, -⟩ := Engine.Scripted.State.nextProbe_of_after
    (h.scripts.asked hj (by rw [hp]; rfl))
  refine ⟨(now_after _ _).trans htimely.1, ?_⟩
  have hentries := entries_succ (p := start.pace) (s := job.service) (attempt.toNat - 1)
  rw [Nat.sub_add_cancel hpos] at hentries
  rw [hentries]
  refine htimely.2.asked (by rw [Controller.slot_after_self]; exact htimely.2.moves) ?_ rfl
  refine (Engine.Scripted.State.calls_take_probe handle).trans ?_
  rw [hservice, hanswer, htimely.1]
  rfl

/-- A job that is told that its container is not ready waits until the next question is due, or leaves
at this instant. -/
theorem Follows.retry_turn (h : x.Follows start) (ht : t.Built) {handle : Container.Handle}
    {attempt : UInt32} {new : Job t.size} (hj : x.controller.jobs[id]? = some (.start job))
    (hp : job.phase = .probing handle attempt)
    (htimely : x.Timely start job.service (.probing handle attempt)) :
    (x.after (x.controller.after id new job.service (x.controller.slot job.service) aside) []).Timely
      start job.service (x.controller.retryPhase x.now job.service handle attempt) := by
  have hunblocked := h.unblocked hj (by rw [hp]; trivial)
  have hb := h.foretold.backs hj
  rw [hp] at hb
  have hshows : (x.after (x.controller.after id new job.service (x.controller.slot job.service)
      aside) []).Shows start job.service (start.pace.entered job.service)
        (entries start.pace job.service attempt.toNat) := htimely.2.turned htimely.2.moves
  rcases h.retry_cases handle hb.2 with ⟨hnext, he⟩ | ⟨hlast, he⟩ <;> rw [he]
  · -- The wait ends when the next question is due.
    have hdue : x.now + start.pace.pause (attempt.toNat - 1)
        = start.pace.probed job.service ((attempt + 1).toNat - 1) := by
      rw [htimely.1, ← Pace.probed_succ, Nat.sub_add_cancel hb.2.1, hnext]
    refine ⟨hdue, ?_, ?_⟩
    · rw [now_after]
      exact Nat.le_add_right _ _
    · rw [hnext]
      exact hshows
  · exact timely_of_asked ht hunblocked (Pace.asked?_of_timeout hb.1 hb.2 hlast)
      ((now_after _ _).trans htimely.1) hshows

/-- **The turn of a start job** leaves its service on time. -/
theorem Follows.start_turn (h : x.Follows start) (ht : t.Built)
    (hj : x.controller.jobs[id]? = some (.start job))
    (turn : StartTurn x.controller x.now id job action job' slot aside effects)
    (hfair : action.Fair start.pace.toProspect x.controller)
    (htimely : x.Timely start job.service job.phase) :
    (x.after (x.controller.after id (.start job') job.service slot aside) effects).Timely start
      job.service job'.phase := by
  have hbacks := h.foretold.backs_turn ht h.linked hj turn hfair
  have hb := h.foretold.backs hj
  have hid := Controller.lt_size_of_job hj
  have hunblocked := h.unblocked hj
  have hnow (c : Controller t) (effects : List Effect) : (x.after c effects).now = x.now :=
    now_after c effects
  cases turn with
  | arrive hp hs =>
      rw [hp] at htimely
      obtain ⟨hnow', hshows⟩ := htimely
      refine timely_await (by rw [hnow]; exact h.called) (fun d hd => .inl hd) (fun _ => ?_) hbacks
        (hshows.turned hshows.moves)
      rw [hnow, hnow']
      exact Pace.called_le_enter
  | follow hp hs =>
      have hshows : x.Shows start job.service [] [] := by
        rcases hp with hp | ⟨hp, -⟩ <;> rw [hp] at htimely <;> exact htimely.2
      rw [hshows.pending (h.course _)] at hs
      exact absurd rfl hs
  | cease hp =>
      rw [hp] at htimely
      exact htimely.elim
  | pass hp =>
      rw [hp] at htimely
      obtain ⟨hseen, hpace, hshows⟩ := htimely
      have hdone (d : Fin t.size) (hd : d ∈ t.dependencies job.service) :
          start.pace.leave d ≤ x.now := (hseen d hd).resolve_left (by simp)
      exact ⟨(hnow _ _).trans (Nat.le_antisymm (hpace hbacks) (Pace.latest_le h.called hdone)),
        hshows.turned hshows.moves⟩
  | giveUp hp hc | forgo hp hc | abandon hp hc | heed hp hc | heedProbe hp hc =>
      rw [h.foretold.isCancelled] at hc
      cases hc
  | @accept d rest hp hc hd =>
      rw [hp] at htimely
      obtain ⟨hseen, hpace, hshows⟩ := htimely
      refine timely_await (by rw [hnow]; exact h.called) (fun d' hd' => ?_)
        (by rw [hnow]; exact hpace) hbacks (hshows.turned hshows.moves)
      rw [hnow]
      rcases hseen d' hd' with hm | hm
      · rcases List.mem_cons.1 hm with rfl | hm
        · exact .inr (h.ready _ ((h.foretold.published _).symm.trans hd))
        · exact .inl hm
      · exact .inr hm
  | decline hp =>
      rw [hp] at htimely
      exact htimely.2.2.turned htimely.2.2.moves
  | @refuse error hp =>
      rw [hp] at htimely hb
      have hblocked : start.pace.blocker? job.service ≠ none := fun hn =>
        Prospect.outcome_ne_pending hn (congrArg Prod.fst hb)
      refine ⟨fun hn => absurd hn hblocked, ?_⟩
      rw [Pace.history_of_blocked hblocked, callsOf_of_blocked hblocked]
      exact htimely.turned (by simpa using htimely.moves)
  | enter hp hc hs hv =>
      rw [hp] at htimely
      obtain ⟨hnow', hshows⟩ := htimely
      refine ⟨(hnow _ _).trans hnow', hshows.after ?_ (by simp [Controller.askAttach])
        (by simp [Controller.askAttach])⟩
      rw [Controller.slot_after_self]
      exact hshows.entered (h.course _) hnow'
  | enterBare hp hc hs hv =>
      rw [hp] at htimely
      obtain ⟨hnow', hshows⟩ := htimely
      refine ⟨{ service := job.service }, ?_, (hnow _ _).trans hnow',
        hshows.turned (hshows.entered (h.course _) hnow')⟩
      rw [controller_after]
      exact Controller.jobs_after_launches hid
  | collect hp hc hl hr =>
      rw [hp] at htimely
      obtain ⟨l, hl', hlaunch⟩ := htimely
      obtain rfl := Job.launch.inj (Option.some.inj (hl.symm.trans hl'))
      rw [hr] at hlaunch
      exact ⟨(hnow _ _).trans hlaunch.1, hlaunch.2.turned hlaunch.2.moves⟩
  | lose hp hc hl hr =>
      rw [hp] at htimely hb
      obtain ⟨l, hl', hlaunch⟩ := htimely
      obtain rfl := Job.launch.inj (Option.some.inj (hl.symm.trans hl'))
      rw [hr] at hlaunch
      have hasked : start.pace.asked? job.service = some 0 :=
        Pace.asked?_of_fault hb (h.foretold.starts h.linked hj hp hl hr)
      exact timely_of_asked ht (hunblocked (by rw [hp]; trivial)) hasked
        ((hnow _ _).trans hlaunch.1) (hlaunch.2.turned hlaunch.2.moves)
  | record hp hs =>
      rw [hp] at htimely
      exact ⟨(hnow _ _).trans htimely.1, htimely.2.turned htimely.2.moves⟩
  | discard hp hs => exact absurd (h.foretold.owner hj (by rw [hp]; trivial)) hs
  | overrun hp | discarded hp | kill hp =>
      rw [hp] at htimely
      exact htimely.elim
  | ask hp =>
      rw [hp] at htimely
      exact h.ask_turn hj hp htimely
  | @conclude verdict hp =>
      have hstate := h.foretold.owner hj (by rw [hp]; trivial)
      rw [hp] at htimely
      refine ⟨fun _ => Nat.le_of_eq ((hnow _ _).trans htimely.1).symm, htimely.2.turned ?_⟩
      rw [← h.moves_concluding hj hp htimely]
      simp [Slot.leaveStarting, hstate, Slot.moved]
  | wake hp hd =>
      rw [hp] at htimely
      obtain ⟨rfl, hle, hshows⟩ := htimely
      exact ⟨(hnow _ _).trans (Nat.le_antisymm hle hd), hshows.turned hshows.moves⟩
  | bind hp =>
      rw [hp] at htimely
      refine ⟨(hnow _ _).trans htimely.1, htimely.2.after ?_ (by simp [Controller.askAttach])
        (by simp [Controller.askAttach])⟩
      rw [Controller.slot_after_self]
      exact htimely.2.moves
  | bindLast hp =>
      rw [hp] at htimely
      refine ⟨{ service := job.service }, ?_, (hnow _ _).trans htimely.1,
        htimely.2.turned htimely.2.moves⟩
      rw [controller_after]
      exact Controller.jobs_after_launches hid
  | @miss volume rest error hp =>
      rw [hp] at htimely hb
      obtain ⟨bound, he, hbound⟩ := hb
      exact timely_of_refused ht (Pace.asked?_of_refused he hbound (hfair _ hj volume rest hp))
        ((hnow _ _).trans htimely.1) (htimely.2.turned htimely.2.moves)
  | @ready handle attempt hp =>
      have hunb := hunblocked (by rw [hp]; trivial)
      rw [hp] at htimely hb
      exact timely_of_asked ht hunb (Pace.asked?_of_ready hb.1 hb.2 (hfair _ hj _ _ hp).symm)
        ((hnow _ _).trans htimely.1) (htimely.2.turned htimely.2.moves)
  | retry hp hr =>
      rw [hp] at htimely
      exact h.retry_turn ht hj hp htimely

/-- **The turn of a launch** leaves its service on time, if the engine answers no start too early. -/
theorem Follows.launch_turn (h : x.Follows start) {l : Launch t.size} {phase : LaunchPhase}
    (hj : x.controller.jobs[id]? = some (.launch l))
    (turn : LaunchTurn x.controller x.now id l action phase effects)
    (hreturn : ∀ result, action = .answer id (.container (.start result)) →
      start.pace.probed l.service 0 ≤ x.now)
    (htimely : x.LaunchTimely start l.service l.phase) :
    (x.after (x.controller.after id (.launch { l with phase }) l.service
      (x.controller.slot l.service) .nothing) effects).LaunchTimely start l.service phase := by
  have hslot : ((x.controller.after id (.launch { l with phase }) l.service
      (x.controller.slot l.service) .nothing).slot l.service) = x.controller.slot l.service :=
    Controller.slot_after_self
  cases turn with
  | call hp =>
      rw [hp] at htimely
      refine ⟨?_, htimely.2.asked (by rw [hslot]; exact htimely.2.moves) ?_ rfl⟩
      · rw [now_after, htimely.1, Pace.probed_zero]
        exact Nat.le_add_right _ _
      · rw [← htimely.1]
        exact Engine.Scripted.State.calls_take_start _ _
  | «return» hp =>
      rw [hp] at htimely
      exact ⟨(now_after _ _).trans (Nat.le_antisymm htimely.1 (hreturn _ rfl)),
        htimely.2.after (by rw [hslot]; exact htimely.2.moves) (by simp) (by simp)⟩
  | halt hp ho | drop hp ho =>
      rw [(h.foretold.launches hj).1] at ho
      cases ho
  | overrun hp | halted hp | kill hp =>
      rw [hp] at htimely
      exact htimely.elim

end

end Setting

end Simulation

end Bringup
