import Bringup.Proofs.Simulation.Aftermath

/-!
# Runs of starts and cancels

A fresh controller is told to start all services and to cancel, again and again, each call at its instant
(`Steers`). No such run gets stuck within an instant (`Steers.exists_idle`), and the one that a world picks
can be computed (`exists_steers`).

However many calls there are, only three of them matter: the first start sets the pace, the first cancel
after it severs all services from their starts, and the first start after that finds out which of those that
were never started cannot be (`Stage`). `Stands` says of each stage what is known of the setting, and
`Steers.stands` that whatever happens keeps to it.
-/

namespace Bringup.Simulation

open Lifecycle
open Lifecycle.Controller (Faces StartsEnded)

variable {t : Topology} {e : Engine}

namespace Setting

/-- A run of starts and cancels, with the calls and their instants, the latest first. What happens by itself
happens in time, the clock moves on only where nothing does, and a cancel does not come at one instant with
anything else. -/
inductive Steers (start : Setting e t) : List (Operation × Nat) → Setting e t → Prop where
  | refl : Steers start [] start
  | inner {calls : List (Operation × Nat)} {x y : Setting e t} {event : Event}
    {moments : List (Moment t)} (run : Steers start calls x) (h : Moves x event moments y)
    (hi : event.Inner) (hin : ∀ job, event = .control 0 (.timeout job) → ¬ x.world.Due 0 job) :
    Steers start calls y
  | pass {calls : List (Operation × Nat)} {x : Setting e t} {time : Nat} (run : Steers start calls x)
    (hidle : x.world.Idle) (hlater : x.now < time)
    (hmost : ∀ due ∈ x.world.deadlines, x.now < due → time ≤ due) :
    Steers start calls { x with now := time }
  | startAll {calls : List (Operation × Nat)} {x : Setting e t} (run : Steers start calls x)
    (hfree : (.cancel, x.now) ∉ calls) : Steers start ((.startAll, x.now) :: calls) x.called
  | cancel {calls : List (Operation × Nat)} {x : Setting e t} (run : Steers start calls x)
    (hidle : x.world.Idle) : Steers start ((.cancel, x.now) :: calls) x.cancelled

section

variable {start x : Setting e t} {calls : List (Operation × Nat)}

/-- A run of starts and cancels is one of the runs that the setting has. -/
theorem Steers.run (h : Steers start calls x) : ∃ past, Run start past x := by
  induction h with
  | refl => exact ⟨[], .refl⟩
  | inner _ hm _ _ ih =>
      obtain ⟨past, run⟩ := ih
      exact ⟨_, run.tail hm⟩
  | pass _ _ hlater _ ih =>
      obtain ⟨past, run⟩ := ih
      exact ⟨_, run.tail (.pass hlater)⟩
  | @startAll _ x _ _ ih =>
      obtain ⟨past, run⟩ := ih
      exact ⟨_, run.tail x.moves_called⟩
  | @cancel _ x _ _ ih =>
      obtain ⟨past, run⟩ := ih
      exact ⟨_, run.tail x.moves_cancelled⟩

variable (he : e.Answering) (hstart : start.Opening)

include he hstart

/-- The schedule that a world picks is one of those that it has. -/
theorem Steers.settle (h : Steers start calls x) (count : Nat) :
    ∃ y, Steers start calls y ∧ y.world = x.world.settleIn count := by
  induction count generalizing x with
  | zero => exact ⟨x, h, rfl⟩
  | succ count ih =>
      rw [World.settleIn]
      split
      next w hnext =>
        obtain ⟨past, run⟩ := h.run
        obtain ⟨event, moments, y, hm, rfl, hi, hin⟩ := moves_of_next he (run.attends hstart) hnext
        exact ih (h.inner hm hi hin)
      next => exact ⟨x, h, rfl⟩

/-- **Every instant comes to its end**: from wherever a run is, it can go on to where nothing happens by
itself. -/
theorem Steers.exists_idle (h : Steers start calls x) :
    ∃ y, Steers start calls y ∧ y.now = x.now ∧ y.world.Idle := by
  induction hm : x.measure using wellFounded_less.induction generalizing x with
  | _ m ih =>
    subst hm
    by_cases hidle : x.world.Idle
    · exact ⟨x, h, rfl, hidle⟩
    · obtain ⟨past, run⟩ := h.run
      have hattends := run.attends hstart
      obtain ⟨config, hrun⟩ := hstart.controller_run run
      obtain ⟨event, moments, y, hm, hi, hin⟩ := exists_inTime he hattends hidle
      obtain ⟨z, hz, hnow, hidle⟩ := ih _ (less_of_ticks he hattends hrun.linked hm (.inl hi))
        (h.inner hm hi hin) rfl
      exact ⟨z, hz, hnow.trans (hm.now_eq hi), hidle⟩

end

end Setting

/-! ## Runs that are computed -/

section

variable {calls calls' : List (Operation × Nat)} {w w' : World e}

/-- Goes on from the end of an instant with a call or with another instant. -/
def World.steer (calls : List (Operation × Nat)) (w : World e) (event : Event) :
    Option (List (Operation × Nat) × World e) :=
  match event with
  | .pass time =>
    if ∀ due ∈ w.deadlines, w.now < due → time ≤ due then (w.step event).map (calls, ·) else none
  | .control 0 (.invoke .startAll) =>
    if (.cancel, w.now) ∉ calls then (w.step event).map ((.startAll, w.now) :: calls, ·) else none
  | .control 0 (.invoke .cancel) => (w.step event).map ((.cancel, w.now) :: calls, ·)
  | _ => none

/-- Lets a world come to the end of its instant, and then to that of each event. -/
def World.steerAll (count : Nat) (calls : List (Operation × Nat)) (w : World e) (events : List Event) :
    Option (List (Operation × Nat) × World e) :=
  let settled := w.settleIn count
  if settled.rests then
    match events with
    | [] => some (calls, settled)
    | event :: rest =>
      (settled.steer calls event).bind fun (calls, w) => w.steerAll count calls rest
  else none

namespace Setting

variable {start x : Setting e t}

/-- What a world goes on with is one of the things that may happen. -/
theorem Steers.steer (h : Steers start calls x) (hidle : x.world.Idle) {event : Event}
    (hs : x.world.steer calls event = some (calls', w)) :
    ∃ y, Steers start calls' y ∧ y.world = w := by
  unfold World.steer at hs
  split at hs
  next time =>
    split at hs
    next hmost =>
      obtain ⟨w', hw, he⟩ := Option.map_eq_some_iff.1 hs
      obtain ⟨rfl, rfl⟩ := Prod.mk.inj he
      obtain ⟨hlater, rfl⟩ : x.world.now < time ∧ _ := by simpa [World.step] using hw
      exact ⟨_, h.pass hidle hlater hmost, rfl⟩
    next => cases hs
  next =>
    split at hs
    next hfree =>
      rw [step_of_moves x.moves_called] at hs
      obtain ⟨rfl, rfl⟩ := Prod.mk.inj (Option.some.inj hs)
      exact ⟨_, h.startAll hfree, rfl⟩
    next => cases hs
  next =>
    rw [step_of_moves x.moves_cancelled] at hs
    obtain ⟨rfl, rfl⟩ := Prod.mk.inj (Option.some.inj hs)
    exact ⟨_, h.cancel hidle, rfl⟩
  next => cases hs

/-- **A run that is computed** is one of the runs, and it ends where nothing happens by itself. -/
theorem Steers.steerAll (he : e.Answering) (hstart : start.Opening) (h : Steers start calls x)
    {count : Nat} {events : List Event}
    (hs : x.world.steerAll count calls events = some (calls', w)) :
    ∃ y, Steers start calls' y ∧ y.world = w ∧ y.world.Idle := by
  induction events generalizing calls x with
  | nil =>
      obtain ⟨y, hy, hsettled⟩ := h.settle he hstart count
      simp only [World.steerAll, ← hsettled] at hs
      split at hs
      next hrests =>
        obtain ⟨rfl, rfl⟩ := Prod.mk.inj (Option.some.inj hs)
        exact ⟨y, hy, rfl, idle_of_rests hrests⟩
      next => cases hs
  | cons event rest ih =>
      obtain ⟨y, hy, hsettled⟩ := h.settle he hstart count
      simp only [World.steerAll, ← hsettled] at hs
      split at hs
      next hrests =>
        obtain ⟨⟨calls, w⟩, hnext, hrest⟩ := Option.bind_eq_some_iff.1 hs
        obtain ⟨z, hz, rfl⟩ := hy.steer (idle_of_rests hrests) hnext
        exact ih hz hrest
      next => cases hs

/-- A run whose end shows something that was looked up by computing it. -/
theorem exists_steers (he : e.Answering) (hstart : start.Opening) (count : Nat) (events : List Event)
    (shows : List (Operation × Nat) → World e → Bool)
    (h : (start.world.steerAll count [] events).any fun (calls, w) => shows calls w) :
    ∃ calls y, Steers start calls y ∧ y.world.Idle ∧ shows calls y.world := by
  obtain ⟨⟨calls, w⟩, hs, hshows⟩ := (Option.any_eq_true _ _).1 h
  obtain ⟨y, hy, rfl, hidle⟩ := Steers.refl.steerAll he hstart hs
  exact ⟨calls, y, hy, hidle, hshows⟩

end Setting

end

/-! ## Stages -/

/-- How far the calls have come. -/
inductive Stage where
  /-- Nobody has called a start. -/
  | waiting
  /-- The first start was called at this instant, and nothing was cancelled since. -/
  | begun (called : Nat)
  /-- Then everything was cancelled at this instant, and no start was called since. -/
  | severed (called cut : Nat)
  /-- Then a start was called. -/
  | again (called cut : Nat)

namespace Stage

/-- The stage after a call. -/
def next : Stage → Operation × Nat → Stage
  | .waiting, (.startAll, now) => .begun now
  | .begun called, (.cancel, now) => .severed called now
  | .severed called cut, (.startAll, _) => .again called cut
  | stage, _ => stage

/-- The stage after some calls, the latest first. -/
def after (calls : List (Operation × Nat)) : Stage :=
  calls.foldr (fun call stage => stage.next call) .waiting

end Stage

namespace Setting

/-! ## What is known at each stage -/

/-- At this instant everything was cancelled, for the first time since the first start. -/
structure CutOff (opening : Scene t) (called cut : Nat) (x : Setting Engine.Scripted.engine t) :
    Prop where
  steered : Steered opening x
  begun : ∃ run, Begun { opening with now := called } run x
  idle : x.world.Idle
  now : x.now = cut

/-- What is known of a setting after the calls, at each stage. -/
def Stands (opening : Scene t) (calls : List (Operation × Nat))
    (y : Setting Engine.Scripted.engine t) : Stage → Prop
  | .waiting => Unmarked opening y ∧ (y.Swept ∨ (.cancel, y.now) ∈ calls)
  | .begun called => ∃ run, Begun { opening with now := called } run y
  | .severed called cut => ∃ x, CutOff opening called cut x ∧
    (Cutting x y ∧ (∃ k, y.controller.Covered k) ∧ (.cancel, y.now) ∈ calls ∨
      Aftermath { opening with now := called } x y ∧ StartsEnded y.controller ∧
        ∀ s, (y.controller.slot s).lastError
          = ((x.controller.slot s).severed (t.id s) cut).lastError)
  | .again called cut => ∃ x, CutOff opening called cut x ∧
    Aftermath { opening with now := called } x y ∧
      ∀ s, (y.controller.slot s).state = .pending → Faces y.controller s

section

variable {opening : Scene t} {calls : List (Operation × Nat)}
  {x y z : Setting Engine.Scripted.engine t} {stage : Stage} {event : Event}
  {moments : List (Moment t)}

/-- No cancel is under way where nothing happens by itself. -/
theorem swept_of_idle {x : Setting e t} (hidle : x.world.Idle) : x.Swept := by
  intro k call hk left hp
  have hstuck := proceed_of_idle hidle hk
  cases left <;> simp [Controller.proceed, hp] at hstuck

variable (ht : t.Built) (hx : opening.Fresh) (hsteered : Steered opening y)
  (hstore : opening.store.mode = .serving 0)

include ht hx hsteered hstore

/-- Where nothing happens by itself the instant of the cancel is over. -/
theorem CutOff.aftermath {called cut : Nat} (hcut : CutOff opening called cut x) (hc : Cutting x y)
    (hcovered : ∃ k, y.controller.Covered k) (hidle : y.world.Idle) :
    Aftermath { opening with now := called } x y ∧ StartsEnded y.controller ∧
      ∀ s, (y.controller.slot s).lastError
        = ((x.controller.slot s).severed (t.id s) cut).lastError := by
  obtain ⟨run, hb⟩ := hcut.begun
  have h := hb.aftermath ht hx hstore hcut.steered hcut.idle hsteered hc hidle hcovered
  rwa [hcut.now] at h

/-- What has severed the services is behind them where nothing happens by itself. -/
theorem Stands.settle {called cut : Nat} (h : Stands opening calls y (.severed called cut))
    (hidle : y.world.Idle) : ∃ x, CutOff opening called cut x ∧
      Aftermath { opening with now := called } x y ∧ StartsEnded y.controller ∧
        ∀ s, (y.controller.slot s).lastError
          = ((x.controller.slot s).severed (t.id s) cut).lastError := by
  obtain ⟨x, hcut, ⟨hc, hcovered, -⟩ | h⟩ := h
  · exact ⟨x, hcut, hcut.aftermath ht hx hsteered hstore hc hcovered hidle⟩
  · exact ⟨x, hcut, h⟩

/-- All start jobs have come to their ends where nothing happens by itself after the cancel. -/
theorem Aftermath.startsEnded {start : Scene t} (h : Aftermath start x y) (hidle : y.world.Idle) :
    StartsEnded y.controller := by
  obtain ⟨config, past, hrun⟩ := hsteered.controller_run hx
  have hlull := hsteered.lull hx hstore hidle
  exact h.barred.startsEnded ht (hsteered.proper ht hx) hrun.counts hlull.run hlull.heed

/-! ## What may happen -/

variable (hprobes : ∀ s, (opening.engine.script (t.id s)).probeDelay = 0)
  (hfaults : ∀ s, (opening.engine.script (t.id s)).stopFault = none) (h : Stands opening calls y stage)

include h

include hprobes hfaults in
/-- **What happens by itself** changes nothing of the stage. -/
theorem Stands.moves (hm : Moves y event moments z) (hi : event.Inner)
    (hin : ∀ job, event = .control 0 (.timeout job) → ¬ y.world.Due 0 job) :
    Stands opening calls z stage := by
  have hnow : z.now = y.now := hm.now_eq hi
  cases stage with
  | waiting =>
      obtain ⟨hu, hswept⟩ := h
      refine ⟨hu.moves hx hsteered hm hi, hswept.imp (fun hs => hs.moves hx hsteered hm hi) ?_⟩
      rw [hnow]
      exact id
  | begun called =>
      obtain ⟨run, hb⟩ := h
      exact ⟨run, hb.moves ht hx hsteered hprobes hm hi⟩
  | severed called cut =>
      obtain ⟨x, hcut, ⟨hc, ⟨k, hcovered⟩, hcall⟩ | ⟨haftermath, hended, herror⟩⟩ := h
      · obtain ⟨run, hb⟩ := hcut.begun
        have hp := hb.poised ht hx hcut.steered hstore hcut.idle
        refine ⟨x, hcut, .inl ⟨hc.moves hp hx hsteered hm hi, ⟨k, ?_⟩, hnow ▸ hcall⟩⟩
        rcases hm.controller with ⟨-, he⟩ | ⟨action, c, effects, hs, he, -⟩
        · exact he ▸ hcovered
        · exact he ▸ hcovered.step hc.quelled hs
      · obtain ⟨haftermath, hrests⟩ := haftermath.moves ht hfaults hx hsteered hm hi hin
        obtain ⟨hended, hslots⟩ := hrests.ended hended
        exact ⟨x, hcut, .inr ⟨haftermath, hended, fun s => by rw [hslots, herror]⟩⟩
  | again called cut =>
      obtain ⟨x, hcut, haftermath, hfaces⟩ := h
      obtain ⟨haftermath, hrests⟩ := haftermath.moves ht hfaults hx hsteered hm hi hin
      refine ⟨x, hcut, haftermath, fun s hp => ?_⟩
      rw [hrests.unmoved.state] at hp
      exact hrests.faces s hp (hfaces s hp)

/-- **Time passes**, and the stage stays. -/
theorem Stands.pass (hidle : y.world.Idle) {time : Nat} (hu : y.Until time) :
    Stands opening calls { y with now := time } stage := by
  have hlull := hsteered.lull hx hstore hidle
  cases stage with
  | waiting =>
      have hu : y.anew 0 = { opening.setting with now := y.now } := h.1
      have hpassed : Unmarked opening { y with now := time } := by
        show ({ y.anew 0 with now := time } : Setting Engine.Scripted.engine t) = _
        rw [hu]
      exact ⟨hpassed, .inl fun k call hk => swept_of_idle hidle k call hk⟩
  | begun called =>
      obtain ⟨run, hb⟩ := h
      exact ⟨run, hb.pass ht hx hsteered hstore hidle hu⟩
  | severed called cut =>
      obtain ⟨x, hcut, haftermath, hended⟩ := h.settle ht hx hsteered hstore hidle
      exact ⟨x, hcut, .inr ⟨haftermath.pass hlull hu, hended⟩⟩
  | again called cut =>
      obtain ⟨x, hcut, haftermath, hfaces⟩ := h
      exact ⟨x, hcut, haftermath.pass hlull hu, hfaces⟩

omit hstore in
/-- **A start that is called** brings the setting to the next stage. -/
theorem Stands.startAll (hfree : (.cancel, y.now) ∉ calls) :
    Stands opening ((.startAll, y.now) :: calls) y.called (stage.next (.startAll, y.now)) := by
  cases stage with
  | waiting => exact ⟨_, h.1.begun ht hx hsteered (h.2.resolve_right hfree)⟩
  | begun called =>
      obtain ⟨run, hb⟩ := h
      exact ⟨run, hb.called ht hsteered⟩
  | severed called cut =>
      obtain ⟨x, hcut, ⟨-, -, hcall⟩ | ⟨haftermath, -⟩⟩ := h
      · exact absurd hcall hfree
      · obtain ⟨haftermath, hfaces⟩ := haftermath.called ht hsteered
        exact ⟨x, hcut, haftermath, fun s _ => hfaces s⟩
  | again called cut =>
      obtain ⟨x, hcut, haftermath, -⟩ := h
      obtain ⟨haftermath, hfaces⟩ := haftermath.called ht hsteered
      exact ⟨x, hcut, haftermath, fun s _ => hfaces s⟩

/-- **A cancel that is called** brings the setting to the next stage. -/
theorem Stands.cancel (hidle : y.world.Idle) :
    Stands opening ((.cancel, y.now) :: calls) y.cancelled (stage.next (.cancel, y.now)) := by
  cases stage with
  | waiting => exact ⟨h.1, .inr List.mem_cons_self⟩
  | begun called =>
      obtain ⟨run, hb⟩ := h
      obtain ⟨config, past, hrun⟩ := hsteered.controller_run hx
      exact ⟨y, ⟨hsteered, ⟨run, hb⟩, hidle, rfl⟩,
        .inl ⟨(hb.poised ht hx hsteered hstore hidle).cutting hrun.runsOpened,
          ⟨_, Controller.covered_cancel _⟩, List.mem_cons_self⟩⟩
  | severed called cut =>
      obtain ⟨x, hcut, haftermath, hended, herror⟩ := h.settle ht hx hsteered hstore hidle
      exact ⟨x, hcut, .inr ⟨haftermath.cancelled hended, hended, herror⟩⟩
  | again called cut =>
      obtain ⟨x, hcut, haftermath, hfaces⟩ := h
      exact ⟨x, hcut, haftermath.cancelled (haftermath.startsEnded ht hx hsteered hstore hidle), hfaces⟩

end

/-- **Every run of starts and cancels** is where the calls say. -/
theorem Steers.stands {opening : Scene t} {calls : List (Operation × Nat)}
    {y : Setting Engine.Scripted.engine t} (ht : t.Built) (hx : opening.Fresh)
    (hstore : opening.store.mode = .serving 0)
    (hprobes : ∀ s, (opening.engine.script (t.id s)).probeDelay = 0)
    (hfaults : ∀ s, (opening.engine.script (t.id s)).stopFault = none)
    (run : Steers opening.setting calls y) :
    Steered opening y ∧ Stands opening calls y (Stage.after calls) := by
  induction run with
  | refl =>
      refine ⟨steered_setting hx, unmarked_setting hx, .inl fun k call hk => ?_⟩
      obtain ⟨config, hc⟩ := hx.controller
      simp [Scene.setting, hc, Controller.fresh] at hk
  | inner run hm hi hin ih =>
      exact ⟨ih.1.moves hx hm hi, ih.2.moves ht hx ih.1 hstore hprobes hfaults hm hi hin⟩
  | pass run hidle hlater hmost ih =>
      exact ⟨ih.1.pass hlater, ih.2.pass ht hx ih.1 hstore hidle (until_of_deadlines hlater hmost)⟩
  | startAll run hfree ih => exact ⟨ih.1.called ht, ih.2.startAll ht hx ih.1 hfree⟩
  | cancel run hidle ih => exact ⟨ih.1.cancelled, ih.2.cancel ht hx ih.1 hstore hidle⟩

end Setting

end Bringup.Simulation
