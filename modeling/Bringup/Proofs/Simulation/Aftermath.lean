import Bringup.Proofs.Lifecycle.Barred
import Bringup.Proofs.Simulation.Adrift
import Bringup.Proofs.Simulation.InTime

/-!
# After a cancel

At the end of the instant at which everything was cancelled every service has been severed from its start
(`Slot.severed`), and no start gets to any service any more. All that goes on are the launches that were
waited for then, each by itself (`Drifting`). Neither what happens in time nor a start or a cancel changes
that (`Aftermath`), so what is to be seen of a service is told by what was to be seen of it at the cancel.
-/

namespace Bringup

namespace Lifecycle

/-! ## Services that were severed from their starts -/

/-- What a cancel at this instant leaves of the slot of a service. -/
def Slot.severed (id : ServiceId) (now : Nat) (slot : Slot) : Slot :=
  if slot.state = .pending ∧ slot.lastError = none then slot.record (.cancelled id)
  else slot.leaveStarting now .stopping (some (.cancelled id))

section

variable {id : ServiceId} {now : Nat} {old new : Slot} (h : Slot.Cut id now old new)

include h

/-- A cancel starts no service over. -/
theorem Slot.Cut.pending (hs : new.state = .pending) : old.state = .pending := by
  cases h with
  | stays hsight => exact (congrArg Prod.fst hsight).symm.trans hs
  | refused hp => exact hp
  | taken _ hsight => cases hs.symm.trans (congrArg Prod.fst hsight)

/-- A service that neither waits nor is being stopped after a cancel was in its state before. -/
theorem Slot.Cut.kept (hp : new.state ≠ .pending) (hs : new.state ≠ .stopping) :
    old.state = new.state := by
  cases h with
  | stays hsight => exact (congrArg Prod.fst hsight).symm
  | refused _ _ hsight => exact absurd (congrArg Prod.fst hsight) hp
  | taken _ hsight => exact absurd (congrArg Prod.fst hsight) hs

/-- At the end of the instant of a cancel a service has been severed from its start. -/
theorem Slot.Cut.severed (hs : new.state ≠ .starting)
    (he : new.state = .pending → new.lastError ≠ none) :
    new.sight = (old.severed id now).sight ∧ new.transitions = (old.severed id now).transitions := by
  cases h with
  | stays hsight ht =>
      have hstate : new.state = old.state := congrArg Prod.fst hsight
      have herror : new.lastError = old.lastError := congrArg Prod.snd hsight
      rw [hstate] at hs
      have hsevered : old.severed id now = old := by
        rw [Slot.severed, if_neg fun h => he (hstate.trans h.1) (herror.trans h.2),
          Slot.leaveStarting, if_neg hs]
      rw [hsevered]
      exact ⟨hsight, ht⟩
  | refused hp hn hsight ht =>
      rw [Slot.severed, if_pos ⟨hp, hn⟩]
      exact ⟨hsight.trans (by rw [sight, record, hp]), ht⟩
  | taken hp hsight ht =>
      rw [Slot.severed, if_neg (by simp [hp]), Slot.leaveStarting, if_pos hp]
      exact ⟨hsight, by rw [ht]; simp [moved, hp]⟩

end

namespace Controller

variable {t : Topology} {c d e : Controller t} {now : Nat} {s : Fin t.size}

/-- A cancel at this instant has severed the services from their starts, and nothing has come of them since
but that those which were never started may have been refused. -/
structure Severed (c : Controller t) (now : Nat) (d : Controller t) : Prop where
  state : ∀ s, (d.slot s).state = ((c.slot s).severed (t.id s) now).state
  transitions : ∀ s, (d.slot s).transitions = ((c.slot s).severed (t.id s) now).transitions
  error : ∀ s, (d.slot s).lastError = ((c.slot s).severed (t.id s) now).lastError ∨
    (d.slot s).state = .pending ∧ (d.slot s).lastError = d.refusal s

theorem Severed.unmoved (h : Severed c now d) (hu : Unmoved d e) : Severed c now e where
  state s := (hu.state s).trans (h.state s)
  transitions s := (hu.transitions s).trans (h.transitions s)
  error s := by
    rw [hu.state, hu.refusal]
    rcases hu.error s with he | hr
    · rw [he]
      exact h.error s
    · exact .inr hr

/-- A start job of the service waits for this launch. -/
def AwaitsLaunch (c : Controller t) (s : Fin t.size) (launch : JobId) : Prop :=
  ∃ (id : Nat) (job : StartJob t.size), c.jobs[id]? = some (.start job) ∧ job.service = s ∧
    job.phase = .launching launch

theorem jobs_after_nothing_of_ne {id i : JobId} {new : Job t.size} {slot : Slot} (hi : i ≠ id) :
    (c.after id new s slot .nothing).jobs[i]? = c.jobs[i]? := by
  rw [after, jobs_setJob_of_ne _ hi, jobs_setSlot]
  rfl

end Controller

end Lifecycle

namespace Simulation

open Lifecycle
open Lifecycle.Controller (Barred Faces Rests StartsEnded TurnsTo Unmoved)

variable {t : Topology}

namespace Setting

/-! ## Launches that go on by themselves -/

/-- The launches that were waited for when everything was cancelled go on, each as far as it has to be, and
nobody has asked the engine for anything else since. -/
structure Drifting (start : Scene t) (x y : Setting Engine.Scripted.engine t) : Prop where
  config : y.controller.config = start.controller.config
  kept : Kept start y.engine
  queue : y.store.queue = []
  answers : y.store.answers = []
  /-- At most one launch was waited for of each service. -/
  sole : ∀ {s : Fin t.size} {id id' : JobId}, x.controller.AwaitsLaunch s id →
    x.controller.AwaitsLaunch s id' → id = id'
  launch : ∀ {id : Nat} {l : Launch t.size}, y.controller.jobs[id]? = some (.launch l) →
    l.phase = .finished ∨ x.controller.AwaitsLaunch l.service id
  adrift : ∀ {s : Fin t.size} {id : JobId}, x.controller.AwaitsLaunch s id →
    ∃ l, y.controller.jobs[id]? = some (.launch l) ∧ l.service = s ∧ l.orphaned ∧
      Adrift start x y s l.phase
  calm : ∀ {s : Fin t.size}, (∀ id, ¬ x.controller.AwaitsLaunch s id) → Asked x y s []
  goes : ∀ entry ∈ y.ongoing, ∃ l, y.controller.jobs[entry.job]? = some (.launch l) ∧
    GoesOn start l.service entry l.phase

section

variable {start : Scene t} {x y z : Setting Engine.Scripted.engine t} {id : JobId} {action : Action}
  {effects : List Effect} {c : Controller t}

/-- What the engine has to do for a launch is what it does. -/
theorem Drifting.goesOn (h : Drifting start x y) {l : Launch t.size}
    (hl : y.controller.jobs[id]? = some (.launch l)) {entry : Ongoing Engine.Scripted.Work}
    (hm : entry ∈ y.ongoing) (he : entry.job = id) : GoesOn start l.service entry l.phase := by
  obtain ⟨l', hl', hgoes⟩ := h.goes entry hm
  rw [he] at hl'
  obtain rfl := Job.launch.inj (Option.some.inj (hl.symm.trans hl'))
  exact hgoes

/-- The engine answers on cue. -/
theorem Drifting.onCue_answer (h : Drifting start x y) {l : Launch t.size}
    {entry : Ongoing Engine.Scripted.Work} (hl : y.controller.jobs[entry.job]? = some (.launch l))
    (hm : entry ∈ y.ongoing) (hd : entry.due ≤ y.now) :
    OnCue start y l.service
      (.answer entry.job (.container (Engine.Scripted.State.finish y.engine entry.work).2)) l.phase := by
  have hgoes := h.goesOn hl hm rfl
  refine ⟨fun {id result} hp ha => ?_, fun {id handle deadline reply} hp ha => ?_,
    fun _ ha => by cases ha⟩
  · rw [hp] at hgoes
    obtain ⟨-, hreply⟩ := Action.answer.inj ha
    exact ⟨hgoes.1 ▸ hd, hgoes.2 _ _ h.kept (Reply.container.inj hreply)⟩
  · rw [hp] at hgoes
    obtain ⟨-, rfl⟩ := Action.answer.inj ha
    refine ⟨?_, hgoes.1 ▸ hd⟩
    rw [hgoes.2]
    rfl

/-- No wait for the engine ends too early. -/
theorem Drifting.onCue_own (h : Drifting start x y) (hattends : Attends y) {l : Launch t.size}
    (hl : y.controller.jobs[id]? = some (.launch l)) (hown : action.job? = some id)
    (ha : ∀ job reply, action ≠ .answer job reply)
    (hin : ∀ job, action = .timeout job → ¬ y.world.Due 0 job) :
    OnCue start y l.service action l.phase := by
  refine ⟨fun _ he => absurd he (ha _ _), fun _ he => absurd he (ha _ _), ?_⟩
  rintro id' handle deadline hp rfl
  obtain rfl : id' = id := Option.some.inj hown
  -- The engine works on the stop of the container, and is not to go on with it yet.
  have hexpects : (Job.launch l).Expects (.stop handle default) := by
    rw [Job.Expects, hp]
    exact rfl
  obtain ⟨entry, hm, he, hdue⟩ := undue_of_expects hattends hl hexpects (hin id' rfl)
  have hgoes := h.goesOn hl hm he
  rw [hp] at hgoes
  exact hgoes.1 ▸ hdue

/-- What becomes of other jobs than launches is nothing to the launches. -/
theorem Drifting.alone (h : Drifting start x y) (hconfig : c.config = y.controller.config)
    (hlaunch : ∀ {id : Nat} {l : Launch t.size}, c.jobs[id]? = some (.launch l) ↔
      y.controller.jobs[id]? = some (.launch l)) : Drifting start x { y with controller := c } where
  config := hconfig.trans h.config
  kept := h.kept
  queue := h.queue
  answers := h.answers
  sole := h.sole
  launch hl := h.launch (hlaunch.1 hl)
  adrift ha := by
    obtain ⟨l, hl, hs, ho, hadrift⟩ := h.adrift ha
    exact ⟨l, hlaunch.2 hl, hs, ho, hadrift.congr rfl rfl⟩
  calm hn := h.calm hn
  goes entry hm := by
    obtain ⟨l, hl, hgoes⟩ := h.goes entry hm
    exact ⟨l, hlaunch.2 hl, hgoes⟩

/-- The engine may be done with something. -/
theorem Drifting.meanwhile (h : Drifting start x y) {engine : Engine.Scripted.State}
    {ongoing : List (Ongoing Engine.Scripted.Work)} (hkept : Kept start engine)
    (hcalls : ∀ s, engine.callsFor (t.id s) = y.engine.callsFor (t.id s))
    (ho : ∀ entry ∈ ongoing, entry ∈ y.ongoing) : Drifting start x { y with engine, ongoing } where
  config := h.config
  kept := hkept
  queue := h.queue
  answers := h.answers
  sole := h.sole
  launch hl := h.launch hl
  adrift ha := by
    obtain ⟨l, hl, hs, ho, hadrift⟩ := h.adrift ha
    exact ⟨l, hl, hs, ho, hadrift.congr rfl (hcalls _)⟩
  calm hn := (h.calm hn).congr (hcalls _)
  goes entry hm := h.goes entry (ho entry hm)

/-- **The turn of a launch** leaves all of them where they have to be. -/
theorem Drifting.turn (h : Drifting start x y) (ht : t.Built)
    (hfaults : ∀ s, (start.engine.script (t.id s)).stopFault = none) {l : Launch t.size}
    {phase : LaunchPhase} (hj : y.controller.jobs[id]? = some (.launch l))
    (turn : LaunchTurn y.controller y.now id l action phase effects)
    (hin : OnCue start y l.service action l.phase)
    (hown : ∀ entry ∈ y.ongoing, entry.job = id → ∀ reply, action ≠ .answer id reply)
    (hc : c = y.controller.after id (.launch { l with phase }) l.service
      (y.controller.slot l.service) .nothing) : Drifting start x (y.after c effects) := by
  have hopen : l.phase ≠ .finished := fun hp =>
    (Turn.launch turn).not_isFinished (Job.isFinished_launch.2 hp)
  have hawaits := (h.launch hj).resolve_left hopen
  obtain ⟨l', hl', -, ho, hadrift⟩ := h.adrift hawaits
  obtain rfl := Job.launch.inj (Option.some.inj (hj.symm.trans hl'))
  have hnew := hadrift.turn turn h.config hin c
  have htells := hadrift.tells turn hin c hnew h.kept (hfaults _) fun entry hm he =>
    ⟨h.goesOn hj hm he, hown entry hm he⟩
  have hself : (y.after c effects).controller.jobs[id]? = some (.launch { l with phase }) := by
    rw [controller_after, hc]
    exact Controller.jobs_after_self (Controller.lt_size_of_job hj)
  have hother {i : Nat} (hi : i ≠ id) :
      (y.after c effects).controller.jobs[i]? = y.controller.jobs[i]? := by
    rw [controller_after, hc, Controller.jobs_after_nothing_of_ne hi]
  -- Nothing was asked for other services.
  have hcalls {s : Fin t.size} (hs : s ≠ l.service) :
      (y.after c effects).engine.callsFor (t.id s) = y.engine.callsFor (t.id s) := by
    obtain ⟨news, he, hnews⟩ := htells.log
    refine Engine.Scripted.State.callsFor_of_others he fun entry hm hentry => hs ?_
    exact ht.id_injective (hentry.symm.trans (hnews entry hm))
  have hstore : (y.after c effects).store = y.store := by
    rw [store_after]
    refine Store.hear_unasked (fun asker request hm => ?_) _ _
    cases turn <;> simp [Controller.askStop, Controller.askKill] at hm
  constructor
  case config =>
    rw [controller_after, hc, Controller.config_after]
    exact h.config
  case kept => exact htells.kept
  case queue => rw [hstore, h.queue]
  case answers => rw [hstore, h.answers]
  case sole => exact h.sole
  case launch =>
    intro i l' hi
    by_cases he : i = id
    · subst he
      obtain rfl := Job.launch.inj (Option.some.inj (hself.symm.trans hi))
      exact .inr hawaits
    · rw [hother he] at hi
      exact h.launch hi
  case adrift =>
    intro s i ha
    obtain ⟨l', hi, rfl, ho', hadrift'⟩ := h.adrift ha
    by_cases he : i = id
    · subst he
      obtain rfl := Job.launch.inj (Option.some.inj (hj.symm.trans hi))
      exact ⟨_, hself, rfl, ho', hnew⟩
    · refine ⟨l', (hother he).trans hi, rfl, ho', hadrift'.congr (now_after _ _) (hcalls fun hs => ?_)⟩
      exact he (h.sole ha (hs ▸ hawaits))
  case calm =>
    intro s hn
    exact (h.calm hn).congr (hcalls fun hs => hn id (hs ▸ hawaits))
  case goes =>
    intro entry hm
    rcases htells.due entry hm with ⟨hm, hne⟩ | ⟨he, hgoes⟩
    · rw [hother hne]
      exact h.goes entry hm
    · rw [he]
      exact ⟨_, hself, hgoes⟩

/-- **Time passes**, and the launches stay where they have to be. -/
theorem Drifting.pass (h : Drifting start x y) (hlull : y.Lull) {time : Nat} (hu : y.Until time) :
    Drifting start x { y with now := time } where
  config := h.config
  kept := h.kept
  queue := h.queue
  answers := h.answers
  sole := h.sole
  launch hl := h.launch hl
  adrift {s id} ha := by
    obtain ⟨l, hl, rfl, ho, hadrift⟩ := h.adrift ha
    exact ⟨l, hl, rfl, ho, hadrift.pass ho hl hlull (fun entry hm he => h.goesOn hl hm he) hu⟩
  calm hn := h.calm hn
  goes := h.goes

/-- **In a lull** the engine has been asked since what it has to be asked by now. -/
theorem Drifting.asked (h : Drifting start x y) (hlull : y.Lull) {s : Fin t.size}
    (ha : x.controller.AwaitsLaunch s id) : Asked x y s (start.strayed s y.now) := by
  obtain ⟨l, hl, rfl, ho, hadrift⟩ := h.adrift ha
  exact hadrift.strayed ho hl hlull fun entry hm he => h.goesOn hl hm he

end

/-! ## The aftermath -/

/-- Everything was cancelled at one instant, and that instant is over. -/
structure Aftermath (start : Scene t) (x y : Setting Engine.Scripted.engine t) : Prop where
  barred : Barred y.controller
  severed : x.controller.Severed x.now y.controller
  drifting : Drifting start x y

section

variable {opening start : Scene t} {x y z : Setting Engine.Scripted.engine t} {event : Event}
  {moments : List (Moment t)} {id : JobId} {action : Action} {effects : List Effect} {c : Controller t}
  (h : Aftermath start x y)

include h

/-- What does not touch the launches and lets the services rest. -/
theorem Aftermath.alone (hrests : Rests y.controller c) (hconfig : c.config = y.controller.config)
    (hlaunch : ∀ {id : Nat} {l : Launch t.size}, c.jobs[id]? = some (.launch l) ↔
      y.controller.jobs[id]? = some (.launch l)) : Aftermath start x { y with controller := c } where
  barred := hrests.barred
  severed := h.severed.unmoved hrests.unmoved
  drifting := h.drifting.alone hconfig hlaunch

variable (ht : t.Built) (hfaults : ∀ s, (start.engine.script (t.id s)).stopFault = none)

include ht hfaults

/-- **The turn of a job** lets the services rest, and leaves the launches where they have to be. -/
theorem Aftermath.turn (turns : TurnsTo y.controller y.now id action c effects)
    (hin : ∀ l, y.controller.jobs[id]? = some (.launch l) → OnCue start y l.service action l.phase)
    (hown : ∀ entry ∈ y.ongoing, entry.job = id → ∀ reply, action ≠ .answer id reply) :
    Aftermath start x (y.after c effects) ∧ Rests y.controller c := by
  have hrests := h.barred.turn turns
  refine ⟨?_, hrests⟩
  obtain ⟨old, new, slot, aside, hj, turn, rfl⟩ := turns
  cases turn with
  | stop => exact absurd hj (h.barred.stop _ _)
  | launch turn =>
      have hdrifting := h.drifting.turn ht hfaults hj turn (hin _ hj) hown rfl
      refine ⟨?_, ?_, hdrifting⟩ <;> rw [controller_after]
      · exact hrests.barred
      · exact h.severed.unmoved hrests.unmoved
  | @start job job' _ slot aside _ turn =>
      obtain ⟨rfl, rfl, -⟩ := h.barred.start_turn hj turn
      refine h.alone hrests Controller.config_after fun {i l} => ?_
      by_cases hi : i = id
      · subst hi
        have hself : (y.controller.after i (.start job') job.service slot .nothing).jobs[i]? = _ :=
          Controller.jobs_after_self (Controller.lt_size_of_job hj)
        show (y.controller.after i (.start job') job.service slot .nothing).jobs[i]? = _ ↔ _
        rw [hself, hj]
        simp
      · show (y.controller.after id (.start job') job.service slot .nothing).jobs[i]? = _ ↔ _
        rw [Controller.jobs_after_nothing_of_ne hi]

omit ht hfaults in
/-- A call that goes on lets the services rest. -/
theorem Aftermath.proceed (hx : opening.Fresh) (hsteered : Steered opening y) {k : Nat}
    (hs : y.controller.step y.now (.proceed k) = some (c, effects)) :
    Aftermath start x (y.after c effects) ∧ Rests y.controller c := by
  obtain ⟨call, hk, hs⟩ := Option.bind_eq_some_iff.1 hs
  obtain ⟨rfl, ⟨phase, rfl, -⟩ | ⟨s, rest, -, rfl⟩⟩ :=
    hsteered.calls.proceed_cases (hsteered.fits hx) hk hs
  · have hrests := h.barred.setCallPhase k phase
    exact ⟨h.alone hrests (Controller.config_setCallPhase _ _)
      (by simp [Controller.jobs_setCallPhase]), hrests⟩
  · have hrests := h.barred.sweep y.now k s .stopping (some (.cancelled (t.id s))) (.sweeping rest)
    exact ⟨h.alone hrests (Controller.config_setCallPhase _ _)
      (by simp [Controller.jobs_setCallPhase]), hrests⟩

/-- **What happens in time** lets the services rest, and leaves the launches where they have to be. -/
theorem Aftermath.moves (hx : opening.Fresh) (hsteered : Steered opening y)
    (hm : Moves y event moments z) (hi : event.Inner)
    (hin : ∀ job, event = .control 0 (.timeout job) → ¬ y.world.Due 0 job) :
    Aftermath start x z ∧ Rests y.controller z.controller := by
  cases hm with
  | @act action c effects hs ha =>
      rw [controller_after]
      cases haction : action.job? with
      | some id =>
          exact h.turn ht hfaults (Controller.turnsTo_of_step haction hs)
            (fun l hl => h.drifting.onCue_own (hsteered.attends hx) hl haction ha
              fun job he => hin job (congrArg (Event.control 0) he))
            fun _ _ _ reply => ha id reply
      | none =>
          cases action with
          | proceed k => exact h.proceed hx hsteered hs
          | invoke | interrupt => exact hi.elim
          | run | heed | timeout | answer => cases haction
  | ring hm =>
      rw [hsteered.alarms] at hm
      cases hm
  | @reply job entry engine reply c effects hm hd hr hs =>
      obtain ⟨rfl, hanswer⟩ := Prod.mk.inj hr
      obtain rfl := Engine.Next.answer.inj hanswer
      obtain rfl : entry.job = job := by simpa using List.find?_some hm
      have hkept : Kept start (Engine.Scripted.State.finish y.engine entry.work).1 :=
        h.drifting.kept.of_scripts (by cases entry.work <;> rfl)
      have hothers : Aftermath start x { y with
          engine := (Engine.Scripted.State.finish y.engine entry.work).1
          ongoing := y.others entry.job } :=
        ⟨h.barred, h.severed, h.drifting.meanwhile hkept
          (fun _ => Engine.Scripted.State.callsFor_finish entry.work)
          fun _ hm => (List.mem_filter.1 hm).1⟩
      rw [controller_after]
      refine hothers.turn ht hfaults (Controller.turnsTo_of_step rfl hs) (fun l hl => ?_)
        fun entry' hm' he' => absurd he' (of_decide_eq_true (List.mem_filter.1 hm').2)
      obtain ⟨hcomes, hstops, hoverruns⟩ :=
        h.drifting.onCue_answer hl (List.mem_of_find?_eq_some hm) hd
      exact ⟨hcomes, hstops, hoverruns⟩
  | work hm hd he => cases (Prod.mk.inj he).2
  | serve hs =>
      obtain ⟨client, request, queue, hq, -⟩ := Store.serve?_eq_some hs
      rw [h.drifting.queue] at hq
      cases hq
  | deliver ha | hand ha =>
      rw [h.drifting.answers] at ha
      cases ha
  | pass => exact hi.elim

omit ht hfaults in
/-- **Time passes** after the cancel. -/
theorem Aftermath.pass (hlull : y.Lull) {time : Nat} (hu : y.Until time) :
    Aftermath start x { y with now := time } :=
  ⟨h.barred, h.severed, h.drifting.pass hlull hu⟩

omit hfaults in
/-- **A start that is called** after the cancel gets to no service. -/
theorem Aftermath.called (hsteered : Steered opening y) :
    Aftermath start x y.called ∧ ∀ s, Faces y.called.controller s := by
  have hstarts := Controller.startsAll_startAll ht y.controller
  obtain ⟨hbarred, hunmoved, hfaces⟩ := h.barred.startAll hstarts hsteered.arm_le.2
  refine ⟨⟨hbarred, h.severed.unmoved hunmoved, h.drifting.alone hstarts.config ⟨fun hl => ?_,
    hstarts.old⟩⟩, hfaces⟩
  rcases hstarts.new hl with hl | ⟨-, s, he⟩
  · exact hl
  · cases he

omit ht hfaults in
/-- **A cancel that is called** after the cancel changes nothing. -/
theorem Aftermath.cancelled (hended : StartsEnded y.controller) : Aftermath start x y.cancelled :=
  ⟨h.barred.cancel hended, h.severed.unmoved (Controller.unmoved_of_slots fun _ => rfl),
    h.drifting.alone rfl Iff.rfl⟩

end

/-! ## The end of the instant of the cancel -/

/-- No service is starting once the cancel has gone through all of them. -/
theorem Steered.down {opening : Scene t} {y : Setting Engine.Scripted.engine t} (hx : opening.Fresh)
    (h : Steered opening y) (hidle : y.world.Idle) (hcovered : ∃ k, y.controller.Covered k)
    (s : Fin t.size) : (y.controller.slot s).state ≠ .starting := by
  obtain ⟨k, hcovered⟩ := hcovered
  obtain ⟨call, hk, ho, -⟩ := id hcovered
  obtain ⟨time, ha⟩ := cancel_answered_of_idle hidle (h.fits hx) hk ho
  exact hcovered.down (by rw [ha]; rfl)

section

variable {opening start : Scene t} {x y : Setting Engine.Scripted.engine t} {run : Nat} (h : Cutting x y)

include h

/-- The start jobs are there still. -/
theorem Cutting.start_kept {id : Nat} {old : StartJob t.size}
    (hj : x.controller.jobs[id]? = some (.start old)) : ∃ job : StartJob t.size,
      y.controller.jobs[id]? = some (.start job) ∧ old.service = job.service ∧
        (job.phase = .finished → (∃ left, old.phase = .awaiting left) →
          (y.controller.slot job.service).lastError ≠ none) := by
  obtain ⟨later, hlater⟩ : ∃ later, y.controller.jobs[id]? = some later :=
    ⟨_, Array.getElem?_eq_getElem (Nat.lt_of_lt_of_le (Controller.lt_size_of_job hj) h.kept)⟩
  cases later with
  | start job =>
      obtain ⟨old', ho, hs, -, hrefused⟩ := h.start hlater
      obtain rfl := Job.start.inj (Option.some.inj (hj.symm.trans ho))
      exact ⟨job, hlater, hs, hrefused⟩
  | stop job => exact absurd hlater (h.stop _ _)
  | launch l =>
      obtain ⟨old', ho, -⟩ := h.launch hlater
      cases hj.symm.trans ho

/-- The launches are there still, as far as they were. -/
theorem Cutting.launch_kept {id : Nat} {old : Launch t.size}
    (hl : x.controller.jobs[id]? = some (.launch old)) : ∃ l : Launch t.size,
      y.controller.jobs[id]? = some (.launch l) ∧ old.service = l.service ∧ old.phase = l.phase := by
  obtain ⟨later, hlater⟩ : ∃ later, y.controller.jobs[id]? = some later :=
    ⟨_, Array.getElem?_eq_getElem (Nat.lt_of_lt_of_le (Controller.lt_size_of_job hl) h.kept)⟩
  cases later with
  | start job =>
      obtain ⟨old', ho, -⟩ := h.start hlater
      cases hl.symm.trans ho
  | stop job => exact absurd hlater (h.stop _ _)
  | launch l =>
      obtain ⟨old', ho, hs⟩ := h.launch hlater
      obtain rfl := Job.launch.inj (Option.some.inj (hl.symm.trans ho))
      exact ⟨l, hlater, hs⟩

variable (ht : t.Built) (hx : opening.Fresh) (hsteered : Steered opening y)
  (hstore : opening.store.mode = .serving 0) (hidle : y.world.Idle)

include ht hx hsteered hstore hidle

/-- All start jobs have come to their ends. -/
theorem Cutting.startsEnded : StartsEnded y.controller := by
  intro id job hj
  rcases start_ended_of_idle hidle h.quelled (hsteered.proper ht hx) (hsteered.attends hx)
    (hsteered.prompt hx hstore) hj with hf | ⟨handle, halt, hp⟩
  · exact hf
  · -- Nobody halts a container who did not when everything was cancelled.
    obtain ⟨old, -, -, hebbs, -⟩ := h.start hj
    rw [hp] at hebbs
    generalize old.phase = phase at hebbs
    cases hebbs

variable (hp : Poised x)

include hp

/-- Who waited for a dependency has been refused. -/
theorem Cutting.refused {s : Fin t.size} (hpend : (y.controller.slot s).state = .pending) :
    (y.controller.slot s).lastError ≠ none := by
  cases h.slot s with
  | stays hs =>
      have hbefore : (x.controller.slot s).state = .pending :=
        (congrArg Prod.fst hs).symm.trans hpend
      intro he
      obtain ⟨id, old, left, hj, rfl, hawait⟩ :=
        hp.waited hbefore ((congrArg Prod.snd hs).symm.trans he)
      obtain ⟨job, hj, hs, hrefused⟩ := h.start_kept hj
      exact hrefused (h.startsEnded ht hx hsteered hstore hidle _ _ hj) ⟨left, hawait⟩ (hs ▸ he)
  | refused _ _ hs =>
      rw [show (y.controller.slot s).lastError = _ from congrArg Prod.snd hs]
      simp
  | taken _ hs => cases hpend.symm.trans (congrArg Prod.fst hs)

variable (hcovered : ∃ k, y.controller.Covered k)

include hcovered

/-- Every service has been severed from its start. -/
theorem Cutting.severed (s : Fin t.size) :
    (y.controller.slot s).sight = ((x.controller.slot s).severed (t.id s) x.now).sight ∧
      (y.controller.slot s).transitions = ((x.controller.slot s).severed (t.id s) x.now).transitions :=
  (h.slot s).severed (hsteered.down hx hidle hcovered s)
    (h.refused ht hx hsteered hstore hidle hp)

/-- No start gets to any service any more. -/
theorem Cutting.barred : Barred y.controller where
  published := by
    obtain ⟨config, past, hrun⟩ := hsteered.controller_run hx
    exact hrun.published
  stop := h.stop
  idle s := by
    refine ⟨hsteered.down hx hidle hcovered s, fun hstopped => (hp.state s).2 ?_⟩
    exact ((h.slot s).kept (by simp [hstopped]) (by simp [hstopped])).trans hstopped
  stuck {s} hpend := by
    obtain ⟨d, hd, hn⟩ := hp.stuck ((h.slot s).pending hpend)
    refine ⟨d, hd, fun hready => hn ?_⟩
    exact ((h.slot d).kept (by simp [hready]) (by simp [hready])).trans hready
  start hj := .inl (h.startsEnded ht hx hsteered hstore hidle _ _ hj)

end

section

variable {opening start : Scene t} {x y : Setting Engine.Scripted.engine t} {run : Nat} (ht : t.Built)
  (hx : opening.Fresh) (hstore : opening.store.mode = .serving 0) (hsx : Steered opening x)
  (hb : Begun start run x) (hix : x.world.Idle) (hsy : Steered opening y) (h : Cutting x y)
  (hiy : y.world.Idle)

include ht hx hstore hsx hb hix

/-- A launch that was waited for when everything was cancelled was running. -/
theorem Begun.running {s : Fin t.size} {id : JobId} (ha : x.controller.AwaitsLaunch s id) :
    ∃ l, x.controller.jobs[id]? = some (.launch l) ∧ l.service = s ∧ l.phase = .running ∧
      x.now < start.comes s := by
  obtain ⟨i, job, hj, rfl, hp⟩ := ha
  obtain ⟨l, hl, hs, -, hopen⟩ := (hb.follows hx hsx).linked.launch hj (by rw [hp]; rfl)
  have hfinished : l.phase ≠ .finished := by
    intro he
    rw [he] at hopen
    exact hopen
  obtain ⟨hrunning, -, hlt, -⟩ := hb.launch ht hx hsx hstore hix hl hfinished
  exact ⟨l, hl, hs, hrunning, hs ▸ hlt⟩

include h hsy hiy

/-- **The launches that were waited for go on by themselves.** -/
theorem Begun.drifting : Drifting start x y := by
  have hp := hb.poised ht hx hsx hstore hix
  have hended := h.startsEnded ht hx hsy hstore hiy
  obtain ⟨config, past, hrun⟩ := hsy.controller_run hx
  -- Nobody waits for them any more.
  have horphaned {id : JobId} {l : Launch t.size} (hl : y.controller.jobs[id]? = some (.launch l))
      (hopen : l.phase ≠ .finished) : l.orphaned := by
    by_contra ho
    obtain ⟨i, job, hj, hlaunch⟩ := hrun.linked.waited hl (by simpa using ho) hopen
    rw [hended _ _ hj] at hlaunch
    cases hlaunch
  have hasked {s : Fin t.size} : Asked x y s [] := by
    rw [Asked, h.engine, List.append_nil]
  constructor
  case config => exact h.config.trans hb.inStep.config
  case kept =>
    rw [h.engine]
    exact hb.tied.scripts.kept
  case queue => rw [h.store, hp.queue]
  case answers => rw [h.store, hp.answers]
  case sole =>
    rintro s id id' ⟨i, job, hj, rfl, hl⟩ ⟨i', job', hj', hs, hl'⟩
    obtain rfl := (hb.follows hx hsx).foretold.sole hj hj' hs.symm (by rw [hl]; trivial)
      (by rw [hl']; trivial)
    obtain rfl := Job.start.inj (Option.some.inj (hj.symm.trans hj'))
    exact StartPhase.launching.inj (hl.symm.trans hl')
  case launch =>
    intro id l hl
    obtain ⟨old, ho, hs, hphase⟩ := h.launch hl
    by_cases hfinished : l.phase = .finished
    · exact .inl hfinished
    · obtain ⟨-, -, -, hawaits⟩ := hb.launch ht hx hsx hstore hix ho (hphase ▸ hfinished)
      exact .inr (hs ▸ hawaits)
  case adrift =>
    intro s id ha
    obtain ⟨old, ho, rfl, hrunning, hlt⟩ := hb.running ht hx hstore hsx hix ha
    obtain ⟨l, hl, hs, hphase⟩ := h.launch_kept ho
    rw [hrunning] at hphase
    refine ⟨l, hl, hs.symm, horphaned hl (by simp [← hphase]), ?_⟩
    rw [← hphase]
    exact ⟨by rw [h.now]; exact Nat.le_of_lt hlt, hasked⟩
  case calm => exact fun _ => hasked
  case goes =>
    intro entry hm
    rw [h.ongoing] at hm
    obtain ⟨old, ho, hrunning, hdue⟩ := hb.works ht hx hsx hstore hix hm
    obtain ⟨l, hl, hs, hphase⟩ := h.launch_kept ho
    refine ⟨l, hl, ?_⟩
    rw [← hphase, hrunning, ← hs]
    refine ⟨hdue, fun engine result hkept hfinish => ?_⟩
    obtain ⟨job, hj, -, htakes⟩ := hb.tied.awaited.working entry hm
    obtain rfl := Option.some.inj (ho.symm.trans hj)
    have htakes := htakes engine hkept
    rw [hfinish] at htakes
    exact htakes

/-- **At the end of the instant of the cancel** all start jobs have come to their ends, and every service
has been severed from its start. -/
theorem Begun.aftermath (hcovered : ∃ k, y.controller.Covered k) : Aftermath start x y ∧
    StartsEnded y.controller ∧ ∀ s, (y.controller.slot s).lastError
      = ((x.controller.slot s).severed (t.id s) x.now).lastError := by
  have hp := hb.poised ht hx hsx hstore hix
  have hsevered := h.severed ht hx hsy hstore hiy hp hcovered
  have herror (s : Fin t.size) := congrArg Prod.snd (hsevered s).1
  exact ⟨⟨h.barred ht hx hsy hstore hiy hp hcovered,
    ⟨fun s => congrArg Prod.fst (hsevered s).1, fun s => (hsevered s).2, fun s => .inl (herror s)⟩,
    hb.drifting ht hx hstore hsx hix hsy h hiy⟩, h.startsEnded ht hx hsy hstore hiy, herror⟩

end

end Setting

end Simulation

end Bringup
