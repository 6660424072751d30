import Bringup.Proofs.Lifecycle.Launches

/-!
# Where the containers are

A container that the engine has handed over is kept somewhere until its halt begins: with the launch
that asked for it, with a start job that is about to record it, or in the slot of its service. There it
can be lost, when another one is recorded over it (`Moment.loses`). Its halt is the work of one job. So
two books balance over every run, for each service and each container:

  `handed over = kept + asked to stop + lost` (`Run.kept`)
  `asked to stop = being halted + halted`     (`Run.halting`)
-/

namespace Bringup.Lifecycle

open Container (Handle)

variable {n : Nat} {t : Topology}

/-! ## Jobs -/

/-- The container that a start job is about to record. -/
def StartPhase.kept? : StartPhase n → Option Handle
  | .recording handle => some handle
  | _ => none

/-- The container that a launch has returned. -/
def LaunchPhase.kept? : LaunchPhase → Option Handle
  | .returned (.ok handle) => some handle
  | _ => none

/-- The container that a job keeps. -/
def Job.kept? : Job n → Option Handle
  | .start job => job.phase.kept?
  | .launch job => job.phase.kept?
  | .stop _ => none

/-- The halt that is the work of a start job. -/
def StartPhase.halt? : StartPhase n → Option (Handle × Halt)
  | .discarding handle halt => some (handle, halt)
  | _ => none

/-- The halt that is the work of a stop job. -/
def StopPhase.halt? : StopPhase → Option (Handle × Halt)
  | .halting handle halt => some (handle, halt)
  | _ => none

/-- The halt that is the work of a launch. -/
def LaunchPhase.halt? : LaunchPhase → Option (Handle × Halt)
  | .halting handle halt => some (handle, halt)
  | _ => none

/-- The halt that is the work of a job. -/
def Job.halt? : Job n → Option (Handle × Halt)
  | .start job => job.phase.halt?
  | .stop job => job.phase.halt?
  | .launch job => job.phase.halt?

/-- How many containers of a name there are where at most one is. -/
def tally (kept : Option Handle) (h : Handle) : Nat := if kept = some h then 1 else 0

@[simp] theorem tally_none (h : Handle) : tally none h = 0 := rfl

@[simp] theorem tally_some (handle h : Handle) :
    tally (some handle) h = if handle = h then 1 else 0 := by
  simp [tally]

/-- How many containers of a name a job keeps for a service. -/
def Job.keeps (s : Fin n) (h : Handle) (job : Job n) : Nat :=
  if job.service = s then tally job.kept? h else 0

/-- How many containers of a name a job halts for a service. -/
def Job.halts (s : Fin n) (h : Handle) (job : Job n) : Nat :=
  if job.service = s then tally (job.halt?.map Prod.fst) h else 0

/-- The job is about to record a container in the slot of the service, over the given one. -/
def Job.loses (c : Controller t) (s : Fin t.size) (h : Handle) : Job t.size → Bool
  | .start job => job.service = s && job.phase.kept?.isSome && (c.slot s).state = .starting &&
    (c.slot s).handle = some h
  | _ => false

theorem Job.loses_start {c : Controller t} {h : Handle} (job : StartJob t.size) :
    (Job.start job).loses c job.service h = (job.phase.kept?.isSome &&
      (c.slot job.service).state = .starting && (c.slot job.service).handle = some h) := by
  simp [Job.loses]

theorem Job.loses_of_ne {c : Controller t} {s : Fin t.size} {h : Handle} {job : Job t.size}
    (hs : job.service ≠ s) : job.loses c s h = false := by
  cases job with
  | start job => simp [Job.loses, show job.service ≠ s from hs]
  | stop | launch => rfl

namespace Controller

variable (c : Controller t) (s : Fin t.size) (h : Handle)

/-- How many containers of a name are kept for a service. -/
def kept : Nat := c.total (Job.keeps s h) + tally (c.slot s).handle h

/-- How many containers of a name are being halted for a service. -/
def halting : Nat := c.total (Job.halts s h)

end Controller

/-! ## What a run shows -/

/-- The engine hands the container over. -/
def Action.hands (h : Handle) : Action → Bool
  | .answer _ (.container (.start (.ok h'))) => h' = h
  | _ => false

/-- The effect is a request to stop the container. -/
def Effect.stops (h : Handle) : Effect → Bool
  | .asks _ (.container (.stop h' _)) => h' = h
  | _ => false

/-- The halt that is the work of the job ends, and it is one of the container. -/
def Job.endsHalt (h : Handle) (job : Job n) : Action → Bool
  | .answer _ reply => job.halt?.any fun (h', halt) => h' = h && halt.answered reply = some .over
  | _ => false

namespace Moment

variable (m : Moment t) (s : Fin t.size) (h : Handle)

/-- The job that takes the step. -/
def job? : Option (Job t.size) := m.action.job?.bind fun id => m.before.jobs[id]?

/-- The step is one of a job for the service. -/
def worksFor : Bool := m.job?.any fun job => job.service = s

/-- The engine hands a container over to a launch of the service. -/
def hands : Bool := m.worksFor s && m.action.hands h

/-- How often the engine is asked to stop the container for the service. -/
def stops : Nat := if m.worksFor s then m.effects.countP (Effect.stops h) else 0

/-- A halt of the container for the service ends. -/
def endsHalt : Bool := m.worksFor s && m.job?.any fun job => job.endsHalt h m.action

/-- A start job records its container in the slot of the service, over the given one. -/
def loses : Bool := m.job?.any (Job.loses m.before s h)

end Moment

/-- How often the engine was asked to stop a container for a service. -/
def stopsAsked (past : List (Moment t)) (s : Fin t.size) (h : Handle) : Nat :=
  weigh (fun m => m.stops s h) past

/-! ## Turns -/

namespace Controller

variable {c : Controller t} {now : Nat} {id : JobId} {old new : Job t.size} {action : Action}
  {slot : Slot} {aside : Aside} {effects : List Effect}

/-- The weight of the launch that a turn takes. -/
def takenWeight (c : Controller t) (weight : Job t.size → Nat) : Aside → Nat
  | .takes launch => ((c.jobs[launch]?).map weight).getD 0
  | _ => 0

/-- **A total after a turn**, for a weight that counts neither new launches nor finished ones, and does
not look at whether a launch was given up. -/
theorem total_after (weight : Job t.size → Nat)
    (hnew : ∀ s, weight (.launch { service := s }) = 0)
    (hend : ∀ l : Launch t.size, weight (.launch { l with phase := .finished }) = 0)
    (hleft : ∀ l : Launch t.size, weight (.launch { l with orphaned := true }) = weight (.launch l))
    (hj : c.jobs[id]? = some old) (turn : Turn c now id old action new slot aside effects)
    (hlink : c.Linked) :
    (c.after id new old.service slot aside).total weight + weight old + c.takenWeight weight aside
      = c.total weight + weight new := by
  cases turn with
  | stop | launch => exact total_after_nothing _ _ _ weight hj
  | @start job job' _ _ _ _ turn =>
      have hne {launch : Nat} {l : Launch t.size} (hl : c.jobs[launch]? = some (.launch l)) :
          id ≠ launch := by
        rintro rfl
        rw [hj] at hl
        cases hl
      rcases turn.launch_cases with
        ⟨rfl, -⟩ | ⟨rfl, -⟩ | ⟨launch, l, result, rfl, hl, -⟩ | ⟨launch, rfl, hw, -⟩
      · exact total_after_nothing _ _ _ weight hj
      · have := total_after_launches (.start job') job.service slot weight hj
        simpa [hnew, takenWeight] using this
      · have := total_after_takes (.start job') job.service slot weight (hne hl) hj hl
        simpa [hend, takenWeight, hl] using this
      · obtain ⟨l, hl, -⟩ := hlink.launch hj hw
        have := total_after_leaves (.start job') job.service slot weight (hne hl) hj hl
        rw [hleft] at this
        simp only [takenWeight, Job.service]
        omega

end Controller

namespace Slot

variable {slot : Slot}

@[simp] theorem handle_moved (now : Nat) (target : ServiceState) :
    (slot.moved now target).handle = slot.handle := rfl

@[simp] theorem handle_entered (now : Nat) : (slot.entered now).handle = slot.handle := rfl

@[simp] theorem handle_leaveStarting (now : Nat) (target : ServiceState) (error : Option Error) :
    (slot.leaveStarting now target error).handle = slot.handle := by
  unfold leaveStarting
  split <;> rfl

@[simp] theorem handle_recordIfStartable (error : Error) :
    (slot.recordIfStartable error).handle = slot.handle := by
  unfold recordIfStartable
  split <;> rfl

end Slot

namespace StartJob

@[simp] theorem handle_unclaim (job : StartJob n) (slot : Slot) :
    (job.unclaim slot).handle = slot.handle := by
  unfold unclaim
  split <;> rfl

@[simp] theorem phase_await (job : StartJob n) (dependencies : List (Fin n)) :
    (job.await dependencies).phase = if dependencies = [] then .entering else .awaiting dependencies :=
  rfl

end StartJob

section Turns

variable {c : Controller t} {now : Nat} {id : JobId} {action : Action} {slot : Slot} {aside : Aside}
  {effects : List Effect}

/-- **What a start job does with a container**: it takes it from its launch, records it in the slot, or
begins to halt it. -/
theorem StartTurn.kept_cases {job job' : StartJob t.size}
    (turn : StartTurn c now id job action job' slot aside effects) (h : Handle) :
    (job.phase.kept? = none ∧ job'.phase.kept? = none ∧
      slot.handle = (c.slot job.service).handle ∧ effects.countP (Effect.stops h) = 0 ∧
      (aside = .nothing ∨ aside = .launches ∨ (∃ launch, aside = .leaves launch) ∨
        ∃ launch l error, aside = .takes launch ∧ c.jobs[launch]? = some (.launch l) ∧
          l.phase = .returned (.error error))) ∨
    (∃ launch l handle, aside = .takes launch ∧ c.jobs[launch]? = some (.launch l) ∧
      l.phase = .returned (.ok handle) ∧ job.phase.launch? = some launch ∧
      job.phase.kept? = none ∧ job'.phase.kept? = some handle ∧
      slot.handle = (c.slot job.service).handle ∧ effects = []) ∨
    (∃ handle, aside = .nothing ∧ job.phase = .recording handle ∧ job'.phase.kept? = none ∧
      (c.slot job.service).state = .starting ∧ slot.handle = some handle ∧ effects = []) ∨
    (∃ handle, aside = .nothing ∧ job.phase = .recording handle ∧ job'.phase.kept? = none ∧
      (c.slot job.service).state ≠ .starting ∧ slot.handle = (c.slot job.service).handle ∧
      effects = [c.askStop id handle]) := by
  cases turn with
  | collect hp hc hl hr =>
      exact .inr (.inl ⟨_, _, _, rfl, hl, hr, by rw [hp]; rfl, by rw [hp]; rfl, rfl, rfl, rfl⟩)
  | record hp hs => exact .inr (.inr (.inl ⟨_, rfl, hp, rfl, hs, rfl, rfl⟩))
  | discard hp hs => exact .inr (.inr (.inr ⟨_, rfl, hp, rfl, hs, rfl, rfl⟩))
  | lose hp hc hl hr =>
      exact .inl ⟨by rw [hp]; rfl, rfl, rfl, rfl, .inr (.inr (.inr ⟨_, _, _, rfl, hl, hr⟩))⟩
  | enterBare hp | bindLast hp => exact .inl ⟨by rw [hp]; rfl, rfl, rfl, rfl, .inr (.inl rfl)⟩
  | conclude hp =>
      rename_i verdict
      refine .inl ⟨by rw [hp]; rfl, rfl, by simp, rfl, ?_⟩
      cases verdict with
      | cancelled launch =>
          cases launch with
          | none => exact .inl rfl
          | some launch => exact .inr (.inr (.inl ⟨_, rfl⟩))
      | _ => exact .inl rfl
  | arrive hp | accept hp =>
      refine .inl ⟨by rw [hp]; rfl, ?_, rfl, rfl, .inl rfl⟩
      rw [StartJob.phase_await]
      split <;> rfl
  | retry hp =>
      refine .inl ⟨by rw [hp]; rfl, ?_, rfl, rfl, .inl rfl⟩
      simp only [StartJob.goTo, Controller.retryPhase]
      split <;> rfl
  | follow hp =>
      refine .inl ⟨?_, rfl, by simp, rfl, .inl rfl⟩
      rcases hp with hp | ⟨hp, -⟩ <;> rw [hp] <;> rfl
  | heed hp =>
      refine .inl ⟨?_, rfl, rfl, rfl, .inl rfl⟩
      rcases hp with ⟨_, _, _, hp⟩ | ⟨_, _, hp⟩ <;> rw [hp] <;> rfl
  | cease hp | pass hp | giveUp hp | decline hp | refuse hp | forgo hp | enter hp | abandon hp
  | ask hp | heedProbe hp | wake hp | overrun hp | bind hp | miss hp | ready hp | discarded hp
  | kill hp => exact .inl ⟨by rw [hp]; rfl, rfl, by simp, rfl, .inl rfl⟩

theorem countP_askDetach (id : JobId) (volumes : List Volume) (h : Handle) :
    (Controller.askDetach id volumes).countP (Effect.stops h) = 0 := by
  cases volumes <;> rfl

theorem halt?_detachPhase (volumes : List Volume) :
    (Controller.detachPhase volumes).halt? = none := by
  cases volumes <;> rfl

/-- **What a stop job does with a container**: it takes it out of the slot and begins to halt it. -/
theorem StopTurn.kept_cases {job : StopJob t.size} {phase : StopPhase}
    (turn : StopTurn c now id job action phase slot effects) (h : Handle) :
    (slot.handle = (c.slot job.service).handle ∧ effects.countP (Effect.stops h) = 0) ∨
    (∃ handle, (c.slot job.service).handle = some handle ∧ slot.handle = none ∧
      effects = [c.askStop id handle]) := by
  cases turn with
  | take | takeLeft =>
      cases hh : (c.slot job.service).handle with
      | none => exact .inl ⟨rfl, countP_askDetach id _ h⟩
      | some handle => exact .inr ⟨handle, rfl, rfl, rfl⟩
  | skip | halted | unbind => exact .inl ⟨rfl, countP_askDetach id _ h⟩
  | _ => exact .inl ⟨rfl, rfl⟩

theorem Halt.hands_of_answered {halt : Halt} {reply : Reply} {next : Halt.Next} {h : Handle}
    (hr : halt.answered reply = some next) : (Action.answer id reply).hands h = false := by
  cases reply with
  | volume result => rfl
  | container reply =>
      cases reply with
      | start result => cases halt <;> cases hr
      | _ => rfl

/-- The engine hands containers over to launches only. -/
theorem StartTurn.hands {job job' : StartJob t.size}
    (turn : StartTurn c now id job action job' slot aside effects) (h : Handle) :
    action.hands h = false := by
  cases turn with
  | discarded hp hr | kill hp hr => exact Halt.hands_of_answered hr
  | _ => rfl

theorem StopTurn.hands {job : StopJob t.size} {phase : StopPhase}
    (turn : StopTurn c now id job action phase slot effects) (h : Handle) :
    action.hands h = false := by
  cases turn with
  | halted hp hr | kill hp hr => exact Halt.hands_of_answered hr
  | _ => rfl

/-- **What a launch does with a container**: it takes it from the engine, or begins to halt it. -/
theorem LaunchTurn.kept_cases {l : Launch t.size} {phase : LaunchPhase}
    (turn : LaunchTurn c now id l action phase effects) (h : Handle) :
    (phase.kept? = l.phase.kept? ∧ action.hands h = false ∧ effects.countP (Effect.stops h) = 0) ∨
    (∃ handle, l.phase.kept? = none ∧ phase.kept? = some handle ∧
      action = .answer id (.container (.start (.ok handle))) ∧ effects = []) ∨
    (∃ handle, l.phase.kept? = some handle ∧ phase.kept? = none ∧ action = .run id ∧
      effects = [c.askStop id handle]) := by
  cases turn with
  | «return» hp =>
      rename_i result
      cases result with
      | ok handle => exact .inr (.inl ⟨handle, by rw [hp]; rfl, rfl, rfl, rfl⟩)
      | error error => exact .inl ⟨by rw [hp]; rfl, rfl, rfl⟩
  | halt hp ho => exact .inr (.inr ⟨_, by rw [hp]; rfl, rfl, rfl, rfl⟩)
  | halted hp hr | kill hp hr => exact .inl ⟨by rw [hp]; rfl, Halt.hands_of_answered hr, rfl⟩
  | call hp | drop hp | overrun hp => exact .inl ⟨by rw [hp]; rfl, rfl, rfl⟩

theorem Job.endsHalt_of_none {job : Job n} (hp : job.halt? = none) (h : Handle) (action : Action) :
    job.endsHalt h action = false := by
  cases action <;> simp [Job.endsHalt, hp]

/-- **How a halt goes** in one turn: it begins with a request to stop the container, and then goes on
until it ends. -/
inductive HaltCourse (c : Controller t) (id : JobId) (h : Handle) (old new : Job t.size)
    (action : Action) (effects : List Effect) : Prop where
  /-- The halt goes on, or there is none. -/
  | goesOn (hh : new.halt?.map Prod.fst = old.halt?.map Prod.fst)
    (he : effects.countP (Effect.stops h) = 0) (hn : old.endsHalt h action = false)
  | begins {handle : Handle} (hh : old.halt? = none)
    (hh' : new.halt?.map Prod.fst = some handle) (he : effects = [c.askStop id handle])
    (ha : action = .run id)
  | ends {handle : Handle} {halt : Halt} {reply : Reply} (hh : old.halt? = some (handle, halt))
    (hh' : new.halt? = none) (he : effects.countP (Effect.stops h) = 0)
    (ha : action = .answer id reply) (hr : halt.answered reply = some .over)

/-- A job that halts nothing before and after its turn. -/
theorem HaltCourse.of_none {old new : Job t.size} {h : Handle} (hh : old.halt? = none)
    (hh' : new.halt? = none) (he : effects.countP (Effect.stops h) = 0) :
    HaltCourse c id h old new action effects :=
  .goesOn (by rw [hh, hh']) he (Job.endsHalt_of_none hh h action)

theorem StartTurn.haltCourse {job job' : StartJob t.size}
    (turn : StartTurn c now id job action job' slot aside effects) (h : Handle) :
    HaltCourse c id h (.start job) (.start job') action effects := by
  -- Only a job that discards a container has a halt.
  have hquiet (hp : job.phase.halt? = none) (hp' : job'.phase.halt? = none)
      (he : effects.countP (Effect.stops h) = 0) :
      HaltCourse c id h (.start job) (.start job') action effects := .of_none hp hp' he
  cases turn with
  | discard hp hs => exact .begins (by simp [Job.halt?, hp, StartPhase.halt?]) rfl rfl rfl
  | overrun hp hh =>
      exact .goesOn (by simp [Job.halt?, hp, StartPhase.halt?, StartJob.goTo]) rfl rfl
  | kill hp hr =>
      refine .goesOn (by simp [Job.halt?, hp, StartPhase.halt?, StartJob.goTo]) rfl ?_
      simp [Job.endsHalt, Job.halt?, hp, StartPhase.halt?, hr]
  | discarded hp hr => exact .ends (by simp only [Job.halt?, hp]; rfl) rfl rfl rfl hr
  | arrive hp | accept hp =>
      refine hquiet (by rw [hp]; rfl) ?_ rfl
      rw [StartJob.phase_await]
      split <;> rfl
  | retry hp =>
      refine hquiet (by rw [hp]; rfl) ?_ rfl
      simp only [StartJob.goTo, Controller.retryPhase]
      split <;> rfl
  | follow hp => exact hquiet (by rcases hp with hp | ⟨hp, -⟩ <;> rw [hp] <;> rfl) rfl rfl
  | heed hp =>
      refine hquiet ?_ rfl rfl
      rcases hp with ⟨_, _, _, hp⟩ | ⟨_, _, hp⟩ <;> rw [hp] <;> rfl
  | cease hp | pass hp | giveUp hp | decline hp | refuse hp | forgo hp | enter hp | enterBare hp
  | abandon hp | collect hp | lose hp | record hp | ask hp | conclude hp | heedProbe hp | wake hp
  | bind hp | bindLast hp | miss hp | ready hp => exact hquiet (by rw [hp]; rfl) rfl rfl

theorem StopTurn.haltCourse {job : StopJob t.size} {phase : StopPhase}
    (turn : StopTurn c now id job action phase slot effects) (h : Handle) :
    HaltCourse c id h (.stop job) (.stop { job with phase }) action effects := by
  have hquiet (hp : job.phase.halt? = none) (hp' : phase.halt? = none)
      (he : effects.countP (Effect.stops h) = 0) :
      HaltCourse c id h (.stop job) (.stop { job with phase }) action effects :=
    .of_none hp hp' he
  cases turn with
  | take hp | takeLeft hp =>
      -- A halt begins if there is a container in the slot.
      rcases Option.eq_none_or_eq_some (c.slot job.service).handle with hh | ⟨handle, hh⟩
      · exact hquiet (by rw [hp]; rfl) (by rw [hh]; exact halt?_detachPhase _)
          (by rw [hh]; exact countP_askDetach id _ h)
      · have hphase : (c.takenPhase now job.service (c.slot job.service).handle).halt?.map Prod.fst
            = some handle := by
          rw [hh]
          rfl
        have hasks : c.askTaken id job.service (c.slot job.service).handle
            = [c.askStop id handle] := by
          rw [hh]
          rfl
        exact .begins (by simp only [Job.halt?, hp]; rfl) hphase hasks rfl
  | overrun hp hh => exact .goesOn (by simp only [Job.halt?, hp]; rfl) rfl rfl
  | kill hp hr =>
      refine .goesOn (by simp only [Job.halt?, hp]; rfl) rfl ?_
      simp [Job.endsHalt, Job.halt?, hp, StopPhase.halt?, hr]
  | halted hp hr =>
      exact .ends (by simp only [Job.halt?, hp]; rfl) (halt?_detachPhase _)
        (countP_askDetach id _ h) rfl hr
  | skip hp | unbind hp =>
      exact hquiet (by rw [hp]; rfl) (halt?_detachPhase _) (countP_askDetach id _ h)
  | go hp | pass hp | idle hp | retire hp | leave hp => exact hquiet (by rw [hp]; rfl) rfl rfl

theorem LaunchTurn.haltCourse {l : Launch t.size} {phase : LaunchPhase}
    (turn : LaunchTurn c now id l action phase effects) (h : Handle) :
    HaltCourse c id h (.launch l) (.launch { l with phase }) action effects := by
  cases turn with
  | halt hp ho => exact .begins (by simp only [Job.halt?, hp]; rfl) rfl rfl rfl
  | overrun hp hh => exact .goesOn (by simp only [Job.halt?, hp]; rfl) rfl rfl
  | kill hp hr =>
      refine .goesOn (by simp only [Job.halt?, hp]; rfl) rfl ?_
      simp [Job.endsHalt, Job.halt?, hp, LaunchPhase.halt?, hr]
  | halted hp hr => exact .ends (by simp only [Job.halt?, hp]; rfl) rfl rfl rfl hr
  | call hp | drop hp | «return» hp => exact .of_none (by simp only [Job.halt?, hp]; rfl) rfl rfl

theorem Turn.haltCourse {old new : Job t.size}
    (turn : Turn c now id old action new slot aside effects) (h : Handle) :
    HaltCourse c id h old new action effects := by
  cases turn with
  | start turn => exact turn.haltCourse h
  | stop turn => exact turn.haltCourse h
  | launch turn => exact turn.haltCourse h

/-- A turn works for one service. -/
theorem Turn.service_eq {old new : Job t.size}
    (turn : Turn c now id old action new slot aside effects) : new.service = old.service := by
  cases turn with
  | start turn => exact turn.same.1
  | stop turn | launch turn => rfl

end Turns

namespace Controller

variable {c : Controller t} {now : Nat} {id : JobId} {old new : Job t.size} {action : Action}
  {slot : Slot} {aside : Aside} {effects : List Effect}

/-- The launch that a turn takes is one for the service of the job. -/
theorem takenWeight_of_ne {s : Fin t.size} (hs : old.service ≠ s) (hj : c.jobs[id]? = some old)
    (turn : Turn c now id old action new slot aside effects) (hlink : c.Linked)
    (weight : Job t.size → Nat) (hw : ∀ job : Job t.size, job.service ≠ s → weight job = 0) :
    c.takenWeight weight aside = 0 := by
  cases turn with
  | stop | launch => rfl
  | start turn =>
      rcases turn.launch_cases with
        ⟨rfl, -⟩ | ⟨rfl, -⟩ | ⟨launch, l, result, rfl, hl, -, hp, -⟩ | ⟨launch, rfl, -⟩
      · rfl
      · rfl
      · obtain ⟨l', hl', hls, -⟩ := hlink.launch hj hp
        rw [hl, Option.some.injEq, Job.launch.injEq] at hl'
        subst hl'
        simp only [takenWeight, hl, Option.map_some, Option.getD_some]
        exact hw _ (by rw [Job.service_launch, hls]; exact hs)
      · rfl

/-- The books of the service for which a turn works. -/
theorem keeps_of_turn (turn : Turn c now id old action new slot aside effects) (hlink : c.Linked)
    (hj : c.jobs[id]? = some old) (h : Handle) :
    new.keeps old.service h + tally slot.handle h + effects.countP (Effect.stops h)
        + (if old.loses c old.service h then 1 else 0)
      = old.keeps old.service h + tally (c.slot old.service).handle h
        + c.takenWeight (Job.keeps old.service h) aside + (if action.hands h then 1 else 0) := by
  have hstop (handle : Handle) : [c.askStop id handle].countP (Effect.stops h)
      = if handle = h then 1 else 0 := by
    simp [askStop, Effect.stops, List.countP_cons]
  cases turn with
  | @start job job' _ _ _ _ turn =>
      rw [turn.hands h]
      simp only [Job.keeps, Job.service_start, turn.same.1, Job.kept?, Job.loses_start,
        if_true, Bool.false_eq_true, if_false, Nat.add_zero]
      rcases turn.kept_cases h with
        ⟨hp, hp', hh, he, ha⟩ | ⟨launch, l, handle, rfl, hl, hr, hw, hp, hp', hh, rfl⟩ |
        ⟨handle, rfl, hp, hp', hs, hh, rfl⟩ | ⟨handle, rfl, hp, hp', hs, hh, rfl⟩
      · -- The job may take a launch, but one that has brought no container.
        have htaken : c.takenWeight (Job.keeps job.service h) aside = 0 := by
          rcases ha with rfl | rfl | ⟨_, rfl⟩ | ⟨launch, l, error, rfl, hl, hr⟩
          · rfl
          · rfl
          · rfl
          · simp [takenWeight, hl, Job.keeps, Job.kept?, hr, LaunchPhase.kept?]
        simp [hp, hp', hh, he, show c.takenWeight _ aside = 0 from htaken]
      · -- The container of the launch goes over to the job.
        obtain ⟨l', hl', hls, -⟩ := hlink.launch hj hw
        rw [hl, Option.some.injEq, Job.launch.injEq] at hl'
        subst hl'
        have htaken : c.takenWeight (Job.keeps job.service h) (.takes launch)
            = if handle = h then 1 else 0 := by
          simp [takenWeight, hl, Job.keeps, Job.kept?, hr, LaunchPhase.kept?, hls]
        rw [hp, hp', hh, htaken]
        simp only [tally_none, tally_some, List.countP_nil, Option.isSome_none, Bool.false_and,
          Bool.false_eq_true, if_false]
        omega
      · -- The container that was in the slot is lost.
        rw [hp', hp, hh]
        simp [StartPhase.kept?, takenWeight, tally, hs]
      · -- It is given up, and the engine is asked to stop it.
        rw [hp', hp, hh, hstop]
        simp only [StartPhase.kept?, takenWeight, tally_none, tally_some, hs, decide_false,
          Bool.and_false, Bool.false_and, Bool.false_eq_true, if_false]
        omega
  | stop turn =>
      rw [turn.hands h]
      rcases turn.kept_cases h with ⟨hh, he⟩ | ⟨handle, hh, hh', rfl⟩
      · simp [Job.keeps, Job.kept?, Job.loses, hh, he, takenWeight]
      · simp [Job.keeps, Job.kept?, Job.loses, hh, hh', hstop, takenWeight]
  | launch turn =>
      rw [if_neg (show ¬ (Job.launch _).loses c _ h from Bool.false_ne_true), Nat.add_zero]
      rcases turn.kept_cases h with
        ⟨hp, ha, he⟩ | ⟨handle, hp, hp', rfl, rfl⟩ | ⟨handle, hp, hp', rfl, rfl⟩
      · simp [Job.keeps, Job.kept?, hp, ha, he, takenWeight]
      · simp only [Job.keeps, Job.service_launch, Job.kept?, hp, hp', Action.hands, takenWeight,
          List.countP_nil, if_true, tally_none, tally_some, decide_eq_true_eq]
        omega
      · simp only [Job.keeps, Job.service_launch, Job.kept?, hp, hp', hstop, Action.hands,
          takenWeight, if_true, tally_none, tally_some, Bool.false_eq_true, if_false]
        omega

/-- What is kept for a service grows by what is handed over and shrinks by what is asked to stop, and by
what is lost. -/
theorem kept_of_turn (hlink : c.Linked) (hj : c.jobs[id]? = some old)
    (turn : Turn c now id old action new slot aside effects) (s : Fin t.size) (h : Handle) :
    (c.after id new old.service slot aside).kept s h
        + (if old.service = s then effects.countP (Effect.stops h) else 0)
        + (if old.loses c s h then 1 else 0)
      = c.kept s h + (if old.service = s ∧ action.hands h then 1 else 0) := by
  have htotal := total_after (Job.keeps s h) (fun _ => ite_self _) (fun _ => ite_self _)
    (fun _ => rfl) hj turn hlink
  by_cases hs : old.service = s
  · subst hs
    have := keeps_of_turn turn hlink hj h
    simp only [kept, slot_after_self, if_true, true_and]
    omega
  · have hslot : (c.after id new old.service slot aside).slot s = c.slot s :=
      slot_after_of_ne (Ne.symm hs)
    rw [takenWeight_of_ne hs hj turn hlink _ (fun job hn => by simp [Job.keeps, hn])] at htotal
    simp only [kept, hslot, hs, Job.loses_of_ne hs, Bool.false_eq_true, false_and, if_false]
    simp only [Job.keeps, turn.service_eq, hs, if_false] at htotal ⊢
    omega

/-- What is being halted for a service grows by what is asked to stop and shrinks by the halts that
end. -/
theorem halting_of_turn (hlink : c.Linked) (hj : c.jobs[id]? = some old)
    (turn : Turn c now id old action new slot aside effects) (s : Fin t.size) (h : Handle) :
    (c.after id new old.service slot aside).halting s h
        + (if old.service = s ∧ old.endsHalt h action then 1 else 0)
      = c.halting s h + (if old.service = s then effects.countP (Effect.stops h) else 0) := by
  have htotal := total_after (Job.halts s h) (fun _ => ite_self _) (fun _ => ite_self _)
    (fun _ => rfl) hj turn hlink
  have htaken : c.takenWeight (Job.halts s h) aside = 0 := by
    cases turn with
    | stop | launch => rfl
    | start turn =>
        rcases turn.launch_cases with
          ⟨rfl, -⟩ | ⟨rfl, -⟩ | ⟨launch, l, result, rfl, hl, hr, -⟩ | ⟨launch, rfl, -⟩
        · rfl
        · rfl
        · simp [takenWeight, hl, Job.halts, Job.halt?, hr, LaunchPhase.halt?]
        · rfl
  rw [htaken, Nat.add_zero] at htotal
  simp only [halting]
  by_cases hs : old.service = s
  · subst hs
    have hw : Job.halts old.service h old = tally (old.halt?.map Prod.fst) h := if_pos rfl
    have hw' : Job.halts old.service h new = tally (new.halt?.map Prod.fst) h :=
      if_pos turn.service_eq
    rw [hw, hw'] at htotal
    cases turn.haltCourse h with
    | goesOn hh he hn =>
        rw [hh] at htotal
        simp only [he, hn, Bool.false_eq_true, and_false, if_false, if_true]
        omega
    | begins hh hh' he ha =>
        subst he ha
        rw [hh, hh', Option.map_none, tally_none, tally_some] at htotal
        simp only [Job.endsHalt, Bool.false_eq_true, and_false, if_false, if_true, askStop,
          List.countP_cons, List.countP_nil, Effect.stops, decide_eq_true_eq]
        omega
    | ends hh hh' he ha hr =>
        subst ha
        rw [hh, hh', Option.map_some, Option.map_none, tally_none, tally_some] at htotal
        simp only [he, Job.endsHalt, hh, hr, Option.any_some, decide_true, Bool.and_true,
          decide_eq_true_eq, true_and, if_true]
        omega
  · simp only [Job.halts, turn.service_eq, hs, if_false] at htotal
    simp only [hs, false_and, if_false]
    exact htotal

/-! ## Runs -/

variable {c' : Controller t} {operation : Operation}

/-- A change leaves a total as it is that counts no job which has not set out. -/
theorem Sets.total_eq (h : Sets now c c') (weight : Job t.size → Nat)
    (hstart : ∀ s run, weight (.start { service := s, run }) = 0)
    (hstop : ∀ job : StopJob t.size, job.Fresh → weight (.stop job) = 0) :
    c'.total weight = c.total weight := by
  have hzero {jobs : List (Job t.size)} (hj : c'.jobs = (c.spawn jobs).jobs)
      (hw : ∀ job ∈ jobs, weight job = 0) : c'.total weight = c.total weight := by
    have := total_spawn (c := c) weight jobs
    rw [weigh_eq_zero hw, Nat.add_zero] at this
    rw [← this, total, total, hj]
  cases h with
  | starts services jobs =>
      apply hzero jobs
      intro job hj
      obtain ⟨s, -, rfl⟩ := List.mem_map.1 hj
      exact hstart s _
  | stops stops fresh jobs =>
      apply hzero jobs
      intro job hj
      obtain ⟨stop, hs, rfl⟩ := List.mem_map.1 hj
      exact hstop stop (fresh stop hs)
  | sweeps s jobs => rw [total, total, jobs]

/-- A change leaves the containers in the slots. -/
theorem Sets.handle_eq (h : Sets now c c') (s : Fin t.size) :
    (c'.slot s).handle = (c.slot s).handle := by
  cases h with
  | starts services jobs slots => rw [slots]
  | stops stops fresh jobs slots => rw [slots]
  | sweeps s' jobs slots =>
      rw [slots]
      split
      next he => rw [he, Slot.handle_leaveStarting]
      next => rfl

theorem halt?_of_fresh {job : StopJob n} (hf : job.Fresh) : job.phase.halt? = none := by
  rcases hf with hp | ⟨jobs, hp⟩ <;> rw [hp] <;> rfl

theorem CallChange.books (change : CallChange now c operation c') (s : Fin t.size) (h : Handle) :
    c'.kept s h = c.kept s h ∧ c'.halting s h = c.halting s h := by
  constructor
  · rw [kept, kept, change.sets.handle_eq, change.sets.total_eq (Job.keeps s h)
      (fun _ _ => ite_self _) (fun _ _ => ite_self _)]
  · apply change.sets.total_eq (Job.halts s h) (fun _ _ => ite_self _)
    intro job hf
    simp [Job.halts, Job.halt?, halt?_of_fresh hf]

/-- No start job is about to record a container of the service where there is one already. -/
def Bare (c : Controller t) (s : Fin t.size) : Prop :=
  ∀ (id : Nat) (job : StartJob t.size) (handle : Handle), c.jobs[id]? = some (.start job) →
    job.service = s → job.phase = .recording handle → (c.slot s).state = .starting →
    (c.slot s).handle = none

theorem Bare.not_loses {m : Moment t} {s : Fin t.size} (h : m.before.Bare s) (handle : Handle) :
    m.loses s handle = false := by
  refine Bool.eq_false_iff.2 fun hl => ?_
  obtain ⟨job, hj, hl⟩ := (Option.any_eq_true _ _).1 hl
  obtain ⟨id, -, hj⟩ := Option.bind_eq_some_iff.1 hj
  cases job with
  | stop | launch => cases hl
  | start job =>
      simp only [Job.loses, Bool.and_eq_true, decide_eq_true_iff] at hl
      obtain ⟨⟨⟨hs, hk⟩, hst⟩, hh⟩ := hl
      obtain ⟨handle', hk⟩ := Option.isSome_iff_exists.1 hk
      have hp : job.phase = .recording handle' := by
        revert hk
        cases job.phase <;> simp [StartPhase.kept?]
      cases hh.symm.trans (h id job handle' hj hs hp hst)

/-- The books balance over a step. -/
theorem books_of_step (hlink : c.Linked) (hs : c.step now action = some (c', effects))
    (s : Fin t.size) (h : Handle) :
    let m : Moment t := ⟨c, now, action, effects, c'⟩
    (c'.kept s h + m.stops s h + (if m.loses s h then 1 else 0)
      = c.kept s h + if m.hands s h then 1 else 0) ∧
    c'.halting s h + (if m.endsHalt s h then 1 else 0) = c.halting s h + m.stops s h := by
  intro m
  cases ha : action.job? with
  | none =>
      obtain ⟨changes, rfl⟩ := changesTo_of_step ha hs
      have hm : m.job? = none := by simp [m, Moment.job?, ha]
      have hbooks : c'.kept s h = c.kept s h ∧ c'.halting s h = c.halting s h := by
        refine changes.induct (P := fun d => d.kept s h = c.kept s h ∧ d.halting s h = c.halting s h)
          (fun hc change => ?_) ⟨rfl, rfl⟩
        have := change.books s h
        exact ⟨this.1.trans hc.1, this.2.trans hc.2⟩
      simp [Moment.stops, Moment.hands, Moment.endsHalt, Moment.loses, Moment.worksFor, hm, hbooks]
  | some id =>
      obtain ⟨old, new, slot, aside, hj, turn, rfl⟩ := turnsTo_of_step ha hs
      have hm : m.job? = some old := by simp [m, Moment.job?, ha, hj]
      have hw : m.worksFor s = decide (old.service = s) := by simp [Moment.worksFor, hm]
      constructor
      · have := kept_of_turn hlink hj turn s h
        simpa [Moment.stops, Moment.hands, Moment.loses, hw, hm, m] using this
      · have := halting_of_turn hlink hj turn s h
        simpa [Moment.stops, Moment.endsHalt, hw, hm, m] using this

/-- **Being halted.** What was asked to stop is being halted, or its halt has ended. -/
theorem Run.halting {config : Config} {past : List (Moment t)} (run : Run (fresh t config) past c)
    (s : Fin t.size) (h : Handle) :
    stopsAsked past s h = c.halting s h + past.countP fun m => m.endsHalt s h := by
  induction run with
  | refl => rfl
  | tail run hs ih =>
      have := (books_of_step run.linked hs s h).2
      rw [stopsAsked, weigh_cons, List.countP_cons]
      rw [stopsAsked] at ih
      omega

/-- **Kept.** What was handed over is kept, was asked to stop, or is lost. -/
theorem Run.kept {config : Config} {past : List (Moment t)} (run : Run (fresh t config) past c)
    (s : Fin t.size) (h : Handle) : (past.countP fun m => m.hands s h)
      = c.kept s h + stopsAsked past s h + past.countP fun m => m.loses s h := by
  induction run with
  | refl => simp [Controller.kept, fresh, total, Controller.slot, stopsAsked]
  | tail run hs ih =>
      have := (books_of_step run.linked hs s h).1
      rw [stopsAsked, weigh_cons, List.countP_cons, List.countP_cons]
      rw [stopsAsked] at ih
      omega

/-- Where no container is recorded over another one, none is lost. -/
theorem Run.kept_of_bare {config : Config} {past : List (Moment t)} (run : Run (fresh t config) past c)
    (s : Fin t.size) (hbare : ∀ m ∈ past, m.before.Bare s) (h : Handle) :
    (past.countP fun m => m.hands s h) = c.kept s h + stopsAsked past s h := by
  have hlost : (past.countP fun m => m.loses s h) = 0 :=
    List.countP_eq_zero.2 fun m hm => by simp [(hbare m hm).not_loses h]
  rw [run.kept s h, hlost, Nat.add_zero]

/-- What a job keeps for the service is kept. -/
theorem kept_pos_of_job {s : Fin t.size} {job : Job t.size} {h : Handle} (hj : c.jobs[id]? = some job)
    (hs : job.service = s) (hk : job.kept? = some h) : 0 < c.kept s h := by
  have := le_total (Job.keeps s h) hj
  rw [Job.keeps, if_pos hs, hk, tally_some, if_pos rfl] at this
  rw [Controller.kept]
  omega

/-- What a job halts for the service is being halted. -/
theorem halting_pos_of_job {s : Fin t.size} {job : Job t.size} {h : Handle} {halt : Halt}
    (hj : c.jobs[id]? = some job) (hs : job.service = s) (hh : job.halt? = some (h, halt)) :
    0 < c.halting s h := by
  have := le_total (Job.halts s h) hj
  rw [Job.halts, if_pos hs, hh, Option.map_some, tally_some, if_pos rfl] at this
  exact this

/-- A container in a slot was handed over for its service. -/
theorem Run.handed_of_handle {config : Config} {past : List (Moment t)} {s : Fin t.size}
    (run : Run (fresh t config) past c) {handle : Handle} (hh : (c.slot s).handle = some handle) :
    ∃ m ∈ past, m.hands s handle := by
  have hone : 0 < past.countP fun m => m.hands s handle := by
    rw [run.kept s handle, Controller.kept, hh, tally_some, if_pos rfl]
    omega
  obtain ⟨m, hm, hhands⟩ := List.countP_pos_iff.1 hone
  exact ⟨m, hm, hhands⟩

end Controller

end Bringup.Lifecycle
