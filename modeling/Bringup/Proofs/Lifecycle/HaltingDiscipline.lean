import Bringup.Proofs.Lifecycle.Causes
import Bringup.Proofs.Lifecycle.Reports
import Bringup.Proofs.Lifecycle.SingleInstance

/-!
# Halting discipline

No container is handed over twice. Then what a job does with one is kept in two books, for each
service and each container:

  `handed over = in hand + recorded + discarded`  and  `in the slot + taken ≤ recorded`  (`Placed`)

A container is discarded by the start path and taken out of the slot by a stop job, and both ask the
engine to stop it. So it is asked to stop at most once, and since a kill follows on a stop that failed,
it is killed at most once (`Run.kills_le`). When a stop fails is told by `HaltMove`, which lists what a
turn can do with a halt.
-/

namespace Bringup.Lifecycle

open Container (Handle)

variable {n : Nat} {t : Topology}

/-! ## What a run shows -/

/-- The effect is a request to kill the container. -/
def Effect.kills (h : Handle) : Effect → Bool
  | .asks _ (.container (.kill h')) => h' = h
  | _ => false

/-- The container that the engine hands over. -/
def Action.handed? : Action → Option Handle
  | .answer _ (.container (.start (.ok h))) => some h
  | _ => none

theorem Action.hands_iff {action : Action} {h : Handle} :
    action.hands h ↔ action.handed? = some h := by
  unfold Action.hands Action.handed?
  split <;> simp_all

/-- The containers that the engine has handed over, the latest first. -/
def handedOver (past : List (Moment t)) : List Handle := past.filterMap fun m => m.action.handed?

namespace Moment

variable (m : Moment t) (s : Fin t.size) (h : Handle)

/-- How many effects of the given kind a job for the service has. -/
def asked (p : Effect → Bool) : Nat := if m.worksFor s then m.effects.countP p else 0

/-- The container comes into the slot of the service. -/
def Records : Prop := (m.before.slot s).handle ≠ some h ∧ (m.after.slot s).handle = some h

instance : Decidable (m.Records s h) := inferInstanceAs (Decidable (_ ∧ _))

/-- The step is one of a stop job. -/
def byStop : Bool := m.job?.any fun job => job.kind = .stop

/-- How often the start of the service, by its start job or by the launch, asks the engine to stop the
container. -/
def discards : Nat := if m.byStop then 0 else m.stops s h

/-- How often a stop of the service asks the engine to stop the container. -/
def takes : Nat := if m.byStop then m.stops s h else 0

theorem stops_eq : m.stops s h = m.discards s h + m.takes s h := by
  unfold discards takes
  split <;> omega

end Moment

/-- How often the starts of a service asked the engine to stop a container. -/
def discarded (past : List (Moment t)) (s : Fin t.size) (h : Handle) : Nat :=
  weigh (fun m => m.discards s h) past

/-- How often the stops of a service asked the engine to stop a container. -/
def taken (past : List (Moment t)) (s : Fin t.size) (h : Handle) : Nat :=
  weigh (fun m => m.takes s h) past

theorem stopsAsked_eq (past : List (Moment t)) (s : Fin t.size) (h : Handle) :
    stopsAsked past s h = discarded past s h + taken past s h := by
  induction past with
  | nil => rfl
  | cons m past ih =>
      rw [stopsAsked, discarded, taken, weigh_cons, weigh_cons, weigh_cons, m.stops_eq]
      rw [stopsAsked, discarded, taken] at ih
      omega

/-- Where no container is handed over twice, each is at most once. -/
theorem countP_hands_le {past : List (Moment t)} (hone : (handedOver past).Nodup) (h : Handle) :
    (past.countP fun m => m.action.hands h) ≤ 1 := by
  induction past with
  | nil => exact Nat.zero_le _
  | cons m past ih =>
      rw [handedOver, List.filterMap_cons] at hone
      rw [List.countP_cons]
      by_cases hm : m.action.hands h
      · rw [Action.hands_iff.1 hm, List.nodup_cons] at hone
        have hzero : (past.countP fun m => m.action.hands h) = 0 := by
          rw [List.countP_eq_zero]
          intro m' hm' hh
          exact hone.1 (List.mem_filterMap.2 ⟨m', hm', Action.hands_iff.1 hh⟩)
        exact Nat.le_of_eq (by rw [hzero, if_pos hm])
      · rw [if_neg hm, Nat.add_zero]
        refine ih ?_
        cases hh : m.action.handed? with
        | none => rwa [hh] at hone
        | some h' =>
            rw [hh] at hone
            exact (List.nodup_cons.1 hone).2

theorem countP_hands_for_le (past : List (Moment t)) (s : Fin t.size) (h : Handle) :
    (past.countP fun m => m.hands s h) ≤ past.countP fun m => m.action.hands h :=
  List.countP_mono_left fun m _ hm => by
    rw [Moment.hands, Bool.and_eq_true] at hm
    exact hm.2

/-! ## Halts -/

/-- The container whose stop a job waits for. -/
def Job.stopping? (job : Job n) : Option Handle :=
  match job.halt? with
  | some (handle, .stopping _) => some handle
  | _ => none

/-- How often a job waits for the stop of a container for a service. -/
def Job.awaitsStop (s : Fin n) (h : Handle) (job : Job n) : Nat :=
  if job.service = s then tally job.stopping? h else 0

theorem Halt.answered_kill {halt : Halt} {reply : Reply} (h : halt.answered reply = some .kill) :
    (∃ deadline, halt = .stopping deadline) ∧ ∃ error, reply = .container (.stop (.error error)) := by
  unfold Halt.answered at h
  split at h
  next => cases h
  next => exact ⟨⟨_, rfl⟩, _, rfl⟩
  next => cases h
  next => cases h

theorem Halt.timedOut_iff {halt : Halt} {now : Nat} :
    halt.timedOut now ↔ ∃ deadline, halt = .stopping deadline ∧ deadline ≤ now := by
  cases halt <;> simp [Halt.timedOut]

section Turns

open Controller (askKill askDetach detachPhase)

variable {c : Controller t} {now : Nat} {id : JobId} {action : Action} {slot : Slot} {aside : Aside}
  {effects : List Effect}

/-- **What a turn does with the halt** that is the work of its job: there is none; it begins with a
request to stop the container; the stop fails and the container is killed; or it ends. -/
inductive HaltMove (c : Controller t) (now : Nat) (id : JobId) (old new : Job t.size)
    (action : Action) (effects : List Effect) : Prop where
  | rests (hh : old.halt? = none) (hh' : new.halt? = none)
    (hk : ∀ h, effects.countP (Effect.kills h) = 0)
  | begins {handle : Handle} (hh : old.halt? = none)
    (hh' : new.halt? = some (handle, c.beginHalt now)) (he : effects = [c.askStop id handle])
  /-- The engine could not stop the container. -/
  | refused {handle : Handle} {deadline : Nat} {error : Container.Error}
    (hh : old.halt? = some (handle, .stopping deadline)) (hh' : new.halt? = some (handle, .killing))
    (ha : action = .answer id (.container (.stop (.error error))))
    (he : effects = [askKill id handle])
  /-- The container has not stopped in time. -/
  | overran {handle : Handle} {deadline : Nat} (hh : old.halt? = some (handle, .stopping deadline))
    (hh' : new.halt? = some (handle, .killing)) (ha : action = .timeout id) (hd : deadline ≤ now)
    (he : effects = [.withdraws id, askKill id handle])
  | ends {handle : Handle} {halt : Halt} {reply : Reply} (hh : old.halt? = some (handle, halt))
    (hh' : new.halt? = none) (ha : action = .answer id reply)
    (hr : halt.answered reply = some .over) (hk : ∀ h, effects.countP (Effect.kills h) = 0)

theorem HaltMove.kill {old new : Job t.size} {handle : Handle} {halt : Halt} {reply : Reply}
    (hh : old.halt? = some (handle, halt)) (hh' : new.halt? = some (handle, .killing))
    (hr : halt.answered reply = some .kill) :
    HaltMove c now id old new (.answer id reply) [askKill id handle] := by
  obtain ⟨⟨deadline, rfl⟩, error, rfl⟩ := Halt.answered_kill hr
  exact .refused hh hh' rfl rfl

theorem HaltMove.overrun {old new : Job t.size} {handle : Handle} {halt : Halt}
    (hh : old.halt? = some (handle, halt)) (hh' : new.halt? = some (handle, .killing))
    (ht : halt.timedOut now) :
    HaltMove c now id old new (.timeout id) [.withdraws id, askKill id handle] := by
  obtain ⟨deadline, rfl, hd⟩ := Halt.timedOut_iff.1 ht
  exact .overran hh hh' rfl hd rfl

theorem countP_kills_askDetach (volumes : List Volume) (h : Handle) :
    (askDetach id volumes).countP (Effect.kills h) = 0 := by
  cases volumes <;> rfl

theorem StartTurn.haltMove {job job' : StartJob t.size}
    (turn : StartTurn c now id job action job' slot aside effects) :
    HaltMove c now id (.start job) (.start job') action effects := by
  have hhalt {phase : StartPhase t.size} (hp : job.phase = phase) :
      (Job.start job).halt? = phase.halt? := by
    rw [← hp]
    rfl
  cases turn with
  | discard hp hs => exact .begins (hhalt hp) rfl rfl
  | overrun hp hh => exact .overrun (hhalt hp) rfl hh
  | kill hp hr => exact .kill (hhalt hp) rfl hr
  | discarded hp hr => exact .ends (hhalt hp) rfl rfl hr fun _ => rfl
  | arrive hp | accept hp =>
      refine .rests (hhalt hp) ?_ fun _ => rfl
      rw [Job.halt?, StartJob.phase_await]
      split <;> rfl
  | retry hp =>
      refine .rests (hhalt hp) ?_ fun _ => rfl
      simp only [Job.halt?, StartJob.goTo, Controller.retryPhase]
      split <;> rfl
  | follow hp =>
      refine .rests ?_ rfl fun _ => rfl
      rcases hp with hp | ⟨hp, -⟩ <;> exact hhalt hp
  | heed hp =>
      refine .rests ?_ rfl fun _ => rfl
      rcases hp with ⟨_, _, _, hp⟩ | ⟨_, _, hp⟩ <;> exact hhalt hp
  | cease hp | pass hp | giveUp hp | decline hp | refuse hp | forgo hp | enter hp | enterBare hp
  | abandon hp | collect hp | lose hp | record hp | ask hp | conclude hp | heedProbe hp | wake hp
  | bind hp | bindLast hp | miss hp | ready hp => exact .rests (hhalt hp) rfl fun _ => rfl

theorem StopTurn.haltMove {job : StopJob t.size} {phase : StopPhase}
    (turn : StopTurn c now id job action phase slot effects) :
    HaltMove c now id (.stop job) (.stop { job with phase }) action effects := by
  have hhalt {phase : StopPhase} (hp : job.phase = phase) :
      (Job.stop job).halt? = phase.halt? := by
    rw [← hp]
    rfl
  cases turn with
  | take hp | takeLeft hp =>
      -- A halt begins if there is a container in the slot.
      cases hh : (c.slot job.service).handle with
      | none =>
          exact .rests (hhalt hp) (halt?_detachPhase _) fun h => countP_kills_askDetach _ h
      | some handle => exact .begins (hhalt hp) rfl rfl
  | overrun hp hh => exact .overrun (hhalt hp) rfl hh
  | kill hp hr => exact .kill (hhalt hp) rfl hr
  | halted hp hr =>
      exact .ends (hhalt hp) (halt?_detachPhase _) rfl hr fun h => countP_kills_askDetach _ h
  | skip hp | unbind hp =>
      exact .rests (hhalt hp) (halt?_detachPhase _) fun h => countP_kills_askDetach _ h
  | go hp | pass hp | idle hp | retire hp | leave hp => exact .rests (hhalt hp) rfl fun _ => rfl

theorem LaunchTurn.haltMove {l : Launch t.size} {phase : LaunchPhase}
    (turn : LaunchTurn c now id l action phase effects) :
    HaltMove c now id (.launch l) (.launch { l with phase }) action effects := by
  have hhalt {phase : LaunchPhase} (hp : l.phase = phase) :
      (Job.launch l).halt? = phase.halt? := by
    rw [← hp]
    rfl
  cases turn with
  | halt hp ho => exact .begins (hhalt hp) rfl rfl
  | overrun hp hh => exact .overrun (hhalt hp) rfl hh
  | kill hp hr => exact .kill (hhalt hp) rfl hr
  | halted hp hr => exact .ends (hhalt hp) rfl rfl hr fun _ => rfl
  | call hp | drop hp | «return» hp => exact .rests (hhalt hp) rfl fun _ => rfl

theorem Turn.haltMove {old new : Job t.size}
    (turn : Turn c now id old action new slot aside effects) :
    HaltMove c now id old new action effects := by
  cases turn with
  | start turn => exact turn.haltMove
  | stop turn => exact turn.haltMove
  | launch turn => exact turn.haltMove

end Turns

/-! ## Where a container is put -/

/-- The container that a start job has recorded and asks about. -/
def StartPhase.probed? : StartPhase n → Option Handle
  | .pausing handle _ _ | .asking handle _ | .probing handle _ => some handle
  | _ => none

section Turns

variable {c : Controller t} {now : Nat} {id : JobId} {action : Action} {slot : Slot} {aside : Aside}
  {effects : List Effect}

/-- A start job asks about the container that it asked about before, or that it has just recorded. -/
theorem StartTurn.probed_cases {job job' : StartJob t.size}
    (turn : StartTurn c now id job action job' slot aside effects) :
    job'.phase.probed? = none ∨ job'.phase.probed? = job.phase.probed? ∨
      ∃ handle, job.phase = .recording handle ∧ job'.phase.probed? = some handle ∧
        slot.handle = some handle := by
  cases turn with
  | record hp => exact .inr (.inr ⟨_, hp, rfl, rfl⟩)
  | ask hp | wake hp => exact .inr (.inl (by rw [hp]; rfl))
  | retry hp =>
      simp only [StartJob.goTo, Controller.retryPhase]
      split
      · exact .inr (.inl (by rw [hp]; rfl))
      · exact .inl rfl
  | arrive | accept =>
      refine .inl ?_
      rw [StartJob.phase_await]
      split <;> rfl
  | _ => exact .inl rfl

/-- A job asks about a container that it has recorded. -/
theorem Turn.probed_of_asks {old new : Job t.size}
    (turn : Turn c now id old action new slot aside effects) {asker : JobId} {handle : Handle}
    (h : .asks asker (.container (.probe handle)) ∈ effects) :
    ∃ job, old = .start job ∧ job.phase.probed? = some handle := by
  cases turn with
  | start turn =>
      cases turn with
      | ask hp =>
          simp only [List.mem_singleton, Effect.asks.injEq, Request.container.injEq,
            Container.Call.probe.injEq] at h
          exact ⟨_, rfl, by rw [hp, h.2]; rfl⟩
      | _ => simp [Controller.askAttach, Controller.askStop, Controller.askKill] at h
  | stop turn => rcases turn.asks_cases h with ⟨_, _, he⟩ | ⟨_, he⟩ | ⟨_, he⟩ <;> cases he
  | launch turn => cases turn <;> simp [Controller.askStop, Controller.askKill] at h

end Turns

namespace Controller

variable {c c' d : Controller t} {now : Nat} {id : JobId} {old new : Job t.size} {action : Action}
  {slot : Slot} {aside : Aside} {effects : List Effect} {operation : Operation} {s : Fin t.size}
  {h : Handle}

/-- The books of the jobs of the service for which a turn works. -/
theorem inHand_of_turn (turn : Turn c now id old action new slot aside effects) (hlink : c.Linked)
    (hj : c.jobs[id]? = some old) (h : Handle)
    (hnew : ∀ {job : StartJob t.size}, old = .start job → job.phase = .recording h →
      (c.slot job.service).handle ≠ some h) :
    new.keeps old.service h
        + (if (c.slot old.service).handle ≠ some h ∧ slot.handle = some h then 1 else 0)
        + (if old.kind = .stop then 0 else effects.countP (Effect.stops h))
      = old.keeps old.service h + c.takenWeight (Job.keeps old.service h) aside
        + (if action.hands h then 1 else 0) := by
  have hstop (handle : Handle) : [c.askStop id handle].countP (Effect.stops h)
      = if handle = h then 1 else 0 := by
    simp [askStop, Effect.stops, List.countP_cons]
  -- A slot that keeps its container records none.
  have hsame (he : slot.handle = (c.slot old.service).handle) :
      (if (c.slot old.service).handle ≠ some h ∧ slot.handle = some h then 1 else 0) = 0 :=
    if_neg fun hr => hr.1 (he ▸ hr.2)
  cases turn with
  | @start job job' _ _ _ _ turn =>
      rw [turn.hands h, if_neg (show (Job.start job).kind ≠ .stop by simp [Job.kind])]
      simp only [Job.keeps, Job.service_start, turn.same.1, Job.kept?, if_true, Bool.false_eq_true,
        if_false, Nat.add_zero] at hsame ⊢
      rcases turn.kept_cases h with
        ⟨hp, hp', hh, he, ha⟩ | ⟨launch, l, handle, rfl, hl, hr, hw, hp, hp', hh, rfl⟩ |
        ⟨handle, rfl, hp, hp', hs, hh, rfl⟩ | ⟨handle, rfl, hp, hp', -, hh, rfl⟩
      · have htaken : c.takenWeight (Job.keeps job.service h) aside = 0 := by
          rcases ha with rfl | rfl | ⟨_, rfl⟩ | ⟨launch, l, error, rfl, hl, hr⟩
          · rfl
          · rfl
          · rfl
          · simp [takenWeight, hl, Job.keeps, Job.kept?, hr, LaunchPhase.kept?]
        rw [hp, hp', hsame hh, he, show c.takenWeight _ aside = 0 from htaken]
      · obtain ⟨l', hl', hls, -⟩ := hlink.launch hj hw
        rw [hl, Option.some.injEq, Job.launch.injEq] at hl'
        subst hl'
        have htaken : c.takenWeight (Job.keeps job.service h) (.takes launch)
            = if handle = h then 1 else 0 := by
          simp [takenWeight, hl, Job.keeps, Job.kept?, hr, LaunchPhase.kept?, hls]
        rw [hp, hp', hsame hh, show c.takenWeight _ (.takes launch) = _ from htaken, tally_none,
          tally_some, List.countP_nil]
        omega
      · rw [hp', hp, hh, List.countP_nil]
        by_cases he : handle = h
        · subst he
          have hn := hnew rfl hp
          simp [StartPhase.kept?, takenWeight, hn]
        · simp [StartPhase.kept?, takenWeight, he]
      · rw [hp', hp, hsame hh, hstop]
        simp only [StartPhase.kept?, takenWeight, tally_none, tally_some]
        omega
  | @stop job _ _ _ _ turn =>
      rw [turn.hands h, if_pos (show (Job.stop job).kind = .stop from rfl)]
      have hrecord : (if (c.slot (Job.stop job).service).handle ≠ some h ∧ slot.handle = some h
          then 1 else 0) = 0 := by
        rcases turn.kept_cases h with ⟨hh, -⟩ | ⟨handle, -, hh, -⟩
        · exact hsame hh
        · exact if_neg fun hr => by rw [hh] at hr; cases hr.2
      rw [hrecord]
      simp [Job.keeps, Job.kept?, takenWeight]
  | @launch l _ _ _ turn =>
      rw [hsame rfl, if_neg (show (Job.launch l).kind ≠ .stop by simp [Job.kind])]
      rcases turn.kept_cases h with
        ⟨hp, ha, he⟩ | ⟨handle, hp, hp', rfl, rfl⟩ | ⟨handle, hp, hp', rfl, rfl⟩
      · simp [Job.keeps, Job.kept?, hp, ha, he, takenWeight]
      · simp only [Job.keeps, Job.service_launch, Job.kept?, hp, hp', Action.hands, takenWeight,
          List.countP_nil, if_true, tally_none, tally_some, decide_eq_true_eq]
        omega
      · simp only [Job.keeps, Job.service_launch, Job.kept?, hp, hp', hstop, Action.hands,
          takenWeight, if_true, tally_none, tally_some, Bool.false_eq_true, if_false]
        omega

/-- A slot comes to hold a container only where it is recorded. -/
theorem tally_le (before after : Option Handle) (h : Handle) :
    tally after h ≤ tally before h + if before ≠ some h ∧ after = some h then 1 else 0 := by
  unfold tally
  by_cases hb : before = some h <;> by_cases ha : after = some h <;> simp [hb, ha]

/-- The slot of the service for which a turn works. -/
theorem slot_of_turn (turn : Turn c now id old action new slot aside effects) (h : Handle) :
    tally slot.handle h + (if old.kind = .stop then effects.countP (Effect.stops h) else 0)
      ≤ tally (c.slot old.service).handle h
        + (if (c.slot old.service).handle ≠ some h ∧ slot.handle = some h then 1 else 0) := by
  by_cases hk : old.kind = .stop
  · rw [if_pos hk]
    cases turn with
    | start | launch => cases hk
    | stop turn =>
        rcases turn.kept_cases h with ⟨hh, he⟩ | ⟨handle, hh, hh', rfl⟩
        · rw [he]
          exact tally_le _ _ h
        · simp [Job.service, hh, hh', askStop, Effect.stops, List.countP_cons]
  · rw [if_neg hk]
    exact tally_le _ _ h

/-- Where the containers are after a turn. -/
theorem placed_of_turn (hlink : c.Linked) (hj : c.jobs[id]? = some old)
    (turn : Turn c now id old action new slot aside effects) (s : Fin t.size) (h : Handle)
    (hnew : ∀ (id : Nat) (job : StartJob t.size), c.jobs[id]? = some (.start job) →
      job.service = s → job.phase = .recording h → (c.slot s).handle ≠ some h) :
    let m : Moment t := ⟨c, now, action, effects, c.after id new old.service slot aside⟩
    m.after.total (Job.keeps s h) + (if m.Records s h then 1 else 0)
        + (if old.service = s ∧ old.kind ≠ .stop then effects.countP (Effect.stops h) else 0)
      = c.total (Job.keeps s h) + (if old.service = s ∧ action.hands h then 1 else 0) ∧
    tally (m.after.slot s).handle h
        + (if old.service = s ∧ old.kind = .stop then effects.countP (Effect.stops h) else 0)
      ≤ tally (c.slot s).handle h + (if m.Records s h then 1 else 0) := by
  intro m
  have htotal := total_after (Job.keeps s h) (fun _ => ite_self _) (fun _ => ite_self _)
    (fun _ => rfl) hj turn hlink
  by_cases hs : old.service = s
  · subst hs
    have hkeeps := inHand_of_turn turn hlink hj h fun he hp =>
      hnew id _ (he ▸ hj) (by rw [he]; rfl) hp ∘ by rw [he]; exact fun hh => hh
    have hslot := slot_of_turn turn h
    simp only [m, Moment.Records, slot_after_self, true_and]
    by_cases hk : old.kind = .stop <;> simp only [hk, if_true, if_false, ne_eq, not_true_eq_false,
      not_false_eq_true] at hkeeps hslot ⊢ <;> omega
  · have hslot : m.after.slot s = c.slot s := slot_after_of_ne (Ne.symm hs)
    have hrecord : ¬ m.Records s h := fun hr => hr.1 (hslot ▸ hr.2)
    rw [takenWeight_of_ne hs hj turn hlink _ (fun job hn => by simp [Job.keeps, hn])] at htotal
    simp only [Job.keeps, turn.service_eq, hs, if_false] at htotal
    simp only [hs, hslot, hrecord, false_and, if_false]
    exact ⟨htotal, Nat.le_refl _⟩

/-- Where the containers are after a step. -/
theorem placed_of_step (hlink : c.Linked) (hs : c.step now action = some (c', effects))
    (s : Fin t.size) (h : Handle)
    (hnew : ∀ (id : Nat) (job : StartJob t.size), c.jobs[id]? = some (.start job) →
      job.service = s → job.phase = .recording h → (c.slot s).handle ≠ some h) :
    let m : Moment t := ⟨c, now, action, effects, c'⟩
    c'.total (Job.keeps s h) + (if m.Records s h then 1 else 0) + m.discards s h
      = c.total (Job.keeps s h) + (if m.hands s h then 1 else 0) ∧
    tally (c'.slot s).handle h + m.takes s h
      ≤ tally (c.slot s).handle h + (if m.Records s h then 1 else 0) := by
  intro m
  cases ha : action.job? with
  | none =>
      obtain ⟨changes, rfl⟩ := changesTo_of_step ha hs
      have hm : m.job? = none := by simp [m, Moment.job?, ha]
      obtain ⟨htotal, hhandle⟩ : c'.total (Job.keeps s h) = c.total (Job.keeps s h) ∧
          (c'.slot s).handle = (c.slot s).handle := by
        refine changes.induct (P := fun d => d.total (Job.keeps s h) = c.total (Job.keeps s h) ∧
          (d.slot s).handle = (c.slot s).handle) (fun hc change => ?_) ⟨rfl, rfl⟩
        exact ⟨(change.sets.total_eq _ (fun _ _ => ite_self _) fun _ _ => ite_self _).trans hc.1,
          (change.sets.handle_eq s).trans hc.2⟩
      have hrecord : ¬ m.Records s h := fun hr => hr.1 (hhandle ▸ hr.2)
      simp [Moment.discards, Moment.takes, Moment.stops, Moment.hands, Moment.worksFor, hm, htotal,
        hhandle, hrecord]
  | some id =>
      obtain ⟨old, new, slot, aside, hj, turn, rfl⟩ := turnsTo_of_step ha hs
      have hm : m.job? = some old := by simp [m, Moment.job?, ha, hj]
      have hw : m.worksFor s = decide (old.service = s) := by simp [Moment.worksFor, hm]
      have hb : m.byStop = decide (old.kind = .stop) := by simp [Moment.byStop, hm]
      have hplaced := placed_of_turn hlink hj turn s h hnew
      by_cases hk : old.kind = .stop
      · simpa [Moment.discards, Moment.takes, Moment.stops, Moment.hands, hw, hb, hk, m]
          using hplaced
      · simpa [Moment.discards, Moment.takes, Moment.stops, Moment.hands, hw, hb, hk, m]
          using hplaced

/-- **Where a container is** that was handed over for a service at most once. -/
structure Placed (past : List (Moment t)) (c : Controller t) (s : Fin t.size) (h : Handle) : Prop where
  /-- A job has it in hand, or it was recorded or discarded. -/
  handed : (past.countP fun m => m.hands s h)
    = c.total (Job.keeps s h) + (past.countP fun m => m.Records s h) + discarded past s h
  /-- It is taken out of the slot no more often than it was recorded. -/
  slot : tally (c.slot s).handle h + taken past s h ≤ past.countP fun m => m.Records s h
  /-- It was recorded, if a start job asks about it. -/
  probed : ∀ {id : Nat} {job : StartJob t.size}, c.jobs[id]? = some (.start job) →
    job.service = s → job.phase.probed? = some h → ∃ m ∈ past, m.Records s h

theorem placed_fresh (config : Config) (s : Fin t.size) (h : Handle) :
    Placed [] (fresh t config) s h where
  handed := by simp [fresh, total, discarded]
  slot := by simp [fresh, Controller.slot, taken]
  probed h := by simp [fresh] at h

/-- The container that a start job is about to record is not in the slot yet. -/
theorem Placed.unrecorded {past : List (Moment t)} (hp : Placed past c s h)
    (hone : (past.countP fun m => m.hands s h) ≤ 1) {job : StartJob t.size}
    (hj : c.jobs[id]? = some (.start job)) (hs : job.service = s)
    (hr : job.phase = .recording h) : (c.slot s).handle ≠ some h := by
  intro hh
  have hkeeps : Job.keeps s h (.start job) = 1 := by
    simp [Job.keeps, hs, Job.kept?, hr, StartPhase.kept?]
  have hle := le_total (Job.keeps s h) hj
  have hhanded := hp.handed
  have hslot := hp.slot
  rw [hh, tally_some, if_pos rfl] at hslot
  omega

/-- What a start job asks about after a step was recorded in it or before. -/
theorem Placed.probed_step {past : List (Moment t)} (hp : Placed past c s h)
    (hone : (past.countP fun m => m.hands s h) ≤ 1)
    (hs : c.step now action = some (c', effects)) {job : StartJob t.size}
    (hj : c'.jobs[id]? = some (.start job)) (hjs : job.service = s)
    (hr : job.phase.probed? = some h) :
    ∃ m ∈ (⟨c, now, action, effects, c'⟩ :: past : List (Moment t)), m.Records s h := by
  have hbefore {job : StartJob t.size} (hj : c.jobs[id]? = some (.start job))
      (hjs : job.service = s) (hr : job.phase.probed? = some h) :
      ∃ m ∈ (⟨c, now, action, effects, c'⟩ :: past : List (Moment t)), m.Records s h := by
    obtain ⟨m, hm, hrec⟩ := hp.probed hj hjs hr
    exact ⟨m, List.mem_cons_of_mem _ hm, hrec⟩
  cases ha : action.job? with
  | none =>
      refine hbefore ?_ hjs hr
      refine (changesTo_of_step ha hs).1.induct
        (P := fun d => d.jobs[id]? = some (.start job) → c.jobs[id]? = some (.start job))
        (fun hc change hd => hc ?_) (fun hd => hd) hj
      refine (change.sets.start_cases hd).resolve_right fun ⟨_, hn, _⟩ => ?_
      rw [hn] at hr
      cases hr
  | some i =>
      obtain ⟨old, new, slot, aside, hold, turn, rfl⟩ := turnsTo_of_step ha hs
      rcases start_after_cases (lt_size_of_job hold) hj with ⟨rfl, rfl⟩ | ⟨-, hj⟩
      · cases turn with
        | start turn =>
            rw [turn.same.1] at hjs
            rcases turn.probed_cases with he | he | ⟨handle, hrec, he, hslot⟩ <;> rw [he] at hr
            · cases hr
            · exact hbefore hold hjs hr
            · obtain rfl := Option.some.inj hr
              refine ⟨_, List.mem_cons_self, hp.unrecorded hone hold hjs hrec, ?_⟩
              subst hjs
              rw [← hslot]
              exact congrArg Slot.handle slot_after_self
      · exact hbefore hj hjs hr

theorem Placed.step {past : List (Moment t)} (hp : Placed past c s h) (hlink : c.Linked)
    (hone : (past.countP fun m => m.hands s h) ≤ 1)
    (hs : c.step now action = some (c', effects)) :
    Placed (⟨c, now, action, effects, c'⟩ :: past) c' s h := by
  obtain ⟨hhanded, hslot⟩ := placed_of_step hlink hs s h fun id job hj hjs hr =>
    hp.unrecorded hone hj hjs hr
  constructor
  case handed =>
    have := hp.handed
    rw [discarded] at this
    rw [List.countP_cons, List.countP_cons, discarded, weigh_cons]
    simp only [decide_eq_true_eq]
    omega
  case slot =>
    have := hp.slot
    rw [taken] at this
    rw [List.countP_cons, taken, weigh_cons]
    simp only [decide_eq_true_eq]
    omega
  case probed => exact fun hj hjs hr => hp.probed_step hone hs hj hjs hr

section

variable {config : Config} {past : List (Moment t)}

theorem Run.placed (run : Run (fresh t config) past c) (s : Fin t.size) {h : Handle}
    (hone : (past.countP fun m => m.hands s h) ≤ 1) : Placed past c s h := by
  induction run with
  | refl => exact placed_fresh config s h
  | tail run hs ih =>
      have hle := Nat.le_trans (List.countP_cons ▸ Nat.le_add_right _ _) hone
      exact (ih hle).step run.linked hle hs

/-- A container is asked to stop no more often than it was handed over. -/
theorem Placed.stopsAsked_le (hp : Placed past c s h) :
    stopsAsked past s h ≤ past.countP fun m => m.hands s h := by
  have hhanded := hp.handed
  have hslot := hp.slot
  rw [stopsAsked_eq]
  omega

end

/-! ## Kills -/

/-- Each stop that a job waits for is over before the container is killed. -/
theorem kills_of_turn (hj : c.jobs[id]? = some old) (hlink : c.Linked)
    (turn : Turn c now id old action new slot aside effects) (s : Fin t.size) (h : Handle) :
    (c.after id new old.service slot aside).total (Job.awaitsStop s h)
        + (if old.service = s then effects.countP (Effect.kills h) else 0)
      ≤ c.total (Job.awaitsStop s h)
        + (if old.service = s then effects.countP (Effect.stops h) else 0) := by
  have hzero {job : Job t.size} (hh : job.halt? = none) : job.awaitsStop s h = 0 := by
    simp [Job.awaitsStop, Job.stopping?, hh]
  have htotal := total_after (Job.awaitsStop s h) (fun _ => hzero rfl) (fun _ => hzero rfl)
    (fun _ => rfl) hj turn hlink
  have htaken : c.takenWeight (Job.awaitsStop s h) aside = 0 := by
    cases turn with
    | stop | launch => rfl
    | start turn =>
        rcases turn.launch_cases with
          ⟨rfl, -⟩ | ⟨rfl, -⟩ | ⟨launch, l, result, rfl, hl, hr, -⟩ | ⟨launch, rfl, -⟩
        · rfl
        · rfl
        · have hnone : (Job.launch l).halt? = none := by simp [Job.halt?, hr, LaunchPhase.halt?]
          simp [takenWeight, hl, hzero hnone]
        · rfl
  rw [htaken, Nat.add_zero] at htotal
  by_cases hs : old.service = s
  · rw [if_pos hs, if_pos hs]
    have hw (job : Job t.size) (hjs : job.service = s) :
        job.awaitsStop s h = tally job.stopping? h := if_pos hjs
    rw [hw old hs, hw new (turn.service_eq.trans hs)] at htotal
    cases turn.haltMove with
    | rests hh hh' hk | ends hh hh' ha hr hk =>
        have hnew : new.stopping? = none := by simp [Job.stopping?, hh']
        rw [hk, Nat.add_zero]
        rw [hnew, tally_none] at htotal
        omega
    | @begins handle hh hh' he =>
        have hnew : new.stopping? = some handle := by rw [Job.stopping?, hh']; rfl
        subst he
        rw [hnew, tally_some] at htotal
        simp only [askStop, List.countP_cons, List.countP_nil, Effect.kills, Effect.stops,
          decide_eq_true_eq, Bool.false_eq_true, if_false]
        omega
    | @refused handle _ _ hh hh' ha he | @overran handle _ hh hh' ha hd he =>
        have hold : old.stopping? = some handle := by rw [Job.stopping?, hh]
        have hnew : new.stopping? = none := by simp [Job.stopping?, hh']
        subst he
        rw [hold, hnew, tally_some, tally_none] at htotal
        simp only [askKill, List.countP_cons, List.countP_nil, Effect.kills, Effect.stops,
          decide_eq_true_eq, Bool.false_eq_true, if_false]
        omega
  · rw [if_neg hs, if_neg hs]
    simp only [Job.awaitsStop, turn.service_eq, hs, if_false] at htotal
    exact Nat.le_of_eq htotal

theorem kills_of_step (hlink : c.Linked) (hs : c.step now action = some (c', effects))
    (s : Fin t.size) (h : Handle) :
    let m : Moment t := ⟨c, now, action, effects, c'⟩
    c'.total (Job.awaitsStop s h) + m.asked s (Effect.kills h)
      ≤ c.total (Job.awaitsStop s h) + m.stops s h := by
  intro m
  cases ha : action.job? with
  | none =>
      obtain ⟨changes, rfl⟩ := changesTo_of_step ha hs
      have hm : m.job? = none := by simp [m, Moment.job?, ha]
      have htotal : c'.total (Job.awaitsStop s h) = c.total (Job.awaitsStop s h) := by
        refine changes.induct (P := fun d => d.total (Job.awaitsStop s h) = _)
          (fun hc change => ?_) rfl
        refine (change.sets.total_eq _ (fun _ _ => ite_self _) fun job hf => ?_).trans hc
        simp [Job.awaitsStop, Job.stopping?, Job.halt?, halt?_of_fresh hf]
      simp [Moment.asked, Moment.stops, Moment.worksFor, hm, htotal]
  | some id =>
      obtain ⟨old, new, slot, aside, hj, turn, rfl⟩ := turnsTo_of_step ha hs
      have hm : m.job? = some old := by simp [m, Moment.job?, ha, hj]
      have hw : m.worksFor s = decide (old.service = s) := by simp [Moment.worksFor, hm]
      simpa [Moment.asked, Moment.stops, hw, m] using kills_of_turn hj hlink turn s h

/-- **Killed and waited for.** Of the containers that were asked to stop, some are waited for, and no
others are killed. -/
theorem Run.kills_le {config : Config} {past : List (Moment t)} (run : Run (fresh t config) past c)
    (s : Fin t.size) (h : Handle) :
    c.total (Job.awaitsStop s h) + weigh (fun m => m.asked s (Effect.kills h)) past
      ≤ stopsAsked past s h := by
  induction run with
  | refl => simp [fresh, total]
  | tail run hs ih =>
      have := kills_of_step run.linked hs s h
      rw [weigh_cons, stopsAsked, weigh_cons]
      rw [stopsAsked] at ih
      omega

/-! ## Over all services -/

/-- Two services are not handed the same container. -/
theorem hands_add_le {past : List (Moment t)} {s s' : Fin t.size} (hne : s ≠ s') (h : Handle) :
    (past.countP fun m => m.hands s h) + (past.countP fun m => m.hands s' h)
      ≤ past.countP fun m => m.action.hands h := by
  induction past with
  | nil => exact Nat.le_refl _
  | cons m past ih =>
      have hm : (if m.hands s h then 1 else 0) + (if m.hands s' h then 1 else 0)
          ≤ if m.action.hands h then 1 else 0 := by
        unfold Moment.hands Moment.worksFor
        cases m.job? with
        | none => simp
        | some job =>
            by_cases hs : job.service = s
            · have hs' : job.service ≠ s' := fun he => hne (hs.symm.trans he)
              simp [hs, hne]
            · simp only [Option.any_some, hs, decide_false, Bool.false_and, Bool.false_eq_true,
                if_false, Nat.zero_add, Bool.and_eq_true]
              split
              next he => exact Nat.le_of_eq (if_pos he.2).symm
              next => exact Nat.zero_le _
      simp only [List.countP_cons]
      omega

/-- Only the steps of jobs show anything. -/
theorem Run.works {start : Controller t} {past : List (Moment t)} (run : Run start past c)
    {m : Moment t} (hm : m ∈ past) : m.effects = [] ∨ ∃ s, m.worksFor s := by
  have hs := run.step_of_mem hm
  cases ha : m.action.job? with
  | none => exact .inl (changesTo_of_step ha hs).2
  | some id =>
      obtain ⟨old, new, slot, aside, hj, -⟩ := turnsTo_of_step ha hs
      exact .inr ⟨old.service, by simp [Moment.worksFor, Moment.job?, ha, hj]⟩

/-- What is asked about a container for each service no more often than it was handed over is asked at
most once altogether. -/
theorem Run.asked_le_one {start : Controller t} {past : List (Moment t)} (run : Run start past c)
    {h : Handle} (hone : (past.countP fun m => m.action.hands h) ≤ 1) (p : Effect → Bool)
    (hle : ∀ s, weigh (fun m => m.asked s p) past ≤ past.countP fun m => m.hands s h) :
    weigh (fun m => m.effects.countP p) past ≤ 1 := by
  have hasked {m : Moment t} {s : Fin t.size} (hw : m.worksFor s) :
      m.effects.countP p = m.asked s p := (if_pos hw).symm
  by_cases hall : ∀ s, (past.countP fun m => m.hands s h) = 0
  · -- Nobody was handed the container, so nothing is asked about it.
    rw [weigh_eq_zero fun m hm => ?_]
    · exact Nat.zero_le _
    · rcases run.works hm with he | ⟨s, hw⟩
      · rw [he, List.countP_nil]
      · have := le_weigh_of_mem (fun m => m.asked s p) hm
        have := hle s
        have := hall s
        rw [hasked hw]
        omega
  · obtain ⟨s, hs⟩ := Classical.not_forall.1 hall
    have honly {m : Moment t} (hm : m ∈ past) : m.effects.countP p ≤ m.asked s p := by
      rcases run.works hm with he | ⟨s', hw⟩
      · rw [he, List.countP_nil]
        exact Nat.zero_le _
      · by_cases hss : s' = s
        · exact Nat.le_of_eq (hasked (hss ▸ hw))
        · have : _ ≤ past.countP fun m => m.action.hands h := hands_add_le (Ne.symm hss) h
          have := le_weigh_of_mem (fun m => m.asked s' p) hm
          have := hle s'
          rw [hasked hw]
          omega
    exact Nat.le_trans (weigh_le_weigh fun m hm => honly hm)
      (Nat.le_trans (hle s) (Nat.le_trans (countP_hands_for_le past s h) hone))

/-! ## Why a container is killed -/

/-- The job waits for the stop of the container, until the deadline. -/
def AwaitsStop (c : Controller t) (id : JobId) (h : Handle) (deadline : Nat) : Prop :=
  ∃ job, c.jobs[id]? = some job ∧ job.halt? = some (h, .stopping deadline)

theorem awaitsStop_after (hj : c.jobs[id]? = some old) {i : Nat} {deadline : Nat}
    (hw : (c.after id new old.service slot aside).AwaitsStop i h deadline) :
    (i = id ∧ new.halt? = some (h, .stopping deadline)) ∨ c.AwaitsStop i h deadline := by
  obtain ⟨job, hi, hh⟩ := hw
  rcases jobs_after_cases (lt_size_of_job hj) hi with
    ⟨he, rfl⟩ | ⟨-, hi⟩ | ⟨-, -, rfl⟩ | ⟨-, l, hl, ⟨-, rfl⟩ | ⟨-, rfl⟩⟩
  · exact .inl ⟨he, hh⟩
  · exact .inr ⟨job, hi, hh⟩
  · cases hh
  · cases hh
  · exact .inr ⟨_, hl, hh⟩

theorem CallChange.awaitsStop (change : CallChange now c operation d) {deadline : Nat}
    (hw : d.AwaitsStop id h deadline) : c.AwaitsStop id h deadline := by
  obtain ⟨job, hj, hh⟩ := hw
  cases job with
  | launch l => exact ⟨_, change.sets.launch_before hj, hh⟩
  | start job =>
      rcases change.sets.start_cases hj with hj | ⟨-, hp, -⟩
      · exact ⟨_, hj, hh⟩
      · simp [Job.halt?, hp, StartPhase.halt?] at hh
  | stop job =>
      rcases change.sets.stop_cases hj with hj | hf
      · exact ⟨_, hj, hh⟩
      · simp [Job.halt?, halt?_of_fresh hf] at hh

/-- **The deadline of a stop** is the moment at which the container was asked to stop and the time that
it was given. -/
theorem Run.deadline {config : Config} {past : List (Moment t)} (run : Run (fresh t config) past c)
    {deadline : Nat} (hw : c.AwaitsStop id h deadline) :
    ∃ m ∈ past, .asks id (.container (.stop h config.stopTimeout)) ∈ m.effects ∧
      deadline = m.now + config.stopTimeout.ceilMillis := by
  induction run with
  | refl =>
      obtain ⟨job, hj, -⟩ := hw
      simp [fresh] at hj
  | @tail past c c' now action effects run hs ih =>
      have hbefore (hw : c.AwaitsStop id h deadline) :
          ∃ m ∈ (⟨c, now, action, effects, c'⟩ :: past : List (Moment t)),
            .asks id (.container (.stop h config.stopTimeout)) ∈ m.effects ∧
              deadline = m.now + config.stopTimeout.ceilMillis := by
        obtain ⟨m, hm, hm'⟩ := ih hw
        exact ⟨m, List.mem_cons_of_mem _ hm, hm'⟩
      cases ha : action.job? with
      | none =>
          exact hbefore ((changesTo_of_step ha hs).1.induct
            (P := fun d => d.AwaitsStop id h deadline → c.AwaitsStop id h deadline)
            (fun hc change hd => hc (change.awaitsStop hd)) (fun hd => hd) hw)
      | some i =>
          obtain ⟨old, new, slot, aside, hj, turn, rfl⟩ := turnsTo_of_step ha hs
          rcases awaitsStop_after hj hw with ⟨rfl, hh⟩ | hw
          · have hconfig : c.config = config := run.config_eq
            cases turn.haltMove with
            | begins _ hh' he =>
                rw [hh', Option.some.injEq, Prod.mk.injEq, beginHalt, Halt.stopping.injEq,
                  hconfig] at hh
                obtain ⟨rfl, rfl⟩ := hh
                refine ⟨_, List.mem_cons_self, ?_, rfl⟩
                rw [he, askStop, hconfig]
                exact List.mem_singleton_self _
            | rests _ hh' | refused _ hh' | overran _ hh' | ends _ hh' =>
                rw [hh'] at hh
                cases hh
          · exact hbefore hw

end Controller

/-- The stop for which the job waits fails: the engine refuses it, or the time is over that the
container was given when it was asked to stop. -/
def Moment.StopFails (m : Moment t) (earlier : List (Moment t)) (timeout : Duration) (id : JobId)
    (h : Handle) : Prop :=
  ∃ m' ∈ earlier, .asks id (.container (.stop h timeout)) ∈ m'.effects ∧
    m.before.AwaitsStop id h (m'.now + timeout.ceilMillis) ∧
    ((∃ error, m.action = .answer id (.container (.stop (.error error)))) ∨
      (m.action = .timeout id ∧ m'.now + timeout.ceilMillis ≤ m.now))

namespace Controller

variable {c c' d : Controller t} {now : Nat} {id : JobId} {action : Action}
  {effects : List Effect} {s : Fin t.size} {h : Handle}

theorem mem_kills {asker : JobId} (hasks : .asks asker (.container (.kill h)) ∈ effects) :
    0 < effects.countP (Effect.kills h) :=
  List.countP_pos_iff.2 ⟨_, hasks, by simp [Effect.kills]⟩

/-- A job kills a container in the step in which its stop fails. -/
theorem kills_iff_of_step (hs : c.step now action = some (c', effects)) :
    .asks id (.container (.kill h)) ∈ effects ↔ ∃ deadline, c.AwaitsStop id h deadline ∧
      ((∃ error, action = .answer id (.container (.stop (.error error)))) ∨
        (action = .timeout id ∧ deadline ≤ now)) := by
  constructor
  · intro hasks
    cases ha : action.job? with
    | none =>
        rw [(changesTo_of_step ha hs).2] at hasks
        cases hasks
    | some i =>
        obtain ⟨old, new, slot, aside, hj, turn, -⟩ := turnsTo_of_step ha hs
        obtain rfl := turn.asker_eq hasks
        cases turn.haltMove with
        | rests _ _ hk | ends _ _ _ _ hk => exact absurd (mem_kills hasks) (by rw [hk]; simp)
        | begins _ _ he => simp [he, askStop] at hasks
        | refused hh _ ha he =>
            obtain rfl : h = _ := by simpa [he, askKill] using hasks
            exact ⟨_, ⟨old, hj, hh⟩, .inl ⟨_, ha⟩⟩
        | overran hh _ ha hd he =>
            obtain rfl : h = _ := by simpa [he, askKill] using hasks
            exact ⟨_, ⟨old, hj, hh⟩, .inr ⟨ha, hd⟩⟩
  · rintro ⟨deadline, ⟨job, hj, hh⟩, hfails⟩
    have ha : action.job? = some id := by rcases hfails with ⟨error, rfl⟩ | ⟨rfl, -⟩ <;> rfl
    obtain ⟨old, new, slot, aside, hj', turn, -⟩ := turnsTo_of_step ha hs
    obtain rfl := Option.some.inj (hj.symm.trans hj')
    cases turn.haltMove with
    | rests hh' | begins hh' =>
        rw [hh] at hh'
        cases hh'
    | refused hh' _ _ he | overran hh' _ _ _ he =>
        rw [hh, Option.some.injEq, Prod.mk.injEq] at hh'
        simp [he, askKill, hh'.1]
    | ends hh' _ ha' hr =>
        -- A stop that was refused is not over, and no answer comes with the end of a wait.
        rw [hh, Option.some.injEq, Prod.mk.injEq] at hh'
        obtain ⟨rfl, rfl⟩ := hh'
        rcases hfails with ⟨error, rfl⟩ | ⟨rfl, -⟩
        · obtain rfl := (Action.answer.inj ha').2
          cases hr
        · cases ha'

/-- A job that waits for a stop kills the container when the engine refuses the stop, and can do so once
the deadline has passed. -/
theorem AwaitsStop.kill {deadline : Nat} (hw : c.AwaitsStop id h deadline) {action : Action}
    (hfails : (∃ error, action = .answer id (.container (.stop (.error error)))) ∨
      (action = .timeout id ∧ deadline ≤ now)) :
    ∃ c' effects, c.step now action = some (c', effects) ∧
      .asks id (.container (.kill h)) ∈ effects := by
  have hsteps : ∃ c' effects, c.step now action = some (c', effects) := by
    obtain ⟨job, hj, hh⟩ := hw
    cases job with
    | start job =>
        obtain ⟨service, run, claimed, phase⟩ := job
        cases phase <;> simp only [Job.halt?, StartPhase.halt?, reduceCtorEq] at hh
        cases hh
        rcases hfails with ⟨error, rfl⟩ | ⟨rfl, hd⟩
        · simp [step, hj, answerStart, Halt.answered]
        · simp [step, hj, timeoutStart, Halt.timedOut, hd]
    | stop job =>
        obtain ⟨service, phase⟩ := job
        cases phase <;> simp only [Job.halt?, StopPhase.halt?, reduceCtorEq] at hh
        cases hh
        rcases hfails with ⟨error, rfl⟩ | ⟨rfl, hd⟩
        · simp [step, hj, answerStop, Halt.answered]
        · simp [step, hj, timeoutStop, Halt.timedOut, hd]
    | launch l =>
        obtain ⟨service, orphaned, phase⟩ := l
        cases phase <;> simp only [Job.halt?, LaunchPhase.halt?, reduceCtorEq] at hh
        cases hh
        rcases hfails with ⟨error, rfl⟩ | ⟨rfl, hd⟩
        · simp [step, hj, answerLaunch, Halt.answered]
        · simp [step, hj, timeoutLaunch, Halt.timedOut, hd]
  obtain ⟨c', effects, hs⟩ := hsteps
  exact ⟨c', effects, hs, (kills_iff_of_step hs).2 ⟨deadline, hw, hfails⟩⟩

/-! ## Who is asked about -/

theorem exists_hands {past : List (Moment t)} (hpos : 0 < past.countP fun m => m.hands s h) :
    ∃ m ∈ past, m.action.handed? = some h := by
  obtain ⟨m, hm, hh⟩ := List.countP_pos_iff.1 hpos
  rw [Moment.hands, Bool.and_eq_true] at hh
  exact ⟨m, hm, Action.hands_iff.1 hh.2⟩

end Controller

/-- A step in which a container is handed over shows nothing. -/
theorem Turn.effects_of_hands {c : Controller t} {now : Nat} {id : JobId} {old new : Job t.size}
    {action : Action} {slot : Slot} {aside : Aside} {effects : List Effect} {h : Handle}
    (turn : Turn c now id old action new slot aside effects) (hh : action.hands h) :
    effects = [] := by
  cases turn with
  | start turn => rw [turn.hands h] at hh; cases hh
  | stop turn => rw [turn.hands h] at hh; cases hh
  | launch turn =>
      rcases turn.kept_cases h with ⟨-, ha, -⟩ | ⟨_, -, -, -, he⟩ | ⟨_, -, -, rfl, -⟩
      · rw [ha] at hh
        cases hh
      · exact he
      · cases hh

namespace Controller

variable {config : Config} {past : List (Moment t)} {c : Controller t} {id : JobId}
  {action : Action} {effects : List Effect} {s : Fin t.size} {h : Handle}

/-- A container that the engine is asked to stop was handed over before. -/
theorem Run.known_of_stop (run : Run (fresh t config) past c) (hone : (handedOver past).Nodup)
    {m : Moment t} {earlier : List (Moment t)} (hpast : past = m :: earlier) {timeout : Duration}
    (hasks : .asks id (.container (.stop h timeout)) ∈ m.effects) :
    ∃ m' ∈ earlier, m'.action.handed? = some h := by
  have hs := run.step_of_mem (hpast ▸ List.mem_cons_self)
  cases ha : m.action.job? with
  | none =>
      rw [(changesTo_of_step ha hs).2] at hasks
      cases hasks
  | some i =>
      obtain ⟨old, new, slot, aside, hj, turn, -⟩ := turnsTo_of_step ha hs
      have hw : m.worksFor old.service := by simp [Moment.worksFor, Moment.job?, ha, hj]
      have hstops : 0 < m.stops old.service h := by
        rw [Moment.stops, if_pos hw]
        exact List.countP_pos_iff.2 ⟨_, hasks, by simp [Effect.stops]⟩
      have hbooks := (run.placed old.service (Nat.le_trans (countP_hands_for_le _ _ _)
        (countP_hands_le hone h))).stopsAsked_le
      rw [hpast, stopsAsked, weigh_cons, List.countP_cons] at hbooks
      -- This step hands nothing over, so an earlier one did.
      have hnow : ¬ m.hands old.service h := fun hh => by
        rw [Moment.hands, Bool.and_eq_true] at hh
        rw [turn.effects_of_hands hh.2] at hasks
        cases hasks
      rw [if_neg hnow] at hbooks
      exact exists_hands (s := old.service) (by omega)

/-- A container that the engine is asked to kill was handed over before. -/
theorem Run.known_of_kill (run : Run (fresh t config) past c) (hone : (handedOver past).Nodup)
    {deadline : Nat} (hw : c.AwaitsStop id h deadline) :
    ∃ m ∈ past, m.action.handed? = some h := by
  obtain ⟨job, hj, hh⟩ := hw
  have hwaits : job.awaitsStop job.service h = 1 := by
    simp [Job.awaitsStop, Job.stopping?, hh]
  have hle := le_total (Job.awaitsStop job.service h) hj
  have hkills := run.kills_le job.service h
  have hbooks := (run.placed job.service (Nat.le_trans (countP_hands_for_le _ _ _)
    (countP_hands_le hone h))).stopsAsked_le
  exact exists_hands (s := job.service) (by omega)

/-- A container that a start job asks about was recorded, and handed over, before. -/
theorem Run.known_of_probe (run : Run (fresh t config) past c) (hone : (handedOver past).Nodup)
    {job : StartJob t.size} (hj : c.jobs[id]? = some (.start job))
    (hp : job.phase.probed? = some h) :
    (∃ m ∈ past, m.Records job.service h) ∧ ∃ m ∈ past, m.action.handed? = some h := by
  have placed := run.placed job.service (Nat.le_trans (countP_hands_for_le _ _ _)
    (countP_hands_le hone h))
  obtain ⟨m, hm, hr⟩ := placed.probed hj rfl hp
  refine ⟨⟨m, hm, hr⟩, ?_⟩
  have hpos : 0 < past.countP fun m => m.Records job.service h :=
    List.countP_pos_iff.2 ⟨m, hm, by simpa using hr⟩
  have hhanded := placed.handed
  exact exists_hands (s := job.service) (by omega)

/-- Where no job has a step of its own to take, none has a container in hand. -/
theorem Linked.none_in_hand (hlink : c.Linked) {now : Nat}
    (hstill : ∀ id, c.step now (.run id) = none) (s : Fin t.size) (h : Handle) :
    c.total (Job.keeps s h) = 0 := by
  refine (total_eq_zero_iff _).2 fun id job hj => ?_
  have hnone : job.kept? = none := by
    have hrun := hstill id
    cases job with
    | stop => rfl
    | start job =>
        obtain ⟨service, run, claimed, phase⟩ := job
        cases phase with
        | recording handle =>
            simp only [Controller.step, hj, runStart] at hrun
            split at hrun <;> cases hrun
        | _ => rfl
    | launch l =>
        obtain ⟨service, orphaned, phase⟩ := l
        rcases phase with _ | _ | (error | handle) | _ | _
        case returned.ok =>
          cases orphaned with
          | true => simp [Controller.step, hj, runLaunch] at hrun
          | false =>
              -- The start job that waits for the launch has a step to take.
              obtain ⟨i, job, hi, hw⟩ := hlink.waited hj rfl (by simp)
              have hstart := hstill i
              obtain ⟨service', run, claimed, phase⟩ := job
              rcases phase with _ | _ | _ | _ | _ | _ | launch | _ | _ | _ | _ | _ | verdict | _ <;>
                simp only [StartPhase.launch?, reduceCtorEq, Option.some.injEq] at hw
              · subst hw
                by_cases hc : c.isCancelled run <;>
                  simp [Controller.step, hi, runStart, takeLaunch?, hj, hc] at hstart
              · simp [Controller.step, hi, runStart] at hstart
        all_goals rfl
  simp [Job.keeps, hnone]

/-- **What a controller keeps to** when it starts and halts containers, with the time that it gives them
to stop. -/
structure Disciplined (past : List (Moment t)) (c : Controller t) (timeout : Duration) : Prop where
  entered : ∀ id s, (past.countP fun m => m.EntersBy id s) ≤ 1
  /-- A start job creates at most one launch. -/
  launched : ∀ id, (past.countP fun m => m.Launches id) ≤ 1
  /-- A launch asks the engine at most once to start its container. -/
  called : ∀ launch s, (past.countP fun m => m.AsksStartBy launch s) ≤ 1
  /-- When it does, the start job that created it has moved the service to starting, and all volumes of
  the service have been bound for it. -/
  caused : ∀ (later : List (Moment t)) (m : Moment t) (earlier : List (Moment t)),
    past = later ++ m :: earlier → ∀ launch s, m.AsksStartBy launch s →
      ∃ id, LedTo earlier id launch s
  /-- A container that was handed over is recorded once, or discarded once by its start, and not both. -/
  placed : ∀ s h, (past.countP fun m => m.Records s h) + discarded past s h
    ≤ (past.countP fun m => m.hands s h) ∧ (past.countP fun m => m.hands s h) ≤ 1
  /-- It is one of the two, once no job has a step of its own to take. -/
  settled : ∀ now, (∀ id, c.step now (.run id) = none) → ∀ s h,
    (past.countP fun m => m.Records s h) + discarded past s h = past.countP fun m => m.hands s h
  stopped : ∀ h, weigh (fun m => m.effects.countP (Effect.stops h)) past ≤ 1
  killed : ∀ h, weigh (fun m => m.effects.countP (Effect.kills h)) past ≤ 1
  /-- A container is killed in the step in which its stop fails. -/
  kills_iff : ∀ (later : List (Moment t)) (m : Moment t) (earlier : List (Moment t)),
    past = later ++ m :: earlier → ∀ id h, .asks id (.container (.kill h)) ∈ m.effects ↔
      m.StopFails earlier timeout id h
  /-- A stop that is waited for was asked for, and when it fails the container is killed. -/
  kills : ∀ id h deadline, c.AwaitsStop id h deadline →
    (∃ m ∈ past, .asks id (.container (.stop h timeout)) ∈ m.effects ∧
      deadline = m.now + timeout.ceilMillis) ∧
    ∀ now action, (∃ error, action = .answer id (.container (.stop (.error error)))) ∨
      (action = .timeout id ∧ deadline ≤ now) →
      ∃ c' effects, c.step now action = some (c', effects) ∧
        .asks id (.container (.kill h)) ∈ effects
  /-- A container that the engine is asked to stop or to kill was handed over before. -/
  known : ∀ (later : List (Moment t)) (m : Moment t) (earlier : List (Moment t)),
    past = later ++ m :: earlier → ∀ id h,
      (∃ timeout, .asks id (.container (.stop h timeout)) ∈ m.effects) ∨
        .asks id (.container (.kill h)) ∈ m.effects →
      ∃ m' ∈ earlier, m'.action.handed? = some h
  /-- A container about which the engine is asked was handed over and recorded before. -/
  probed : ∀ (later : List (Moment t)) (m : Moment t) (earlier : List (Moment t)),
    past = later ++ m :: earlier → ∀ id h, .asks id (.container (.probe h)) ∈ m.effects →
      (∃ s, ∃ m' ∈ earlier, m'.Records s h) ∧ ∃ m' ∈ earlier, m'.action.handed? = some h

/-- **Halting discipline.** In every run of a fresh controller in which the engine hands no container
over twice, the controller keeps to the discipline. -/
theorem Run.disciplined (run : Run (fresh t config) past c) (hone : (handedOver past).Nodup) :
    Disciplined past c config.stopTimeout := by
  have honce (h : Handle) := countP_hands_le hone h
  have hfor (s : Fin t.size) (h : Handle) : (past.countP fun m => m.hands s h) ≤ 1 :=
    Nat.le_trans (countP_hands_for_le past s h) (honce h)
  -- At every instant no container has been handed over twice so far.
  have hsplit {later earlier : List (Moment t)} {m : Moment t} (hpast : past = later ++ m :: earlier) :
      Run (fresh t config) earlier m.before ∧ (handedOver (m :: earlier)).Nodup ∧
        m.before.step m.now m.action = some (m.after, m.effects) := by
    refine ⟨(run.split hpast).1, ?_, run.step_of_mem (hpast ▸ by simp)⟩
    rw [hpast, handedOver, List.filterMap_append] at hone
    exact (List.nodup_append.1 hone).2.1
  have hearlier {m : Moment t} {earlier : List (Moment t)} (h : (handedOver (m :: earlier)).Nodup) :
      (handedOver earlier).Nodup := by
    rw [handedOver, List.filterMap_cons] at h
    split at h
    · exact h
    · exact (List.nodup_cons.1 h).2
  constructor
  case entered => exact run.enters_le
  case launched => exact run.launches_le
  case called => exact run.calls_le
  case caused =>
    rintro later m earlier hpast launch s ⟨l, hl, rfl, -⟩
    exact (hsplit hpast).1.caused.launch hl
  case placed =>
    intro s h
    refine ⟨?_, hfor s h⟩
    rw [(run.placed s (hfor s h)).handed]
    omega
  case settled =>
    intro now hstill s h
    rw [(run.placed s (hfor s h)).handed, run.linked.none_in_hand hstill s h, Nat.zero_add]
  case stopped =>
    exact fun h => run.asked_le_one (honce h) _ fun s => (run.placed s (hfor s h)).stopsAsked_le
  case killed =>
    intro h
    refine run.asked_le_one (honce h) _ fun s => ?_
    have hkills := run.kills_le s h
    have hstops := (run.placed s (hfor s h)).stopsAsked_le
    omega
  case kills_iff =>
    intro later m earlier hpast id h
    obtain ⟨before, -, hs⟩ := hsplit hpast
    rw [kills_iff_of_step hs]
    constructor
    · rintro ⟨deadline, hw, hfails⟩
      obtain ⟨m', hm', hasks, rfl⟩ := before.deadline hw
      exact ⟨m', hm', hasks, hw, hfails⟩
    · rintro ⟨m', -, -, hw, hfails⟩
      exact ⟨_, hw, hfails⟩
  case kills =>
    intro id h deadline hw
    exact ⟨run.deadline hw, fun now action hfails => hw.kill hfails⟩
  case known =>
    rintro later m earlier hpast id h (⟨timeout, hasks⟩ | hasks)
    · obtain ⟨before, hnodup, hs⟩ := hsplit hpast
      exact (before.tail hs).known_of_stop hnodup rfl hasks
    · obtain ⟨before, hnodup, hs⟩ := hsplit hpast
      obtain ⟨deadline, hw, -⟩ := (kills_iff_of_step hs).1 hasks
      exact before.known_of_kill (hearlier hnodup) hw
  case probed =>
    intro later m earlier hpast id h hasks
    obtain ⟨before, hnodup, hs⟩ := hsplit hpast
    cases ha : m.action.job? with
    | none =>
        rw [(changesTo_of_step ha hs).2] at hasks
        cases hasks
    | some i =>
        obtain ⟨old, new, slot, aside, hj, turn, -⟩ := turnsTo_of_step ha hs
        obtain ⟨job, rfl, hp⟩ := turn.probed_of_asks hasks
        obtain ⟨hrec, hhanded⟩ := before.known_of_probe (hearlier hnodup) hj hp
        exact ⟨⟨_, hrec⟩, hhanded⟩

/-! ### One container recorded, another discarded -/

/-- The database is started and stopped, but the engine refuses to stop its container. It is started
again, and the start is cancelled while the second container is on its way; that one comes, and does
not stop in time. -/
def killedSteps : List (Nat × Action) :=
  readySteps ++ [(40, .invoke .stopAll), (40, .run 2), (40, .run 2),
    (50, .answer 2 (.container (.stop (.error (.stop "busy"))))),
    (60, .answer 2 (.container (.kill (.ok ())))), (60, .run 2), (70, .invoke .startAll),
    (70, .run 3), (70, .run 3), (70, .run 4), (80, .invoke .cancel), (80, .proceed 3), (80, .run 3),
    (80, .run 3), (90, .answer 4 (.container (.start (.ok ⟨⟨"db"⟩, "2"⟩)))), (90, .run 4),
    (10_090, .timeout 4), (10_100, .answer 4 (.container (.kill (.ok ()))))]

/-- The theorem at the end of that run: the first container was recorded and the second discarded, and
both were killed. -/
theorem disciplined_killed :
    ∃ (past : List (Moment solo)) (c : Controller solo), Run (fresh solo {}) past c ∧
      (handedOver past).Nodup ∧ Disciplined past c ({} : Config).stopTimeout ∧
      (∀ id, c.step 10_100 (.run id) = none) ∧ handedOver past = [⟨⟨"db"⟩, "2"⟩, ⟨⟨"db"⟩, "1"⟩] ∧
      (past.countP fun m => m.Records only ⟨⟨"db"⟩, "1"⟩) = 1 ∧
      discarded past only ⟨⟨"db"⟩, "2"⟩ = 1 ∧
      ∀ h ∈ handedOver past, weigh (fun m => m.effects.countP (Effect.kills h)) past = 1 := by
  obtain ⟨past, c, run, shown⟩ := exists_run (fresh solo {}) killedSteps
    (fun past c => c.jobs.toList.all Job.isFinished && handedOver past = [⟨⟨"db"⟩, "2"⟩, ⟨⟨"db"⟩, "1"⟩] &&
      (past.countP fun m => m.Records only ⟨⟨"db"⟩, "1"⟩) = 1 &&
      discarded past only ⟨⟨"db"⟩, "2"⟩ = 1 &&
      (handedOver past).all fun h => weigh (fun m => m.effects.countP (Effect.kills h)) past = 1)
    (by decide +kernel)
  simp only [Bool.and_eq_true, decide_eq_true_iff, List.all_eq_true] at shown
  obtain ⟨⟨⟨⟨finished, handed⟩, recorded⟩, discards⟩, kills⟩ := shown
  have distinct : (handedOver past).Nodup := by rw [handed]; decide
  have still : ∀ id, c.step 10_100 (.run id) = none := by
    intro id
    refine Option.eq_none_iff_forall_not_mem.2 fun ⟨c', effects⟩ hs => ?_
    obtain ⟨old, new, slot, aside, hj, turn, -⟩ := turnsTo_of_step rfl hs
    exact turn.not_isFinished (finished old (List.mem_of_getElem? (by simpa using hj)))
  exact ⟨past, c, run, distinct, run.disciplined distinct, still, handed, recorded, discards, kills⟩

end Controller

end Bringup.Lifecycle
