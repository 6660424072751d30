import Bringup.Proofs.Simulation.Timeline

/-!
# On time

One start of all services, an engine that answers from scripts and says at once whether a container is
ready, and a store of any kind: whatever happens by itself at one instant, every service that has been
timely stays so (`OnTime.moves`). Nothing that happens by itself takes time. The call answers once every
service shows its outcome, and then it answers at the instant at which the last service has left the
state of starting (`OnTime.proceed`).
-/

namespace Bringup.Simulation

open Lifecycle
open Lifecycle.Controller (Foretold)

variable {t : Topology}

namespace Setting

variable {start : Scene t} {x y : Setting Engine.Scripted.engine t} {event : Event}
  {moments : List (Moment t)} {id : JobId} {action : Action} {slot : Slot} {aside : Aside}
  {effects : List Effect}

/-! ## Scenes -/

/-- The scene of a setting. -/
def scene (x : Setting Engine.Scripted.engine t) : Scene t where
  controller := x.controller
  engine := x.engine
  ongoing := x.ongoing
  store := x.store
  now := x.now

theorem scene_after (c : Controller t) (effects : List Effect) :
    (x.after c effects).scene = x.scene.after c effects := by
  have hfold (x : Setting Engine.Scripted.engine t) :
      (effects.foldl carry x).scene = effects.foldl Scene.carry x.scene := by
    induction effects generalizing x with
    | nil => rfl
    | cons effect rest ih =>
        have hcarry : (x.carry effect).scene = x.scene.carry effect := by
          cases effect with
          | asks job request => cases request <;> rfl
          | withdraws | refusedMove => rfl
        rw [List.foldl_cons, List.foldl_cons, ih, hcarry]
  exact hfold _

/-- What happens by itself in a setting happens in its scene. -/
theorem Moves.scene (hm : Moves x event moments y)
    (hi : event.Inner ∨ ∃ time, event = .pass time) (halarms : x.alarms = [])
    (hjobs : ∀ entry ∈ x.store.answers, entry.1 ≠ .visitor) : Simulation.Moves x.scene y.scene := by
  cases hm with
  | @act action c effects hs ha =>
      rw [scene_after]
      refine .act hs ha fun operation he => ?_
      subst he
      rcases hi with hi | ⟨_, he⟩
      · exact hi.elim
      · cases he
  | ring hm =>
      rw [halarms] at hm
      cases hm
  | @reply job call engine reply c effects hm hd he hs =>
      obtain ⟨rfl, hreply⟩ := Prod.mk.inj he
      obtain rfl := Engine.Next.answer.inj hreply
      obtain rfl : call.job = job := by simpa using List.find?_some hm
      rw [scene_after]
      exact .reply (x := x.scene) (List.mem_of_find?_eq_some hm) hs
  | work hm hd he => cases (Prod.mk.inj he).2
  | serve hs => exact .serve (x := x.scene) hs
  | deliver ha hs =>
      rw [scene_after]
      exact .deliver (x := x.scene) ha hs
  | hand ha => exact absurd rfl (hjobs _ (List.mem_of_getElem? ha))
  | pass => exact .pass (x := x.scene)

/-! ## The invariant -/

/-- What the engine works on for the job goes on when the pace has it. -/
def Due (start : Scene t) (now due : Nat) (job : Job t.size) : Prop :=
  (job.kind = .launch → due = start.pace.probed job.service 0) ∧ (job.kind = .start → due ≤ now)

/-- One start of all services has been called, and everything is on time. -/
structure OnTime (start : Scene t) (x : Setting Engine.Scripted.engine t) : Prop where
  called : start.pace.called ≤ x.now
  config : x.controller.config = start.controller.config
  one : x.controller.calls.size = 1
  /-- Each service has one start job. -/
  sole : ∀ {id id' : Nat} {job job' : StartJob t.size}, x.controller.jobs[id]? = some (.start job) →
    x.controller.jobs[id']? = some (.start job') → job.service = job'.service → id = id'
  all : ∀ s, ∃ (id : Nat) (job : StartJob t.size),
    x.controller.jobs[id]? = some (.start job) ∧ job.service = s
  timely : ∀ {id : Nat} {job : StartJob t.size}, x.controller.jobs[id]? = some (.start job) →
    x.Timely start job.service job.phase
  due : ∀ entry ∈ x.ongoing, ∃ job, x.controller.jobs[entry.job]? = some job ∧
    Due start x.now entry.due job
  unanswered : x.controller.answer? 0 = none → x.now ≤ start.pace.returns
  answered : ∀ answer time, x.controller.answer? 0 = some (answer, time) →
    time = start.pace.returns

/-- A service that is ready has left the state of starting. -/
theorem OnTime.ready (h : OnTime start x) (ht : t.Built)
    (hf : Foretold start.pace.toProspect x.controller)
    (hcourse : ∀ s, Course .pending (x.controller.slot s).transitions (x.controller.slot s).state)
    (d : Fin t.size) (hd : (x.controller.slot d).state = .ready) : start.pace.leave d ≤ x.now := by
  obtain ⟨id, job, hj, rfl⟩ := h.all d
  have hp : (x.controller.slot job.service).state ≠ .pending := by simp [hd]
  have hs : (x.controller.slot job.service).state ≠ .starting := by simp [hd]
  have hmem := (Prospect.shown_ready ht ((hf.slot job.service).eq_outcome hp hs)).1 hd
  exact (h.timely hj).left (hcourse _) hp hs
    (Prospect.blocker?_eq_none.2 ((Prospect.mem_ready ht).1 hmem).1)

/-! ## Steps -/

/-- Everything stays on time at the same instant as long as no job and no service changes, the engine has
no new calls, and the call answers when the pace has it. -/
theorem OnTime.congr (h : OnTime start x) (hjobs : y.controller.jobs = x.controller.jobs)
    (hslots : ∀ s, y.controller.slot s = x.controller.slot s)
    (hconfig : y.controller.config = x.controller.config)
    (hsize : y.controller.calls.size = x.controller.calls.size)
    (hopen : y.controller.answer? 0 = none → x.controller.answer? 0 = none)
    (hanswer : ∀ answer time, y.controller.answer? 0 = some (answer, time) →
      time = start.pace.returns)
    (hnow : y.now = x.now)
    (hcalls : ∀ s, y.engine.callsFor (t.id s) = x.engine.callsFor (t.id s))
    (ho : ∀ entry ∈ y.ongoing, entry ∈ x.ongoing) : OnTime start y where
  called := hnow ▸ h.called
  config := hconfig.trans h.config
  one := hsize.trans h.one
  sole := hjobs ▸ h.sole
  all := hjobs ▸ h.all
  timely hj := (h.timely (hjobs ▸ hj)).congr hnow (by rw [hslots]) (hcalls _) fun _ _ => by rw [hjobs]
  due entry hm := by
    rw [hjobs, hnow]
    exact h.due entry (ho entry hm)
  unanswered ha := hnow ▸ h.unanswered (hopen ha)
  answered := hanswer

/-- Engine and store change as they like while the engine has no new calls. -/
theorem OnTime.meanwhile (h : OnTime start x) (hc : y.controller = x.controller) (hnow : y.now = x.now)
    (hcalls : ∀ s, y.engine.callsFor (t.id s) = x.engine.callsFor (t.id s))
    (ho : ∀ entry ∈ y.ongoing, entry ∈ x.ongoing) : OnTime start y :=
  h.congr (by rw [hc]) (by simp [hc]) (by rw [hc]) (by rw [hc]) (by simp [hc]) (hc ▸ h.answered) hnow
    hcalls ho

/-- A start job after a turn was one before it, and of the same service. -/
theorem start_before {c : Controller t} {now : Nat} {old new : Job t.size}
    (hj : c.jobs[id]? = some old) (turn : Turn c now id old action new slot aside effects) {i : Nat}
    {job : StartJob t.size}
    (hi : (c.after id new old.service slot aside).jobs[i]? = some (.start job)) :
    ∃ before, c.jobs[i]? = some (.start before) ∧ before.service = job.service := by
  rcases Controller.start_after_cases (Controller.lt_size_of_job hj) hi with ⟨rfl, rfl⟩ | ⟨-, hi⟩
  · cases turn with
    | start turn => exact ⟨_, hj, turn.same.1.symm⟩
  · exact ⟨job, hi, rfl⟩

section

variable {old new : Job t.size}

section

variable (hj : x.controller.jobs[id]? = some old)
  (turn : Turn x.controller x.now id old action new slot aside effects)

include hj turn

/-- Every service keeps its start job. -/
theorem start_kept {s : Fin t.size} (h : ∃ (i : Nat) (job : StartJob t.size),
    x.controller.jobs[i]? = some (.start job) ∧ job.service = s) :
    ∃ (i : Nat) (job : StartJob t.size),
      (x.controller.after id new old.service slot aside).jobs[i]? = some (.start job) ∧
        job.service = s := by
  obtain ⟨i, job, hi, rfl⟩ := h
  obtain ⟨job', hi', hkind, hs, -⟩ := Controller.job_kept turn hj hi
  cases job' with
  | start job' => exact ⟨i, job', hi', hs⟩
  | stop | launch => cases hkind

/-- What the engine works on goes on when the pace has it, after a turn as before. -/
theorem due_turn (hdue : ∀ entry ∈ x.ongoing, ∃ job, x.controller.jobs[entry.job]? = some job ∧
    Due start x.now entry.due job) {entry : Ongoing Engine.Scripted.Work}
    (hentry : entry ∈ x.ongoing ∨ entry.job = id ∧ Due start x.now entry.due new) :
    ∃ job, (x.controller.after id new old.service slot aside).jobs[entry.job]? = some job ∧
      Due start x.now entry.due job := by
  rcases hentry with hm | ⟨rfl, hd⟩
  · obtain ⟨job, hi, hd⟩ := hdue entry hm
    obtain ⟨job', hi', hkind, hs, -⟩ := Controller.job_kept turn hj hi
    refine ⟨job', hi', ?_⟩
    rw [Due, hkind, hs]
    exact hd
  · exact ⟨new, Controller.jobs_after_self (Controller.lt_size_of_job hj), hd⟩

/-- A service for which nothing is done stays on time. -/
theorem Timely.elsewhere {i : Nat} {job : StartJob t.size} (h : x.Timely start job.service job.phase)
    (hlink : x.controller.Linked) (hi : x.controller.jobs[i]? = some (.start job)) (hne : i ≠ id)
    (hs : job.service ≠ old.service)
    (hcalls : (x.after (x.controller.after id new old.service slot aside) effects).engine.callsFor
      (t.id job.service) = x.engine.callsFor (t.id job.service)) :
    (x.after (x.controller.after id new old.service slot aside) effects).Timely start job.service
      job.phase := by
  refine h.congr (now_after _ _) ?_ hcalls fun launch hw => ?_
  · rw [controller_after, Controller.slot_after_of_ne hs]
  · -- The launch of the job is one of its own service.
    obtain ⟨l, hl, hls, -⟩ := hlink.launch hi hw
    have hli : launch ≠ id := by
      rintro rfl
      obtain rfl : old = .launch l := Option.some.inj (hj.symm.trans hl)
      exact hs hls.symm
    obtain ⟨htakes, hleaves⟩ := hlink.left_alone hj turn hne hi hw
    rw [controller_after,
      Controller.jobs_after_of_ne hli (Controller.lt_size_of_job hl) htakes hleaves]

end

/-- The services for which nothing is done stay on time. -/
theorem OnTime.frame (h : OnTime start x) (hlink : x.controller.Linked)
    (hj : x.controller.jobs[id]? = some old)
    (turn : Turn x.controller x.now id old action new slot aside effects)
    (hy : y = x.after (x.controller.after id new old.service slot aside) effects)
    (hcalls : ∀ s, s ≠ old.service → y.engine.callsFor (t.id s) = x.engine.callsFor (t.id s))
    (hdue : ∀ entry ∈ y.ongoing, entry ∈ x.ongoing ∨
      entry.job = id ∧ Due start x.now entry.due new)
    (hself : ∀ {i : Nat} {job : StartJob t.size}, y.controller.jobs[i]? = some (.start job) →
      job.service = old.service → y.Timely start job.service job.phase) : OnTime start y := by
  have hc : y.controller = x.controller.after id new old.service slot aside := by
    rw [hy, controller_after]
  have hnow : y.now = x.now := by rw [hy, now_after]
  have hid := Controller.lt_size_of_job hj
  have hanswer : y.controller.answer? 0 = x.controller.answer? 0 := by
    rw [hc, Controller.answer?, Controller.answer?, Controller.calls_after]
  constructor
  case called =>
    rw [hnow]
    exact h.called
  case config =>
    rw [hc, Controller.config_after]
    exact h.config
  case one =>
    rw [hc, Controller.calls_after]
    exact h.one
  case sole =>
    intro i i' job job' hi hi' hs
    rw [hc] at hi hi'
    obtain ⟨before, hb, he⟩ := start_before hj turn hi
    obtain ⟨before', hb', he'⟩ := start_before hj turn hi'
    exact h.sole hb hb' (he.trans (hs.trans he'.symm))
  case all =>
    intro s
    rw [hc]
    exact start_kept hj turn (h.all s)
  case timely =>
    intro i job hi
    by_cases hs : job.service = old.service
    · exact hself hi hs
    · rw [hc] at hi
      rcases Controller.start_after_cases hid hi with ⟨-, rfl⟩ | ⟨hne, hi⟩
      · exact absurd turn.service_eq hs
      · have hcalls := hcalls _ hs
        subst hy
        exact (h.timely hi).elsewhere hj turn hlink hi hne hs hcalls
  case due =>
    intro entry hm
    rw [hc, hnow]
    exact due_turn hj turn h.due (hdue entry hm)
  case unanswered =>
    rw [hanswer, hnow]
    exact h.unanswered
  case answered =>
    rw [hanswer]
    exact h.answered

/-- What the engine is told in a turn of a start job: at most a question, for the service of the job,
which it answers at once. -/
theorem Follows.told_engine (h : x.Follows start) (ht : t.Built)
    (hprobes : ∀ s, (start.engine.script (t.id s)).probeDelay = 0) {job job' : StartJob t.size}
    (hj : x.controller.jobs[id]? = some (.start job))
    (turn : StartTurn x.controller x.now id job action job' slot aside effects)
    (c : Controller t) :
    (∀ s, s ≠ job.service →
      (x.after c effects).engine.callsFor (t.id s) = x.engine.callsFor (t.id s)) ∧
    ∀ entry ∈ (x.after c effects).ongoing, entry ∈ x.ongoing ∨
      entry.job = id ∧ Due start x.now entry.due (.start job') := by
  have hquiet (he : (x.after c effects).engine = x.engine)
      (ho : (x.after c effects).ongoing = x.ongoing) :
      (∀ s, s ≠ job.service →
        (x.after c effects).engine.callsFor (t.id s) = x.engine.callsFor (t.id s)) ∧
      ∀ entry ∈ (x.after c effects).ongoing, entry ∈ x.ongoing ∨
        entry.job = id ∧ Due start x.now entry.due (.start job') :=
    ⟨fun s _ => by rw [he], fun entry hm => .inl (ho ▸ hm)⟩
  rcases h.foretold.asks_turn hj (.start turn) with rfl | ⟨request, rfl, hasks⟩
  · exact hquiet rfl rfl
  cases hasks with
  | attach => exact hquiet rfl rfl
  | @start l s hl hs hp =>
      rw [Controller.jobs_after_self (Controller.lt_size_of_job hj)] at hl
      cases hl
  | @probe job handle attempt hj' hp hj'' =>
      obtain rfl := Job.start.inj (Option.some.inj (hj.symm.trans hj'))
      have hb := h.foretold.backs hj
      rw [hp] at hb
      have hservice : handle.service = t.id job.service := hb.1.2.2
      obtain ⟨-, hscript⟩ := Engine.Scripted.State.nextProbe_of_after
        (h.scripts.asked hj (by rw [hp]; rfl))
      constructor
      · intro s hs
        have hlog : (x.after c [.asks id (.container (.probe handle))]).engine.calls
            = x.engine.calls ++ [⟨x.now, .probe, handle.service, _⟩] :=
          Engine.Scripted.State.calls_take_probe handle
        rw [Engine.Scripted.State.callsFor_of_calls hlog, if_neg]
        exact fun he => hs (ht.id_injective (hservice.symm.trans he)).symm
      · intro entry hm
        rcases List.mem_append.1 hm with hm | hm
        · exact .inl (List.mem_filter.1 hm).1
        · obtain rfl := List.mem_singleton.1 hm
          refine .inr ⟨rfl, fun hk => (by cases hk), fun _ => Nat.le_of_eq ?_⟩
          show x.now + ((x.engine.nextProbe handle.service).1.script handle.service).probeDelay = x.now
          rw [hservice, hscript]
          exact congrArg (x.now + ·) (hprobes job.service)

/-- **The turn of a start job** leaves everything on time. -/
theorem OnTime.start_turn (h : OnTime start x) (hf : x.Follows start) (ht : t.Built)
    (hprobes : ∀ s, (start.engine.script (t.id s)).probeDelay = 0) {job job' : StartJob t.size}
    (hj : x.controller.jobs[id]? = some (.start job))
    (turn : StartTurn x.controller x.now id job action job' slot aside effects)
    (hfair : action.Fair start.pace.toProspect x.controller) :
    OnTime start
      (x.after (x.controller.after id (.start job') job.service slot aside) effects) := by
  obtain ⟨hcalls, hdue⟩ := hf.told_engine ht hprobes hj turn
    (x.controller.after id (.start job') job.service slot aside)
  refine h.frame hf.linked hj (.start turn) rfl hcalls hdue fun {i job''} hi hs => ?_
  rw [controller_after] at hi
  obtain ⟨before, hb, he⟩ := start_before hj (.start turn) hi
  obtain rfl := h.sole hb hj (he.trans hs)
  rw [Controller.jobs_after_self (Controller.lt_size_of_job hj), Option.some.injEq,
    Job.start.injEq] at hi
  subst hi
  rw [hs]
  exact hf.start_turn ht hj turn hfair (h.timely hj)

/-- A launch that is not at its end has a start job that waits for it. -/
theorem Follows.waited (hf : x.Follows start) {id : Nat} {l : Launch t.size}
    (hl : x.controller.jobs[id]? = some (.launch l)) (hp : l.phase ≠ .finished) :
    ∃ (i : Nat) (job : StartJob t.size), x.controller.jobs[i]? = some (.start job) ∧
      job.service = l.service ∧ job.phase = .launching id := by
  obtain ⟨i, job, hi, hw⟩ := hf.linked.waited hl (hf.foretold.launches hl).1 hp
  obtain ⟨l', hl', hs, -⟩ := hf.linked.launch hi hw
  obtain rfl := Job.launch.inj (Option.some.inj (hl.symm.trans hl'))
  have hb := hf.foretold.backs hi
  refine ⟨i, job, hi, hs.symm, ?_⟩
  cases hjp : job.phase with
  | launching launch =>
      rw [hjp] at hw
      rw [Option.some.inj hw]
  | concluding verdict =>
      rw [hjp] at hw hb
      cases verdict with
      | cancelled => exact hb.elim
      | _ => cases hw
  | _ =>
      rw [hjp] at hw
      cases hw

/-- A launch that is not at its end is on time with the start job that waits for it. -/
theorem LaunchTimely.of_waited {id : Nat} {l : Launch t.size} {job : StartJob t.size}
    (hl : x.controller.jobs[id]? = some (.launch l)) (hs : job.service = l.service)
    (hp : job.phase = .launching id) (h : x.Timely start job.service job.phase) :
    x.LaunchTimely start l.service l.phase := by
  rw [hp] at h
  obtain ⟨l', hl', h⟩ := h
  obtain rfl := Job.launch.inj (Option.some.inj (hl.symm.trans hl'))
  exact hs ▸ h

/-- What the engine is told in a turn of a launch: at most to start the container of its service. -/
theorem LaunchTurn.told_engine (hf : x.Follows start) (ht : t.Built) {l : Launch t.size}
    {phase : LaunchPhase} (hj : x.controller.jobs[id]? = some (.launch l))
    (turn : LaunchTurn x.controller x.now id l action phase effects)
    (htimely : x.LaunchTimely start l.service l.phase) (c : Controller t) :
    (∀ s, s ≠ l.service →
      (x.after c effects).engine.callsFor (t.id s) = x.engine.callsFor (t.id s)) ∧
    ∀ entry ∈ (x.after c effects).ongoing, entry ∈ x.ongoing ∨
      entry.job = id ∧ Due start x.now entry.due (.launch { l with phase }) := by
  cases turn with
  | call hp =>
      rw [hp] at htimely
      constructor
      · intro s hs
        have hlog : (x.after c [.asks id (.container (.start (t.service l.service)
            (t.volumesOf l.service)))]).engine.calls
              = x.engine.calls ++ [⟨x.now, .start, t.id l.service, none⟩] :=
          Engine.Scripted.State.calls_take_start _ (t.volumesOf l.service)
        rw [Engine.Scripted.State.callsFor_of_calls hlog, if_neg]
        exact fun he => hs (ht.id_injective he).symm
      · intro entry hm
        rcases List.mem_append.1 hm with hm | hm
        · exact .inl (List.mem_filter.1 hm).1
        · obtain rfl := List.mem_singleton.1 hm
          obtain ⟨n, hkept⟩ := hf.scripts.kept l.service
          refine .inr ⟨rfl, fun _ => ?_, fun hk => (by cases hk)⟩
          have htime : (x.engine.script (t.id l.service)).startTime
              = (start.engine.script (t.id l.service)).startTime := by rw [hkept]; rfl
          show x.now + (x.engine.script (t.id l.service)).startDelay = start.pace.probed l.service 0
          rw [htimely.1, Engine.Scripted.Script.startDelay, htime]
          exact start.pace.probed_zero.symm
  | «return» => exact ⟨fun s _ => rfl, fun entry hm => .inl hm⟩
  | halt hp ho | drop hp ho =>
      rw [(hf.foretold.launches hj).1] at ho
      cases ho
  | overrun hp | halted hp | kill hp =>
      rw [hp] at htimely
      exact htimely.elim

/-- **The turn of a launch** leaves everything on time. -/
theorem OnTime.launch_turn (h : OnTime start x) (hf : x.Follows start) (ht : t.Built)
    {l : Launch t.size} {phase : LaunchPhase} (hj : x.controller.jobs[id]? = some (.launch l))
    (turn : LaunchTurn x.controller x.now id l action phase effects)
    (hreturn : ∀ result, action = .answer id (.container (.start result)) →
      start.pace.probed l.service 0 ≤ x.now) :
    OnTime start (x.after (x.controller.after id (.launch { l with phase }) l.service
      (x.controller.slot l.service) .nothing) effects) := by
  have hopen : l.phase ≠ .finished := fun hp =>
    (Turn.launch turn).not_isFinished (Job.isFinished_launch.2 hp)
  obtain ⟨i, job, hi, hs, hp⟩ := hf.waited hj hopen
  have htimely := LaunchTimely.of_waited hj hs hp (h.timely hi)
  obtain ⟨hcalls, hdue⟩ := LaunchTurn.told_engine hf ht hj turn htimely
    (x.controller.after id (.launch { l with phase }) l.service (x.controller.slot l.service) .nothing)
  refine h.frame hf.linked hj (.launch turn) rfl hcalls hdue fun {i' job'} hi' hs' => ?_
  rw [controller_after] at hi'
  -- The start job of the service is the one that waits for the launch.
  have hi' := Controller.start_of_after (Controller.lt_size_of_job hj) (by simp) hi'
  obtain rfl := h.sole hi hi' (hs.trans hs'.symm)
  obtain rfl := Job.start.inj (Option.some.inj (hi.symm.trans hi'))
  rw [hp, hs]
  refine ⟨{ l with phase }, ?_, hf.launch_turn hj turn hreturn htimely⟩
  rw [controller_after]
  exact Controller.jobs_after_self (Controller.lt_size_of_job hj)

/-- Where every service shows its outcome, the last one has left the state of starting. -/
theorem OnTime.returns_le (h : OnTime start x)
    (hcourse : ∀ s, Course .pending (x.controller.slot s).transitions (x.controller.slot s).state)
    (hshown : ∀ s, (x.controller.slot s).sight = start.pace.outcome s) :
    start.pace.returns ≤ x.now := by
  refine Pace.latest_le h.called fun s hs => ?_
  have hb := Pace.mem_started.1 hs
  obtain ⟨id, job, hj, rfl⟩ := h.all s
  have hstate : (x.controller.slot job.service).state = (start.pace.outcome job.service).1 :=
    congrArg Prod.fst (hshown job.service)
  refine (h.timely hj).left (hcourse _) ?_ ?_ hb
  · rw [hstate]
    exact Prospect.outcome_ne_pending hb
  · rw [hstate]
    exact Prospect.outcome_ne_starting _

/-- **The step of a call** leaves everything on time: the call answers once every service shows its
outcome. -/
theorem OnTime.proceed (h : OnTime start x) (hf : x.Follows start) (hfits : x.controller.Fits)
    {k : Nat} {c : Controller t} (hs : x.controller.step x.now (.proceed k) = some (c, effects))
    (htold : Controller.Told start.pace.toProspect c) : OnTime start (x.after c effects) := by
  obtain ⟨call, hk, hproceed⟩ := Option.bind_eq_some_iff.1 hs
  obtain ⟨-, rfl⟩ := Controller.proceed_changes hk hproceed
  obtain ⟨phase, -, hc⟩ := hf.foretold.proceeds hfits hk hproceed
  have hlt := (Array.getElem?_eq_some_iff.1 hk).1
  obtain rfl : k = 0 := by
    have hone := h.one
    omega
  have hopen : x.controller.answer? 0 = none := by
    rw [Option.eq_none_iff_forall_ne_some]
    intro answer ha
    rw [Controller.answer?_of_call hk] at ha
    obtain ⟨answer, time, hp⟩ := Controller.Call.phase_of_answer (Option.isSome_of_mem ha)
    simp [Controller.proceed, hp] at hproceed
  have hjobs : c.jobs = x.controller.jobs := by rw [hc, Controller.jobs_setCallPhase]
  have hslot (s : Fin t.size) : c.slot s = x.controller.slot s := by
    rw [hc, Controller.slot_setCallPhase]
  have hconfig : c.config = x.controller.config := by rw [hc, Controller.config_setCallPhase]
  have hsize : c.calls.size = x.controller.calls.size := by
    rw [hc, Controller.size_calls_setCallPhase]
  refine h.congr hjobs hslot hconfig hsize (fun _ => hopen) ?_ rfl (fun _ => rfl) fun _ hm => hm
  intro answer time ha
  have ha : c.answer? 0 = some (answer, time) := ha
  rcases Controller.answer_of_step hs hlt ha with ha' | rfl
  · rw [hopen] at ha'
    cases ha'
  · refine Nat.le_antisymm (h.unanswered hopen) (h.returns_le hf.course fun s => ?_)
    rw [← hslot]
    exact (htold.report ha).1 s

/-- **A step of the controller** that those outside have no part in leaves everything on time. -/
theorem OnTime.step (h : OnTime start x) (hf : x.Follows start) (ht : t.Built)
    (hprobes : ∀ s, (start.engine.script (t.id s)).probeDelay = 0) (hfits : x.controller.Fits)
    {c : Controller t} (hs : x.controller.step x.now action = some (c, effects))
    (hi : (Event.control 0 action).Inner) (hfair : action.Fair start.pace.toProspect x.controller)
    (htold : Controller.Told start.pace.toProspect c)
    (hreturn : ∀ (id : Nat) (l : Launch t.size) (result : Except Container.Error Container.Handle),
      action = .answer id (.container (.start result)) → x.controller.jobs[id]? = some (.launch l) →
        start.pace.probed l.service 0 ≤ x.now) :
    OnTime start (x.after c effects) := by
  cases ha : action.job? with
  | some id =>
      obtain ⟨old, new, slot, aside, hj, turn, rfl⟩ := Controller.turnsTo_of_step ha hs
      cases turn with
      | start turn => exact h.start_turn hf ht hprobes hj turn hfair
      | stop => exact absurd hj (hf.foretold.stop _ _)
      | @launch l phase _ _ turn =>
          exact h.launch_turn hf ht hj turn fun result he => hreturn id l result he hj
  | none =>
      cases action with
      | proceed k => exact h.proceed hf hfits hs htold
      | invoke | interrupt => exact hi.elim
      | run | heed | timeout | answer => cases ha

end

/-! ## What happens by itself -/

/-- What the scripts have in store stays as it is while the engine answers. -/
theorem Follows.finish (h : x.Follows start) (work : Engine.Scripted.Work)
    (ongoing : List (Ongoing Engine.Scripted.Work)) : Follows start { x with
      engine := (x.engine.finish work).1
      ongoing } where
  foretold := h.foretold
  linked := h.linked
  scripts :=
    have hscript (service : ServiceId) :
        (x.engine.finish work).1.script service = x.engine.script service :=
      Engine.Scripted.State.script_finish work
    ⟨fun s => hscript _ ▸ h.scripts.kept s, fun s hp => hscript _ ▸ h.scripts.unasked s hp,
      fun hj ha => hscript _ ▸ h.scripts.asked hj ha⟩
  course := h.course
  config := h.config
  called := h.called
  ready := h.ready

/-- What is tied to the prospect and on time follows the pace. -/
theorem OnTime.follows (h : OnTime start x) (ht : t.Built) (htied : Tied start x.scene)
    (hcourse : ∀ s, Course .pending (x.controller.slot s).transitions (x.controller.slot s).state) :
    x.Follows start where
  foretold := htied.told.foretold
  linked := htied.told.linked
  scripts := htied.scripts
  course := hcourse
  config := h.config
  called := h.called
  ready := h.ready ht htied.told.foretold hcourse

/-- **What happens by itself** leaves everything on time. -/
theorem OnTime.moves (h : OnTime start x) (ht : t.Built)
    (hprobes : ∀ s, (start.engine.script (t.id s)).probeDelay = 0) (htied : Tied start x.scene)
    (hcourse : ∀ s, Course .pending (x.controller.slot s).transitions (x.controller.slot s).state)
    (halarms : x.alarms = []) (hm : Moves x event moments y) (hi : event.Inner) :
    OnTime start y := by
  have hf := h.follows ht htied hcourse
  have htold {action : Action} {c : Controller t} {effects : List Effect}
      (hfair : action.Fair start.pace.toProspect x.controller)
      (hs : x.controller.step x.now action = some (c, effects)) :
      Controller.Told start.pace.toProspect c := htied.told.step ht hfair hs
  cases hm with
  | @act action c effects hs ha =>
      have hfair : action.Fair start.pace.toProspect x.controller := by
        cases action with
        | invoke => exact hi.elim
        | answer job reply => exact absurd rfl (ha job reply)
        | _ => trivial
      exact h.step hf ht hprobes htied.told.fits hs hi hfair (htold hfair hs)
        fun id l result he => absurd he (ha _ _)
  | ring hm =>
      rw [halarms] at hm
      cases hm
  | @reply job call engine reply c effects hm hd he hs =>
      obtain ⟨rfl, hreply⟩ := Prod.mk.inj he
      obtain rfl := Engine.Next.answer.inj hreply
      obtain rfl : call.job = job := by simpa using List.find?_some hm
      have hmem := List.mem_of_find?_eq_some hm
      have hfair : (Action.answer call.job (.container (x.engine.finish call.work).2)).Fair
          start.pace.toProspect x.controller := by
        intro job hj
        obtain ⟨job', hj', -, htakes⟩ := htied.awaited.working call hmem
        obtain rfl := Option.some.inj (hj.symm.trans hj')
        exact htakes _ htied.scripts.kept
      have hon : OnTime start { x with
          engine := (x.engine.finish call.work).1
          ongoing := x.others call.job } :=
        h.meanwhile rfl rfl (fun _ => Engine.Scripted.State.callsFor_finish call.work)
          fun entry he => (List.mem_filter.1 he).1
      refine hon.step (hf.finish call.work _) ht hprobes htied.told.fits hs trivial hfair
        (htold hfair hs) fun id l result he hl => ?_
      -- The engine answers when the start is due, which is not before the pace has it.
      obtain ⟨job, hj, hdue⟩ := h.due call hmem
      obtain ⟨rfl, -⟩ := Action.answer.inj he
      obtain rfl : Job.launch l = job := Option.some.inj (hl.symm.trans hj)
      exact (hdue.1 rfl) ▸ hd
  | work hm hd he => cases (Prod.mk.inj he).2
  | serve => exact h.meanwhile rfl rfl (fun _ => rfl) fun _ hm => hm
  | @deliver place job result c effects ha hs =>
      have hfair : (Action.answer job (.volume result)).Fair start.pace.toProspect
          x.controller := by
        intro job' hj
        obtain ⟨id, old, hi, hold, -, htakes⟩ :=
          htied.awaited.answering _ (List.mem_of_getElem? ha)
        obtain rfl := (Client.job.inj hi).2
        obtain rfl := Option.some.inj (hj.symm.trans hold)
        exact htakes
      have hon : OnTime start { x with
          store := { x.store with answers := x.store.answers.eraseIdx place } } :=
        h.meanwhile rfl rfl (fun _ => rfl) fun _ hm => hm
      have hf : Follows start { x with
          store := { x.store with answers := x.store.answers.eraseIdx place } } :=
        ⟨hf.foretold, hf.linked, hf.scripts, hf.course, hf.config, hf.called, hf.ready⟩
      exact hon.step hf ht hprobes htied.told.fits hs trivial hfair (htold hfair hs) (by simp)
  | hand ha =>
      obtain ⟨id, job, hclient, -⟩ := htied.awaited.answering _ (List.mem_of_getElem? ha)
      cases hclient
  | pass => exact hi.elim

end Setting

end Bringup.Simulation
