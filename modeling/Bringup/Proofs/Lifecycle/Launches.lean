import Bringup.Proofs.Lifecycle.Published

/-!
# Launches and the start jobs that wait for them

A start job creates one launch, waits for it, and either takes what it returns or gives it up. So at
every instant a launch that was not given up and is not at its end has exactly one start job that
waits for it, and that job works for the same service (`Linked`).
-/

namespace Bringup.Lifecycle

variable {t : Topology}

/-- The launch that a start job waits for or is about to give up. -/
def StartPhase.launch? {n : Nat} : StartPhase n → Option JobId
  | .launching launch | .concluding (.cancelled (some launch)) => some launch
  | _ => none

/-- The launch has not come to its end, and its container is not being halted. -/
def LaunchPhase.Open : LaunchPhase → Prop
  | .calling | .running | .returned _ => True
  | _ => False

namespace StartTurn

variable {c : Controller t} {now : Nat} {id : JobId} {action : Action} {job job' : StartJob t.size}
  {slot : Slot} {aside : Aside} {effects : List Effect}

/-- A start job keeps waiting for the same launch unless it creates, takes or gives up one. -/
theorem launch_cases (turn : StartTurn c now id job action job' slot aside effects) :
    (aside = .nothing ∧ job'.phase.launch? = job.phase.launch?) ∨
    (aside = .launches ∧ job.phase.launch? = none ∧ job'.phase.launch? = some c.jobs.size) ∨
    (∃ launch l result, aside = .takes launch ∧ c.jobs[launch]? = some (.launch l) ∧
      l.phase = .returned result ∧ job.phase.launch? = some launch ∧ job'.phase.launch? = none) ∨
    (∃ launch, aside = .leaves launch ∧ job.phase.launch? = some launch ∧
      job'.phase.launch? = none ∧ job.phase = .concluding (.cancelled (some launch)) ∧
      ((c.slot job.service).state = .starting → slot.state = .stopping)) := by
  cases turn with
  | enterBare hp | bindLast hp => exact .inr (.inl ⟨rfl, by rw [hp]; rfl, rfl⟩)
  | collect hp hc hl hr | lose hp hc hl hr =>
      exact .inr (.inr (.inl ⟨_, _, _, rfl, hl, hr, by rw [hp]; rfl, rfl⟩))
  | conclude hp =>
      rename_i verdict
      cases verdict with
      | cancelled launch =>
          cases launch with
          | none => exact .inl ⟨rfl, by rw [hp]; rfl⟩
          | some launch =>
              refine .inr (.inr (.inr ⟨launch, rfl, by rw [hp]; rfl, rfl, hp, ?_⟩))
              intro hs
              rw [StartJob.state_unclaim, Slot.state_leaveStarting, if_pos hs]
              rfl
      | _ => exact .inl ⟨rfl, by rw [hp]; rfl⟩
  | arrive hp | accept hp =>
      refine .inl ⟨rfl, ?_⟩
      rw [hp]
      simp only [StartJob.await, StartJob.goTo]
      split <;> rfl
  | retry hp =>
      refine .inl ⟨rfl, ?_⟩
      rw [hp]
      simp only [StartJob.goTo, Controller.retryPhase]
      split <;> rfl
  | follow hp =>
      refine .inl ⟨rfl, ?_⟩
      rcases hp with hp | ⟨hp, -⟩ <;> rw [hp] <;> rfl
  | heed hp =>
      refine .inl ⟨rfl, ?_⟩
      rcases hp with ⟨_, _, _, hp⟩ | ⟨_, _, hp⟩ <;> rw [hp] <;> rfl
  | cease hp | pass hp | giveUp hp | decline hp | refuse hp | forgo hp | enter hp | abandon hp
  | record hp | discard hp | ask hp | heedProbe hp | wake hp | overrun hp | bind hp | miss hp
  | ready hp | discarded hp | kill hp => exact .inl ⟨rfl, by rw [hp]; rfl⟩

end StartTurn

/-- A launch that was not given up goes on until it has returned. -/
theorem LaunchTurn.opens {c : Controller t} {now : Nat} {id : JobId} {action : Action}
    {l : Launch t.size} {phase : LaunchPhase} {effects : List Effect}
    (turn : LaunchTurn c now id l action phase effects) (ho : l.orphaned = false)
    (hp : l.phase.Open) : phase.Open := by
  cases turn with
  | call | «return» => trivial
  | halt _ h | drop _ h => rw [ho] at h; cases h
  | overrun h | halted h | kill h => rw [h] at hp; cases hp

namespace Controller

/-- The launches and the start jobs that wait for them belong together. -/
structure Linked (c : Controller t) : Prop where
  /-- What a start job waits for is a launch for its service. -/
  launch : ∀ {id launch : Nat} {job : StartJob t.size}, c.jobs[id]? = some (.start job) →
    job.phase.launch? = some launch → ∃ l, c.jobs[launch]? = some (.launch l) ∧
      l.service = job.service ∧ l.orphaned = false ∧ l.phase.Open
  /-- No two start jobs wait for one launch. -/
  sole : ∀ {id id' launch : Nat} {job job' : StartJob t.size}, c.jobs[id]? = some (.start job) →
    c.jobs[id']? = some (.start job') → job.phase.launch? = some launch →
    job'.phase.launch? = some launch → id = id'
  /-- A launch that was not given up and is not at its end has a start job that waits for it. -/
  waited : ∀ {launch : Nat} {l : Launch t.size}, c.jobs[launch]? = some (.launch l) →
    l.orphaned = false → l.phase ≠ .finished → ∃ (id : Nat) (job : StartJob t.size),
      c.jobs[id]? = some (.start job) ∧ job.phase.launch? = some launch

theorem linked_fresh (config : Config) : Linked (fresh t config) where
  launch h := by simp [fresh] at h
  sole h := by simp [fresh] at h
  waited h := by simp [fresh] at h

variable {c c' : Controller t} {now : Nat} {action : Action} {effects : List Effect}

/-- A launch that a start job waits for goes on, unless its start job takes it or gives it up. -/
theorem open_after {id : JobId} {old new : Job t.size} {slot : Slot} {aside : Aside} {launch : Nat}
    {l : Launch t.size} (hj : c.jobs[id]? = some old)
    (turn : Turn c now id old action new slot aside effects)
    (hl : c.jobs[launch]? = some (.launch l)) (ho : l.orphaned = false) (hp : l.phase.Open)
    (ht : aside ≠ .takes launch) (hn : aside ≠ .leaves launch) :
    ∃ l', (c.after id new old.service slot aside).jobs[launch]? = some (.launch l') ∧
      l'.service = l.service ∧ l'.orphaned = false ∧ l'.phase.Open := by
  by_cases hi : launch = id
  · subst hi
    rw [hl, Option.some.injEq] at hj
    subst hj
    cases turn with
    | launch turn => exact ⟨_, jobs_after_self (lt_size_of_job hl), rfl, ho, turn.opens ho hp⟩
  · exact ⟨l, by rw [jobs_after_of_ne hi (lt_size_of_job hl) ht hn, hl], rfl, ho, hp⟩

/-- A start job is no launch. -/
theorem launch_ne_start {i launch : Nat} {job : StartJob t.size} {l : Launch t.size}
    (hi : c.jobs[i]? = some (.start job)) (hl : c.jobs[launch]? = some (.launch l)) :
    launch ≠ i := by
  rintro rfl
  rw [hi] at hl
  cases hl

section

variable {id : JobId} {old new : Job t.size} {slot : Slot} {aside : Aside}

/-- A start job whose turn it is not waits for a launch that nobody else takes or gives up. -/
theorem Linked.left_alone (h : Linked c) (hj : c.jobs[id]? = some old)
    (turn : Turn c now id old action new slot aside effects) {i launch : Nat}
    {job : StartJob t.size} (hi : i ≠ id) (hc : c.jobs[i]? = some (.start job))
    (hw : job.phase.launch? = some launch) : aside ≠ .takes launch ∧ aside ≠ .leaves launch := by
  cases turn with
  | start turn =>
      rcases turn.launch_cases with
        ⟨rfl, -⟩ | ⟨rfl, -⟩ | ⟨launch', _, _, rfl, -, -, hw', -⟩ | ⟨launch', rfl, hw', -⟩
      · simp
      · simp
      all_goals
        simp only [ne_eq, Aside.takes.injEq, Aside.leaves.injEq, reduceCtorEq, not_false_eq_true,
          true_and, and_true]
        rintro rfl
        exact hi (h.sole hc hj hw hw')
  | stop turn => simp
  | launch turn => simp

/-- After its turn a start job waits for a launch for its service. -/
theorem Linked.launch_turn (h : Linked c) {job job' : StartJob t.size}
    (hj : c.jobs[id]? = some (.start job))
    (turn : StartTurn c now id job action job' slot aside effects) {launch : Nat}
    (hw : job'.phase.launch? = some launch) :
    ∃ l, (c.after id (.start job') job.service slot aside).jobs[launch]? = some (.launch l) ∧
      l.service = job.service ∧ l.orphaned = false ∧ l.phase.Open := by
  rcases turn.launch_cases with
    ⟨rfl, he⟩ | ⟨rfl, -, he⟩ | ⟨_, _, _, -, -, -, -, he⟩ | ⟨_, -, -, he, -⟩
  · obtain ⟨l, hl, hs, ho, hp⟩ := h.launch hj (he ▸ hw)
    refine ⟨l, ?_, hs, ho, hp⟩
    rw [jobs_after_of_ne (launch_ne_start hj hl) (lt_size_of_job hl) (by simp) (by simp), hl]
  · rw [he, Option.some.injEq] at hw
    subst hw
    exact ⟨_, jobs_after_launches (lt_size_of_job hj), rfl, rfl, trivial⟩
  all_goals
    rw [he] at hw
    cases hw

/-- No start job waits for the launch that a start job waits for after its turn. -/
theorem Linked.sole_turn (h : Linked c) {job job' other : StartJob t.size}
    (hj : c.jobs[id]? = some (.start job))
    (turn : StartTurn c now id job action job' slot aside effects) {i launch : Nat} (hi : i ≠ id)
    (hc : c.jobs[i]? = some (.start other)) (hw : job'.phase.launch? = some launch) :
    other.phase.launch? ≠ some launch := by
  intro hw'
  rcases turn.launch_cases with
    ⟨-, he⟩ | ⟨-, -, he⟩ | ⟨_, _, _, -, -, -, -, he⟩ | ⟨_, -, -, he, -⟩
  · exact hi (h.sole hc hj hw' (he ▸ hw))
  · -- The launch is new, and the other job waits for one that was there before.
    obtain ⟨l, hl, -⟩ := h.launch hc hw'
    rw [he, Option.some.injEq] at hw
    exact absurd (lt_size_of_job hl) (hw ▸ Nat.lt_irrefl _)
  all_goals
    rw [he] at hw
    cases hw

/-- A launch that a turn neither takes nor gives up is waited for after it as before. -/
theorem Linked.waited_turn (h : Linked c) (hj : c.jobs[id]? = some old)
    (turn : Turn c now id old action new slot aside effects) {launch : Nat} {l : Launch t.size}
    (hl : c.jobs[launch]? = some (.launch l)) (ho : l.orphaned = false) (hp : l.phase ≠ .finished)
    (ht : aside ≠ .takes launch) (hn : aside ≠ .leaves launch) :
    ∃ (i : Nat) (job : StartJob t.size),
      (c.after id new old.service slot aside).jobs[i]? = some (.start job) ∧
        job.phase.launch? = some launch := by
  obtain ⟨i, job, hi, hw⟩ := h.waited hl ho hp
  by_cases hid : i = id
  · subst hid
    rw [hj, Option.some.injEq] at hi
    subst hi
    cases turn with
    | start turn =>
        rcases turn.launch_cases with
          ⟨-, he⟩ | ⟨-, he, -⟩ | ⟨launch', _, _, rfl, -, -, hw', -⟩ | ⟨launch', rfl, hw', -⟩
        · exact ⟨i, _, jobs_after_self (lt_size_of_job hj), he.trans hw⟩
        · rw [he] at hw
          cases hw
        · rw [hw, Option.some.injEq] at hw'
          exact absurd (hw' ▸ rfl) ht
        · rw [hw, Option.some.injEq] at hw'
          exact absurd (hw' ▸ rfl) hn
  · exact ⟨i, job, start_after_of_ne hid hi, hw⟩

end

theorem Linked.turn {id : JobId} (h : Linked c) (ht : TurnsTo c now id action c' effects) :
    Linked c' := by
  obtain ⟨old, new, slot, aside, hj, turn, rfl⟩ := ht
  have hid := lt_size_of_job hj
  constructor
  case launch =>
    intro i launch job hi hw
    rcases start_after_cases hid hi with ⟨rfl, rfl⟩ | ⟨hne, hi⟩
    · cases turn with
      | start turn =>
          rw [turn.same.1]
          exact h.launch_turn hj turn hw
    · obtain ⟨l, hl, hs, ho, hp⟩ := h.launch hi hw
      obtain ⟨ht, hn⟩ := h.left_alone hj turn hne hi hw
      obtain ⟨l', hl', hs', ho', hp'⟩ := open_after hj turn hl ho hp ht hn
      exact ⟨l', hl', hs'.trans hs, ho', hp'⟩
  case sole =>
    intro i i' launch job job' hi hi' hw hw'
    rcases start_after_cases hid hi with ⟨he, rfl⟩ | ⟨hne, hc⟩ <;>
      rcases start_after_cases hid hi' with ⟨he', hn'⟩ | ⟨hne', hc'⟩
    · exact he.trans he'.symm
    · cases turn with
      | start turn => exact absurd hw' (h.sole_turn hj turn hne' hc' hw)
    · subst hn'
      cases turn with
      | start turn => exact absurd hw (h.sole_turn hj turn hne hc hw')
    · exact h.sole hc hc' hw hw'
  case waited =>
    intro launch l hl ho hp
    rcases launch_after_cases hid hl with
      ⟨rfl, rfl⟩ | ⟨rfl, rfl, rfl⟩ | ⟨-, l', hlc, -, ⟨rfl, ht, hn⟩ | ⟨-, rfl⟩ | ⟨-, rfl⟩⟩
    · cases turn with
      | launch turn =>
          obtain ⟨i, job, hi, hw⟩ := h.waited hj ho turn.phase_ne_finished
          exact ⟨i, job, start_after_of_ne (launch_ne_start hi hj).symm hi, hw⟩
    · cases turn with
      | start turn =>
          -- The launch is new, and the job whose turn it is waits for it.
          rcases turn.launch_cases with ⟨he, -⟩ | ⟨-, -, he⟩ | ⟨_, _, _, he, -⟩ | ⟨_, he, -⟩
          · cases he
          · exact ⟨id, _, jobs_after_self hid, he⟩
          all_goals cases he
    · exact h.waited_turn hj turn hlc ho hp ht hn
    · exact absurd rfl hp
    · cases ho

theorem Linked.change {operation : Operation} {d : Controller t} (h : Linked c)
    (change : CallChange now c operation d) : Linked d := by
  have hstart {id : Nat} {job : StartJob t.size} {launch : Nat}
      (hj : d.jobs[id]? = some (.start job)) (hw : job.phase.launch? = some launch) :
      c.jobs[id]? = some (.start job) := by
    rcases change.sets.start_cases hj with hj | ⟨-, hp, -⟩
    · exact hj
    · rw [hp] at hw; cases hw
  refine ⟨fun hj hw => ?_, fun hj hj' hw hw' => h.sole (hstart hj hw) (hstart hj' hw') hw hw',
    fun hl ho hp => ?_⟩
  · obtain ⟨l, hl, hl'⟩ := h.launch (hstart hj hw) hw
    exact ⟨l, change.sets.jobs_kept hl, hl'⟩
  · obtain ⟨id, job, hj, hw⟩ := h.waited (change.sets.launch_before hl) ho hp
    exact ⟨id, job, change.sets.jobs_kept hj, hw⟩

theorem Linked.step (h : Linked c) (hs : c.step now action = some (c', effects)) : Linked c' := by
  apply step_induct hs _ Linked.change h
  intro id turn
  exact h.turn turn

theorem Run.linked {config : Config} {past : List (Moment t)} (run : Run (fresh t config) past c) :
    Linked c := run.invariant (linked_fresh config) Linked.step

/-! ## Asked and returned -/

/-- A launch that runs goes on until its container, or an error, is returned. -/
theorem running_of_step (hs : c.step now action = some (c', effects)) {id : Nat} {l : Launch t.size}
    (hl : c.jobs[id]? = some (.launch l)) (hp : l.phase = .running) :
    (∃ l', c'.jobs[id]? = some (.launch l') ∧ l'.service = l.service ∧ l'.phase = .running) ∨
    ∃ result, action = .answer id (.container (.start result)) := by
  cases ha : action.job? with
  | none =>
      refine .inl ⟨l, ?_, rfl, hp⟩
      exact (changesTo_of_step ha hs).1.induct (P := fun d => d.jobs[id]? = some (.launch l))
        (fun hd change => change.sets.jobs_kept hd) hl
  | some i =>
      obtain ⟨old, new, slot, aside, hj, turn, rfl⟩ := turnsTo_of_step ha hs
      by_cases hi : id = i
      · subst hi
        rw [hl, Option.some.injEq] at hj
        subst hj
        cases turn with
        | launch turn =>
            cases turn with
            | «return» => exact .inr ⟨_, rfl⟩
            | call h | halt h | drop h | overrun h | halted h | kill h =>
                rw [hp] at h
                cases h
      · refine .inl ?_
        by_cases ht : aside = .takes id
        · subst ht
          cases turn with
          | start turn =>
              rcases turn.launch_cases with
                ⟨he, -⟩ | ⟨he, -⟩ | ⟨_, l', _, he, hl', hr, -⟩ | ⟨_, he, -⟩ <;> cases he
              rw [hl, Option.some.injEq, Job.launch.injEq] at hl'
              rw [← hl', hp] at hr
              cases hr
        · by_cases hn : aside = .leaves id
          · subst hn
            exact ⟨_, jobs_after_leaves hi hl, rfl, hp⟩
          · exact ⟨l, by rw [jobs_after_of_ne hi (lt_size_of_job hl) ht hn, hl], rfl, hp⟩

/-- A launch that has asked for its container runs, or its container or an error was returned. -/
theorem Run.asked {start : Controller t} {past : List (Moment t)} (run : Run start past c)
    {s : Fin t.size} {id : Nat} {m : Moment t} (hm : m ∈ past) (ha : m.AsksStartBy id s) :
    (∃ l, c.jobs[id]? = some (.launch l) ∧ l.service = s ∧ l.phase = .running) ∨
    ∃ m' ∈ past, m'.Returns id := by
  induction run with
  | refl => cases hm
  | tail run hs ih =>
      rcases List.mem_cons.1 hm with rfl | hm
      · obtain ⟨l, hl, hls, he⟩ := ha
        obtain ⟨l', hl', -, -, -, -, rfl⟩ := asks_start_of_step hs he
        cases hl.symm.trans hl'
        exact .inl ⟨_, jobs_setJob_self _ (lt_size_of_job hl) _, hls, rfl⟩
      · rcases ih hm with ⟨l, hl, hls, hp⟩ | ⟨m', hm', hr⟩
        · rcases running_of_step hs hl hp with ⟨l', hl', hs', hp'⟩ | ⟨result, he⟩
          · exact .inl ⟨l', hl', hs'.trans hls, hp'⟩
          · exact .inr ⟨_, List.mem_cons_self, result, he⟩
        · exact .inr ⟨m', List.mem_cons_of_mem _ hm', hr⟩

theorem job?_of_returns {m : Moment t} {id : Nat} (h : m.Returns id) : m.action.job? = some id := by
  obtain ⟨result, ha⟩ := h
  rw [ha]
  rfl

/-- What was returned was returned to a job of the controller. -/
theorem Run.lt_size_of_returns {start : Controller t} {past : List (Moment t)} (run : Run start past c)
    {id : Nat} {m : Moment t} (hm : m ∈ past) (hr : m.Returns id) : id < c.jobs.size := by
  induction run with
  | refl => cases hm
  | tail run hs ih =>
      rcases List.mem_cons.1 hm with rfl | hm
      · obtain ⟨old, new, slot, aside, hj, -⟩ := turnsTo_of_step (job?_of_returns hr) hs
        exact Nat.lt_of_lt_of_le (lt_size_of_job hj) (size_jobs_le_of_step hs)
      · exact Nat.lt_of_lt_of_le (ih hm) (size_jobs_le_of_step hs)

/-- **Where a launch comes from that calls or runs**: it was there before and stood there, it has just asked
for its container, or it is new. -/
theorem launch_of_step (hs : c.step now action = some (c', effects)) {id : Nat} {l : Launch t.size}
    (hl : c'.jobs[id]? = some (.launch l)) (hp : l.phase = .calling ∨ l.phase = .running) :
    (action.job? ≠ some id ∧ ∃ l', c.jobs[id]? = some (.launch l') ∧ l'.service = l.service ∧
      l'.phase = l.phase) ∨
    (action = .run id ∧ ∃ l', c.jobs[id]? = some (.launch l') ∧ l'.service = l.service ∧
      l'.phase = .calling ∧
      .asks id (.container (.start (t.service l.service) (t.volumesOf l.service))) ∈ effects) ∨
    (action.job? ≠ some id ∧ id = c.jobs.size ∧ l.phase = .calling) := by
  cases ha : action.job? with
  | none =>
      refine .inl ⟨by simp, l, ?_, rfl, rfl⟩
      exact (changesTo_of_step ha hs).1.induct
        (P := fun d => d.jobs[id]? = some (.launch l) → c.jobs[id]? = some (.launch l))
        (fun hd change hl => hd (change.sets.launch_before hl)) (fun hl => hl) hl
  | some i =>
      obtain ⟨old, new, slot, aside, hj, turn, rfl⟩ := turnsTo_of_step ha hs
      rcases launch_after_cases (lt_size_of_job hj) hl with
        ⟨rfl, rfl⟩ | ⟨-, rfl, rfl⟩ | ⟨hi, l', hl', hls, hcases⟩
      · cases turn with
        | @launch l phase _ _ turn =>
            cases turn with
            | call hcall => exact .inr (.inl ⟨rfl, l, hj, rfl, hcall, List.mem_singleton_self _⟩)
            | _ => rcases hp with hp | hp <;> cases hp
      · refine .inr (.inr ⟨fun he => ?_, rfl, rfl⟩)
        obtain rfl := Option.some.inj he
        exact Nat.lt_irrefl _ (lt_size_of_job hj)
      · have hne : some i ≠ some id := fun he => hi (Option.some.inj he).symm
        rcases hcases with ⟨rfl, -⟩ | ⟨-, rfl⟩ | ⟨-, rfl⟩
        · exact .inl ⟨hne, l, hl', rfl, rfl⟩
        · rcases hp with hp | hp <;> cases hp
        · exact .inl ⟨hne, l', hl', rfl, rfl⟩

/-- A launch that calls or runs has had nothing returned to it, and if it runs it has asked for its
container. -/
theorem Run.not_returned {config : Config} {past : List (Moment t)} (run : Run (fresh t config) past c)
    {id : Nat} {l : Launch t.size} (hl : c.jobs[id]? = some (.launch l))
    (hp : l.phase = .calling ∨ l.phase = .running) :
    (∀ m ∈ past, ¬ m.Returns id) ∧ (l.phase = .running → ∃ m ∈ past, m.AsksStartBy id l.service) := by
  induction run generalizing l with
  | refl => simp [fresh] at hl
  | tail run hs ih =>
      rcases launch_of_step hs hl hp with
        ⟨hne, l', hl', hls, hp'⟩ | ⟨rfl, l', hl', hls, hp', hasks⟩ | ⟨hne, rfl, hp'⟩
      · obtain ⟨hnone, hasked⟩ := ih hl' (hp' ▸ hp)
        refine ⟨List.forall_mem_cons.2 ⟨fun hr => hne (job?_of_returns hr), hnone⟩, fun hrun => ?_⟩
        obtain ⟨m, hm, hasks⟩ := hasked (hp'.trans hrun)
        exact ⟨m, List.mem_cons_of_mem _ hm, hls ▸ hasks⟩
      · refine ⟨List.forall_mem_cons.2 ⟨?_, (ih hl' (.inl hp')).1⟩, fun _ => ?_⟩
        · rintro ⟨result, he⟩
          cases he
        · exact ⟨_, List.mem_cons_self, l', hl', hls, hls ▸ hasks⟩
      · refine ⟨List.forall_mem_cons.2 ⟨fun hr => hne (job?_of_returns hr), fun m hm hr => ?_⟩,
          fun hrun => by cases hp'.symm.trans hrun⟩
        exact Nat.lt_irrefl _ (run.lt_size_of_returns hm hr)

end Controller

end Bringup.Lifecycle
