import Bringup.Proofs.Lifecycle.Launches

/-!
# What a start leads to

A start job moves its service to starting at most once, creates at most one launch, and a launch asks
the engine for its container at most once. Each of these is a budget of one that a job has until it
spends it (`Run.countP_le_one`), so the job and its launch need not be watched together.

A launch was created by a start job that had moved the service to starting before, and for which all
volumes of the service had been bound since (`Run.caused`).
-/

namespace Bringup.Lifecycle

variable {t : Topology}

namespace Moment

/-- A step of the start job moves the service to starting. -/
def EntersBy (m : Moment t) (id : Nat) (s : Fin t.size) : Prop :=
  m.action.job? = some id ∧ m.Enters s

instance (m : Moment t) (id : Nat) (s : Fin t.size) : Decidable (m.EntersBy id s) :=
  inferInstanceAs (Decidable (_ ∧ _))

/-- A step of the job creates a job. -/
def Launches (m : Moment t) (id : Nat) : Prop :=
  m.action.job? = some id ∧ m.before.jobs.size < m.after.jobs.size

instance (m : Moment t) (id : Nat) : Decidable (m.Launches id) :=
  inferInstanceAs (Decidable (_ ∧ _))

/-- A step of the job creates the launch. -/
def LaunchesAs (m : Moment t) (id launch : Nat) : Prop :=
  m.Launches id ∧ launch = m.before.jobs.size

/-- The volume for which the start job waits is bound. -/
def Binds (m : Moment t) (id : Nat) (volume : Volume) : Prop :=
  ∃ (job : StartJob t.size) (rest : List Volume) (answer : Volume.Answer),
    m.before.jobs[id]? = some (.start job) ∧ job.phase = .attaching (volume :: rest) ∧
      m.action = .answer id (.volume (.ok answer))

end Moment

/-! ## Budgets -/

/-- How often a start job may still move its service to starting. -/
def StartPhase.entries {n : Nat} : StartPhase n → Nat
  | .arriving | .awaiting _ | .entering => 1
  | _ => 0

/-- How often a start job may still create a launch. -/
def StartPhase.launches {n : Nat} : StartPhase n → Nat
  | .arriving | .awaiting _ | .entering | .attaching _ => 1
  | _ => 0

/-- How often a launch may still ask for its container. -/
def LaunchPhase.calls : LaunchPhase → Nat
  | .calling => 1
  | _ => 0

/-- How often a job may still move its service to starting. -/
def Job.entries {n : Nat} : Job n → Nat
  | .start job => job.phase.entries
  | _ => 0

/-- How often a job may still create a launch. -/
def Job.launches {n : Nat} : Job n → Nat
  | .start job => job.phase.launches
  | _ => 0

/-- How often a job may still ask for a container. -/
def Job.calls {n : Nat} : Job n → Nat
  | .launch l => l.phase.calls
  | _ => 0

namespace StartTurn

variable {c : Controller t} {now : Nat} {id : JobId} {action : Action} {job job' : StartJob t.size}
  {slot : Slot} {aside : Aside} {effects : List Effect}

/-- A start job that moves its service to starting cannot do so again. -/
theorem entries_le (turn : StartTurn c now id job action job' slot aside effects) :
    job'.phase.entries
      + (if (c.slot job.service).state ≠ .starting ∧ slot.state = .starting then 1 else 0)
      ≤ job.phase.entries := by
  -- Where the state stays, it is enough that the budget does not grow.
  have hsame (hs : slot.state = (c.slot job.service).state)
      (hp : job'.phase.entries ≤ job.phase.entries) : job'.phase.entries
        + (if (c.slot job.service).state ≠ .starting ∧ slot.state = .starting then 1 else 0)
        ≤ job.phase.entries := by
    rwa [hs, if_neg (fun h => h.1 h.2)]
  cases turn with
  | enter hp hc hs | enterBare hp hc hs =>
      rw [hp]
      simp only [StartJob.goTo, StartPhase.entries]
      split <;> decide
  | @conclude verdict hp =>
      have hn : ¬ ((c.slot job.service).state ≠ .starting ∧ (job.unclaim
          ((c.slot job.service).leaveStarting now verdict.target
            (verdict.error (t.id job.service)))).state = .starting) := by
        rw [StartJob.state_unclaim, Slot.state_leaveStarting]
        rintro ⟨hne, he⟩
        rw [if_neg hne] at he
        exact hne he
      rw [if_neg hn]
      exact Nat.zero_le _
  | arrive hp | accept hp =>
      refine hsame rfl ?_
      rw [hp, StartJob.await, StartJob.goTo]
      split <;> exact Nat.le_refl _
  | retry hp =>
      refine hsame rfl ?_
      simp only [StartJob.goTo, Controller.retryPhase]
      split <;> exact Nat.zero_le _
  | pass hp => exact hsame rfl (by rw [hp]; exact Nat.le_refl _)
  | _ => exact hsame (by simp) (Nat.zero_le _)

/-- A start job that creates a launch cannot do so again. -/
theorem launches_le (turn : StartTurn c now id job action job' slot aside effects) :
    job'.phase.launches + (if aside = .launches then 1 else 0) ≤ job.phase.launches := by
  have hsame (ha : aside ≠ .launches) (hp : job'.phase.launches ≤ job.phase.launches) :
      job'.phase.launches + (if aside = .launches then 1 else 0) ≤ job.phase.launches := by
    rwa [if_neg ha]
  cases turn with
  | enterBare hp | bindLast hp =>
      rw [hp]
      exact Nat.le_refl _
  | conclude hp =>
      rename_i verdict
      refine hsame ?_ (Nat.zero_le _)
      cases verdict with
      | cancelled launch => cases launch <;> simp [Verdict.aside]
      | _ => simp [Verdict.aside]
  | arrive hp | accept hp =>
      refine hsame (by simp) ?_
      rw [hp, StartJob.await, StartJob.goTo]
      split <;> exact Nat.le_refl _
  | retry hp =>
      refine hsame (by simp) ?_
      simp only [StartJob.goTo, Controller.retryPhase]
      split <;> exact Nat.zero_le _
  | pass hp | enter hp | bind hp => exact hsame (by simp) (by rw [hp]; exact Nat.le_refl _)
  | _ => exact hsame (by simp) (Nat.zero_le _)

/-- **How a start job comes to bind what is left**: it has just moved its service to starting, and all
volumes are left, or one more is bound. With none left it creates its launch. -/
theorem binding_cases (turn : StartTurn c now id job action job' slot aside effects)
    {left : List Volume} (h : job'.phase = .attaching left ∨ (aside = .launches ∧ left = [])) :
    (action = .run id ∧ (c.slot job.service).state.isStartable ∧ slot.state = .starting ∧
      left = t.volumesOf job.service) ∨
    ∃ volume answer, job.phase = .attaching (volume :: left) ∧
      action = .answer id (.volume (.ok answer)) := by
  cases turn with
  | enter hp hc hs hv =>
      obtain rfl := StartPhase.attaching.inj (h.resolve_right fun h => by cases h.1)
      exact .inl ⟨rfl, hs, rfl, hv.symm⟩
  | enterBare hp hc hs hv =>
      obtain ⟨-, rfl⟩ := h.resolve_left fun h => by cases h
      exact .inl ⟨rfl, hs, rfl, hv.symm⟩
  | bind hp =>
      obtain rfl := StartPhase.attaching.inj (h.resolve_right fun h => by cases h.1)
      exact .inr ⟨_, _, hp, rfl⟩
  | bindLast hp =>
      obtain ⟨-, rfl⟩ := h.resolve_left fun h => by cases h
      exact .inr ⟨_, _, hp, rfl⟩
  | conclude hp =>
      rename_i verdict
      rcases h with h | ⟨h, -⟩
      · cases h
      · cases verdict with
        | cancelled launch => cases launch <;> cases h
        | _ => cases h
  | retry hp =>
      simp only [StartJob.goTo, Controller.retryPhase, reduceCtorEq, false_and, or_false] at h
      split at h <;> simp at h
  | arrive | accept =>
      simp only [StartJob.await, StartJob.goTo, reduceCtorEq, false_and, or_false] at h
      split at h <;> simp at h
  | _ => simp [StartJob.goTo, StartJob.follow, StartJob.finish] at h

end StartTurn

namespace Controller

/-- What a job has left of a budget; one that is not there yet has all of it. -/
def left (c : Controller t) (budget : Job t.size → Nat) (id : Nat) : Nat :=
  match c.jobs[id]? with
  | some job => budget job
  | none => 1

variable {c c' d : Controller t} {now : Nat} {action : Action} {effects : List Effect}
  {operation : Operation} {budget : Job t.size → Nat} {p : Moment t → Bool} {id : Nat}

theorem left_of_job {job : Job t.size} (h : c.jobs[id]? = some job) :
    c.left budget id = budget job := by
  rw [left, h]

@[simp] theorem left_fresh (config : Config) : (fresh t config).left budget id = 1 := by
  simp [left, fresh]

/-- What is left of a budget does not grow if that of the job does not. -/
theorem left_le (hone : ∀ job, budget job ≤ 1)
    (h : ∀ job, c.jobs[id]? = some job → ∃ job', d.jobs[id]? = some job' ∧ budget job' ≤ budget job) :
    d.left budget id ≤ c.left budget id := by
  cases hj : c.jobs[id]? with
  | some job =>
      obtain ⟨job', hj', hle⟩ := h job hj
      rwa [left_of_job hj, left_of_job hj']
  | none =>
      have hc : c.left budget id = 1 := by rw [left, hj]
      rw [hc, left]
      split
      · exact hone _
      · exact Nat.le_refl _

/-- A turn leaves the budget of every job but its own, if that of a launch does not grow when the
launch is taken or given up. -/
theorem left_after_le (hone : ∀ job, budget job ≤ 1)
    (hend : ∀ l : Launch t.size, budget (.launch { l with phase := .finished }) ≤ budget (.launch l))
    (hgiven : ∀ l : Launch t.size,
      budget (.launch { l with orphaned := true }) ≤ budget (.launch l))
    {i : JobId} {old new : Job t.size} {slot : Slot} {aside : Aside}
    (hj : c.jobs[i]? = some old) (hi : id ≠ i) :
    (c.after i new old.service slot aside).left budget id ≤ c.left budget id := by
  refine left_le hone fun job hold => ?_
  have hlt : id < (c.after i new old.service slot aside).jobs.size :=
    Nat.lt_of_lt_of_le (lt_size_of_job hold) size_jobs_le_after
  have hnew := Array.getElem?_eq_getElem hlt
  refine ⟨_, hnew, ?_⟩
  rcases jobs_after_cases (lt_size_of_job hj) hnew with
    ⟨he, -⟩ | ⟨-, he⟩ | ⟨-, he, -⟩ | ⟨-, l, he, ⟨-, hl⟩ | ⟨-, hl⟩⟩
  · exact absurd he hi
  · rw [hold, Option.some.injEq] at he
    exact Nat.le_of_eq (congrArg budget he.symm)
  · exact absurd (lt_size_of_job hold) (he ▸ Nat.lt_irrefl _)
  all_goals
    rw [hold, Option.some.injEq] at he
    rw [hl, he]
  · exact hend l
  · exact hgiven l

/-- Every step takes what it counts from a budget, if every turn of the job does and no other step
counts. -/
theorem left_of_step (p : Moment t → Prop) [DecidablePred p] (hone : ∀ job, budget job ≤ 1)
    (hend : ∀ l : Launch t.size, budget (.launch { l with phase := .finished }) ≤ budget (.launch l))
    (hgiven : ∀ l : Launch t.size,
      budget (.launch { l with orphaned := true }) ≤ budget (.launch l))
    (hown : ∀ {m : Moment t}, m.before.step m.now m.action = some (m.after, m.effects) →
      p m → m.action.job? = some id)
    (hturn : ∀ {c : Controller t} {now action effects} {old new : Job t.size} {slot aside},
      c.jobs[id]? = some old → Turn c now id old action new slot aside effects →
      budget new + (if p ⟨c, now, action, effects, c.after id new old.service slot aside⟩
        then 1 else 0) ≤ budget old)
    (hs : c.step now action = some (c', effects)) :
    c'.left budget id + (if p ⟨c, now, action, effects, c'⟩ then 1 else 0) ≤ c.left budget id := by
  have hother (hn : action.job? ≠ some id) :
      (if p ⟨c, now, action, effects, c'⟩ then 1 else 0) = 0 :=
    if_neg fun hp => hn (hown (m := ⟨c, now, action, effects, c'⟩) hs hp)
  cases ha : action.job? with
  | none =>
      rw [hother (by rw [ha]; simp), Nat.add_zero]
      refine (changesTo_of_step ha hs).1.induct
        (P := fun d => d.left budget id ≤ c.left budget id) (fun hc change => ?_) (Nat.le_refl _)
      exact Nat.le_trans (left_le hone fun job hj => ⟨job, change.sets.jobs_kept hj, Nat.le_refl _⟩) hc
  | some i =>
      obtain ⟨old, new, slot, aside, hj, turn, rfl⟩ := turnsTo_of_step ha hs
      by_cases hi : id = i
      · subst hi
        rw [left_of_job hj, left_of_job (jobs_after_self (lt_size_of_job hj))]
        exact hturn hj turn
      · rw [hother (by rw [ha, ne_eq, Option.some.injEq]; exact Ne.symm hi), Nat.add_zero]
        exact left_after_le hone hend hgiven hj hi

/-- **A budget of one is spent at most once.** A run counts at most one step, if every turn of the job
that counts takes it from what is left, and no other step counts. -/
theorem Run.countP_le_one {config : Config} {past : List (Moment t)}
    (run : Run (fresh t config) past c) (p : Moment t → Prop) [DecidablePred p]
    (budget : Job t.size → Nat) (id : Nat) (hone : ∀ job, budget job ≤ 1)
    (hend : ∀ l : Launch t.size, budget (.launch { l with phase := .finished }) ≤ budget (.launch l))
    (hgiven : ∀ l : Launch t.size,
      budget (.launch { l with orphaned := true }) ≤ budget (.launch l))
    (hown : ∀ {m : Moment t}, m.before.step m.now m.action = some (m.after, m.effects) →
      p m → m.action.job? = some id)
    (hturn : ∀ {c : Controller t} {now action effects} {old new : Job t.size} {slot aside},
      c.jobs[id]? = some old → Turn c now id old action new slot aside effects →
      budget new + (if p ⟨c, now, action, effects, c.after id new old.service slot aside⟩
        then 1 else 0) ≤ budget old) :
    (past.countP fun m => p m) ≤ 1 := by
  have hspent : (past.countP fun m => p m) + c.left budget id ≤ 1 := by
    induction run with
    | refl => simp
    | tail run hs ih =>
        have := left_of_step p hone hend hgiven hown hturn hs
        rw [List.countP_cons]
        simp only [decide_eq_true_eq]
        omega
  exact Nat.le_trans (Nat.le_add_right _ _) hspent

section

variable {config : Config} {past : List (Moment t)}

/-- A start job moves its service to starting at most once. -/
theorem Run.enters_le (run : Run (fresh t config) past c) (id : Nat) (s : Fin t.size) :
    (past.countP fun m => m.EntersBy id s) ≤ 1 := by
  have hone (job : Job t.size) : job.entries ≤ 1 := by
    unfold Job.entries StartPhase.entries
    repeat' split
    all_goals decide
  refine run.countP_le_one (fun m => m.EntersBy id s) Job.entries id hone
    (fun _ => Nat.le_refl _) (fun _ => Nat.le_refl _) (fun _ he => he.1) ?_
  intro c now action effects old new slot aside hj turn
  -- The turn of a job counts if it moves the service of the job to starting.
  have hcount : (if Moment.EntersBy ⟨c, now, action, effects, c.after id new old.service slot aside⟩
      id s then 1 else 0)
      ≤ if (c.slot old.service).state ≠ .starting ∧ slot.state = .starting then 1 else 0 := by
    split
    next he =>
      obtain ⟨-, hb, ha⟩ := he
      dsimp only at hb ha
      by_cases hs : s = old.service
      · subst hs
        rw [slot_after_self] at ha
        exact Nat.le_of_eq (if_pos ⟨hb, ha⟩).symm
      · rw [slot_after_of_ne hs] at ha
        exact absurd ha hb
    next => exact Nat.zero_le _
  refine Nat.le_trans (Nat.add_le_add_left hcount _) ?_
  cases turn with
  | start turn => exact turn.entries_le
  | stop turn =>
      rw [if_neg]
      · exact Nat.le_refl _
      · rintro ⟨hn, he⟩
        rcases turn.state_cases with hst | ⟨-, -, hst⟩ | ⟨-, -, hst⟩ | ⟨-, -, hst⟩
        · exact hn (hst ▸ he)
        all_goals rw [hst] at he; cases he
  | launch turn =>
      rw [if_neg fun h => h.1 h.2]
      exact Nat.le_refl _

/-- A turn creates a job only if it creates a launch. -/
theorem size_jobs_after {i : Nat} {new : Job t.size} {s : Fin t.size} {slot : Slot} {aside : Aside}
    (ha : aside ≠ .launches) : (c.after i new s slot aside).jobs.size = c.jobs.size := by
  cases aside with
  | nothing => simp [after, Controller.aside]
  | launches => exact absurd rfl ha
  | takes launch =>
      simp only [after, Controller.aside, endLaunch, size_jobs_setJob, jobs_setSlot]
      split <;> simp
  | leaves launch =>
      simp only [after, Controller.aside, orphan, size_jobs_setJob, jobs_setSlot]
      split <;> simp

/-- A start job creates at most one launch. -/
theorem Run.launches_le (run : Run (fresh t config) past c) (id : Nat) :
    (past.countP fun m => m.Launches id) ≤ 1 := by
  have hone (job : Job t.size) : job.launches ≤ 1 := by
    unfold Job.launches StartPhase.launches
    repeat' split
    all_goals decide
  refine run.countP_le_one (fun m => m.Launches id) Job.launches id hone
    (fun _ => Nat.le_refl _) (fun _ => Nat.le_refl _) (fun _ hl => hl.1) ?_
  intro c now action effects old new slot aside hj turn
  have hcount : (if Moment.Launches ⟨c, now, action, effects, c.after id new old.service slot aside⟩
      id then 1 else 0) ≤ if aside = .launches then 1 else 0 := by
    split
    next hl =>
      by_cases ha : aside = .launches
      · exact Nat.le_of_eq (if_pos ha).symm
      · exact absurd hl.2 (by rw [size_jobs_after ha]; exact Nat.lt_irrefl _)
    next => exact Nat.zero_le _
  refine Nat.le_trans (Nat.add_le_add_left hcount _) ?_
  cases turn with
  | start turn => exact turn.launches_le
  | stop | launch => exact Nat.le_refl _

/-- A launch asks for its container at most once. -/
theorem Run.calls_le (run : Run (fresh t config) past c) (id : Nat) (s : Fin t.size) :
    (past.countP fun m => m.AsksStartBy id s) ≤ 1 := by
  have hone (job : Job t.size) : job.calls ≤ 1 := by
    unfold Job.calls LaunchPhase.calls
    repeat' split
    all_goals decide
  refine run.countP_le_one (fun m => m.AsksStartBy id s) Job.calls id hone
    (fun _ => Nat.zero_le _) (fun _ => Nat.le_refl _) ?_ ?_
  · rintro m hs ⟨l, -, -, hasks⟩
    obtain ⟨-, -, ha, -⟩ := asks_start_of_step hs hasks
    rw [ha]
    rfl
  · intro c now action effects old new slot aside hj turn
    split
    next hasks =>
      obtain ⟨l, -, -, hasks⟩ := hasks
      obtain ⟨l, rfl, -, hp, -, -, -, rfl⟩ := turn.asks_start hasks
      simp [Job.calls, hp, LaunchPhase.calls]
    next =>
      cases turn with
      | launch turn => cases turn <;> exact Nat.zero_le _
      | start | stop => exact Nat.le_refl _

end

/-! ## Causes -/

/-- The start job moved the service to starting, had all its volumes bound, and created the launch. -/
def LedTo (past : List (Moment t)) (id launch : Nat) (s : Fin t.size) : Prop :=
  (∃ m ∈ past, m.EntersBy id s) ∧ (∃ m ∈ past, m.LaunchesAs id launch) ∧
    ∀ volume ∈ t.volumesOf s, ∃ m ∈ past, m.Binds id volume

/-- What led to the launches, and to the start jobs that are on their way to one. -/
structure Caused (past : List (Moment t)) (c : Controller t) : Prop where
  /-- A start job that waits for volumes moved its service to starting, and had those bound for which
  it does not wait any more. -/
  attaching : ∀ {id : Nat} {job : StartJob t.size} {left : List Volume},
    c.jobs[id]? = some (.start job) → job.phase = .attaching left →
    (∃ m ∈ past, m.EntersBy id job.service) ∧
      ∀ volume ∈ t.volumesOf job.service, volume ∈ left ∨ ∃ m ∈ past, m.Binds id volume
  launch : ∀ {launch : Nat} {l : Launch t.size}, c.jobs[launch]? = some (.launch l) →
    ∃ id, LedTo past id launch l.service

theorem LedTo.cons {past : List (Moment t)} {launch : Nat} {s : Fin t.size} {m : Moment t}
    (h : LedTo past id launch s) : LedTo (m :: past) id launch s := by
  obtain ⟨⟨m₁, hm₁, h₁⟩, ⟨m₂, hm₂, h₂⟩, hb⟩ := h
  refine ⟨⟨m₁, List.mem_cons_of_mem _ hm₁, h₁⟩, ⟨m₂, List.mem_cons_of_mem _ hm₂, h₂⟩, ?_⟩
  intro volume hv
  obtain ⟨m₃, hm₃, h₃⟩ := hb volume hv
  exact ⟨m₃, List.mem_cons_of_mem _ hm₃, h₃⟩

theorem caused_fresh (config : Config) : Caused [] (fresh t config) where
  attaching h := by simp [fresh] at h
  launch h := by simp [fresh] at h

/-- A moment can be added that leaves the jobs alone. -/
theorem Caused.cons {past : List (Moment t)} (h : Caused past c) (m : Moment t) :
    Caused (m :: past) c where
  attaching hj hp := by
    obtain ⟨⟨m₁, hm₁, h₁⟩, hb⟩ := h.attaching hj hp
    refine ⟨⟨m₁, List.mem_cons_of_mem _ hm₁, h₁⟩, fun volume hv => ?_⟩
    exact (hb volume hv).imp_right fun ⟨m₂, hm₂, h₂⟩ => ⟨m₂, List.mem_cons_of_mem _ hm₂, h₂⟩
  launch hl := by
    obtain ⟨id, hled⟩ := h.launch hl
    exact ⟨id, hled.cons⟩

/-- What led a start job to where it binds what is left. -/
theorem Caused.binding {past : List (Moment t)} (h : Caused past c) {job job' : StartJob t.size}
    {slot : Slot} {aside : Aside} (hj : c.jobs[id]? = some (.start job))
    (turn : StartTurn c now id job action job' slot aside effects) {left : List Volume}
    (hleft : job'.phase = .attaching left ∨ (aside = .launches ∧ left = [])) :
    let past' := ⟨c, now, action, effects, c.after id (.start job') job.service slot aside⟩ :: past
    (∃ m ∈ past', m.EntersBy id job.service) ∧
      ∀ volume ∈ t.volumesOf job.service, volume ∈ left ∨ ∃ m ∈ past', m.Binds id volume := by
  intro past'
  rcases turn.binding_cases hleft with ⟨rfl, hst, hslot, rfl⟩ | ⟨volume, answer, hp, rfl⟩
  · refine ⟨⟨_, List.mem_cons_self, rfl, ?_, ?_⟩, fun volume hv => .inl hv⟩
    · intro he
      rw [he] at hst
      cases hst
    · simpa using hslot
  · obtain ⟨⟨m, hm, he⟩, hb⟩ := h.attaching hj hp
    refine ⟨⟨m, List.mem_cons_of_mem _ hm, he⟩, fun volume' hv => ?_⟩
    rcases hb volume' hv with hmem | ⟨m', hm', hb'⟩
    · rcases List.mem_cons.1 hmem with rfl | hmem
      · exact .inr ⟨_, List.mem_cons_self, job, left, answer, hj, hp, rfl⟩
      · exact .inl hmem
    · exact .inr ⟨m', List.mem_cons_of_mem _ hm', hb'⟩

theorem Caused.turn {past : List (Moment t)} (h : Caused past c)
    (ht : TurnsTo c now id action c' effects) (ha : action.job? = some id) :
    Caused (⟨c, now, action, effects, c'⟩ :: past) c' := by
  obtain ⟨old, new, slot, aside, hj, turn, rfl⟩ := ht
  have hid := lt_size_of_job hj
  have hcons := h.cons ⟨c, now, action, effects, c.after id new old.service slot aside⟩
  constructor
  case attaching =>
    intro i job left hi hp
    rcases start_after_cases hid hi with ⟨rfl, rfl⟩ | ⟨-, hi⟩
    · cases turn with
      | start turn => exact turn.same.1 ▸ h.binding hj turn (.inl hp)
    · exact hcons.attaching hi hp
  case launch =>
    intro launch l hl
    rcases launch_after_cases hid hl with ⟨rfl, rfl⟩ | ⟨rfl, rfl, rfl⟩ | ⟨-, l', hl', hs, -⟩
    · cases turn with
      | launch turn =>
          obtain ⟨i, hled⟩ := hcons.launch hj
          exact ⟨i, hled⟩
    · cases turn with
      | start turn =>
          -- The job whose turn it is creates the launch, and has nothing left to bind.
          obtain ⟨hentered, hbound⟩ := h.binding hj turn (.inr ⟨rfl, rfl⟩)
          refine ⟨id, hentered, ⟨_, List.mem_cons_self, ⟨ha, ?_⟩, rfl⟩, fun volume hv => ?_⟩
          · exact lt_size_of_job hl
          · exact (hbound volume hv).resolve_left (by simp)
    · rw [hs]
      exact hcons.launch hl'

theorem Caused.step {past : List (Moment t)} (h : Caused past c)
    (hs : c.step now action = some (c', effects)) :
    Caused (⟨c, now, action, effects, c'⟩ :: past) c' := by
  cases ha : action.job? with
  | some id => exact h.turn (turnsTo_of_step ha hs) ha
  | none =>
      refine (changesTo_of_step ha hs).1.induct
        (P := Caused (⟨c, now, action, effects, c'⟩ :: past)) (fun hc change => ?_) (h.cons _)
      refine ⟨fun hj hp => ?_, fun hl => hc.launch (change.sets.launch_before hl)⟩
      rcases change.sets.start_cases hj with hj | ⟨-, hp', -⟩
      · exact hc.attaching hj hp
      · rw [hp'] at hp
        cases hp

/-- **What led to a launch.** At every instant of a run, for every launch there is a start job that moved
the service to starting, then had every volume of the service bound, and created the launch. -/
theorem Run.caused {config : Config} {past : List (Moment t)} (run : Run (fresh t config) past c) :
    Caused past c := by
  induction run with
  | refl => exact caused_fresh config
  | tail _ hs ih => exact ih.step hs

end Controller

end Bringup.Lifecycle
