import Bringup.Proofs.Lifecycle.RestartsEnd
import Bringup.Proofs.Lifecycle.WaitOrder

/-!
# Claims

A start job takes a claim on its service when it is created and gives it up once, when it follows
another job or comes to its end. So the count that a slot keeps is the number of start jobs that hold a
claim on the service (`Run.counts`), and each claim that is given up takes the count down by one.

Whoever has moved a service to starting owns it, and goes on owning it for as long as the service is
starting (`Owned`): every turn that ends the ownership takes the service out of that state. An owner
holds its claim, so a service that is starting has at least one. And a start job belongs to the current
run or to one that is cancelled (`Current`), since a new run opens only after the last one was cancelled.
-/

namespace Bringup.Lifecycle

variable {t : Topology} {n : Nat}

/-- The job starts the service and holds a claim on it. -/
def Job.holds (s : Fin n) : Job n → Bool
  | .start job => job.service = s && job.claimed
  | _ => false

theorem Job.holds_iff {s : Fin n} {job : Job n} :
    job.holds s ↔ ∃ start, job = .start start ∧ start.service = s ∧ start.claimed := by
  cases job <;> simp [Job.holds]

theorem Job.claims_eq (s : Fin n) (job : Job n) : job.claims s = if job.holds s then 1 else 0 := by
  cases job <;> simp [Job.claims, Job.holds]

section Turns

variable {c : Controller t} {now : Nat} {id : JobId} {action : Action} {effects : List Effect}

/-- **Ownership ends with the state of starting**: a start job that was the owner is so after its turn,
or the service is not starting any more. -/
theorem StartTurn.owns_on {job job' : StartJob t.size} {slot : Slot} {aside : Aside}
    (turn : StartTurn c now id job action job' slot aside effects) (ho : job.phase.Owns)
    (hs : slot.state = .starting) (hb : (c.slot job.service).state = .starting) :
    job'.phase.Owns := by
  rcases turn.owns_cases with
    ⟨-, -, ho', -⟩ | ⟨-, ho', -⟩ | ⟨verdict, -, -, -, -, htarget⟩ | ⟨-, hn, -⟩ | ⟨hn, -⟩
  · exact ho'
  · exact ho'
  · rw [htarget hb] at hs
    cases verdict <;> cases hs
  · exact absurd hb hn
  · exact absurd ho hn

/-- Who moves a service to starting owns it. -/
theorem StartTurn.owns_of_enters {job job' : StartJob t.size} {slot : Slot} {aside : Aside}
    (turn : StartTurn c now id job action job' slot aside effects) (hp : job.phase = .entering)
    (hb : (c.slot job.service).state.isStartable) (hs : slot.state = .starting) :
    job'.phase.Owns := by
  rcases turn.owns_cases with
    ⟨-, -, ho, -⟩ | ⟨-, ho, -⟩ | ⟨_, hp', -⟩ | ⟨ho, -⟩ | ⟨-, -, -, hsame, -⟩
  · exact ho
  · exact ho
  · rw [hp] at hp'
    cases hp'
  · rw [hp] at ho
    exact ho.elim
  · rw [← hsame, hs] at hb
    cases hb

/-- An owner holds its claim. -/
theorem claimed_of_owns {job : StartJob t.size} (ho : job.phase.Owns)
    (h : (Job.start job).Proper id) : job.claimed := by
  by_contra hn
  rcases h.1.1 (by simpa using hn) with hp | hp <;>
  · rw [hp] at ho
    exact ho.elim

end Turns

namespace Controller

variable (c : Controller t)

/-- How many start jobs hold a claim on the service. -/
def holders (s : Fin t.size) : Nat := c.jobs.toList.countP (Job.holds s)

/-- The job with the number holds a claim on the service. -/
def holdsClaim (id : JobId) (s : Fin t.size) : Bool := (c.jobs[id]?).any (Job.holds s)

theorem total_claims (s : Fin t.size) : c.total (Job.claims s) = c.holders s := by
  have hall (jobs : List (Job t.size)) : weigh (Job.claims s) jobs = jobs.countP (Job.holds s) := by
    induction jobs with
    | nil => rfl
    | cons job rest ih => rw [weigh_cons, List.countP_cons, ih, Job.claims_eq, Nat.add_comm]
  exact hall _

variable {c} {id : JobId} {s : Fin t.size}

theorem holdsClaim_iff : c.holdsClaim id s ↔ ∃ job, c.jobs[id]? = some (.start job) ∧
    job.service = s ∧ job.claimed := by
  rw [holdsClaim, Option.any_eq_true]
  constructor
  · rintro ⟨job, hj, hh⟩
    obtain ⟨start, rfl, hs⟩ := Job.holds_iff.1 hh
    exact ⟨start, hj, hs⟩
  · rintro ⟨start, hj, hs⟩
    exact ⟨_, hj, Job.holds_iff.2 ⟨start, rfl, hs⟩⟩

theorem lt_size_of_holdsClaim (h : c.holdsClaim id s) : id < c.jobs.size := by
  obtain ⟨job, hj, -⟩ := holdsClaim_iff.1 h
  exact lt_size_of_job hj

end Controller

/-- The job holds a claim on the service before the step, and not after it. -/
def Moment.Releases (m : Moment t) (id : JobId) (s : Fin t.size) : Prop :=
  m.before.holdsClaim id s ∧ ¬ m.after.holdsClaim id s

instance (m : Moment t) (id : JobId) (s : Fin t.size) : Decidable (m.Releases id s) :=
  inferInstanceAs (Decidable (_ ∧ _))

namespace Controller

variable {c c' d : Controller t} {now : Nat} {id : JobId} {action : Action} {effects : List Effect}
  {operation : Operation} {s : Fin t.size}

/-! ## Who holds a claim -/

/-- Every start job is as it should be. -/
def StartsProper (c : Controller t) : Prop :=
  ∀ (id : Nat) (job : StartJob t.size), c.jobs[id]? = some (.start job) → (Job.start job).Proper id

theorem StartsProper.turn (h : StartsProper c) (ht : TurnsTo c now id action c' effects) :
    StartsProper c' := by
  obtain ⟨old, new, slot, aside, hj, turn, rfl⟩ := ht
  intro i job hi
  rcases start_after_cases (lt_size_of_job hj) hi with ⟨rfl, rfl⟩ | ⟨-, hi⟩
  · cases turn with
    | start turn => exact turn.proper (h _ _ hj)
  · exact h _ _ hi

theorem StartsProper.change (h : StartsProper c) (change : CallChange now c operation d) :
    StartsProper d := by
  intro i job hi
  rcases change.sets.start_cases hi with hi | ⟨-, hp, hclaimed, -⟩
  · exact h _ _ hi
  · exact ⟨by simp [hp, hclaimed], by simp [hp], by simp [hp]⟩

theorem Run.startsProper {config : Config} {past : List (Moment t)}
    (run : Run (fresh t config) past c) : StartsProper c :=
  run.invariant (P := fun c => StartsProper c) (by simp [StartsProper, fresh]) fun h hs =>
    step_induct (P := fun c => StartsProper c) hs (fun _ turn => h.turn turn) StartsProper.change h

/-- Nobody comes to hold a claim but in the step in which it is created. -/
theorem holdsClaim_of_step (hs : c.step now action = some (c', effects)) {i : JobId}
    (hi : i < c.jobs.size) (hh : c'.holdsClaim i s) : c.holdsClaim i s := by
  cases ha : action.job? with
  | none =>
      -- The jobs are as many or more after each change, so this one was there all the time.
      have keep : i < c'.jobs.size ∧ (c'.holdsClaim i s → c.holdsClaim i s) := by
        refine (changesTo_of_step ha hs).1.induct (P := fun d =>
          i < d.jobs.size ∧ (d.holdsClaim i s → c.holdsClaim i s)) ?_ ⟨hi, fun h => h⟩
        rintro d e operation ⟨hlt, hd⟩ change
        refine ⟨Nat.lt_of_lt_of_le hlt change.sets.size_jobs_le, fun he => hd ?_⟩
        obtain ⟨job, hj, hjob⟩ := holdsClaim_iff.1 he
        rcases change.sets.start_cases hj with hj | ⟨hge, -⟩
        · exact holdsClaim_iff.2 ⟨job, hj, hjob⟩
        · exact absurd hlt (Nat.not_lt.2 hge)
      exact keep.2 hh
  | some id =>
      obtain ⟨old, new, slot, aside, hj, turn, rfl⟩ := turnsTo_of_step ha hs
      obtain ⟨job, hk, hservice, hclaimed⟩ := holdsClaim_iff.1 hh
      rcases start_after_cases (lt_size_of_job hj) hk with ⟨rfl, rfl⟩ | ⟨-, hk⟩
      · cases turn with
        | @start before _ _ _ _ _ turn =>
            refine holdsClaim_iff.2 ⟨before, hj, turn.same.1 ▸ hservice, ?_⟩
            rcases turn.claims_cases with ⟨he, -⟩ | ⟨he, -⟩
            · rw [← he, hclaimed]
            · rw [he] at hclaimed
              cases hclaimed
      · exact holdsClaim_iff.2 ⟨job, hk, hservice, hclaimed⟩

/-- **A claim that is given up** takes the count down by one, so there was one to be taken. -/
theorem claims_of_releases (hcounts : Counts c) (hs : c.step now action = some (c', effects))
    (hh : c.holdsClaim id s) (hn : ¬ c'.holdsClaim id s) :
    (c.slot s).claims = (c'.slot s).claims + 1 := by
  obtain ⟨job, hj, rfl, hclaimed⟩ := holdsClaim_iff.1 hh
  have hstays (hk : c'.jobs[id]? = some (.start job)) : False :=
    hn (holdsClaim_iff.2 ⟨job, hk, rfl, hclaimed⟩)
  cases ha : action.job? with
  | none =>
      refine (hstays ?_).elim
      exact (changesTo_of_step ha hs).1.induct (P := fun d => d.jobs[id]? = some (.start job))
        (fun hd change => change.sets.jobs_kept hd) hj
  | some i =>
      obtain ⟨old, new, slot, aside, hi, turn, rfl⟩ := turnsTo_of_step ha hs
      by_cases he : id = i
      · subst he
        obtain rfl : old = .start job := Option.some.inj (hi.symm.trans hj)
        cases turn with
        | @start _ job' _ _ _ _ turn =>
            have hself : (c.after id (.start job') job.service slot aside).jobs[id]?
              = some (.start job') := jobs_after_self (lt_size_of_job hj)
            have hpos : 1 ≤ (c.slot job.service).claims := by
              have := le_total (Job.claims job.service) hj
              rw [← hcounts] at this
              simpa [Job.claims, hclaimed] using this
            rcases turn.claims_cases with ⟨he, -⟩ | ⟨-, he⟩
            · exact absurd (holdsClaim_iff.2 ⟨job', hself, turn.same.1, he ▸ hclaimed⟩) hn
            · rw [Job.service_start, slot_after_self, he, if_pos hclaimed]
              omega
      · exact (hstays (start_after_of_ne he hj)).elim

/-- A job gives its claim up once at most. -/
theorem Run.releases_le {start : Controller t} {past : List (Moment t)} (run : Run start past c)
    (id : JobId) (s : Fin t.size) : (past.countP fun m => m.Releases id s) ≤ 1 := by
  -- After it has given its claim up it holds none.
  have keep : (past.countP fun m => m.Releases id s) ≤ 1 ∧
      ((past.countP fun m => m.Releases id s) ≠ 0 →
        id < c.jobs.size ∧ ¬ c.holdsClaim id s) := by
    induction run with
    | refl => exact ⟨Nat.zero_le _, fun h => absurd rfl h⟩
    | @tail past c c' now action effects run hs ih =>
        obtain ⟨hle, hgone⟩ := ih
        have hsize : c.jobs.size ≤ c'.jobs.size := size_jobs_le_of_step hs
        rw [List.countP_cons]
        by_cases hr : Moment.Releases ⟨c, now, action, effects, c'⟩ id s
        · have hzero : (past.countP fun m => m.Releases id s) = 0 := by
            by_contra hne
            exact (hgone hne).2 hr.1
          refine ⟨by simp [hzero, hr], fun _ => ⟨?_, hr.2⟩⟩
          exact Nat.lt_of_lt_of_le (lt_size_of_holdsClaim hr.1) hsize
        · refine ⟨by simpa [hr] using hle, fun hne => ?_⟩
          obtain ⟨hlt, hnot⟩ := hgone (by simpa [hr] using hne)
          exact ⟨Nat.lt_of_lt_of_le hlt hsize, mt (holdsClaim_of_step hs hlt) hnot⟩
  exact keep.1

/-! ## Who owns a service -/

/-- A service that is starting is owned by a start job. -/
def Owned (c : Controller t) (s : Fin t.size) : Prop :=
  (c.slot s).state = .starting → ∃ (id : Nat) (job : StartJob t.size),
    c.jobs[id]? = some (.start job) ∧ job.service = s ∧ job.phase.Owns

/-- The turn of another job than a start job moves no service to starting, and leaves all owners. -/
theorem Owned.frame (h : Owned c s) (hstate : (c'.slot s).state = .starting →
      (c.slot s).state = .starting)
    (hjobs : ∀ {id : Nat} {job : StartJob t.size}, c.jobs[id]? = some (.start job) →
      c'.jobs[id]? = some (.start job)) : Owned c' s := by
  intro hs
  obtain ⟨id, job, hj, hjob⟩ := h (hstate hs)
  exact ⟨id, job, hjobs hj, hjob⟩

theorem Owned.start_turn {job job' : StartJob t.size} {slot : Slot} {aside : Aside} (h : Owned c s)
    (hj : c.jobs[id]? = some (.start job))
    (turn : StartTurn c now id job action job' slot aside effects) :
    Owned (c.after id (.start job') job.service slot aside) s := by
  have hself : (c.after id (.start job') job.service slot aside).jobs[id]? = some (.start job') :=
    jobs_after_self (lt_size_of_job hj)
  intro hs
  -- Who owned the service before is still there; only the job whose turn it is may have let it go.
  have hbefore (hb : (c.slot s).state = .starting) (hon : job.service = s → job.phase.Owns →
      job'.phase.Owns) : ∃ (i : Nat) (k : StartJob t.size),
        (c.after id (.start job') job.service slot aside).jobs[i]? = some (.start k) ∧
          k.service = s ∧ k.phase.Owns := by
    obtain ⟨i, k, hk, hks, ho⟩ := h hb
    by_cases hi : i = id
    · subst hi
      obtain rfl : job = k := Job.start.inj (Option.some.inj (hj.symm.trans hk))
      exact ⟨i, job', hself, turn.same.1.trans hks, hon hks ho⟩
    · exact ⟨i, k, start_after_of_ne hi hk, hks, ho⟩
  by_cases he : s = job.service
  · subst he
    rw [slot_after_self] at hs
    rcases turn.state_cases with hsame | ⟨-, hp, -, hstartable, -⟩ | ⟨verdict, -, -, htarget⟩
    · have hb : (c.slot job.service).state = .starting := hsame ▸ hs
      exact hbefore hb fun _ ho => turn.owns_on ho hs hb
    · exact ⟨id, job', hself, turn.same.1, turn.owns_of_enters hp hstartable hs⟩
    · rw [htarget] at hs
      cases verdict <;> cases hs
  · rw [slot_after_of_ne he] at hs
    exact hbefore hs fun hservice => absurd hservice.symm he

theorem Owned.turn (h : Owned c s) (ht : TurnsTo c now id action c' effects) : Owned c' s := by
  obtain ⟨old, new, slot, aside, hj, turn, rfl⟩ := ht
  cases turn with
  | start turn => exact h.start_turn hj turn
  | @stop job phase _ _ _ turn =>
      refine h.frame (fun hs => ?_) fun hk => start_after_of_ne (fun he => ?_) hk
      · by_cases he : s = job.service
        · subst he
          rw [Job.service_stop, slot_after_self] at hs
          rcases turn.state_cases with hsame | ⟨-, -, hto⟩ | ⟨-, -, hto⟩ | ⟨-, -, hto⟩
          · exact hsame ▸ hs
          all_goals
            rw [hto] at hs
            cases hs
        · rwa [Job.service_stop, slot_after_of_ne he] at hs
      · subst he
        cases hj.symm.trans hk
  | @launch l phase _ _ turn =>
      refine h.frame (fun hs => ?_) fun hk => start_after_of_ne (fun he => ?_) hk
      · by_cases he : s = l.service
        · subst he
          rwa [Job.service_launch, slot_after_self] at hs
        · rwa [Job.service_launch, slot_after_of_ne he] at hs
      · subst he
        cases hj.symm.trans hk

theorem Owned.change (h : Owned c s) (change : CallChange now c operation d) : Owned d s := by
  refine h.frame (fun hs => ?_) fun hk => change.sets.jobs_kept hk
  rcases change.sets.state_cases s with he | ⟨hb, -⟩
  · exact he ▸ hs
  · exact hb

theorem Run.owned {config : Config} {past : List (Moment t)} (run : Run (fresh t config) past c)
    (s : Fin t.size) : Owned c s :=
  run.invariant (P := fun c => Owned c s) (by simp [Owned, fresh, Controller.slot]) fun h hs =>
    step_induct (P := fun c => Owned c s) hs (fun _ turn => h.turn turn) Owned.change h

/-! ## Which run a start job belongs to -/

/-- Every start job belongs to the current run, or to one that is cancelled. -/
def Current (c : Controller t) : Prop :=
  ∀ (id : Nat) (job : StartJob t.size), c.jobs[id]? = some (.start job) →
    c.isCancelled job.run ∨ job.run = c.currentRun

theorem Current.turn (h : Current c) (ht : TurnsTo c now id action c' effects) : Current c' := by
  obtain ⟨old, new, slot, aside, hj, turn, rfl⟩ := ht
  intro i job hi
  rw [Controller.isCancelled, currentRun_after, cancelledRuns_after, ← Controller.isCancelled]
  rcases start_after_cases (lt_size_of_job hj) hi with ⟨rfl, rfl⟩ | ⟨-, hi⟩
  · cases turn with
    | start turn => exact turn.same.2 ▸ h _ _ hj
  · exact h _ _ hi

/-- A new run opens only if the last one is cancelled, and whoever cancels runs cancels all of them. -/
theorem Current.change (h : Current c) (hopened : RunsOpened c)
    (change : CallChange now c operation d) : Current d := by
  intro i job hi
  rcases change.sets.start_cases hi with hi | ⟨-, -, -, hrun⟩
  · have hrun := hopened _ _ hi
    have hkept := h _ _ hi
    cases change.sets with
    | starts services jobs slots cancelled run =>
        rw [Controller.isCancelled, cancelled, run, ← Controller.isCancelled]
        rcases hkept with hc | he
        · exact .inl hc
        · -- The job's run is over if another one was opened.
          unfold arm
          split
          next hc => exact .inl (he ▸ hc)
          next => exact .inr he
    | stops stops fresh jobs slots cancelled run =>
        rw [run]
        rcases cancelled with he | he
        · rwa [Controller.isCancelled, he, ← Controller.isCancelled]
        · refine .inl ?_
          rw [Controller.isCancelled, he]
          simpa using Nat.lt_succ_of_le hrun
    | sweeps s' jobs slots cancelled run =>
        rwa [Controller.isCancelled, cancelled, run, ← Controller.isCancelled]
  · exact .inr hrun


theorem Run.current {config : Config} {past : List (Moment t)} (run : Run (fresh t config) past c) :
    Current c := by
  have hboth : RunsOpened c ∧ Current c := by
    refine run.invariant (P := fun c => RunsOpened c ∧ Current c)
      ⟨by simp [RunsOpened, fresh], by simp [Current, fresh]⟩ ?_
    intro c c' now action effects h hs
    refine step_induct (P := fun c => RunsOpened c ∧ Current c) hs ?_ ?_ h
    · exact fun _ turn => ⟨h.1.turn turn, h.2.turn turn⟩
    · exact fun h change => ⟨h.1.change change, h.2.change h.1 change⟩
  exact hboth.2

/-! ## The account of claims -/

/-- How claims and starts stand at an instant: the counts are exact, whoever has still to start its
service holds a claim and nobody else does, each claim is given up once and counted down for, a service
that is starting has somebody who does it, and every start job knows whether its run is over. -/
structure ClaimsAccounted (past : List (Moment t)) (c : Controller t) : Prop where
  counted : ∀ s, (c.slot s).claims = c.holders s
  held : ∀ (id : Nat) (job : StartJob t.size), c.jobs[id]? = some (.start job) →
    (job.claimed ↔ ¬(job.phase = .following ∨ job.phase = .finished))
  released : ∀ m ∈ past, ∀ (id : Nat) s, m.Releases id s →
    (m.before.slot s).claims = (m.after.slot s).claims + 1
  once : ∀ (id : Nat) s, (past.countP fun m => m.Releases id s) ≤ 1
  worked : ∀ s, (c.slot s).state = .starting → 1 ≤ (c.slot s).claims ∧
    ∃ (id : Nat) (job : StartJob t.size), c.jobs[id]? = some (.start job) ∧ job.service = s ∧
      job.claimed ∧ job.phase.Owns
  current : ∀ (id : Nat) (job : StartJob t.size), c.jobs[id]? = some (.start job) →
    c.isCancelled job.run ∨ job.run = c.currentRun

/-- **Claims are counted exactly, and cover every start that is under way**, at every instant of every
run. -/
theorem Run.claims_accounted {config : Config} {past : List (Moment t)}
    (run : Run (fresh t config) past c) : ClaimsAccounted past c where
  counted s := (run.counts s).trans (total_claims c s)
  held id job hj := by
    have hproper := (run.startsProper id job hj).1
    cases hc : job.claimed <;> simp [hc] at hproper ⊢ <;> tauto
  released m hm id s hr := by
    obtain ⟨later, earlier, rfl⟩ := List.append_of_mem hm
    exact claims_of_releases (run.split rfl).1.counts (run.step_of_mem hm) hr.1 hr.2
  once id s := run.releases_le id s
  worked s hs := by
    obtain ⟨id, job, hj, rfl, ho⟩ := run.owned s hs
    have hclaimed := claimed_of_owns ho (run.startsProper id job hj)
    refine ⟨?_, id, job, hj, rfl, hclaimed, ho⟩
    have hpos := le_total (Job.claims job.service) hj
    rw [← run.counts] at hpos
    simpa [Job.claims, hclaimed] using hpos
  current id job hj := run.current id job hj

/-- Two overlapping starts are cancelled, and a third one follows while the first is still at work: two
of the three hold their claims, and the second has given its own up. -/
theorem claims_accounted_overlapping : ∃ past c, Run (fresh solo {}) past c ∧ ClaimsAccounted past c ∧
    (c.slot only).state = .starting ∧ (c.slot only).claims = 2 ∧ c.isCancelled 0 ∧ c.currentRun = 1 ∧
    ∃ m ∈ past, m.Releases 1 only := by
  obtain ⟨past, c, run, hshows⟩ := exists_run (fresh solo {})
    [(0, .invoke .startAll), (0, .invoke .startAll), (0, .run 0), (0, .run 0), (5, .run 1),
      (9, .invoke .cancel), (9, .invoke .startAll)]
    (fun past c => (c.slot only).state = .starting && (c.slot only).claims = 2 && c.isCancelled 0 &&
      c.currentRun = 1 && past.any fun m => m.Releases 1 only)
    (by decide +kernel)
  simp only [Bool.and_eq_true, decide_eq_true_eq, List.any_eq_true] at hshows
  obtain ⟨⟨⟨⟨hstate, hclaims⟩, hcancelled⟩, hcurrent⟩, hreleases⟩ := hshows
  exact ⟨past, c, run, run.claims_accounted, hstate, hclaims, hcancelled, hcurrent, hreleases⟩

end Controller

end Bringup.Lifecycle
