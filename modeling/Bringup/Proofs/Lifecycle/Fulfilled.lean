import Bringup.Proofs.Lifecycle.Foretold

/-!
# Whatever is foretold comes true

The invariant `Foretold` survives every step. A turn of a start job leaves what is seen of its service
as it is, moves the service to starting, or brings it to its outcome (`Foretold.start_cases`); nobody
else touches the service meanwhile, since only one job owns it. A new start claims every service
before any of its jobs looks at a dependency (`Foretold.start`).

So once the jobs of a call have finished, every service shows its outcome, and the report of the call
shows the outcomes, whatever else went on (`Told.report`).
-/

namespace Bringup.Lifecycle

open Container (Handle)

variable {t : Topology}

/-! ## Claims -/

namespace Slot

variable {slot : Slot}

@[simp] theorem claims_recordIfStartable (error : Error) :
    (slot.recordIfStartable error).claims = slot.claims := by
  unfold recordIfStartable
  split <;> rfl

@[simp] theorem claims_leaveStarting (now : Nat) (target : ServiceState) (error : Option Error) :
    (slot.leaveStarting now target error).claims = slot.claims := by
  unfold leaveStarting
  split <;> rfl

end Slot

/-- A start job keeps its claim, or gives it up. -/
theorem StartTurn.claims_cases {c : Controller t} {now : Nat} {id : JobId} {action : Action}
    {slot : Slot} {aside : Aside} {effects : List Effect} {job job' : StartJob t.size}
    (turn : StartTurn c now id job action job' slot aside effects) :
    (job'.claimed = job.claimed ∧ slot.claims = (c.slot job.service).claims) ∨
    (job'.claimed = false ∧
      slot.claims = (c.slot job.service).claims - if job.claimed then 1 else 0) := by
  have hunclaim (slot : Slot) :
      (job.unclaim slot).claims = slot.claims - if job.claimed then 1 else 0 := by
    unfold StartJob.unclaim
    split <;> rfl
  cases turn with
  | follow | cease | refuse | forgo | conclude | discarded =>
      exact .inr ⟨rfl, by simp [hunclaim]⟩
  | _ => exact .inl ⟨rfl, rfl⟩

/-- A start job without a claim follows another one or is at its end. -/
theorem StartTurn.unclaimed {c : Controller t} {now : Nat} {id : JobId} {action : Action}
    {slot : Slot} {aside : Aside} {effects : List Effect} {job job' : StartJob t.size}
    (turn : StartTurn c now id job action job' slot aside effects)
    (h : job.claimed = false → job.phase = .following ∨ job.phase = .finished)
    (hc : job'.claimed = false) : job'.phase = .following ∨ job'.phase = .finished := by
  cases turn with
  | follow => exact .inl rfl
  | cease | refuse | forgo | conclude | discarded => exact .inr rfl
  | heed hp =>
      rcases h hc with he | he <;> rcases hp with ⟨_, _, _, hp⟩ | ⟨_, _, hp⟩ <;> rw [hp] at he <;>
        cases he
  | arrive hp | pass hp | giveUp hp | accept hp | decline hp | enter hp | enterBare hp | abandon hp
  | collect hp | lose hp | record hp | discard hp | ask hp | heedProbe hp | wake hp | overrun hp
  | bind hp | bindLast hp | miss hp | ready hp | retry hp | kill hp =>
      rcases h hc with he | he <;> rw [hp] at he <;> cases he

/-! ## What a turn makes of a service -/

namespace Prospect

/-- What a turn of a start job makes of its service, told by what is seen of the service before and
after. -/
inductive Course (p : Prospect t) (job job' : StartJob t.size)
    (before after : ServiceState × Option Error) : Prop where
  /-- What is seen of the service stays. -/
  | stays (he : after = before) (ho : job'.phase.Owns ↔ job.phase.Owns)
    (hf : job'.phase = .finished → p.outcome job.service = before)
    (hn : job'.phase = .following → before.1 ≠ .pending)
  /-- The service was pending and moves to starting, and from now on the job owns it. -/
  | enters (hp : before.1 = .pending) (hb : p.blocker? job.service = none)
    (he : after = (.starting, none)) (ho : job'.phase.Owns)
  /-- The service comes to its outcome, and the job to its end. -/
  | ends (he : after = p.outcome job.service) (hf : job'.phase = .finished)
    (hs : before.1 = .pending ∨ job.phase.Owns)

variable {p : Prospect t} {job job' : StartJob t.size} {before after : ServiceState × Option Error}

theorem not_owns_of_finished {phase : StartPhase t.size} (h : phase = .finished) :
    ¬ phase.Owns := by
  rw [h]
  exact id

/-- Where nothing blocks a service, its outcome is not that it stays pending. -/
theorem outcome_ne_pending {s : Fin t.size} (h : p.blocker? s = none) :
    (p.outcome s).1 ≠ .pending := by
  intro hp
  have houtcome := p.outcome_state s
  rw [hp] at houtcome
  simp [h] at houtcome

theorem outcome_ne_starting (s : Fin t.size) : (p.outcome s).1 ≠ .starting := by
  intro hs
  have houtcome := p.outcome_state s
  rw [hs] at houtcome
  simp at houtcome

namespace Course

theorem admits (h : p.Course job job' before after) (hb : p.Admits job.service before) :
    p.Admits job.service after := by
  cases h with
  | stays he => exact he ▸ hb
  | enters hp hn he =>
      rw [he]
      exact ⟨rfl, hn⟩
  | ends he =>
      rw [he]
      exact p.admits_outcome job.service

/-- A service that its job owns is starting. -/
theorem starting_of_owns (h : p.Course job job' before after)
    (hb : job.phase.Owns → before.1 = .starting) (ho : job'.phase.Owns) : after.1 = .starting := by
  cases h with
  | stays he hiff =>
      rw [he]
      exact hb (hiff.1 ho)
  | enters hp hn he => rw [he]
  | ends he hf => exact absurd ho (not_owns_of_finished hf)

/-- A service that is starting goes on so for all that a job does which does not own it. -/
theorem starting (h : p.Course job job' before after) (hn : ¬ job.phase.Owns)
    (hb : before.1 = .starting) : after.1 = .starting := by
  cases h with
  | stays he => rw [he, hb]
  | enters hp hn he => rw [he]
  | ends he hf hs =>
      rcases hs with hp | ho
      · rw [hb] at hp
        cases hp
      · exact absurd ho hn

/-- A job that owns the service did so before, or found it pending. -/
theorem owned_or_pending (h : p.Course job job' before after) (ho : job'.phase.Owns) :
    job.phase.Owns ∨ before.1 = .pending := by
  cases h with
  | stays he hiff => exact .inl (hiff.1 ho)
  | enters hp => exact .inr hp
  | ends he hf => exact absurd ho (not_owns_of_finished hf)

/-- Of a service that is starting the job is the owner, or as far from it as before. -/
theorem owns_or_starting (h : p.Course job job' before after) (hs : after.1 = .starting) :
    job'.phase.Owns ∨ before.1 = .starting ∧ (job.phase.Owns → job'.phase.Owns) := by
  cases h with
  | stays he hiff => exact .inr ⟨he ▸ hs, hiff.2⟩
  | enters hp hn he ho => exact .inl ho
  | ends he => exact absurd (he ▸ hs) (outcome_ne_starting job.service)

/-- A service that is no longer pending does not become so again. -/
theorem pending (h : p.Course job job' before after)
    (hb : job.phase.Owns → p.blocker? job.service = none) (hs : after.1 = .pending) :
    before.1 = .pending := by
  cases h with
  | stays he => exact he ▸ hs
  | enters hp => exact hp
  | ends he hf hor =>
      apply hor.resolve_right
      intro ho
      exact outcome_ne_pending (hb ho) (he ▸ hs)

theorem following (h : p.Course job job' before after) (hf : job'.phase = .following) :
    before.1 ≠ .pending := by
  cases h with
  | stays he hiff hfin hn => exact hn hf
  | enters hp hn he ho =>
      rw [hf] at ho
      exact ho.elim
  | ends he hfin =>
      rw [hf] at hfin
      cases hfin

/-- A service that shows its outcome goes on to do so. -/
theorem shown (h : p.Course job job' before after) (hb : p.outcome job.service = before) :
    p.outcome job.service = after := by
  cases h with
  | stays he => exact hb.trans he.symm
  | enters hp hn => exact absurd (hb ▸ hp) (outcome_ne_pending hn)
  | ends he => exact he.symm

theorem final (h : p.Course job job' before after) (hf : job'.phase = .finished) :
    p.outcome job.service = after := by
  cases h with
  | stays he hiff hshown => exact (hshown hf).trans he.symm
  | enters hp hn he ho => exact absurd ho (not_owns_of_finished hf)
  | ends he => exact he.symm

end Course

end Prospect

namespace Controller

variable {p : Prospect t} {c c' : Controller t} {now : Nat} {id : JobId} {action : Action}
  {slot : Slot} {aside : Aside} {effects : List Effect}

/-- What a turn of a start job makes of its service. -/
theorem Foretold.course (h : Foretold p c) {job job' : StartJob t.size}
    (hj : c.jobs[id]? = some (.start job))
    (turn : StartTurn c now id job action job' slot aside effects) :
    p.Course job job' (c.slot job.service).sight slot.sight := by
  have hb := h.backs hj
  have hadmits := h.slot job.service
  cases turn with
  | follow hp hs =>
      refine .stays (by simp [Slot.sight]) ?_ (by simp [StartJob.follow]) fun _ hpend => hs ?_
      · rcases hp with hp | ⟨hp, -⟩ <;> rw [hp] <;> exact Iff.rfl
      · rw [show (c.slot job.service).state = .pending from hpend]
        rfl
  | cease hp hs =>
      refine .stays (by simp [Slot.sight]) (by rw [hp]; exact Iff.rfl) (?_)
        (by simp [StartJob.finish])
      intro _
      rcases hs with hs | hs
      · rw [h.isCancelled] at hs
        cases hs
      · rcases (h.published job.service).settled_iff.1 hs with hs | hs
        · exact hadmits.eq_outcome (by rw [hs]; simp) (by rw [hs]; simp)
        · exact h.settled hj hs
  | @refuse error hp =>
      rw [hp] at hb
      have hpend := hadmits.pending_of_refused hb
      refine .ends ?_ rfl (.inl hpend)
      rw [hb]
      simp [Slot.sight, Slot.recordIfStartable, Slot.record, hpend, ServiceState.isStartable]
  | enter hp hc hs | enterBare hp hc hs =>
      rw [hp] at hb
      exact .enters (hadmits.pending hs) hb rfl trivial
  | @conclude verdict hp =>
      have ho : job.phase.Owns := by rw [hp]; trivial
      have hst := h.owner hj ho
      obtain ⟨herror, hblocker⟩ := hadmits.starting hst
      rw [hp] at hb
      refine .ends ?_ rfl (.inr ho)
      rw [Prospect.outcome_of_trial hblocker]
      cases verdict with
      | ready =>
          have hb : p.trial job.service = none := hb
          simp [Slot.sight, Slot.leaveStarting, hst, hb, herror, Slot.moved, Verdict.target,
            Verdict.error]
      | failed error =>
          have hb : p.trial job.service = some error := hb
          simp [Slot.sight, Slot.leaveStarting, hst, hb, Slot.moved, Verdict.target, Verdict.error]
      | cancelled launch => exact hb.elim
  | discard hp hs => exact absurd (h.owner hj (by rw [hp]; trivial)) hs
  | discarded hp =>
      rw [hp] at hb
      exact hb.elim
  | forgo hp hc | heed hp hc =>
      -- Nobody cancels a run here.
      rw [h.isCancelled] at hc
      cases hc
  | arrive hp | accept hp =>
      refine .stays rfl ?_ ?_ ?_ <;> rw [StartJob.phase_await]
      · rw [hp]
        split <;> exact Iff.rfl
      · split <;> simp
      · split <;> simp
  | @retry handle attempt probe hp =>
      rcases c.retryPhase_cases now job.service handle attempt with ⟨-, deadline, he⟩ | ⟨-, he⟩ <;>
        exact .stays rfl (by rw [StartJob.goTo, he, hp]; exact Iff.rfl) (by simp [StartJob.goTo, he])
          (by simp [StartJob.goTo, he])
  | pass hp | giveUp hp | decline hp | abandon hp | collect hp | lose hp | record hp | ask hp
  | heedProbe hp | wake hp | overrun hp | bind hp | bindLast hp | miss hp | ready hp | kill hp =>
      exact .stays (by simp [Slot.sight]) (by rw [hp]; exact Iff.rfl) (by simp [StartJob.goTo])
        (by simp [StartJob.goTo])

/-- A service that is no longer pending does not become so again. -/
theorem Foretold.pending_turn (h : Foretold p c) {job job' : StartJob t.size}
    (hj : c.jobs[id]? = some (.start job))
    (turn : StartTurn c now id job action job' slot aside effects) (hs : slot.state = .pending) :
    (c.slot job.service).state = .pending := by
  apply (h.course hj turn).pending _ hs
  intro ho
  exact ((h.slot job.service).starting (h.owner hj ho)).2

theorem takenWeight_eq_zero {weight : Job t.size → Nat} (h : ∀ l, weight (.launch l) = 0)
    {old new : Job t.size} (turn : Turn c now id old action new slot aside effects) :
    c.takenWeight weight aside = 0 := by
  cases turn with
  | stop | launch => rfl
  | start turn =>
      rcases turn.launch_cases with ⟨rfl, -⟩ | ⟨rfl, -⟩ | ⟨launch, l, _, rfl, hl, -⟩ | ⟨_, rfl, -⟩
      · rfl
      · rfl
      · simp [takenWeight, hl, h]
      · rfl

/-- Claims are counted as they are given up. -/
theorem claims_turn (h : ∀ s, (c.slot s).claims = c.total (Job.claims s)) (hlink : c.Linked)
    {job job' : StartJob t.size} (hj : c.jobs[id]? = some (.start job))
    (turn : StartTurn c now id job action job' slot aside effects) (s : Fin t.size) :
    ((c.after id (.start job') job.service slot aside).slot s).claims
      = (c.after id (.start job') job.service slot aside).total (Job.claims s) := by
  have htotal := total_after (Job.claims s) (fun _ => rfl) (fun _ => rfl) (fun _ => rfl) hj
    (.start turn) hlink
  rw [takenWeight_eq_zero (fun _ => rfl) (.start turn), Nat.add_zero, Job.service_start] at htotal
  have hle := le_total (Job.claims s) hj
  rw [← h s] at htotal hle
  by_cases hs : s = job.service
  · subst hs
    rw [slot_after_self]
    simp only [Job.claims, turn.same.1, true_and] at htotal hle
    rcases turn.claims_cases with ⟨hc, he⟩ | ⟨hc, he⟩
    · rw [hc] at htotal
      omega
    · rw [hc] at htotal
      rw [he]
      cases hclaimed : job.claimed <;> simp [hclaimed] at htotal hle ⊢ <;> omega
  · rw [slot_after_of_ne hs]
    simp only [Job.claims, turn.same.1, Ne.symm hs, false_and, if_false] at htotal
    omega

/-- No launch is given up, and what one has returned agrees with the prospect. -/
theorem Foretold.launches_turn (h : Foretold p c) {job job' : StartJob t.size}
    (hj : c.jobs[id]? = some (.start job))
    (turn : StartTurn c now id job action job' slot aside effects) {i : Nat} {l : Launch t.size}
    (hl : (c.after id (.start job') job.service slot aside).jobs[i]? = some (.launch l)) :
    l.orphaned = false ∧ p.Launches l := by
  rcases launch_after_cases (lt_size_of_job hj) hl with
    ⟨-, he⟩ | ⟨-, -, rfl⟩ | ⟨-, l', hl', -, ⟨rfl, -⟩ | ⟨-, rfl⟩ | ⟨ha, -⟩⟩
  · cases he
  · exact ⟨rfl, trivial⟩
  · exact h.launches hl'
  · exact ⟨(h.launches hl').1, trivial⟩
  · -- Only a start that is cancelled gives its launch up.
    rcases turn.launch_cases with ⟨he, -⟩ | ⟨he, -⟩ | ⟨_, _, _, he, -⟩ | ⟨launch, -, -, -, hp, -⟩
    · rw [ha] at he
      cases he
    · rw [ha] at he
      cases he
    · rw [ha] at he
      cases he
    · have hb := h.backs hj
      rw [hp] at hb
      exact hb.elim

/-- A service that is starting has an owner: the job whose turn it is, or the one that owned it
before. -/
theorem Foretold.owned_turn (h : Foretold p c) {job job' : StartJob t.size}
    (hj : c.jobs[id]? = some (.start job))
    (turn : StartTurn c now id job action job' slot aside effects) {s : Fin t.size}
    (hs : ((c.after id (.start job') job.service slot aside).slot s).state = .starting) :
    ∃ (i : Nat) (k : StartJob t.size),
      (c.after id (.start job') job.service slot aside).jobs[i]? = some (.start k) ∧
        k.service = s ∧ k.phase.Owns := by
  have hid := lt_size_of_job hj
  have hservice := turn.same.1
  have hkeep {i : Nat} {k : StartJob t.size} (hi : c.jobs[i]? = some (.start k))
      (hks : k.service = s) (hk : k.phase.Owns)
      (howns : s = job.service → job.phase.Owns → job'.phase.Owns) :
      ∃ (i : Nat) (k : StartJob t.size),
        (c.after id (.start job') job.service slot aside).jobs[i]? = some (.start k) ∧
          k.service = s ∧ k.phase.Owns := by
    by_cases hi' : i = id
    · subst hi'
      obtain rfl := Job.start.inj (Option.some.inj (hj.symm.trans hi))
      exact ⟨i, job', jobs_after_self hid, hservice.trans hks, howns hks.symm hk⟩
    · exact ⟨i, k, start_after_of_ne hi' hi, hks, hk⟩
  by_cases hsj : s = job.service
  · rw [hsj, slot_after_self] at hs
    rcases (h.course hj turn).owns_or_starting hs with ho | ⟨hst, howns⟩
    · exact ⟨id, job', jobs_after_self hid, hservice.trans hsj.symm, ho⟩
    · obtain ⟨i, k, hi, hks, hk⟩ := h.owned hst
      exact hkeep hi (hks.trans hsj.symm) hk fun _ => howns
  · rw [slot_after_of_ne hsj] at hs
    obtain ⟨i, k, hi, hks, hk⟩ := h.owned hs
    exact hkeep hi hks hk fun hs => absurd hs hsj

theorem Foretold.start_turn (h : Foretold p c) (ht : t.Built) (hlink : c.Linked)
    {job job' : StartJob t.size} (hj : c.jobs[id]? = some (.start job))
    (turn : StartTurn c now id job action job' slot aside effects) (hfair : action.Fair p c) :
    Foretold p (c.after id (.start job') job.service slot aside) := by
  have hid := lt_size_of_job hj
  have hbacks := h.backs_turn ht hlink hj turn hfair
  have hcourse := h.course hj turn
  have hservice := turn.same.1
  have hstart {i : Nat} {k : StartJob t.size}
      (hi : (c.after id (.start job') job.service slot aside).jobs[i]? = some (.start k)) :
      (i = id ∧ job' = k) ∨ (i ≠ id ∧ c.jobs[i]? = some (.start k)) :=
    start_after_start_cases hid hi
  have hslot (s : Fin t.size) :
      (s = job.service ∧ (c.after id (.start job') job.service slot aside).slot s = slot) ∨
        (s ≠ job.service ∧
          (c.after id (.start job') job.service slot aside).slot s = c.slot s) :=
    slot_after_cases s
  -- No other job owns the service along with the one whose turn it is.
  have hsole {i : Nat} {k : StartJob t.size} (hne : i ≠ id) (hi : c.jobs[i]? = some (.start k))
      (hs : k.service = job.service) (hk : k.phase.Owns) : ¬ job'.phase.Owns := by
    intro ho
    rcases hcourse.owned_or_pending ho with hown | hpend
    · exact hne (h.sole hi hj hs hk hown)
    · have hst := h.owner hi hk
      rw [hs, show (c.slot job.service).state = .pending from hpend] at hst
      cases hst
  constructor
  case published => exact h.published.turn ⟨_, _, _, _, hj, .start turn, rfl⟩
  case policy =>
    rw [config_after]
    exact h.policy
  case calls =>
    rw [calls_after]
    exact h.calls
  case cancelled =>
    rw [cancelledRuns_after]
    exact h.cancelled
  case claims => exact claims_turn h.claims hlink hj turn
  case launches => exact h.launches_turn hj turn
  case stop =>
    intro i k hi
    exact h.stop i k (stop_of_after hid (by simp) hi)
  case slot =>
    intro s
    rcases hslot s with ⟨rfl, he⟩ | ⟨-, he⟩ <;> rw [he]
    · exact hcourse.admits (h.slot _)
    · exact h.slot s
  case backs =>
    intro i k hi
    rcases hstart hi with ⟨-, rfl⟩ | ⟨-, hi⟩
    · exact hservice ▸ hbacks
    · exact h.backs hi
  case owner =>
    intro i k hi ho
    rcases hstart hi with ⟨-, rfl⟩ | ⟨hne, hi⟩
    · rw [hservice, slot_after_self]
      exact hcourse.starting_of_owns (h.owner hj) ho
    · rcases hslot k.service with ⟨hs, he⟩ | ⟨-, he⟩ <;> rw [he]
      · refine hcourse.starting (fun hown => hne (h.sole hi hj hs ho hown)) ?_
        exact hs ▸ h.owner hi ho
      · exact h.owner hi ho
  case sole =>
    intro i i' k k' hi hi' hs ho ho'
    rcases hstart hi with ⟨he, rfl⟩ | ⟨hne, hi⟩ <;> rcases hstart hi' with ⟨he', rfl⟩ | ⟨hne', hi'⟩
    · exact he.trans he'.symm
    · exact absurd ho (hsole hne' hi' (hs.symm.trans hservice) ho')
    · exact absurd ho' (hsole hne hi (hs.trans hservice) ho)
    · exact h.sole hi hi' hs ho ho'
  case owned =>
    intro s hs
    exact h.owned_turn hj turn hs
  case following =>
    intro i k hi hp
    have hmoved : (c.slot job.service).state ≠ .pending → slot.state ≠ .pending :=
      mt (h.pending_turn hj turn)
    rcases hstart hi with ⟨-, rfl⟩ | ⟨-, hi⟩
    · rw [hservice, slot_after_self]
      exact hmoved (hcourse.following hp)
    · rcases hslot k.service with ⟨hs, he⟩ | ⟨-, he⟩ <;> rw [he]
      · exact hmoved (hs ▸ h.following hi hp)
      · exact h.following hi hp
  case final =>
    intro i k hi hp
    rcases hstart hi with ⟨-, rfl⟩ | ⟨-, hi⟩
    · rw [hservice, slot_after_self]
      exact hcourse.final hp
    · have hshown := h.final hi hp
      rcases hslot k.service with ⟨hs, he⟩ | ⟨-, he⟩ <;> rw [he]
      · rw [hs] at hshown ⊢
        exact hcourse.shown hshown
      · exact hshown
  case claimed =>
    intro i k hi hc
    rcases hstart hi with ⟨-, rfl⟩ | ⟨-, hi⟩
    · exact turn.unclaimed (h.claimed hj) hc
    · exact h.claimed hi hc
  case all =>
    intro _ _ _ s
    obtain ⟨i, k, hi, hs⟩ := h.all hj s
    obtain ⟨k', hk', hkind, hs', -⟩ := job_kept (.start turn) hj hi
    cases k' with
    | start k' => exact ⟨i, k', hk', hs'.trans hs⟩
    | stop | launch => cases hkind

/-- The invariant survives what leaves slots and start jobs alone. -/
theorem Foretold.frame (h : Foretold p c) (hconfig : c'.config = c.config)
    (hcalls : ∀ (k : Nat) (call : Call t.size), c'.calls[k]? = some call →
      call.operation = .startAll)
    (hcancelled : c'.cancelledRuns = c.cancelledRuns)
    (hstop : ∀ (i : Nat) (job : StopJob t.size), c'.jobs[i]? ≠ some (.stop job))
    (hslot : ∀ s, c'.slot s = c.slot s)
    (hstart : ∀ (i : Nat) (job : StartJob t.size),
      c'.jobs[i]? = some (.start job) ↔ c.jobs[i]? = some (.start job))
    (hclaims : ∀ s, c'.total (Job.claims s) = c.total (Job.claims s))
    (hlaunches : ∀ (i : Nat) (l : Launch t.size), c'.jobs[i]? = some (.launch l) →
      l.orphaned = false ∧ p.Launches l) : Foretold p c' where
  published s := hslot s ▸ h.published s
  policy := hconfig ▸ h.policy
  calls := hcalls
  cancelled := hcancelled ▸ h.cancelled
  stop := hstop
  slot s := hslot s ▸ h.slot s
  backs hi := h.backs ((hstart _ _).1 hi)
  owner hi ho := by
    rw [hslot]
    exact h.owner ((hstart _ _).1 hi) ho
  sole hi hi' := h.sole ((hstart _ _).1 hi) ((hstart _ _).1 hi')
  owned hs := by
    rw [hslot] at hs
    obtain ⟨i, job, hi, hjob⟩ := h.owned hs
    exact ⟨i, job, (hstart _ _).2 hi, hjob⟩
  following hi hp := by
    rw [hslot]
    exact h.following ((hstart _ _).1 hi) hp
  final hi hp := by
    rw [hslot]
    exact h.final ((hstart _ _).1 hi) hp
  claimed hi := h.claimed ((hstart _ _).1 hi)
  claims s := by rw [hslot, hclaims, h.claims]
  all hi s := by
    obtain ⟨i, job, hi, hs⟩ := h.all ((hstart _ _).1 hi) s
    exact ⟨i, job, (hstart _ _).2 hi, hs⟩
  launches hl := hlaunches _ _ hl

theorem Foretold.launch_turn (h : Foretold p c) (hlink : c.Linked) {l : Launch t.size}
    {phase : LaunchPhase} (hj : c.jobs[id]? = some (.launch l))
    (turn : LaunchTurn c now id l action phase effects) (hfair : action.Fair p c) :
    Foretold p (c.after id (.launch { l with phase }) l.service (c.slot l.service) .nothing) := by
  have hid := lt_size_of_job hj
  have hlaunch := h.launches hj
  refine h.frame config_after (by rw [calls_after]; exact h.calls) cancelledRuns_after
    (?_) (?_) (fun i job => ⟨?_, ?_⟩) (?_)
    (?_)
  · intro i job hi
    exact h.stop i job (stop_of_after hid (by simp) hi)
  · intro s
    by_cases hs : s = l.service
    · rw [hs, slot_after_self]
    · exact slot_after_of_ne hs
  · intro hi
    exact start_of_after hid (by simp) hi
  · intro hi
    refine start_after_of_ne ?_ hi
    rintro rfl
    rw [hj] at hi
    cases hi
  · intro s
    have := total_after (Job.claims s) (fun _ => rfl) (fun _ => rfl) (fun _ => rfl) hj
      (.launch turn) hlink
    simpa [Job.claims, takenWeight] using this
  · intro i l' hl
    rcases launch_after_cases hid hl with
      ⟨-, he⟩ | ⟨he, -⟩ | ⟨-, l'', hl'', -, ⟨rfl, -⟩ | ⟨he, -⟩ | ⟨he, -⟩⟩
    · rw [← Job.launch.inj he]
      refine ⟨hlaunch.1, ?_⟩
      cases turn with
      | call => trivial
      | «return» => exact hfair _ hj
      | halt _ ho | drop _ ho => rw [hlaunch.1] at ho; cases ho
      | overrun hp | halted hp | kill hp =>
          have := hlaunch.2
          rw [Prospect.Launches, hp] at this
          exact this.elim
    · cases he
    · exact h.launches hl''
    all_goals cases he

theorem Foretold.turn (h : Foretold p c) (ht : t.Built) (hlink : c.Linked)
    (hturn : TurnsTo c now id action c' effects) (hfair : action.Fair p c) : Foretold p c' := by
  obtain ⟨old, new, slot, aside, hj, turn, rfl⟩ := hturn
  cases turn with
  | start turn => exact h.start_turn ht hlink hj turn hfair
  | stop => exact absurd hj (h.stop _ _)
  | launch turn => exact h.launch_turn hlink hj turn hfair

/-! ## Calls -/

/-- All calls start the services, so they wait for jobs, report or have answered. -/
theorem Foretold.phase_cases (h : Foretold p c) (hf : c.Fits) {k : Nat} {call : Call t.size}
    (hk : c.calls[k]? = some call) : call.phase = .joining ∨
      (∃ left taken, call.phase = .reporting left taken) ∨
        ∃ report time, call.phase = .answered (.report report) time := by
  have ho := h.calls k call hk
  exact Operation.Reports.allows (by rw [ho]; trivial) (hf k call hk)

/-- The step of a call leads from one phase to another and sets nothing to work. -/
theorem Foretold.proceeds (h : Foretold p c) (hf : c.Fits) {k : Nat} {call : Call t.size}
    (hk : c.calls[k]? = some call) (hs : c.proceed now k call = some (c', effects)) :
    ∃ phase, c.Progresses now call phase ∧ c' = c.setCallPhase k phase := by
  rcases h.phase_cases hf hk with hp | ⟨left, taken, hp⟩ | ⟨_, _, hp⟩ <;> simp only [proceed, hp] at hs
  · split at hs
    next hfin =>
      obtain ⟨rfl, -⟩ := by simpa using hs
      exact ⟨_, .joined hp (List.all_eq_true.1 hfin), rfl⟩
    next => cases hs
  · cases left with
    | nil =>
        obtain ⟨rfl, -⟩ := by simpa using hs
        exact ⟨_, .reported hp, rfl⟩
    | cons s rest =>
        obtain ⟨rfl, -⟩ := by simpa using hs
        exact ⟨_, .read hp, rfl⟩
  · cases hs

/-- What is not a turn of a job is a new call, or a step of a call between two phases. -/
theorem Foretold.called (h : Foretold p c) (ht : t.Built) (hf : c.Fits)
    (ha : action.job? = none) (hfair : action.Fair p c)
    (hs : c.step now action = some (c', effects)) :
    (∃ order, t.startOrder = .ok order ∧ c' = ((c.arm.spawnStarts order).openCall .startAll
      ((List.range order.length).map (c.jobs.size + ·)) .joining).1) ∨
    ∃ (id : Nat) (call : Call t.size) (phase : CallPhase t.size), c.calls[id]? = some call ∧
      c.Progresses now call phase ∧ c' = c.setCallPhase id phase := by
  cases action with
  | invoke operation =>
      have ho : operation = .startAll := hfair
      obtain ⟨order, hstarts, -⟩ := ht.startOrder
      refine .inl ⟨order, hstarts, ?_⟩
      rw [step, Option.some.injEq, Prod.mk.injEq, ho, invoke, startAll, hstarts] at hs
      exact hs.1.symm
  | proceed k =>
      obtain ⟨call, hk, hs⟩ := Option.bind_eq_some_iff.1 hs
      obtain ⟨phase, hp, he⟩ := h.proceeds hf hk hs
      exact .inr ⟨k, call, phase, hk, hp, he⟩
  | interrupt k =>
      obtain ⟨call, hk, hs⟩ := Option.bind_eq_some_iff.1 hs
      rcases h.phase_cases hf hk with hp | ⟨_, _, hp⟩ | ⟨_, _, hp⟩ <;> simp [interrupt, hp] at hs
  | run | heed | timeout | answer => cases ha

theorem claims_spawned (services : List (Fin t.size)) (s : Fin t.size) (run : Nat) :
    weigh (Job.claims s) (services.map fun s => .start { service := s, run })
      = services.count s := by
  induction services with
  | nil => rfl
  | cons s' rest ih =>
      rw [List.map_cons, weigh_cons, ih, List.count_cons]
      by_cases hs : s' = s <;> simp [Job.claims, hs, Nat.add_comm]

/-- A start claims every service at once, before any of its jobs looks at a dependency. -/
theorem Foretold.start (h : Foretold p c) (ht : t.Built) {order : List (Fin t.size)}
    (ho : t.startOrder = .ok order) :
    Foretold p ((c.arm.spawnStarts order).openCall .startAll
      ((List.range order.length).map (c.jobs.size + ·)) .joining).1 := by
  have hsets := (@CallChange.start t 0 c order ho).sets
  obtain ⟨order', ho', -, hmem, -⟩ := ht.startOrder
  obtain rfl := Except.ok.inj (ho.symm.trans ho')
  generalize hd : ((c.arm.spawnStarts order).openCall .startAll
      ((List.range order.length).map (c.jobs.size + ·)) .joining).1 = d at hsets ⊢
  have hjobs : d.jobs = (c.spawn (order.map fun s =>
      .start { service := s, run := c.arm.currentRun })).jobs := by
    rw [← hd]
    exact (jobs_spawnStarts order).trans (jobs_spawn_congr (jobs_arm c) _)
  have hslot (s : Fin t.size) : d.slot s
      = { c.slot s with claims := (c.slot s).claims + order.count s } := by
    rw [← hd]
    exact (slot_spawnStarts order s).trans (by rw [slot_arm])
  have hsight (s : Fin t.size) : (d.slot s).sight = (c.slot s).sight := by rw [hslot]; rfl
  have hstate (s : Fin t.size) : (d.slot s).state = (c.slot s).state := by rw [hslot]
  -- The jobs of the new start have not looked at their services yet.
  have hold {i : Nat} {job : StartJob t.size} (hi : d.jobs[i]? = some (.start job))
      (hp : job.phase ≠ .arriving) : c.jobs[i]? = some (.start job) :=
    (hsets.start_cases hi).resolve_right fun hn => hp hn.2.1
  have howns {phase : StartPhase t.size} (ho : phase.Owns) : phase ≠ .arriving := by
    rintro rfl
    exact ho
  constructor
  case published => exact hsets.published h.published
  case policy =>
    have hconfig : d.config = c.config := hd ▸ (config_spawnStarts order).trans config_arm
    rw [hconfig]
    exact h.policy
  case calls =>
    intro k call hk
    rcases calls_openCall_cases (hd ▸ hk) with hk | ⟨-, rfl⟩
    · exact h.calls k call (by simpa using hk)
    · rfl
  case cancelled =>
    rw [← hd]
    exact (runs_spawnStarts order).2.trans (cancelledRuns_arm.trans h.cancelled)
  case stop =>
    intro i job hi
    rw [hjobs] at hi
    by_cases hlt : i < c.jobs.size
    · rw [jobs_spawn_of_lt _ hlt] at hi
      exact h.stop i job hi
    · rw [jobs_spawn_of_ge _ (Nat.not_lt.1 hlt)] at hi
      obtain ⟨s, -, hs⟩ := List.mem_map.1 (List.mem_of_getElem? hi)
      cases hs
  case slot =>
    intro s
    exact hsight s ▸ h.slot s
  case backs =>
    intro i job hi
    rcases hsets.start_cases hi with hi | ⟨-, hp, -⟩
    · exact h.backs hi
    · rw [hp]
      trivial
  case owner =>
    intro i job hi ho
    rw [hstate]
    exact h.owner (hold hi (howns ho)) ho
  case sole =>
    intro i i' job job' hi hi' hs ho ho'
    exact h.sole (hold hi (howns ho)) (hold hi' (howns ho')) hs ho ho'
  case owned =>
    intro s hs
    obtain ⟨i, job, hi, hjob⟩ := h.owned (hstate s ▸ hs)
    exact ⟨i, job, hsets.jobs_kept hi, hjob⟩
  case following =>
    intro i job hi hp
    rw [hstate]
    exact h.following (hold hi (by simp [hp])) hp
  case final =>
    intro i job hi hp
    rw [hsight]
    exact h.final (hold hi (by simp [hp])) hp
  case claimed =>
    intro i job hi hc
    rcases hsets.start_cases hi with hi | ⟨-, -, hclaimed, -⟩
    · exact h.claimed hi hc
    · rw [hc] at hclaimed
      cases hclaimed
  case claims =>
    intro s
    have htotal : d.total (Job.claims s) = c.total (Job.claims s) + order.count s := by
      rw [← claims_spawned order s c.arm.currentRun, ← total_spawn]
      simp only [total, hjobs]
    rw [hslot, htotal, h.claims]
  case all =>
    intro _ _ _ s
    obtain ⟨i, -, job, hi, hkind, hs⟩ := start_jobs (c := c) order (hmem s)
    cases job with
    | start job => exact ⟨i, job, hd ▸ hi, hs⟩
    | stop | launch => cases hkind
  case launches =>
    intro i l hl
    exact h.launches (hsets.launch_before hl)

theorem Foretold.progress (h : Foretold p c) {k : Nat} {call : Call t.size}
    {phase : CallPhase t.size} (hk : c.calls[k]? = some call) :
    Foretold p (c.setCallPhase k phase) := by
  refine h.frame (config_setCallPhase k phase) (?_)
    (cancelledRuns_setCallPhase k phase) (fun i job => by rw [jobs_setCallPhase]; exact h.stop i job)
    (fun s => slot_setCallPhase k phase s) (fun i job => by rw [jobs_setCallPhase])
    (fun s => by simp [total]) (fun i l hl => h.launches (by simpa using hl))
  intro i call' hi
  rcases calls_setCallPhase_cases hi with ⟨-, hi⟩ | ⟨old, rfl, hold, rfl⟩
  · exact h.calls i call' hi
  · exact h.calls i old hold

/-! ## Reports -/

/-- Once every service has been started, it shows its outcome. -/
theorem Foretold.ended (h : Foretold p c) (he : c.Ended .start) (s : Fin t.size) :
    (c.slot s).sight = p.outcome s := by
  obtain ⟨i, job, hi, hk, hs, hf⟩ := he s
  cases job with
  | start job => exact hs ▸ (h.final hi (Job.isFinished_start.1 hf)).symm
  | stop | launch => cases hk

end Controller

/-- What a report says a start came to: the name of the service, its state and its last error. -/
def Status.sight (status : Status) : ServiceId × ServiceState × Option Error :=
  (status.id, status.state, status.lastError)

namespace Controller

variable {p : Prospect t} {c c' : Controller t} {now : Nat} {action : Action}
  {effects : List Effect}

/-- Everything agrees with the prospect, and every call reports the outcomes. -/
structure Told (p : Prospect t) (c : Controller t) : Prop where
  foretold : Foretold p c
  linked : c.Linked
  fits : c.Fits
  calls : ReportsOn .start Status.sight (fun s => (t.id s, p.outcome s)) .startAll c

theorem told_fresh {config : Config} (h : config.retry.maxAttempts = p.attempts) :
    Told p (fresh t config) where
  foretold := foretold_fresh h
  linked := linked_fresh config
  fits := fits_fresh config
  calls k call hk := by simp [fresh] at hk

/-- **Everything foretold comes true**: no step that agrees with the prospect leads away from it. -/
theorem Told.step (h : Told p c) (ht : t.Built) (hfair : action.Fair p c)
    (hs : c.step now action = some (c', effects)) : Told p c' := by
  have hview (he : c.Ended .start) (s : Fin t.size) :
      (c.status s).sight = (t.id s, p.outcome s) := Prod.ext rfl (h.foretold.ended he s)
  cases ha : action.job? with
  | some id =>
      have turn := turnsTo_of_step ha hs
      exact ⟨h.foretold.turn ht h.linked turn hfair, h.linked.step hs, h.fits.step hs,
        h.calls.turn turn⟩
  | none =>
      have hlinked := h.linked.step hs
      have hfits := h.fits.step hs
      rcases h.foretold.called ht h.fits ha hfair hs with
        ⟨order, ho, rfl⟩ | ⟨id, call, phase, hk, hp, rfl⟩
      · refine ⟨h.foretold.start ht ho, hlinked, hfits, ?_⟩
        have change : CallChange now c .startAll _ := .start ho
        -- The new call waits for a job of each service, since the order has them all.
        apply h.calls.change trivial h.fits hview change
        intro call hk _
        obtain ⟨order', ho', -, hmem, -⟩ := ht.startOrder
        obtain rfl := Except.ok.inj (ho.symm.trans ho')
        have hsize : c.calls.size = (c.arm.spawnStarts order).calls.size := by simp
        rw [hsize, calls_openCall_size, Option.some.injEq] at hk
        subst hk
        exact ⟨fun s => start_jobs order (hmem s), fun hp => absurd rfl hp, trivial⟩
      · refine ⟨h.foretold.progress hk, hlinked, hfits, ?_⟩
        apply h.calls.change trivial h.fits hview (.progress hk hp)
        intro call hk _
        have hlt := (Array.getElem?_eq_some_iff.1 hk).1
        rw [size_calls_setCallPhase] at hlt
        exact absurd hlt (Nat.lt_irrefl _)

/-- **Whoever starts the services is told the outcomes.** Once a call has answered, its answer is a
report that shows the outcome of every service in the order of their start, and so do the slots. -/
theorem Told.report (h : Told p c) {k : CallId} {answer : Answer} {time : Nat}
    (ha : c.answer? k = some (answer, time)) :
    (∀ s, (c.slot s).sight = p.outcome s) ∧ ∃ report, answer = .report report ∧
      report.services.map Status.sight = (reportOrder t).map fun s => (t.id s, p.outcome s) := by
  obtain ⟨call, hk, ha⟩ := Option.bind_eq_some_iff.1 ha
  have ho := h.foretold.calls k call hk
  obtain ⟨hended, hreport⟩ := (h.calls k call hk ho).answer (by rw [ho]; trivial)
    (h.fits k call hk) ha
  exact ⟨h.foretold.ended hended, hreport⟩

end Controller

end Bringup.Lifecycle
