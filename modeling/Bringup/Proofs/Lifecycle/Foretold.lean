import Bringup.Proofs.Lifecycle.Reference
import Bringup.Proofs.Lifecycle.SingleInstance

/-!
# A start comes to what it has to come to

Runs in which every call starts the services, and in which every answer from outside is the one that
a prospect has in store (`Action.Fair`). The invariant `Foretold` says of every start job that what it
has found out so far agrees with the prospect, and of every slot that it shows the outcome or is on
its way there. Whoever waits for a dependency goes on only when it is settled, and a claim is held on
it until then; so nobody looks an instant too early (`Foretold.backs_turn`).
-/

namespace Bringup.Lifecycle

open Container (Handle)

variable {t : Topology}

/-! ## What is foretold -/

/-- State and last error of a service. -/
def Slot.sight (slot : Slot) : ServiceState × Option Error := (slot.state, slot.lastError)

namespace Prospect

variable (p : Prospect t) (s : Fin t.size)

/-- What a start job of the service has found out at a phase agrees with the prospect. -/
def Backs : StartPhase t.size → Prop
  | .arriving | .following | .finished => True
  | .awaiting left => ∃ seen, t.dependencies s = seen ++ left ∧ ∀ d ∈ seen, d ∈ p.ready
  | .refusing error => p.outcome s = (.pending, some error)
  | .entering => p.blocker? s = none
  | .attaching left => ∃ bound, t.volumesOf s = bound ++ left ∧
      ∀ volume ∈ bound, (p.fate s).refuses volume = none
  | .launching _ => p.Bound s
  | .recording handle => p.Started s handle
  | .pausing handle attempt _ | .asking handle attempt | .probing handle attempt =>
    p.Started s handle ∧ p.Untold s attempt
  | .concluding .ready => p.trial s = none
  | .concluding (.failed error) => p.trial s = some error
  | .concluding (.cancelled _) | .discarding .. => False

/-- A service shows the outcome, or what it shows on its way there. -/
def Admits : ServiceState × Option Error → Prop
  | (.pending, error) => error = none ∨ p.outcome s = (.pending, error)
  | (.starting, error) => error = none ∧ p.blocker? s = none
  | sight => p.outcome s = sight

/-- What a launch has returned agrees with the prospect. -/
def Launches (l : Launch t.size) : Prop :=
  match l.phase with
  | .returned result => (p.fate l.service).Starts (t.id l.service) result
  | .halting .. => False
  | _ => True

end Prospect

/-- The reply is what the prospect has in store for the job, if it is one that the job takes. -/
def Job.Takes (p : Prospect t) : Job t.size → Reply → Prop
  | .launch l, .container (.start result) => (p.fate l.service).Starts (t.id l.service) result
  | .start job, .container (.probe found) => ∀ (handle : Handle) (attempt : UInt32),
    job.phase = .probing handle attempt → found = (p.fate job.service).probe (attempt.toNat - 1)
  | .start job, .volume result => ∀ (volume : Volume) (rest : List Volume),
    job.phase = .attaching (volume :: rest) → (p.fate job.service).Binds volume result
  | _, _ => True

/-- The action is a start that somebody calls, an answer that the prospect has in store, or a step of
the controller's own. -/
def Action.Fair (p : Prospect t) (c : Controller t) : Action → Prop
  | .invoke operation => operation = .startAll
  | .answer id reply => ∀ job, c.jobs[id]? = some job → job.Takes p reply
  | _ => True

/-- Counts the claims that a job holds on a service. -/
def Job.claims {n : Nat} (s : Fin n) : Job n → Nat
  | .start job => if job.service = s ∧ job.claimed then 1 else 0
  | _ => 0

namespace Controller

/-- Everything so far agrees with the prospect. -/
structure Foretold (p : Prospect t) (c : Controller t) : Prop where
  published : c.Published
  policy : c.config.retry.maxAttempts = p.attempts
  calls : ∀ (k : Nat) (call : Call t.size), c.calls[k]? = some call → call.operation = .startAll
  cancelled : c.cancelledRuns = 0
  stop : ∀ (id : Nat) (job : StopJob t.size), c.jobs[id]? ≠ some (.stop job)
  slot : ∀ s, p.Admits s (c.slot s).sight
  backs : ∀ {id : Nat} {job : StartJob t.size}, c.jobs[id]? = some (.start job) →
    p.Backs job.service job.phase
  /-- A start job owns its service while it is starting, and nobody else does. -/
  owner : ∀ {id : Nat} {job : StartJob t.size}, c.jobs[id]? = some (.start job) →
    job.phase.Owns → (c.slot job.service).state = .starting
  sole : ∀ {id id' : Nat} {job job' : StartJob t.size}, c.jobs[id]? = some (.start job) →
    c.jobs[id']? = some (.start job') → job.service = job'.service → job.phase.Owns →
    job'.phase.Owns → id = id'
  owned : ∀ {s : Fin t.size}, (c.slot s).state = .starting → ∃ (id : Nat) (job : StartJob t.size),
    c.jobs[id]? = some (.start job) ∧ job.service = s ∧ job.phase.Owns
  following : ∀ {id : Nat} {job : StartJob t.size}, c.jobs[id]? = some (.start job) →
    job.phase = .following → (c.slot job.service).state ≠ .pending
  /-- Once a start job is at its end, the service shows the outcome. -/
  final : ∀ {id : Nat} {job : StartJob t.size}, c.jobs[id]? = some (.start job) →
    job.phase = .finished → p.outcome job.service = (c.slot job.service).sight
  claimed : ∀ {id : Nat} {job : StartJob t.size}, c.jobs[id]? = some (.start job) →
    job.claimed = false → job.phase = .following ∨ job.phase = .finished
  claims : ∀ s, (c.slot s).claims = c.total (Job.claims s)
  /-- Where one service has a start job, all have. -/
  all : ∀ {id : Nat} {job : StartJob t.size}, c.jobs[id]? = some (.start job) → ∀ s,
    ∃ (id' : Nat) (job' : StartJob t.size), c.jobs[id']? = some (.start job') ∧ job'.service = s
  launches : ∀ {id : Nat} {l : Launch t.size}, c.jobs[id]? = some (.launch l) →
    l.orphaned = false ∧ p.Launches l

theorem foretold_fresh {p : Prospect t} {config : Config}
    (h : config.retry.maxAttempts = p.attempts) : Foretold p (fresh t config) where
  published := published_fresh config
  policy := h
  calls k call hk := by simp [fresh] at hk
  cancelled := rfl
  stop id job := by simp [fresh]
  slot s := by simp [fresh, Controller.slot, Slot.sight, Prospect.Admits]
  backs h := by simp [fresh] at h
  owner h := by simp [fresh] at h
  sole h := by simp [fresh] at h
  owned h := by simp [fresh, Controller.slot] at h
  following h := by simp [fresh] at h
  final h := by simp [fresh] at h
  claimed h := by simp [fresh] at h
  claims s := by simp [fresh, Controller.slot, total]
  all h := by simp [fresh] at h
  launches h := by simp [fresh] at h

end Controller

/-! ## What a service shows -/

namespace Prospect

variable {p : Prospect t} {s : Fin t.size}

theorem admits_outcome (p : Prospect t) (s : Fin t.size) : p.Admits s (p.outcome s) := by
  have h := p.outcome_state s
  rcases ho : p.outcome s with ⟨state, error⟩
  rw [ho] at h
  cases state with
  | starting => simp at h
  | pending => exact .inr ho
  | _ => exact ho

/-- What is shown is the outcome, once the service is no longer pending or starting. -/
theorem Admits.eq_outcome {slot : Slot} (h : p.Admits s slot.sight) (hp : slot.state ≠ .pending)
    (hs : slot.state ≠ .starting) : p.outcome s = slot.sight := by
  obtain ⟨state, published, handle, error, transitions, claims⟩ := slot
  cases state with
  | pending => exact absurd rfl hp
  | starting => exact absurd rfl hs
  | _ => exact h

theorem Admits.starting {slot : Slot} (h : p.Admits s slot.sight) (hs : slot.state = .starting) :
    slot.lastError = none ∧ p.blocker? s = none := by
  rw [Slot.sight, hs] at h
  exact h

/-- A service that can be started is pending. -/
theorem Admits.pending {slot : Slot} (h : p.Admits s slot.sight) (hs : slot.state.isStartable) :
    slot.state = .pending := by
  obtain ⟨state, published, handle, error, transitions, claims⟩ := slot
  cases state with
  | pending => rfl
  | stopped =>
      have ho : p.outcome s = (.stopped, error) := h
      have := p.outcome_state s
      rw [ho] at this
      simp at this
  | _ => cases hs

/-- A service whose outcome is to be refused is pending. -/
theorem Admits.pending_of_refused {slot : Slot} {error : Error} (h : p.Admits s slot.sight)
    (hr : p.outcome s = (.pending, some error)) : slot.state = .pending := by
  refine Classical.byContradiction fun hn => ?_
  by_cases hs : slot.state = .starting
  · have houtcome := p.outcome_state s
    rw [hr] at houtcome
    simp [(h.starting hs).2] at houtcome
  · have hshown := h.eq_outcome hn hs
    rw [hr] at hshown
    exact hn (congrArg Prod.fst hshown).symm

/-- A service that shows its outcome is ready just if it is to get ready. -/
theorem shown_ready (ht : t.Built) {slot : Slot}
    (h : p.outcome s = slot.sight) : slot.state = .ready ↔ s ∈ p.ready := by
  rw [← outcome_ready ht, h]
  rfl

/-- A job that has found the dependencies before the rest of them ready goes on to the rest. -/
theorem backs_await {job : StartJob t.size} {seen rest : List (Fin t.size)}
    (he : t.dependencies job.service = seen ++ rest) (hseen : ∀ d ∈ seen, d ∈ p.ready) :
    p.Backs job.service (job.await rest).phase := by
  rw [StartJob.phase_await]
  split
  next hnil =>
    rw [hnil, List.append_nil] at he
    exact blocker?_eq_none.2 (he ▸ hseen)
  next => exact ⟨seen, he, hseen⟩

end Prospect

namespace Controller

variable {p : Prospect t} {c c' : Controller t} {now : Nat} {id : JobId} {action : Action}
  {slot : Slot} {aside : Aside} {effects : List Effect}

theorem Foretold.isCancelled (h : Foretold p c) (run : Nat) : c.isCancelled run = false := by
  simp [Controller.isCancelled, h.cancelled]

theorem Foretold.claimed_of_owns (h : Foretold p c) {id : Nat} {job : StartJob t.size}
    (hj : c.jobs[id]? = some (.start job)) (ho : job.phase.Owns) : job.claimed := by
  refine Classical.byContradiction fun hn => ?_
  rcases h.claimed hj (by simpa using hn) with he | he <;> rw [he] at ho <;> exact ho

/-- **A settled service shows its outcome.** Once no claim is held on a service, it does. -/
theorem Foretold.settled (h : Foretold p c) {id : Nat} {job : StartJob t.size}
    (hj : c.jobs[id]? = some (.start job)) {s : Fin t.size} (hn : (c.slot s).claims = 0) :
    p.outcome s = (c.slot s).sight := by
  have hnone {i : Nat} {k : StartJob t.size} (hi : c.jobs[i]? = some (.start k))
      (hs : k.service = s) : k.claimed = false := by
    refine Classical.byContradiction fun hc => ?_
    have := le_total (Job.claims s) hi
    rw [← h.claims, hn] at this
    simp [Job.claims, hs, hc] at this
  obtain ⟨i, k, hi, hs⟩ := h.all hj s
  rcases h.claimed hi (hnone hi hs) with hp | hp
  · apply (h.slot s).eq_outcome (hs ▸ h.following hi hp)
    intro hst
    obtain ⟨i', k', hi', hs', ho⟩ := h.owned hst
    have := h.claimed_of_owns hi' ho
    rw [hnone hi' hs'] at this
    cases this
  · exact hs ▸ h.final hi hp

/-- What a launch has returned is what the prospect has in store for the service of its job. -/
theorem Foretold.starts (h : Foretold p c) (hlink : c.Linked) {job : StartJob t.size}
    (hj : c.jobs[id]? = some (.start job)) {launch : JobId} (hp : job.phase = .launching launch)
    {l : Launch t.size} {result : Except Container.Error Handle}
    (hl : c.jobs[launch]? = some (.launch l)) (hr : l.phase = .returned result) :
    (p.fate job.service).Starts (t.id job.service) result := by
  obtain ⟨l', hl', hs, -⟩ := hlink.launch hj (show job.phase.launch? = some launch by rw [hp]; rfl)
  obtain rfl := Job.launch.inj (Option.some.inj (hl.symm.trans hl'))
  have hreturned := (h.launches hl).2
  rw [Prospect.Launches, hr, hs] at hreturned
  exact hreturned

/-- What a start job finds out in a turn agrees with the prospect. -/
theorem Foretold.backs_turn (h : Foretold p c) (ht : t.Built) (hlink : c.Linked)
    {job job' : StartJob t.size} (hj : c.jobs[id]? = some (.start job))
    (turn : StartTurn c now id job action job' slot aside effects) (hfair : action.Fair p c) :
    p.Backs job.service job'.phase := by
  have hb := h.backs hj
  cases turn with
  | arrive => exact Prospect.backs_await (List.nil_append _).symm (by simp)
  | follow | cease | refuse | forgo | conclude | discarded => trivial
  | pass hp =>
      rw [hp] at hb
      obtain ⟨seen, he, hseen⟩ := hb
      rw [List.append_nil] at he
      exact Prospect.blocker?_eq_none.2 (he ▸ hseen)
  | giveUp hp hc | abandon hp hc | heed hp hc | heedProbe hp hc =>
      rw [h.isCancelled] at hc
      cases hc
  | @accept d rest hp hc hd =>
      rw [hp] at hb
      obtain ⟨seen, he, hseen⟩ := hb
      rw [h.published d] at hd
      have hshown := (h.slot d).eq_outcome (by rw [hd]; simp) (by rw [hd]; simp)
      have hmem := (Prospect.shown_ready ht hshown).1 hd
      have he' : t.dependencies job.service = (seen ++ [d]) ++ rest := by simp [he]
      apply Prospect.backs_await he'
      intro d' hd'
      rcases List.mem_append.1 hd' with hd' | hd'
      · exact hseen d' hd'
      · exact List.mem_singleton.1 hd' ▸ hmem
  | @decline d rest hp hc hd hn =>
      rw [hp] at hb
      obtain ⟨seen, he, hseen⟩ := hb
      rw [h.published d] at hd
      -- No claim is held on the dependency any more, so what it shows is its outcome.
      have hmem : d ∉ p.ready := mt (Prospect.shown_ready ht (h.settled hj hn)).2 hd
      exact Prospect.outcome_of_blocker (Prospect.blocker?_eq_some he hseen hmem)
  | enter hp hc hs hv => exact ⟨[], hv, by simp⟩
  | enterBare hp hc hs hv =>
      intro volume hm
      rw [hv] at hm
      cases hm
  | @collect launch l handle hp hc hl hr =>
      rw [hp] at hb
      exact ⟨hb, h.starts hlink hj hp hl hr⟩
  | @lose launch l error hp hc hl hr =>
      rw [hp] at hb
      exact Prospect.trial_start hb (h.starts hlink hj hp hl hr)
  | record hp hs =>
      rw [hp] at hb
      exact ⟨hb, Prospect.untold_one (h.policy ▸ c.config.retry.maxAttempts_pos)⟩
  | discard hp hs => exact absurd (h.owner hj (by rw [hp]; trivial)) hs
  | ask hp | wake hp | overrun hp | kill hp =>
      rw [hp] at hb
      exact hb
  | @bind volume next rest answer hp =>
      rw [hp] at hb
      obtain ⟨bound, he, hbound⟩ := hb
      refine ⟨bound ++ [volume], by simp [he], ?_⟩
      intro v hv
      rcases List.mem_append.1 hv with hv | hv
      · exact hbound v hv
      · exact List.mem_singleton.1 hv ▸ hfair _ hj volume (next :: rest) hp
  | @bindLast volume answer hp =>
      rw [hp] at hb
      obtain ⟨bound, he, hbound⟩ := hb
      intro v hv
      rw [he] at hv
      rcases List.mem_append.1 hv with hv | hv
      · exact hbound v hv
      · exact List.mem_singleton.1 hv ▸ hfair _ hj volume [] hp
  | @miss volume rest error hp =>
      rw [hp] at hb
      obtain ⟨bound, he, hbound⟩ := hb
      exact Prospect.trial_volume he hbound (hfair _ hj volume rest hp)
  | ready hp =>
      rw [hp] at hb
      exact Prospect.trial_ready hb.1 hb.2 (hfair _ hj _ _ hp).symm
  | @retry handle attempt probe hp hr =>
      rw [hp] at hb
      have hn := hfair _ hj _ _ hp ▸ hr
      rcases c.retryPhase_cases now job.service handle attempt with
        ⟨hlt, deadline, he⟩ | ⟨hlast, he⟩ <;> simp only [StartJob.goTo, he]
      · exact ⟨hb.1, hb.2.succ (h.policy ▸ hlt) hn⟩
      · rw [h.policy] at hlast ⊢
        exact Prospect.trial_timeout hb.1 hb.2 hlast hn

end Controller

end Bringup.Lifecycle
