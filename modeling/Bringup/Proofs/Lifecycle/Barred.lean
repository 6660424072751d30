import Bringup.Proofs.Lifecycle.Anew
import Bringup.Proofs.Lifecycle.Histories
import Bringup.Proofs.Lifecycle.WaitOrder

/-!
# Services that no start gets to

Everything was cancelled: no service is starting, and each that was never started needs one that is not
ready. Then no start gets to any of them any more (`Barred`). The start jobs of a service that was never
started are refused for the first of its dependencies that is not ready, all others follow somebody who is
not there, and nobody asks anything outside (`HeldUp.turn`). So the services stay as they are, but for that
refusal (`Unmoved`), and it is what becomes of each of them that was never started (`Faces`).
-/

namespace Bringup.Lifecycle

variable {t : Topology}

namespace Controller

/-- Why a service that was never started is refused now: the first of its dependencies that is not
ready. -/
def refusal (c : Controller t) (s : Fin t.size) : Option Error :=
  ((t.dependencies s).find? fun d => (c.slot d).state ≠ .ready).map fun d =>
    .dependencyFailed (t.id s) (t.id d)

/-- How far a start job of the service gets that does not get to it. -/
def HeldUp (c : Controller t) (s : Fin t.size) : StartPhase t.size → Prop
  | .arriving | .following | .finished => True
  | .awaiting left => (c.slot s).state = .pending ∧ ∃ seen, t.dependencies s = seen ++ left ∧
    ∀ d ∈ seen, (c.slot d).state = .ready
  | .refusing error => (c.slot s).state = .pending ∧ c.refusal s = some error
  | _ => False

/-- No start gets to any service. -/
structure Barred (c : Controller t) : Prop where
  published : c.Published
  stop : ∀ (id : Nat) (job : StopJob t.size), c.jobs[id]? ≠ some (.stop job)
  idle : ∀ s, (c.slot s).state ≠ .starting ∧ (c.slot s).state ≠ .stopped
  /-- Who was never started needs somebody who is not ready. -/
  stuck : ∀ {s : Fin t.size}, (c.slot s).state = .pending →
    ∃ d ∈ t.dependencies s, (c.slot d).state ≠ .ready
  start : ∀ {id : Nat} {job : StartJob t.size}, c.jobs[id]? = some (.start job) →
    job.phase = .finished ∨ c.isCancelled job.run = false ∧ c.HeldUp job.service job.phase

/-- The services stay as they are, but that those which were never started may be refused. -/
structure Unmoved (c d : Controller t) : Prop where
  state : ∀ s, (d.slot s).state = (c.slot s).state
  transitions : ∀ s, (d.slot s).transitions = (c.slot s).transitions
  error : ∀ s, (d.slot s).lastError = (c.slot s).lastError ∨
    (c.slot s).state = .pending ∧ (d.slot s).lastError = c.refusal s

/-- The service was refused, or one of its start jobs is on its way there. -/
def Faces (c : Controller t) (s : Fin t.size) : Prop :=
  (c.slot s).lastError = c.refusal s ∨ ∃ (id : Nat) (job : StartJob t.size),
    c.jobs[id]? = some (.start job) ∧ job.service = s ∧ job.phase ≠ .following ∧
      job.phase ≠ .finished

/-- All start jobs have come to their ends. -/
def StartsEnded (c : Controller t) : Prop :=
  ∀ (id : Nat) (job : StartJob t.size), c.jobs[id]? = some (.start job) → job.phase = .finished

/-- What happens where no start gets to any service leaves it so. -/
structure Rests (c d : Controller t) : Prop where
  barred : Barred d
  unmoved : Unmoved c d
  faces : ∀ s, (c.slot s).state = .pending → Faces c s → Faces d s
  ended : StartsEnded c → StartsEnded d ∧ ∀ s, d.slot s = c.slot s

variable {c d : Controller t} {now : Nat} {id : JobId} {action : Action} {slot : Slot} {aside : Aside}
  {effects : List Effect} {s : Fin t.size}

/-! ## Services that stay as they are -/

theorem unmoved_of_slots (h : ∀ s, d.slot s = c.slot s) : Unmoved c d :=
  ⟨fun s => by rw [h], fun s => by rw [h], fun s => .inl (by rw [h])⟩

theorem Unmoved.refusal (h : Unmoved c d) (s : Fin t.size) : d.refusal s = c.refusal s := by
  unfold Controller.refusal
  simp only [h.state]

/-- Who was refused is so still. -/
theorem Unmoved.refused (h : Unmoved c d) (he : (c.slot s).lastError = c.refusal s) :
    (d.slot s).lastError = d.refusal s := by
  rw [h.refusal, ← he]
  exact (h.error s).elim id fun hr => hr.2.trans he.symm

/-- A turn that leaves the service of its job as it is leaves all as they are. -/
theorem unmoved_after {new : Job t.size} (hstate : slot.state = (c.slot s).state)
    (htransitions : slot.transitions = (c.slot s).transitions)
    (herror : slot.lastError = (c.slot s).lastError ∨
      (c.slot s).state = .pending ∧ slot.lastError = c.refusal s) :
    Unmoved c (c.after id new s slot aside) := by
  have hself : (c.after id new s slot aside).slot s = slot := slot_after_self
  have hother {s' : Fin t.size} (hs : s' ≠ s) :
      (c.after id new s slot aside).slot s' = c.slot s' := slot_after_of_ne hs
  constructor <;> intro s' <;> by_cases hs : s' = s <;> simp_all

theorem HeldUp.congr {phase : StartPhase t.size} (h : c.HeldUp s phase) (hu : Unmoved c d) :
    d.HeldUp s phase := by
  cases phase with
  | arriving | following | finished => trivial
  | awaiting left =>
      obtain ⟨hp, seen, he, hseen⟩ := h
      exact ⟨(hu.state s).trans hp, seen, he, fun d hd => (hu.state d).trans (hseen d hd)⟩
  | refusing => exact ⟨(hu.state s).trans h.1, (hu.refusal s).trans h.2⟩
  | _ => exact h.elim

/-- No start gets to any service as long as these stay as they are, whatever start jobs are new. -/
theorem Barred.congr (h : Barred c) (hu : Unmoved c d) (hpublished : d.Published)
    (hstop : ∀ (id : Nat) (job : StopJob t.size), d.jobs[id]? ≠ some (.stop job))
    (hstart : ∀ {id : Nat} {job : StartJob t.size}, d.jobs[id]? = some (.start job) →
      job.phase = .finished ∨ d.isCancelled job.run = false ∧ c.HeldUp job.service job.phase) :
    Barred d where
  published := hpublished
  stop := hstop
  idle s := by
    rw [hu.state]
    exact h.idle s
  stuck {s} hp := by
    obtain ⟨d', hd, hn⟩ := h.stuck ((hu.state s).symm.trans hp)
    exact ⟨d', hd, by rwa [hu.state]⟩
  start hj := (hstart hj).imp_right (And.imp_right fun hheld => hheld.congr hu)

/-! ## Turns -/

/-- What comes of the turn of a start job that does not get to its service. -/
structure Rebuffs (c : Controller t) (s : Fin t.size) (phase phase' : StartPhase t.size) (slot : Slot)
    (aside : Aside) (effects : List Effect) : Prop where
  quiet : effects = []
  aside : aside = .nothing
  heldUp : c.HeldUp s phase'
  state : slot.state = (c.slot s).state
  transitions : slot.transitions = (c.slot s).transitions
  error : slot.lastError = (c.slot s).lastError ∨
    (c.slot s).state = .pending ∧ slot.lastError = c.refusal s
  following : phase' = .following → (c.slot s).state ≠ .pending
  finished : phase' = .finished → phase = .following ∨ slot.lastError = c.refusal s

/-- Who has seen some of the dependencies ready goes on to the others. -/
theorem Barred.await (h : Barred c) {job : StartJob t.size} {seen left : List (Fin t.size)}
    (hp : (c.slot job.service).state = .pending) (he : t.dependencies job.service = seen ++ left)
    (hseen : ∀ d ∈ seen, (c.slot d).state = .ready) : (job.await left).phase = .awaiting left ∧
      c.HeldUp job.service (.awaiting left) := by
  have hleft : left ≠ [] := by
    rintro rfl
    obtain ⟨d, hd, hn⟩ := h.stuck hp
    rw [he, List.append_nil] at hd
    exact hn (hseen d hd)
  exact ⟨by rw [StartJob.phase_await, if_neg hleft], hp, seen, he, hseen⟩

/-- Who has seen all dependencies ready before one that is not is refused for that one. -/
theorem refusal_eq_some {seen rest : List (Fin t.size)} {d : Fin t.size}
    (he : t.dependencies s = seen ++ d :: rest) (hseen : ∀ d ∈ seen, (c.slot d).state = .ready)
    (hd : (c.slot d).state ≠ .ready) :
    c.refusal s = some (.dependencyFailed (t.id s) (t.id d)) := by
  have hnone : seen.find? (fun d => (c.slot d).state ≠ .ready) = none :=
    List.find?_eq_none.2 fun d hm => by simpa using hseen d hm
  rw [refusal, he, List.find?_append, hnone, Option.none_or, List.find?_cons_of_pos (by simpa using hd)]
  rfl

/-- **The turn of a start job** does not get it to its service, and asks nobody anything. -/
theorem HeldUp.turn {job job' : StartJob t.size} (hb : Barred c)
    (turn : StartTurn c now id job action job' slot aside effects)
    (hc : c.isCancelled job.run = false) (h : c.HeldUp job.service job.phase) :
    Rebuffs c job.service job.phase job'.phase slot aside effects := by
  have hstays (phase : StartPhase t.size) (hheld : c.HeldUp job.service phase)
      (hf : phase = .following → (c.slot job.service).state ≠ .pending)
      (hfinished : phase = .finished → job.phase = .following) :
      Rebuffs c job.service job.phase phase (c.slot job.service) .nothing [] :=
    ⟨rfl, rfl, hheld, rfl, rfl, .inl rfl, hf, fun he => .inl (hfinished he)⟩
  cases turn with
  | arrive hp hs =>
      have hpend : (c.slot job.service).state = .pending := by
        have hidle := (hb.idle job.service).2
        cases hstate : (c.slot job.service).state <;> simp_all [ServiceState.isStartable]
      obtain ⟨he, hheld⟩ := hb.await hpend (List.nil_append _).symm (by simp)
      rw [he]
      exact hstays _ hheld (by simp) (by simp)
  | follow _ hs =>
      refine ⟨rfl, rfl, trivial, StartJob.state_unclaim _ _, StartJob.transitions_unclaim _ _,
        .inl (StartJob.lastError_unclaim _ _), fun _ hpend => hs ?_, by simp [StartJob.follow]⟩
      rw [hpend]
      rfl
  | cease hp =>
      exact ⟨rfl, rfl, trivial, StartJob.state_unclaim _ _, StartJob.transitions_unclaim _ _,
        .inl (StartJob.lastError_unclaim _ _), by simp [StartJob.finish], fun _ => .inl hp⟩
  | pass hp =>
      rw [hp] at h
      obtain ⟨hpend, seen, he, hseen⟩ := h
      obtain ⟨d, hd, hn⟩ := hb.stuck hpend
      rw [he, List.append_nil] at hd
      exact absurd (hseen d hd) hn
  | @accept d rest hp _ hd =>
      rw [hp] at h
      obtain ⟨hpend, seen, he, hseen⟩ := h
      have he' : t.dependencies job.service = (seen ++ [d]) ++ rest := by simp [he]
      obtain ⟨hphase, hheld⟩ := hb.await hpend he' fun d' hm => by
        rcases List.mem_append.1 hm with hm | hm
        · exact hseen d' hm
        · exact List.mem_singleton.1 hm ▸ (hb.published d).symm.trans hd
      rw [hphase]
      exact hstays _ hheld (by simp) (by simp)
  | decline hp _ hd =>
      rw [hp] at h
      obtain ⟨hpend, seen, he, hseen⟩ := h
      rw [hb.published] at hd
      exact hstays (.refusing _) ⟨hpend, refusal_eq_some he hseen hd⟩ (by simp) (by simp)
  | @refuse error hp =>
      rw [hp] at h
      obtain ⟨hpend, hrefusal⟩ := h
      have hrecord : (c.slot job.service).recordIfStartable error
          = (c.slot job.service).record error := if_pos (by rw [hpend]; rfl)
      have herror : (job.unclaim ((c.slot job.service).recordIfStartable error)).lastError
          = c.refusal job.service := by
        rw [StartJob.lastError_unclaim, hrecord, hrefusal]
        rfl
      refine ⟨rfl, rfl, trivial, ?_, ?_, .inr ⟨hpend, herror⟩, by simp [StartJob.finish], fun _ => .inr herror⟩
      · rw [StartJob.state_unclaim, hrecord]
        rfl
      · rw [StartJob.transitions_unclaim, hrecord]
        rfl
  | giveUp _ hc' | abandon _ hc' | forgo _ hc' | heed _ hc' | heedProbe _ hc' =>
      rw [hc] at hc'
      cases hc'
  | enter hp | enterBare hp | collect hp | lose hp | record hp | discard hp | ask hp | conclude hp
  | wake hp | overrun hp | bind hp | bindLast hp | miss hp | ready hp | retry hp | discarded hp
  | kill hp =>
      rw [hp] at h
      exact h.elim

theorem Barred.start_turn {job job' : StartJob t.size} (h : Barred c)
    (hj : c.jobs[id]? = some (.start job))
    (turn : StartTurn c now id job action job' slot aside effects) :
    Rebuffs c job.service job.phase job'.phase slot aside effects := by
  obtain ⟨hc, hheld⟩ := (h.start hj).resolve_left turn.phase_ne_finished
  exact hheld.turn h turn hc

/-- **The turn of a job** leaves the services as they are, and none of those that were never started
goes without its refusal. -/
theorem Barred.turn (h : Barred c) (ht : TurnsTo c now id action d effects) : Rests c d := by
  have hpublished := h.published.turn ht
  obtain ⟨old, new, slot, aside, hj, turn, rfl⟩ := ht
  have hid := lt_size_of_job hj
  have hcancelled (run : Nat) :
      (c.after id new old.service slot aside).isCancelled run = c.isCancelled run := by
    rw [isCancelled, cancelledRuns_after, isCancelled]
  cases turn with
  | stop => exact absurd hj (h.stop _ _)
  | @launch l phase _ _ turn =>
      have hu : Unmoved c (c.after id (.launch { l with phase }) l.service (c.slot l.service)
        .nothing) := unmoved_after rfl rfl (.inl rfl)
      refine ⟨h.congr hu hpublished (fun i job hi => h.stop i job (stop_of_after hid (by simp) hi))
        fun hi => ?_, hu, fun s _ hfaces => ?_, fun hended => ⟨fun i job hi => ?_, fun s => ?_⟩⟩
      · rw [hcancelled]
        exact h.start (start_of_after hid (by simp) hi)
      · refine hfaces.imp hu.refused ?_
        rintro ⟨i, job, hi, hjob⟩
        refine ⟨i, job, start_after_of_ne ?_ hi, hjob⟩
        rintro rfl
        cases hj.symm.trans hi
      · exact hended i job (start_of_after hid (by simp) hi)
      · by_cases hs : s = l.service
        · subst hs
          exact slot_after_self
        · exact slot_after_of_ne hs
  | @start job job' _ slot _ _ turn =>
      obtain ⟨rfl, rfl, hheld, hstate, htransitions, herror, hfollowing, hfinished⟩ :=
        h.start_turn hj turn
      have hu : Unmoved c (c.after id (.start job') job.service slot .nothing) :=
        unmoved_after hstate htransitions herror
      have hsame := turn.same
      have hopen : job.phase ≠ .finished := turn.phase_ne_finished
      refine ⟨h.congr hu hpublished (fun i stop hi => h.stop i stop (stop_of_after hid (by simp) hi))
        fun hi => ?_, hu, fun s hp hfaces => ?_, fun hended => absurd (hended _ _ hj) hopen⟩
      · rw [hcancelled]
        rcases start_after_start_cases hid hi with ⟨rfl, rfl⟩ | ⟨-, hi⟩
        · rw [hsame.1, hsame.2]
          exact .inr ⟨((h.start hj).resolve_left hopen).1, hheld⟩
        · exact h.start hi
      · rcases hfaces with he | ⟨i, other, hi, rfl, hnot, hunended⟩
        · exact .inl (hu.refused he)
        · by_cases hne : i = id
          · subst hne
            obtain rfl := Job.start.inj (Option.some.inj (hj.symm.trans hi))
            by_cases hf : job'.phase = .finished
            · refine .inl ?_
              show ((c.after i (.start job') job.service slot .nothing).slot job.service).lastError = _
              rw [slot_after_self]
              exact ((hfinished hf).resolve_left hnot).trans (hu.refusal _).symm
            · exact .inr ⟨i, job', jobs_after_self hid, hsame.1,
                fun he => hfollowing he hp, hf⟩
          · exact .inr ⟨i, other, start_after_of_ne hne hi, rfl, hnot, hunended⟩

/-! ## Calls -/

/-- A change that leaves jobs and services alone. -/
theorem Barred.alone (h : Barred c) (hslots : ∀ s, d.slot s = c.slot s) (hjobs : d.jobs = c.jobs)
    (hcancelled : d.cancelledRuns = c.cancelledRuns) : Rests c d := by
  have hu : Unmoved c d := unmoved_of_slots hslots
  refine ⟨h.congr hu (fun s => hslots s ▸ h.published s) (fun id job => hjobs ▸ h.stop id job)
    fun hj => ?_, hu, fun s _ hfaces => ?_, fun hended => ⟨fun id job hj => hended id job (hjobs ▸ hj), hslots⟩⟩
  · rw [isCancelled, hcancelled]
    exact h.start (hjobs ▸ hj)
  · refine hfaces.imp hu.refused ?_
    rintro ⟨id, job, hj, hjob⟩
    exact ⟨id, job, hjobs ▸ hj, hjob⟩

theorem Barred.setCallPhase (h : Barred c) (k : CallId) (phase : CallPhase t.size) :
    Rests c (c.setCallPhase k phase) :=
  h.alone (fun s => slot_setCallPhase _ _ s) (jobs_setCallPhase _ _) (cancelledRuns_setCallPhase _ _)

/-- A cancel finds nobody starting. -/
theorem Barred.sweep (h : Barred c) (now : Nat) (k : CallId) (s : Fin t.size) (target : ServiceState)
    (error : Option Error) (phase : CallPhase t.size) :
    Rests c ((c.setSlot s ((c.slot s).leaveStarting now target error)).setCallPhase k phase) := by
  have hstays : (c.slot s).leaveStarting now target error = c.slot s := if_neg (h.idle s).1
  have hset : c.setSlot s (c.slot s) = c := by simp [setSlot, slot]
  rw [hstays, hset]
  exact h.setCallPhase k phase

/-- A cancel that is called where no start job is under way changes nothing. -/
theorem Barred.cancel (h : Barred c) (hended : StartsEnded c) : Barred c.cancel.1 :=
  h.congr (unmoved_of_slots fun _ => rfl) h.published h.stop fun hj => .inl (hended _ _ hj)

/-- **A start that is called** does not get to any service, but each that was never started is refused
once more. -/
theorem Barred.startAll (h : Barred c) (hs : StartsAll c d) (hopened : c.cancelledRuns ≤ c.arm.currentRun) :
    Barred d ∧ Unmoved c d ∧ ∀ s, Faces d s := by
  have hu : Unmoved c d := by
    refine ⟨fun s => ?_, fun s => ?_, fun s => .inl ?_⟩ <;> obtain ⟨claims, he⟩ := hs.slot s <;> rw [he]
  have hcancelled (run : Nat) : d.isCancelled run = c.isCancelled run := by
    rw [isCancelled, hs.cancelled, isCancelled]
  have hpublished (s : Fin t.size) : (d.slot s).Published := by
    obtain ⟨claims, he⟩ := hs.slot s
    exact he ▸ h.published s
  refine ⟨h.congr hu hpublished (fun id job hj => ?_) fun {id job} hj => ?_, hu, fun s => .inr ?_⟩
  · rcases hs.new hj with hj | ⟨-, s, he⟩
    · exact h.stop id job hj
    · cases he
  · rw [hcancelled]
    rcases hs.new hj with hj | ⟨-, s, he⟩
    · exact h.start hj
    · obtain rfl := Job.start.inj he
      exact .inr ⟨by simpa [isCancelled] using hopened, trivial⟩
  · obtain ⟨id, -, hj⟩ := hs.all s
    exact ⟨id, _, hj, rfl, by simp, by simp⟩

/-- **Where nothing happens by itself** all start jobs are at their ends. -/
theorem Barred.startsEnded (h : Barred c) (ht : t.Built) (hproper : AllProper c) (hcounts : Counts c)
    (hrun : ∀ id, c.step now (.run id) = none) (hheed : ∀ id, c.step now (.heed id) = none) :
    StartsEnded c := by
  intro id job hj
  refine starts_finished_of_waits ht hproper hcounts (fun {id job} hj => ?_) hj
  rcases h.start hj with hf | ⟨-, hheld⟩
  · exact .inl hf
  · cases startBlock_of_stuck hj (hrun id) (hheed id) with
    | following hp _ hs => exact .inr (.inl ⟨hp, hs⟩)
    | dependency hp _ hs =>
        exact .inr (.inr ⟨_, (hproper id _ hj).2.1 _ hp List.mem_cons_self, hs⟩)
    | finished hp => exact .inl hp
    | store hp | launch hp | halt hp | pause hp | probe hp =>
        rw [hp] at hheld
        exact hheld.elim

/-- Each service that was never started has been refused then, if it was to be. -/
theorem Faces.refused (h : Faces c s) (hended : StartsEnded c) :
    (c.slot s).lastError = c.refusal s := by
  rcases h with he | ⟨id, job, hj, -, -, hopen⟩
  · exact he
  · exact absurd (hended _ _ hj) hopen

end Controller

end Bringup.Lifecycle
