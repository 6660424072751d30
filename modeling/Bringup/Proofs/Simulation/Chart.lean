import Bringup.Proofs.Simulation.InStep

/-!
# What the pace shows of a start

With every service in step, all that there is to see of it in a lull is on the chart of the pace
(`Charted`): the moves and the calls to the engine that are due by now, and an error if the service has
come to one. So a service that is to be started does not wait in a lull whose time has come
(`InStep.until_leave`), nor does one that is refused once what it waited for is settled
(`InStep.unsettled`).
-/

namespace Bringup.Simulation

open Lifecycle
open Engine.Scripted (Entry)

variable {t : Topology}

/-! ## The calls of a service -/

section

variable {p : Pace t} {s : Fin t.size} {time : Nat}

/-- The calls for a service fall between its entrance and its leave. -/
theorem callsOf_between (ht : t.Built) {entry : Entry} (hm : entry ∈ callsOf p s) :
    p.blocker? s = none ∧ p.enter s ≤ entry.time ∧ entry.time ≤ p.leave s := by
  by_cases hb : p.blocker? s = none
  · cases hasked : p.asked? s with
    | none =>
        rw [callsOf_of_refused hasked] at hm
        cases hm
    | some n =>
        rw [callsOf_of_asked hb hasked, entries, List.mem_cons, List.mem_map] at hm
        have hprobed (i : Nat) : p.enter s ≤ p.probed s i :=
          Nat.le_trans (Nat.le_add_right _ _) (Nat.le_add_right _ _)
        refine ⟨hb, ?_⟩
        rw [Pace.leave_of_asked ht hasked]
        rcases hm with rfl | ⟨i, hi, rfl⟩
        · exact ⟨Nat.le_refl _, hprobed _⟩
        · exact ⟨hprobed i, Pace.probed_mono (by have := List.mem_range.1 hi; omega)⟩
  · rw [callsOf_of_blocked hb] at hm
    cases hm

/-- The moves of a service come when it enters and when it leaves. -/
theorem history_between (ht : t.Built) {move : Transition} (hm : move ∈ p.history s) :
    p.blocker? s = none ∧ p.enter s ≤ move.time ∧ move.time ≤ p.leave s := by
  by_cases hb : p.blocker? s = none
  · rw [Pace.history_of_started hb, Pace.entered] at hm
    refine ⟨hb, ?_⟩
    rcases List.mem_append.1 hm with hm | hm
    · obtain rfl := List.mem_singleton.1 hm
      exact ⟨Nat.le_refl _, Pace.enter_le_leave ht⟩
    · obtain rfl := List.mem_singleton.1 hm
      exact ⟨Pace.enter_le_leave ht, Nat.le_refl _⟩
  · rw [Pace.history_of_blocked hb] at hm
    cases hm

/-- Of the calls for a service whose next question is due later, those have been made before it. -/
theorem filter_entries {k n : Nat} (hle : k ≤ n) (hpast : ∀ entry ∈ entries p s k, entry.time ≤ time)
    (hlater : time < p.probed s k) :
    (entries p s n).filter (fun entry => entry.time ≤ time) = entries p s k := by
  obtain ⟨more, rfl⟩ := Nat.exists_eq_add_of_le hle
  have hsplit : entries p s (k + more) = entries p s k ++ (List.range more).map fun i =>
      ⟨p.probed s (k + i), .probe, t.id s, some ((p.fate s).probe (k + i))⟩ := by
    simp [entries, List.range_add]
  have hlate : ((List.range more).map fun i => (⟨p.probed s (k + i), .probe, t.id s,
      some ((p.fate s).probe (k + i))⟩ : Entry)).filter (fun entry => entry.time ≤ time) = [] := by
    rw [List.filter_eq_nil_iff]
    intro entry hm
    obtain ⟨i, -, rfl⟩ := List.mem_map.1 hm
    have hle := Pace.probed_mono (p := p) (s := s) (Nat.le_add_right k i)
    simpa using Nat.lt_of_lt_of_le hlater hle
  rw [hsplit, List.filter_append, hlate, List.append_nil, List.filter_eq_self]
  exact fun entry hm => by simpa using hpast entry hm

end

/-- The container of a service is being started at this instant. -/
def Launching (p : Pace t) (time : Nat) (s : Fin t.size) : Prop :=
  p.blocker? s = none ∧ p.asked? s ≠ none ∧ p.enter s ≤ time ∧ time < p.probed s 0

namespace Setting

/-- What there is to see of a service is what the pace has by now. -/
structure Charted (start : Scene t) (x : Setting Engine.Scripted.engine t) (s : Fin t.size) : Prop where
  shows : x.Shows start s ((start.pace.history s).filter fun move => move.time ≤ x.now)
    ((callsOf start.pace s).filter fun entry => entry.time ≤ x.now)
  error : start.pace.Settled x.now s →
    (x.controller.slot s).lastError = (start.pace.outcome s).2
  unsettled : ¬ start.pace.Settled x.now s → (x.controller.slot s).lastError = none

variable {start : Scene t} {x : Setting Engine.Scripted.engine t} {s : Fin t.size} {id time : Nat}
  {job : StartJob t.size}

/-! ## Lulls -/

/-- The engine was asked for what it has been asked since the beginning by now. -/
def Logged (start : Scene t) (x : Setting Engine.Scripted.engine t) : Prop :=
  ∃ news, Engine.Scripted.State.calls x.engine = start.engine.calls ++ news ∧
    ∀ entry ∈ news, entry.time ≤ x.now

theorem Logged.time_le (hlog : Logged start x) {moves : List Transition} {calls : List Entry}
    (h : x.Shows start s moves calls) {entry : Entry} (hm : entry ∈ calls) : entry.time ≤ x.now := by
  obtain ⟨news, he, htimes⟩ := hlog
  have hcalls : x.engine.callsFor (t.id s) = start.engine.callsFor (t.id s)
      ++ news.filter fun entry => entry.service = t.id s := by
    show (Engine.Scripted.State.calls x.engine).filter _ = _
    rw [he, List.filter_append]
    rfl
  obtain rfl := List.append_cancel_left (h.calls.symm.trans hcalls)
  exact htimes entry (List.mem_filter.1 hm).1

/-- What a start job waits for in a lull. -/
inductive Waits (x : Setting Engine.Scripted.engine t) (job : StartJob t.size) : Prop where
  | finished (hp : job.phase = .finished)
  | following (hp : job.phase = .following)
    (hs : ¬ (x.controller.slot job.service).progress.settled)
  | dependency {d : Fin t.size} {rest : List (Fin t.size)} (hp : job.phase = .awaiting (d :: rest))
    (hs : ¬ (x.controller.slot d).progress.settled)
  | launch {launch : JobId} (hp : job.phase = .launching launch)
    (hl : x.controller.takeLaunch? launch = none)
  | pause {handle : Container.Handle} {attempt : UInt32} {deadline : Nat}
    (hp : job.phase = .pausing handle attempt deadline)

section

variable (h : InStep start x) (hf : x.Follows start) (ht : t.Built) (hlull : x.Lull)
  (hproper : x.controller.AllProper)

include h hlull hproper in
theorem InStep.waits (hj : x.controller.jobs[id]? = some (.start job)) : x.Waits job := by
  have habreast := h.abreast hj
  cases Controller.startBlock_of_stuck hj (hlull.run id) (hlull.heed id) with
  | following hp _ hs => exact .following hp hs
  | dependency hp _ hs => exact .dependency hp hs
  | @store volumes hp =>
      have hne : volumes ≠ [] := fun he => (hproper id _ hj).2.2 (he ▸ hp)
      have herrand := hlull.errand hj
      simp [Job.errand?, hp, StartPhase.toBind] at herrand
      exact absurd herrand hne
  | launch hp _ hl => exact .launch hp hl
  | halt hp =>
      rw [hp] at habreast
      exact habreast.elim
  | pause hp => exact .pause hp
  | probe hp => exact absurd hp (hlull.not_probing h.due hj)
  | finished hp => exact .finished hp

omit h in
include hf ht in
/-- Who is neither pending nor starting shows the outcome. -/
theorem Follows.shown_of_left (hp : (x.controller.slot s).state ≠ .pending)
    (hs : (x.controller.slot s).state ≠ .starting) : start.pace.blocker? s = none ∧
      start.pace.outcome s = (x.controller.slot s).sight ∧
      ((x.controller.slot s).state = .ready ↔ s ∈ start.pace.ready) := by
  have houtcome := (hf.foretold.slot s).eq_outcome hp hs
  refine ⟨?_, houtcome, Prospect.shown_ready ht houtcome⟩
  by_contra hb
  obtain ⟨d, hd⟩ := Option.ne_none_iff_exists'.1 hb
  rw [Prospect.outcome_of_blocker hd] at houtcome
  exact hp (congrArg Prod.fst houtcome).symm

omit h hf hlull hproper in
/-- Who shows that it is refused has an error. -/
theorem error_of_pending (hp : (x.controller.slot s).state = .pending)
    (houtcome : start.pace.outcome s = (x.controller.slot s).sight) :
    start.pace.blocker? s ≠ none ∧ (x.controller.slot s).lastError ≠ none := by
  have hb : start.pace.blocker? s ≠ none := fun hb =>
    Prospect.outcome_ne_pending hb ((congrArg Prod.fst houtcome).trans hp)
  refine ⟨hb, fun hnone => ?_⟩
  obtain ⟨d, hd⟩ := Option.ne_none_iff_exists'.1 hb
  rw [Prospect.outcome_of_blocker hd] at houtcome
  cases (congrArg Prod.snd houtcome).trans hnone

include h hf hlull hproper

/-- A service that has not been started waits for a dependency, unless it has been refused. -/
theorem InStep.awaiting_of_pending (hp : (x.controller.slot s).state = .pending)
    (hopen : start.pace.blocker? s = none ∨ (x.controller.slot s).lastError = none) :
    ∃ (id : Nat) (job : StartJob t.size) (d : Fin t.size) (rest : List (Fin t.size)),
      x.controller.jobs[id]? = some (.start job) ∧ job.service = s ∧
        job.phase = .awaiting (d :: rest) ∧ ¬ (x.controller.slot d).progress.settled := by
  obtain ⟨id, job, hj, rfl⟩ := h.all s
  have howner (ho : job.phase.Owns) : False := by
    have hstate := hf.foretold.owner hj ho
    rw [hp] at hstate
    cases hstate
  cases h.waits hlull hproper hj with
  | finished hfin =>
      obtain ⟨hb, he⟩ := error_of_pending hp (hf.foretold.final hj hfin)
      exact (hopen.elim hb he).elim
  | following hfollow => exact absurd hp (hf.foretold.following hj hfollow)
  | dependency hawait hs => exact ⟨id, job, _, _, hj, rfl, hawait, hs⟩
  | launch hlaunch => exact (howner (by rw [hlaunch]; trivial)).elim
  | pause hpause => exact (howner (by rw [hpause]; trivial)).elim

omit h hlull hproper in
theorem Follows.mem_dependencies (hj : x.controller.jobs[id]? = some (.start job)) {d : Fin t.size}
    {rest : List (Fin t.size)} (hp : job.phase = .awaiting (d :: rest)) :
    ∃ seen, t.dependencies job.service = seen ++ d :: rest ∧ ∀ d ∈ seen, d ∈ start.pace.ready := by
  have hb := hf.foretold.backs hj
  rw [hp] at hb
  exact hb

include ht

/-- **The clock does not move past the moment at which a service leaves** that has not left. -/
theorem InStep.until_leave (hu : x.Until time) (s : Fin t.size) : start.pace.blocker? s = none →
    (x.controller.slot s).state = .pending ∨ (x.controller.slot s).state = .starting →
      time ≤ start.pace.leave s ∧
      ((x.controller.slot s).state = .pending → time ≤ start.pace.enter s) := by
  refine ht.induct (P := fun s => start.pace.blocker? s = none →
    (x.controller.slot s).state = .pending ∨ (x.controller.slot s).state = .starting →
      time ≤ start.pace.leave s ∧
      ((x.controller.slot s).state = .pending → time ≤ start.pace.enter s)) ?_ s
  rintro s ih hb (hp | hst)
  · obtain ⟨id, job, d, rest, hj, rfl, hawait, hs⟩ :=
      h.awaiting_of_pending hf hlull hproper hp (.inl hb)
    obtain ⟨seen, he, -⟩ := hf.mem_dependencies hj hawait
    have hd : d ∈ t.dependencies job.service := by rw [he]; simp
    -- The dependency is to get ready, and it has not yet.
    have hopen : (x.controller.slot d).state = .pending ∨ (x.controller.slot d).state = .starting := by
      by_contra hleft
      obtain ⟨hnp, hns⟩ := not_or.1 hleft
      obtain ⟨-, -, hready⟩ := hf.shown_of_left ht hnp hns
      refine hs ((hf.foretold.published d).settled_iff.2 (.inl (hready.2 ?_)))
      exact Prospect.blocker?_eq_none.1 hb d hd
    have hle := Nat.le_trans (ih d hd (Prospect.blocker?_of_dependency ht hb hd) hopen).1
      (Pace.leave_le_enter hd)
    exact ⟨Nat.le_trans hle (Pace.enter_le_leave ht), fun _ => hle⟩
  · obtain ⟨id, job, hj, rfl, ho⟩ := hf.foretold.owned hst
    have htimely := (abreast_iff_of_owns ho).1 (h.abreast hj)
    refine ⟨?_, fun hp => absurd (hp.symm.trans hst) (by simp)⟩
    cases h.waits hlull hproper hj with
    | launch hp hl => exact (hf.launch_lull ht hlull h.due hj hu hp hl htimely).1
    | pause hp => exact (hf.pause_lull ht hlull hj hu hp htimely).1
    | finished hp | following hp | dependency hp =>
        rw [hp] at ho
        exact ho.elim

/-- **Time passes**, and everything stays in step. -/
theorem InStep.pass (hu : x.Until time) : InStep start { x with now := time } := by
  have hle := Nat.le_of_lt hu.later
  refine ⟨Nat.le_trans h.called hle, h.config, h.all, fun {id job} hj => ?_, h.counted, fun s hp => ?_,
    fun s hp hs => ?_, fun entry hm => ?_⟩
  · by_cases ho : job.phase.Owns
    · rw [abreast_iff_of_owns ho]
      have htimely := (abreast_iff_of_owns ho).1 (h.abreast hj)
      cases h.waits hlull hproper hj with
      | launch hp hl => exact hp ▸ (hf.launch_lull ht hlull h.due hj hu hp hl htimely).2
      | pause hp => exact hp ▸ (hf.pause_lull ht hlull hj hu hp htimely).2
      | finished hp | following hp | dependency hp =>
          rw [hp] at ho
          exact ho.elim
    · exact (h.abreast hj).later ho hle
  · obtain ⟨hshows, -, hsettled⟩ := h.pending s hp
    exact ⟨hshows.congr rfl rfl,
      fun hb => (h.until_leave hf ht hlull hproper hu s hb (.inl hp)).2 hp,
      fun he => (hsettled he).mono hle⟩
  · obtain ⟨hleave, hshows⟩ := h.left s hp hs
    exact ⟨Nat.le_trans hleave hle, hshows.congr rfl rfl⟩
  · obtain ⟨job, hj, hlaunch, hprobe⟩ := h.due entry hm
    exact ⟨job, hj, hlaunch, fun hk => Nat.le_trans (hprobe hk) hle⟩

/-- A service that is to leave and has not is not to leave by now. -/
theorem InStep.lt_leave (hb : start.pace.blocker? s = none)
    (hopen : (x.controller.slot s).state = .pending ∨ (x.controller.slot s).state = .starting) :
    x.now < start.pace.leave s :=
  (h.until_leave hf ht hlull hproper x.until_succ s hb hopen).1

omit ht in
/-- A service that is not settled holds a job that waits for a dependency, or is starting. -/
theorem InStep.awaiting_of_unsettled (hs : ¬ (x.controller.slot s).progress.settled)
    (hst : (x.controller.slot s).state ≠ .starting) :
    ∃ (id : Nat) (job : StartJob t.size) (d : Fin t.size) (rest : List (Fin t.size)),
      x.controller.jobs[id]? = some (.start job) ∧ job.service = s ∧
        job.phase = .awaiting (d :: rest) ∧ ¬ (x.controller.slot d).progress.settled := by
  obtain ⟨id, job, hj, rfl, hclaimed⟩ := Controller.Counts.holder hf.foretold.claims hs
  have hunclaimed (hp : job.phase = .following ∨ job.phase = .finished) : False := by
    rw [(hproper id _ hj).1.2 hp] at hclaimed
    cases hclaimed
  cases h.waits hlull hproper hj with
  | finished hp => exact (hunclaimed (.inr hp)).elim
  | following hp => exact (hunclaimed (.inl hp)).elim
  | dependency hp hs => exact ⟨id, job, _, _, hj, rfl, hp, hs⟩
  | launch hp => exact absurd (hf.foretold.owner hj (by rw [hp]; trivial)) hst
  | pause hp => exact absurd (hf.foretold.owner hj (by rw [hp]; trivial)) hst

/-- **Who holds a claim still is not settled**, by induction along the dependencies. -/
theorem InStep.not_settled (s : Fin t.size) : ¬ (x.controller.slot s).progress.settled →
    ¬ start.pace.Settled x.now s := by
  refine ht.induct (P := fun s => ¬ (x.controller.slot s).progress.settled →
    ¬ start.pace.Settled x.now s) ?_ s
  intro s ih hs hsettled
  by_cases hst : (x.controller.slot s).state = .starting
  · have hb := ((hf.foretold.slot s).starting hst).2
    exact absurd ((Pace.settled_iff_of_started hb).1 hsettled)
      (Nat.not_le.2 (h.lt_leave hf ht hlull hproper hb (.inr hst)))
  · obtain ⟨id, job, d, rest, hj, rfl, hp, hd⟩ := h.awaiting_of_unsettled hf hlull hproper hs hst
    obtain ⟨seen, he, hready⟩ := hf.mem_dependencies hj hp
    exact ih d (by rw [he]; simp) hd (hsettled.first ht he hready)

/-- **A service that waits for a dependency is not settled.** -/
theorem InStep.unsettled (hj : x.controller.jobs[id]? = some (.start job)) {d : Fin t.size}
    {rest : List (Fin t.size)} (hp : job.phase = .awaiting (d :: rest))
    (hs : ¬ (x.controller.slot d).progress.settled) : ¬ start.pace.Settled x.now job.service := by
  intro hsettled
  obtain ⟨seen, he, hready⟩ := hf.mem_dependencies hj hp
  exact h.not_settled hf ht hlull hproper d hs (hsettled.first ht he hready)

variable (hlog : Logged start x)

include hlog

omit ht in
/-- What is to be seen of a service that is starting, in a lull. -/
theorem InStep.starting_lull (hst : (x.controller.slot s).state = .starting) :
    start.pace.blocker? s = none ∧ start.pace.enter s ≤ x.now ∧ ∃ (k : Nat) (id : Nat)
      (job : StartJob t.size), x.controller.jobs[id]? = some (.start job) ∧ job.service = s ∧
      x.now < start.pace.probed s k ∧
      x.Shows start s (start.pace.entered s) (entries start.pace s k) ∧
      (∀ n, start.pace.asked? s = some n → k ≤ n) ∧ start.pace.asked? s ≠ none ∧
      (k = 0 → ∃ launch, job.phase = .launching launch) := by
  obtain ⟨id, job, hj, rfl, ho⟩ := hf.foretold.owned hst
  have hb := hf.unblocked hj ho
  have htimely := (abreast_iff_of_owns ho).1 (h.abreast hj)
  have henter {k : Nat} (hshows : x.Shows start job.service (start.pace.entered job.service)
      (entries start.pace job.service k)) : start.pace.enter job.service ≤ x.now :=
    hlog.time_le hshows (by rw [entries]; exact List.mem_cons_self)
  have hbacks := hf.foretold.backs hj
  cases h.waits hlull hproper hj with
  | launch hp hl =>
      obtain ⟨l, -, -, -, hlt, -, hshows⟩ :=
        hf.launching_lull hlull h.due hj hp hl htimely
      rw [hp] at hbacks
      refine ⟨hb, henter hshows, 0, id, job, hj, rfl, hlt, hshows, fun n _ => Nat.zero_le n, ?_,
        fun _ => ⟨_, hp⟩⟩
      rcases Pace.asked?_cases (p := start.pace) (s := job.service)
        (RetryPolicy.maxAttempts_pos _) with ⟨hn, -⟩ | ⟨-, -, hn⟩ | ⟨-, -, n, hn, -⟩
      · exact absurd hbacks hn
      · simp [hn]
      · simp [hn]
  | @pause handle attempt deadline hp =>
      have hcounted := h.counted hj
      have hdue : (Job.start job).deadline? = some deadline := by simp [Job.deadline?, hp]
      have hlt := hlull.deadline hj hdue
      rw [hp] at htimely hbacks hcounted
      obtain ⟨rfl, -, hshows⟩ := htimely
      obtain ⟨n, hn, hle, -⟩ := Pace.le_asked hbacks.1 hbacks.2
      refine ⟨hb, henter hshows, _, id, job, hj, rfl, hlt, hshows, fun n' hn' => ?_, by simp [hn],
        fun hk => ?_⟩
      · obtain rfl := Option.some.inj (hn.symm.trans hn')
        exact Nat.le_trans (Nat.sub_le _ _) hle
      · have hone : 1 < attempt.toNat := hcounted
        omega
  | finished hp | following hp | dependency hp =>
      rw [hp] at ho
      exact ho.elim

/-- **In a lull there is to see of every service what the pace has by now.** -/
theorem InStep.charted (s : Fin t.size) : x.Charted start s := by
  by_cases hp : (x.controller.slot s).state = .pending
  · obtain ⟨hshows, -, hsettled⟩ := h.pending s hp
    have hlater (hb : start.pace.blocker? s = none) : x.now < start.pace.enter s :=
      (h.until_leave hf ht hlull hproper x.until_succ s hb (.inl hp)).2 hp
    refine ⟨?_, fun hs => ?_, fun hn => by_contra fun he => hn (hsettled he)⟩
    · have hmoves : (start.pace.history s).filter (fun move => move.time ≤ x.now) = [] := by
        rw [List.filter_eq_nil_iff]
        intro move hm
        obtain ⟨hb, hle, -⟩ := history_between ht hm
        simpa using Nat.lt_of_lt_of_le (hlater hb) hle
      have hcalls : (callsOf start.pace s).filter (fun entry => entry.time ≤ x.now) = [] := by
        rw [List.filter_eq_nil_iff]
        intro entry hm
        obtain ⟨hb, hle, -⟩ := callsOf_between ht hm
        simpa using Nat.lt_of_lt_of_le (hlater hb) hle
      rw [hmoves, hcalls]
      exact hshows
    · -- A service that is settled and pending does not wait any more: it was refused.
      have herror : (x.controller.slot s).lastError ≠ none := by
        intro hnone
        obtain ⟨id, job, d, rest, hj, rfl, hawait, hd⟩ :=
          h.awaiting_of_pending hf hlull hproper hp (.inr hnone)
        exact h.unsettled hf ht hlull hproper hj hawait hd hs
      have hadmits := hf.foretold.slot s
      rw [Slot.sight, hp] at hadmits
      exact (congrArg Prod.snd (hadmits.resolve_left herror)).symm
  · by_cases hst : (x.controller.slot s).state = .starting
    · obtain ⟨hb, henter, k, -, -, -, -, hlt, hshows, hk, hasked, -⟩ :=
        h.starting_lull hf hlull hproper hlog hst
      have hleave := h.lt_leave hf ht hlull hproper hb (.inr hst)
      have hunsettled : ¬ start.pace.Settled x.now s := fun hs =>
        Nat.not_le.2 hleave ((Pace.settled_iff_of_started hb).1 hs)
      refine ⟨?_, fun hs => absurd hs hunsettled, fun _ => ((hf.foretold.slot s).starting hst).1⟩
      obtain ⟨n, hn⟩ := Option.ne_none_iff_exists'.1 hasked
      rw [callsOf_of_asked hb hn, filter_entries (hk n hn)
        (fun entry hm => hlog.time_le hshows hm) hlt]
      refine ⟨hshows.moves.trans ?_, hshows.calls⟩
      simp [Pace.history_of_started hb, Pace.entered, henter, hleave]
    · obtain ⟨hb, houtcome, -⟩ := hf.shown_of_left ht hp hst
      obtain ⟨hle, hshows⟩ := h.left s hp hst
      refine ⟨?_, fun _ => (congrArg Prod.snd houtcome).symm,
        fun hn => absurd (.left hb hle) hn⟩
      have hmoves : (start.pace.history s).filter (fun move => move.time ≤ x.now)
          = start.pace.history s := by
        rw [List.filter_eq_self]
        exact fun move hm => by simpa using Nat.le_trans (history_between ht hm).2.2 hle
      have hcalls : (callsOf start.pace s).filter (fun entry => entry.time ≤ x.now)
          = callsOf start.pace s := by
        rw [List.filter_eq_self]
        exact fun entry hm => by simpa using Nat.le_trans (callsOf_between ht hm).2.2 hle
      rw [hmoves, hcalls]
      exact hshows

/-- **The container of a service is being started** just at the instants at which the pace has it. -/
theorem InStep.launching_iff (s : Fin t.size) : Launching start.pace x.now s ↔
    ∃ (id : Nat) (job : StartJob t.size) (launch : JobId), x.controller.jobs[id]? = some (.start job) ∧
      job.service = s ∧ job.phase = .launching launch := by
  constructor
  · rintro ⟨hb, hasked, henter, hlt⟩
    obtain ⟨n, hn⟩ := Option.ne_none_iff_exists'.1 hasked
    have hleave : x.now < start.pace.leave s := by
      rw [Pace.leave_of_asked ht hn]
      exact Nat.lt_of_lt_of_le hlt (Pace.probed_mono (Nat.zero_le _))
    have hst : (x.controller.slot s).state = .starting := by
      by_contra hst
      by_cases hp : (x.controller.slot s).state = .pending
      · exact Nat.not_le.2 ((h.until_leave hf ht hlull hproper x.until_succ s hb (.inl hp)).2 hp)
          henter
      · exact Nat.not_le.2 hleave (h.left s hp hst).1
    obtain ⟨-, -, k, id, job, hj, hs, -, hshows, -, -, hlaunch⟩ :=
      h.starting_lull hf hlull hproper hlog hst
    -- If the container had been asked already, its start would be over.
    obtain ⟨launch, hp⟩ := hlaunch (by
      by_contra hk
      have hfirst : (⟨start.pace.probed s 0, .probe, t.id s, some ((start.pace.fate s).probe 0)⟩ : Entry)
          ∈ entries start.pace s k := by
        rw [entries]
        exact List.mem_cons_of_mem _ (List.mem_map.2 ⟨0, List.mem_range.2 (Nat.pos_of_ne_zero hk), rfl⟩)
      exact Nat.not_le.2 hlt (hlog.time_le hshows hfirst))
    exact ⟨id, job, launch, hj, hs, hp⟩
  · rintro ⟨id, job, launch, hj, rfl, hp⟩
    have hst := hf.foretold.owner hj (by rw [hp]; trivial)
    have htimely := (abreast_iff_of_owns (by rw [hp]; trivial)).1 (h.abreast hj)
    obtain ⟨hb, henter, -, -, -, -, -, -, -, -, hasked, -⟩ :=
      h.starting_lull hf hlull hproper hlog hst
    cases h.waits hlull hproper hj with
    | launch hp hl =>
        obtain ⟨-, -, -, -, hlt, -⟩ :=
          hf.launching_lull hlull h.due hj hp hl htimely
        exact ⟨hb, hasked, henter, hlt⟩
    | finished hp' | following hp' | dependency hp' | pause hp' =>
        cases hp.symm.trans hp'

end

end Setting

end Bringup.Simulation
