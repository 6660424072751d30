import Bringup.Proofs.Simulation.BindingsAgree
import Bringup.Proofs.Simulation.Outstanding

/-!
# A stop unbinds every volume

A stop job of a service asks for each volume of it to be unbound, whoever it is bound to, and as long as
no start is under way nobody binds one again. So once all stop jobs are at their end, and no start was
under way since the first of them was there (`StopsAlone`), each of these volumes is unbound
(`Unbinding.unbound`).

What counts is the table as it is going to be when all that was asked of the store is served: in it a
volume is unbound as soon as a stop job has asked for it, and until then it is one of those that the job
asks for later (`Freed`).
-/

namespace Bringup.Simulation

open Lifecycle
open Volume (Bindings)

variable {t : Topology} {c c' d : Controller t} {now : Nat} {id : JobId} {action : Action}
  {slot : Slot} {aside : Aside} {effects : List Effect} {operation : Operation} {s : Fin t.size}
  {table : Bindings} {volume : Volume}

/-- Where there is a stop job no start job is under way. -/
def StopsAlone (c : Controller t) : Prop :=
  ∀ {i id : JobId} {stop : StopJob t.size} {job : StartJob t.size},
    c.jobs[i]? = some (.stop stop) → c.jobs[id]? = some (.start job) → job.phase = .finished

/-- The volume is unbound, or one of those that a stop job has yet to ask for. -/
def Freed (c : Controller t) (table : Bindings) (volume : Volume) : Prop :=
  table.owner? volume.id = none ∨
    ∃ (i : JobId) (job : StopJob t.size), c.jobs[i]? = some (.stop job) ∧
      volume ∈ job.phase.toUnbind.tail

/-- The volumes of the service are freed once a stop job has come to them, and where the service is
stopped one has. -/
structure Frees (c : Controller t) (table : Bindings) (s : Fin t.size) : Prop where
  begun : ∀ {i : JobId} {job : StopJob t.size}, c.jobs[i]? = some (.stop job) → job.service = s →
    job.phase.Unbinds ∨ job.phase = .finished → ∀ volume ∈ t.volumesOf s, Freed c table volume
  stopped : (c.slot s).state = .stopped →
    (∃ (i : JobId) (job : StopJob t.size), c.jobs[i]? = some (.stop job)) ∧
      ∀ volume ∈ t.volumesOf s, Freed c table volume

theorem frees_fresh (config : Config) (table : Bindings) :
    Frees (Controller.fresh t config) table s where
  begun h := by simp [Controller.fresh] at h
  stopped h := by simp [Controller.fresh, Controller.slot] at h

/-! ## Volumes -/

theorem Freed.mono (h : Freed c table volume)
    (hkept : ∀ {i : JobId} {job : StopJob t.size}, c.jobs[i]? = some (.stop job) →
      d.jobs[i]? = some (.stop job)) : Freed d table volume :=
  h.imp_right fun ⟨i, job, hi, hv⟩ => ⟨i, job, hkept hi, hv⟩

/-- A request of a stop job binds no volume. -/
theorem owner?_stop {job : StopJob t.size} (h : table.owner? volume.id = none) :
    (tableAfter table (Job.stop job).errand?).owner? volume.id = none := by
  rw [Option.eq_none_iff_forall_ne_some]
  intro owner
  rw [Job.errand?]
  cases job.phase.toUnbind.head? with
  | none => simp [tableAfter, h]
  | some first => exact Bindings.owner?_detach_ne (by simp [h]) first.id

/-- What a stop job waits for is freed by its request. -/
theorem freed_of_toUnbind {job : StopJob t.size} (hi : c.jobs[id]? = some (.stop job))
    (hv : volume ∈ job.phase.toUnbind) :
    Freed c (tableAfter table (Job.stop job).errand?) volume := by
  cases hu : job.phase.toUnbind with
  | nil =>
      rw [hu] at hv
      cases hv
  | cons first rest =>
      rw [hu] at hv
      rcases List.mem_cons.1 hv with rfl | hv
      · refine .inl ?_
        rw [Job.errand?, hu]
        exact Bindings.owner?_detach_self
      · exact .inr ⟨id, job, hi, by rwa [hu]⟩

/-! ## Turns -/

/-- What a stop job has yet to ask for stays so, or it is asked for. -/
theorem StopTurn.toUnbind_tail {job : StopJob t.size} {phase : StopPhase}
    (turn : StopTurn c now id job action phase slot effects)
    (hv : volume ∈ job.phase.toUnbind.tail) : volume ∈ phase.toUnbind := by
  cases turn with
  | unbind hp =>
      rw [hp] at hv
      rwa [StopPhase.toUnbind_detachPhase]
  | go hp | pass hp | idle hp | skip hp | take hp | takeLeft hp | retire hp | leave hp | overrun hp
  | halted hp | kill hp =>
      rw [hp] at hv
      cases hv

/-- A stop job comes to its end with the volumes, or because the service is stopped. -/
theorem StopTurn.finished_cases {job : StopJob t.size}
    (turn : StopTurn c now id job action .finished slot effects) :
    (c.slot job.service).state = .stopped ∨ job.phase.Unbinds := by
  generalize hf : StopPhase.finished = phase at turn
  cases turn with
  | idle _ hs => exact .inl hs
  | retire hp | leave hp => exact .inr (by rw [hp]; trivial)
  | skip | halted | unbind => exact absurd hf.symm (Controller.detachPhase_ne_finished _)
  | take | takeLeft => exact absurd hf.symm (Controller.takenPhase_ne_finished _ _ _)
  | _ => cases hf

/-- A stop job that makes its service stopped comes to the volumes, or is done with them. -/
theorem StopTurn.stopped_cases {job : StopJob t.size} {phase : StopPhase}
    (turn : StopTurn c now id job action phase slot effects) (hs : slot.state = .stopped) :
    (c.slot job.service).state = .stopped ∨ phase.Unbinds ∨ job.phase.Unbinds := by
  cases turn with
  | skip =>
      refine .inr (.inl ?_)
      cases t.volumesOf job.service <;> trivial
  | retire hp => exact .inr (.inr (by rw [hp]; trivial))
  | take => cases hs
  | _ => exact .inl hs

theorem Freed.stop_turn {job : StopJob t.size} {phase : StopPhase} (h : Freed c table volume)
    (hj : c.jobs[id]? = some (.stop job))
    (turn : StopTurn c now id job action phase slot effects) :
    Freed (c.after id (.stop { job with phase }) job.service slot .nothing)
      (tableAfter table (Job.stop { job with phase }).errand?) volume := by
  rcases h with hn | ⟨i, stop, hi, hv⟩
  · exact .inl (owner?_stop hn)
  · by_cases hne : i = id
    · subst hne
      obtain rfl : job = stop := Job.stop.inj (Option.some.inj (hj.symm.trans hi))
      exact freed_of_toUnbind (Controller.jobs_after_self (Controller.lt_size_of_job hj))
        (StopTurn.toUnbind_tail turn hv)
    · exact .inr ⟨i, stop, Controller.stop_after_of_ne hne hi, hv⟩

theorem Frees.stop_turn {job : StopJob t.size} {phase : StopPhase} (h : ∀ s, Frees c table s)
    (hj : c.jobs[id]? = some (.stop job))
    (turn : StopTurn c now id job action phase slot effects) :
    Frees (c.after id (.stop { job with phase }) job.service slot .nothing)
      (tableAfter table (Job.stop { job with phase }).errand?) s := by
  have hid := Controller.lt_size_of_job hj
  have hself : (c.after id (.stop { job with phase }) job.service slot .nothing).jobs[id]?
    = some (.stop { job with phase }) := Controller.jobs_after_self hid
  have hkept {s : Fin t.size} (h : ∀ volume ∈ t.volumesOf s, Freed c table volume) :
      ∀ volume ∈ t.volumesOf s, Freed (c.after id (.stop { job with phase }) job.service slot .nothing)
        (tableAfter table (Job.stop { job with phase }).errand?) volume :=
    fun volume hv => (h volume hv).stop_turn hj turn
  have hbegun (hp : phase.Unbinds) : ∀ volume ∈ t.volumesOf job.service,
      Freed (c.after id (.stop { job with phase }) job.service slot .nothing)
        (tableAfter table (Job.stop { job with phase }).errand?) volume := by
    rcases turn.unbinds_cases hp with he | ⟨hu, -⟩
    · exact fun volume hv => freed_of_toUnbind hself (he ▸ hv)
    · exact hkept ((h job.service).begun hj rfl (.inl hu))
  constructor
  · intro i stop hi hs hp
    rcases Controller.stop_after_cases hid hi with ⟨rfl, he⟩ | ⟨-, hi⟩
    · obtain rfl := Job.stop.inj he
      subst hs
      rcases hp with hp | rfl
      · exact hbegun hp
      · rcases StopTurn.finished_cases turn with hst | hu
        · exact hkept ((h job.service).stopped hst).2
        · exact hkept ((h job.service).begun hj rfl (.inl hu))
    · exact hkept ((h s).begun hi hs hp)
  · intro hst
    refine ⟨⟨id, _, hself⟩, ?_⟩
    by_cases hs : s = job.service
    · subst hs
      rw [Controller.slot_after_self] at hst
      rcases StopTurn.stopped_cases turn hst with hst | hu | hu
      · exact hkept ((h job.service).stopped hst).2
      · exact hbegun hu
      · exact hkept ((h job.service).begun hj rfl (.inl hu))
    · rw [Controller.slot_after_of_ne hs] at hst
      exact hkept ((h s).stopped hst).2

/-- **The turn of a job** frees no volume that a stop job has freed, as long as no start is under way
beside a stop. -/
theorem Frees.turn {old new : Job t.size} (h : ∀ s, Frees c table s) (halone : StopsAlone c)
    (hj : c.jobs[id]? = some old) (turn : Turn c now id old action new slot aside effects) :
    Frees (c.after id new old.service slot aside) (tableAfter table new.errand?) s := by
  have hid := Controller.lt_size_of_job hj
  cases turn with
  | stop turn => exact Frees.stop_turn h hj turn
  | @start job _ _ _ _ _ turn =>
      -- The start is under way, so there is no stop job.
      have hnone (i : JobId) (stop : StopJob t.size) (hi : c.jobs[i]? = some (.stop stop)) : False :=
        turn.phase_ne_finished (halone hi hj)
      constructor
      · intro i stop hi
        exact (hnone i stop (Controller.stop_of_after hid (by simp) hi)).elim
      · intro hst
        rw [Job.service_start] at hst
        have hbefore : (c.slot s).state = .stopped := by
          by_cases hs : s = job.service
          · subst hs
            rw [Controller.slot_after_self] at hst
            rcases turn.state_cases with he | ⟨-, -, -, -, he⟩ | ⟨verdict, -, -, he⟩
            · exact he.symm.trans hst
            · rw [he] at hst
              cases hst
            · rw [he] at hst
              cases verdict <;> cases hst
          · rwa [Controller.slot_after_of_ne hs] at hst
        obtain ⟨⟨i, stop, hi⟩, -⟩ := (h s).stopped hbefore
        exact (hnone i stop hi).elim
  | @launch l phase _ _ turn =>
      have hstop {i : JobId} {stop : StopJob t.size} (hi : c.jobs[i]? = some (.stop stop)) :
          (c.after id (.launch { l with phase }) l.service (c.slot l.service) .nothing).jobs[i]?
            = some (.stop stop) :=
        Controller.stop_after_of_ne (fun hne => by rw [hne, hj] at hi; cases hi) hi
      constructor
      · intro i stop hi hs hp volume hv
        exact ((h s).begun (Controller.stop_of_after hid (by simp) hi) hs hp volume hv).mono hstop
      · intro hst
        rw [Job.service_launch] at hst
        have hbefore : (c.slot s).state = .stopped := by
          by_cases hs : s = l.service
          · subst hs
            rwa [Controller.slot_after_self] at hst
          · rwa [Controller.slot_after_of_ne hs] at hst
        obtain ⟨⟨i, stop, hi⟩, hfreed⟩ := (h s).stopped hbefore
        exact ⟨⟨i, stop, hstop hi⟩, fun volume hv => (hfreed volume hv).mono hstop⟩

/-- What is called leaves the volumes alone. -/
theorem Frees.change (h : Frees c table s) (change : Controller.CallChange now c operation d) :
    Frees d table s := by
  have hstop {i : JobId} {stop : StopJob t.size} (hi : c.jobs[i]? = some (.stop stop)) :
      d.jobs[i]? = some (.stop stop) := change.sets.jobs_kept hi
  constructor
  · intro i stop hi hs hp volume hv
    rcases change.sets.stop_cases hi with hi | hfresh | ⟨jobs, hfresh⟩
    · exact (h.begun hi hs hp volume hv).mono hstop
    all_goals
      rw [hfresh] at hp
      exact (hp.elim id (by simp)).elim
  · intro hst
    rcases change.sets.state_cases s with he | ⟨-, he⟩
    · obtain ⟨⟨i, stop, hi⟩, hfreed⟩ := h.stopped (he.symm.trans hst)
      exact ⟨⟨i, stop, hstop hi⟩, fun volume hv => (hfreed volume hv).mono hstop⟩
    · rw [he] at hst
      cases hst

/-! ## Every run -/

/-- A controller and a store that serves it, where stop jobs free the volumes of their services. -/
structure Unbinding (c : Controller t) (store : Store) : Prop where
  serving : ∃ delay, store.mode = .serving delay
  frees : ∀ s, Frees c store.settled s

namespace Unbinding

variable {store store' : Store}

theorem turn (h : Unbinding c store) (halone : StopsAlone c) (ha : action.job? = some id)
    (hs : c.step now action = some (c', effects)) {store₀ : Store}
    (hmode : store₀.mode = store.mode) (hsettled : store₀.settled = store.settled) :
    Unbinding c' (effects.foldl (Store.hear now) store₀) := by
  obtain ⟨old, new, slot, aside, hj, turn, rfl⟩ := Controller.turnsTo_of_step ha hs
  obtain ⟨delay, hd⟩ := h.serving
  obtain ⟨htable, -, hmode', -⟩ := hear_turn (hmode.trans hd) turn
  refine ⟨⟨delay, hmode'⟩, fun s => ?_⟩
  rw [htable, hsettled]
  exact Frees.turn h.frees halone hj turn

theorem exchange (h : Unbinding c store) (halone : StopsAlone c)
    (hx : Exchange now c store c' store') : Unbinding c' store' := by
  cases hx with
  | rest => exact h
  | serve hs =>
      obtain ⟨delay, hd⟩ := h.serving
      obtain ⟨_, _, _, -, -, -, -, hmode⟩ := Store.serve?_eq_some hs
      exact ⟨⟨delay, hmode.trans hd⟩, (Store.settled_serve hs).1 ▸ h.frees⟩
  | @act action _ effects hs ha =>
      cases hid : action.job? with
      | none =>
          obtain ⟨changes, rfl⟩ := Controller.changesTo_of_step hid hs
          exact ⟨h.serving, fun s => changes.induct (P := fun c => Frees c store.settled s)
            Frees.change (h.frees s)⟩
      | some id => exact h.turn halone hid hs rfl rfl
  | deliver ha hs => exact h.turn halone rfl hs rfl rfl

/-- Once all stop jobs are at their end the volumes of a service that has one are going to be
unbound. -/
theorem owner?_settled (h : Unbinding c store) {job : StopJob t.size}
    (hj : c.jobs[id]? = some (.stop job))
    (hdone : ∀ (i : JobId) (job : StopJob t.size), c.jobs[i]? = some (.stop job) →
      job.phase = .finished) (hv : volume ∈ t.volumesOf job.service) :
    store.settled.owner? volume.id = none := by
  rcases (h.frees job.service).begun hj rfl (.inr (hdone _ _ hj)) volume hv with hn | ⟨i, stop, hi, hm⟩
  · exact hn
  · rw [hdone i stop hi] at hm
    cases hm

end Unbinding

end Bringup.Simulation
