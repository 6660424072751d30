import Bringup.Proofs.Simulation.Agreement

/-!
# Starts on their way to a container

Between the moment at which it takes its service up and the moment at which it has a container in hand
(`StartPhase.Unrecorded`) a start job goes through the volumes of the service one after another. It is
prepared (`Prepared`) as long as the service is starting and each volume is bound that the job no longer
waits for. A turn of the job itself keeps this whatever else goes on (`prepared_turn`). The jobs of other
services cannot break it, and those of the same service only where the service is stopped, or a stop or
another start is at work on it at the same time (`Undisturbed`, `Prepared.other_turn`).

Nothing in a turn of the job looks at the state of the service, so where it is disturbed the job goes on
to its container all the same.
-/

namespace Bringup.Simulation

open Lifecycle
open Volume (Bindings)

variable {t : Topology} {c c' d : Controller t} {now : Nat} {id : JobId} {action : Action}
  {slot : Slot} {aside : Aside} {effects : List Effect} {s : Fin t.size} {table : Bindings}
  {owed rest : List (Client × Store.Result)} {k : Nat} {job job' : StartJob t.size}

/-- **How a start job comes to be without a container**: it takes the service up and waits for all its
volumes, or it was so before and waits for no volume, or it learned that the first of those it waited
for is bound. -/
theorem unrecorded_cases (turn : StartTurn c now id job action job' slot aside effects)
    (h : job'.phase.Unrecorded) :
    (action = .run id ∧ job.phase = .entering ∧ c.isCancelled job.run = false ∧
      (c.slot job.service).state.isStartable ∧ slot.state = .starting ∧
      job'.phase.toBind = t.volumesOf job.service) ∨
    (job.phase.Unrecorded ∧ slot.state = (c.slot job.service).state ∧
      ((job.phase.toBind = [] ∧ job'.phase.toBind = []) ∨
        ∃ volume answer, job.phase.toBind = volume :: job'.phase.toBind ∧
          action = .answer id (.volume (.ok answer)))) := by
  cases turn with
  | enter hp hc hs hv | enterBare hp hc hs hv => exact .inl ⟨rfl, hp, hc, hs, rfl, hv.symm⟩
  | abandon hp | collect hp =>
      exact .inr ⟨by rw [hp]; trivial, rfl, .inl ⟨by rw [hp]; rfl, rfl⟩⟩
  | bind hp | bindLast hp =>
      exact .inr ⟨by rw [hp]; trivial, rfl, .inr ⟨_, _, by rw [hp]; rfl, rfl⟩⟩
  | arrive | accept =>
      rw [StartJob.phase_await] at h
      split at h <;> exact h.elim
  | @retry handle attempt probe =>
      rcases c.retryPhase_cases now job.service handle attempt with ⟨-, _, he⟩ | ⟨-, he⟩ <;>
        (simp only [StartJob.goTo, he] at h; exact h.elim)
  | _ => exact h.elim

theorem toBind_of_launch? {phase : StartPhase t.size} {launch : JobId}
    (h : phase.launch? = some launch) : phase.toBind = [] := by
  cases phase <;> first | rfl | cases h

/-- A start job that waits for a launch goes on waiting for it until the launch has asked for the
container, unless it takes its service to stopping. -/
theorem waits_on (turn : StartTurn c now id job action job' slot aside effects) {launch : JobId}
    {l : Launch t.size} (hw : job.phase.launch? = some launch)
    (hl : c.jobs[launch]? = some (.launch l)) (hp : l.phase = .calling)
    (hst : (c.slot job.service).state = .starting) :
    job'.phase.launch? = some launch ∨ slot.state = .stopping := by
  rcases turn.launch_cases with
    ⟨-, hw'⟩ | ⟨-, hn, -⟩ | ⟨_, l', _, -, hl', hr, hw', -⟩ | ⟨_, -, -, -, -, hstop⟩
  · exact .inl (hw'.trans hw)
  · cases hn.symm.trans hw
  · -- What has returned has asked.
    obtain rfl := Option.some.inj (hw'.symm.trans hw)
    obtain rfl := Job.launch.inj (Option.some.inj (hl'.symm.trans hl))
    cases hr.symm.trans hp
  · exact .inr (hstop hst)

/-- Nobody has stopped the service, and one start at most and no stop is at work on it. -/
structure Undisturbed (c : Controller t) (s : Fin t.size) : Prop where
  kept : (c.slot s).state ≠ .stopping
  under : ¬ c.StartsUnderStop s
  overlap : ¬ c.StartsOverlap s

/-- The start job's service is starting, and the volumes are bound that the job does not wait for. -/
structure Prepared (c : Controller t) (table : Bindings) (owed : List (Client × Store.Result))
    (k : Nat) (job : StartJob t.size) : Prop where
  starting : (c.slot job.service).state = .starting
  bound : ∀ volume ∈ t.volumesOf job.service,
    volume ∈ job.phase.toBind ∨ Held table job.service volume
  /-- A volume is bound when the job is going to be told so. -/
  granted : ∀ {volume : Volume} {left : List Volume} {answer : Volume.Answer},
    job.phase.toBind = volume :: left → (.job 0 k, .ok answer) ∈ owed →
    Held table job.service volume

/-- **A start job on its way is prepared after its turn** if it was before, unless it has only just
taken the service up. -/
theorem prepared_turn (h : job.phase.Unrecorded → Prepared c table owed id job)
    (turn : StartTurn c now id job action job' slot aside effects)
    (hrest : Leaves owed rest id action) (hu : job'.phase.Unrecorded) :
    Prepared (c.after id (.start job') job.service slot aside)
      (tableAfter table (Job.start job').errand?) (owedAfter table rest id (Job.start job').errand?)
      id job' := by
  constructor
  case starting =>
    rw [turn.same.1, Controller.slot_after_self]
    rcases unrecorded_cases turn hu with ⟨-, -, -, -, hs, -⟩ | ⟨hwas, hs, -⟩
    · exact hs
    · exact hs.trans (h hwas).starting
  case bound =>
    rw [turn.same.1]
    intro volume hv
    rcases unrecorded_cases turn hu with
      ⟨-, -, -, -, -, hall⟩ | ⟨hwas, -, ⟨hnil, -⟩ | ⟨first, answer, hfirst, rfl⟩⟩
    · exact .inl (hall ▸ hv)
    · exact .inr (((h hwas).bound volume hv).resolve_left (by simp [hnil])).start_kept
    · rcases (h hwas).bound volume hv with hm | hheld
      · rcases List.mem_cons.1 (hfirst ▸ hm) with rfl | hm
        · exact .inr ((h hwas).granted hfirst (hrest.answer _ rfl)).start_kept
        · exact .inl hm
      · exact .inr hheld.start_kept
  case granted =>
    intro volume left answer hp hm
    have hasked : (Job.start job').errand? = some (.attach volume.id (t.id job'.service)) := by
      rw [Job.errand?, hp]
      rfl
    -- The answer is the one to what the job has just asked, since it has no other one to come.
    rw [hasked] at hm ⊢
    rcases List.mem_append.1 hm with hm | hm
    · exact absurd hm (hrest.free _)
    · exact held_attach (Prod.mk.inj (List.mem_singleton.1 hm)).2.symm

section

variable (hk : c.jobs[k]? = some (.start job)) (hu : job.phase.Unrecorded)
include hk hu

/-- A job of the same service leaves the start alone where nothing disturbs it. -/
theorem Prepared.same_service {old new : Job t.size} (h : Prepared c table owed k job)
    (hj : c.jobs[id]? = some old) (hne : id ≠ k)
    (turn : Turn c now id old action new slot aside effects) (hs : old.service = job.service)
    (hbefore : Undisturbed c job.service)
    (hafter : Undisturbed (c.after id new old.service slot aside) job.service) :
    slot.state = .starting ∧ ∀ volume, Held table job.service volume →
      Held (tableAfter table new.errand?) job.service volume := by
  have hst := h.starting
  cases turn with
  | @start other other' _ _ _ _ turn =>
      refine ⟨?_, fun volume hheld => hheld.start_kept⟩
      rw [← hs] at hst
      rcases turn.state_cases with he | ⟨-, -, -, -, rfl⟩ | ⟨verdict, hp, -, -⟩
      · exact he.trans hst
      · rfl
      · exact absurd ⟨id, k, other, job, hne, hj, hk, hs, rfl, by rw [hp]; trivial, hu.owns⟩
          hbefore.overlap
  | @stop other phase _ _ _ turn =>
      have hkept := hafter.kept
      rw [← hs, Controller.slot_after_self] at hkept
      rw [← hs] at hst
      have hstart : slot.state = .starting := by
        rcases turn.state_cases with he | ⟨-, he, -⟩ | ⟨-, -, he⟩ | ⟨-, he, -⟩
        · exact he.trans hst
        · cases hst.symm.trans he
        · exact absurd he hkept
        · cases hst.symm.trans he
      refine ⟨hstart, fun volume hheld => ?_⟩
      cases htoUnbind : phase.toUnbind with
      | nil => simpa [Job.errand?, htoUnbind, tableAfter] using hheld
      | cons first left =>
          -- A stop that unbinds volumes is at work on a service that is starting.
          have hunbinds := StopPhase.unbinds_of_toUnbind
            (htoUnbind ▸ List.mem_cons_self : first ∈ phase.toUnbind)
          refine absurd ⟨?_, id, { other with phase }, ?_, hs, hunbinds.active⟩ hafter.under
          · rw [← hs, Controller.slot_after_self, hstart]
          · exact Controller.jobs_after_self (Controller.lt_size_of_job hj)
  | launch turn =>
      rw [← hs] at hst
      exact ⟨hst, fun volume hheld => hheld⟩

/-- **The turn of another job** leaves a start prepared that nothing disturbs. -/
theorem Prepared.other_turn {old new : Job t.size} (ht : t.Built) (h : Prepared c table owed k job)
    (hj : c.jobs[id]? = some old) (hne : id ≠ k)
    (turn : Turn c now id old action new slot aside effects) (hrest : Leaves owed rest id action)
    (hvolumes : (c.after id new old.service slot aside).KeepToVolumes)
    (hbefore : Undisturbed c job.service)
    (hafter : Undisturbed (c.after id new old.service slot aside) job.service) :
    Prepared (c.after id new old.service slot aside) (tableAfter table new.errand?)
      (owedAfter table rest id new.errand?) k job := by
  have hid := Controller.lt_size_of_job hj
  have howed {answer : Volume.Answer} {errand? : Option Volume.Request}
      (hm : (.job 0 k, .ok answer) ∈ owedAfter table rest id errand?) :
      (.job 0 k, .ok answer) ∈ owed := hrest.sub.subset (mem_of_owedAfter hne.symm hm)
  by_cases hs : old.service = job.service
  · obtain ⟨hstart, hheld⟩ := h.same_service hk hu hj hne turn hs hbefore hafter
    refine ⟨?_, fun volume hv => (h.bound volume hv).imp_right (hheld volume),
      fun hp hm => hheld _ (h.granted hp (howed hm))⟩
    rw [← hs, Controller.slot_after_self, hstart]
  · have hservice : new.service ≠ job.service := fun he => hs (turn.service_eq.symm.trans he)
    have hkeeps := hvolumes id new (Controller.jobs_after_self hid)
    refine ⟨?_, fun volume hv => (h.bound volume hv).imp_right
      (held_other ht hservice hkeeps hv).2, fun {volume left answer} hp hm => ?_⟩
    · rw [Controller.slot_after_of_ne (Ne.symm hs), h.starting]
    · have hmine : volume ∈ t.volumesOf job.service :=
        hvolumes k _ (Controller.start_after_of_ne hne.symm hk) volume
          (show volume ∈ job.phase.toBind from hp ▸ List.mem_cons_self)
      exact (held_other ht hservice hkeeps hmine).2 (h.granted hp (howed hm))

end

/-- What calls change leaves a start prepared, unless it stops the service. -/
theorem Prepared.changes (h : Prepared c table owed k job) (changes : Controller.ChangesTo now c d)
    (hafter : Undisturbed d job.service) : Prepared d table owed k job := by
  have hstate : (d.slot job.service).state = .starting ∨ (d.slot job.service).state = .stopping := by
    refine changes.induct (P := fun d => (d.slot job.service).state = .starting ∨
      (d.slot job.service).state = .stopping) (fun {c operation d} hc change => ?_) (.inl h.starting)
    rcases change.sets.state_cases job.service with he | ⟨-, he⟩
    · exact he ▸ hc
    · exact .inr he
  exact ⟨hstate.resolve_right hafter.kept, h.bound, h.granted⟩

end Bringup.Simulation
