import Bringup.Proofs.Simulation.CancelAtOnce
import Bringup.Proofs.Simulation.OnTime

/-!
# Lulls

Where nothing happens by itself, all that somebody waits for outside is due later (`Lull`), and the clock
may move on up to the first moment at which something is (`Until`). What the pace says of the moments for
which a start job waits therefore bounds the clock: it moves neither past the moment at which a container
has started (`Follows.launch_lull`) nor past that of the next question to it (`Follows.pause_lull`).
-/

namespace Bringup.Simulation

open Lifecycle

variable {t : Topology} {e : Engine}

namespace Setting

/-- No start job takes a step, nothing is asked of the store, and all that somebody waits for is due
later. -/
structure Lull (x : Setting e t) : Prop where
  run : ∀ id, x.controller.step x.now (.run id) = none
  heed : ∀ id, x.controller.step x.now (.heed id) = none
  errand : ∀ {id : Nat} {job : Job t.size}, x.controller.jobs[id]? = some job → job.errand? = none
  expects : ∀ {id : Nat} {job : Job t.size} {call : Container.Call},
    x.controller.jobs[id]? = some job → job.Expects call →
      ∃ entry ∈ x.ongoing, entry.job = id ∧ x.now < entry.due
  deadline : ∀ {id due : Nat} {job : Job t.size}, x.controller.jobs[id]? = some job →
    job.deadline? = some due → x.now < due

/-- Of all that is due later nothing is due before this time. -/
structure Until (x : Setting e t) (time : Nat) : Prop where
  later : x.now < time
  works : ∀ entry ∈ x.ongoing, x.now < entry.due → time ≤ entry.due
  deadline : ∀ {id due : Nat} {job : Job t.size}, x.controller.jobs[id]? = some job →
    job.deadline? = some due → x.now < due → time ≤ due

theorem lull_of_idle {x : Setting e t} (he : e.Answering) (h : Attends x)
    (hprompt : x.store.Prompt x.now) (hidle : x.world.Idle) : x.Lull where
  run _ := own_of_idle hidle trivial
  heed _ := own_of_idle hidle trivial
  errand hj := errand_eq_none_of_idle h hprompt hidle hj
  expects hj hexpects := due_of_expects he h hidle hj hexpects
  deadline hj hd := due_of_deadline hidle hj hd

/-- The store has nothing to do where nobody asks it for anything. -/
theorem Lull.silent {x : Setting e t} (h : x.Lull) (hattends : Attends x) :
    x.store.queue = [] ∧ x.store.answers = [] := by
  have hnobody : x.store.clients = [] := by
    refine List.eq_nil_iff_forall_not_mem.2 fun client hm => ?_
    obtain ⟨id, job, request, -, hj, hr⟩ := hattends.store.clients client hm
    rw [h.errand hj] at hr
    cases hr
  simpa [Store.clients] using hnobody

theorem until_of_deadlines {x : Setting e t} {time : Nat} (hlt : x.now < time)
    (h : ∀ due ∈ x.world.deadlines, x.now < due → time ≤ due) : x.Until time where
  later := hlt
  works entry hm hd := h _ (mem_deadlines.2 (.inl ⟨entry, hm, rfl⟩)) hd
  deadline hj hdue hd := h _ (mem_deadlines.2 (.inr (.inl ⟨_, _, hj, hdue⟩))) hd

theorem until_of_horizon {x : Setting e t} {time : Nat} (h : x.world.horizon? = some time) :
    x.Until time := by
  obtain ⟨⟨-, hlt⟩, hmost⟩ := World.horizon?_eq_some.1 h
  exact until_of_deadlines hlt hmost

theorem until_succ (x : Setting e t) : x.Until (x.now + 1) where
  later := Nat.lt_succ_self _
  works _ _ hd := hd
  deadline _ _ hd := hd

/-! ## What start jobs wait for -/

section

variable {start : Scene t} {x : Setting Engine.Scripted.engine t} {time : Nat} (ht : t.Built)
  (hf : x.Follows start) (hlull : x.Lull)
  (hdue : ∀ entry ∈ x.ongoing, ∃ job, x.controller.jobs[entry.job]? = some job ∧
    Due start x.now entry.due job) {id : Nat} {job : StartJob t.size}
  (hj : x.controller.jobs[id]? = some (.start job))

include hf hlull hdue hj

/-- What a start job waits for that has not got its launch back: the engine, which is to answer when the
pace has it. -/
theorem Follows.launching_lull {launch : JobId} (hp : job.phase = .launching launch)
    (hl : x.controller.takeLaunch? launch = none) (htimely : x.Timely start job.service job.phase) :
    ∃ l, x.controller.jobs[launch]? = some (.launch l) ∧ l.service = job.service ∧
      l.phase = .running ∧ x.now < start.pace.probed job.service 0 ∧
      (∀ time, x.Until time → time ≤ start.pace.probed job.service 0) ∧
      x.Shows start job.service (start.pace.entered job.service)
        (entries start.pace job.service 0) := by
  rw [hp] at htimely
  obtain ⟨l, hlaunch, htimely⟩ := htimely
  obtain ⟨l', hlaunch', hs, -⟩ := hf.linked.launch hj (by rw [hp]; rfl)
  obtain rfl := Job.launch.inj (Option.some.inj (hlaunch.symm.trans hlaunch'))
  cases Controller.launchBlock_of_stuck hlaunch (hlull.run launch) with
  | engine hlp =>
      rw [hlp] at htimely
      have hexpects : (Job.launch l).Expects (.start default []) := by
        rw [Job.Expects, hlp]
        exact ⟨_, _, rfl⟩
      obtain ⟨entry, hm, he, hlt⟩ := hlull.expects hlaunch hexpects
      obtain ⟨job', hj', hd⟩ := hdue entry hm
      rw [he] at hj'
      obtain rfl := Option.some.inj (hlaunch.symm.trans hj')
      have hd : entry.due = start.pace.probed job.service 0 := hs ▸ hd.1 rfl
      exact ⟨l, hlaunch, hs, hlp, hd ▸ hlt, fun _ hu => hd ▸ hu.works entry hm hlt, htimely.2⟩
  | kept hlp => simp [Controller.takeLaunch?, hlaunch, hlp] at hl
  | halt hlp | finished hlp =>
      rw [hlp] at htimely
      exact htimely.elim

include ht in
/-- The clock does not move past the moment at which the start of a container is over. -/
theorem Follows.launch_lull (hu : x.Until time) {launch : JobId}
    (hp : job.phase = .launching launch) (hl : x.controller.takeLaunch? launch = none)
    (htimely : x.Timely start job.service job.phase) : time ≤ start.pace.leave job.service ∧
      Timely start { x with now := time } job.service (.launching launch) := by
  obtain ⟨l, hlaunch, -, hlp, -, hle, hshows⟩ :=
    hf.launching_lull hlull hdue hj hp hl htimely
  have hb := hf.foretold.backs hj
  rw [hp] at hb
  refine ⟨Nat.le_trans (hle time hu)
    (Pace.probed_zero_le_leave ht hb (RetryPolicy.maxAttempts_pos _)), l, hlaunch, ?_⟩
  rw [hlp]
  exact ⟨hle time hu, hshows.congr rfl rfl⟩

omit hdue in
include ht in
/-- The clock does not move past the moment of the next attempt. -/
theorem Follows.pause_lull (hu : x.Until time) {handle : Container.Handle} {attempt : UInt32}
    {deadline : Nat} (hp : job.phase = .pausing handle attempt deadline)
    (htimely : x.Timely start job.service job.phase) : time ≤ start.pace.leave job.service ∧
      Timely start { x with now := time } job.service (.pausing handle attempt deadline) := by
  have hb := hf.foretold.backs hj
  rw [hp] at htimely hb
  obtain ⟨rfl, -, hshows⟩ := htimely
  have hdue : (Job.start job).deadline?
    = some (start.pace.probed job.service (attempt.toNat - 1)) := by simp [Job.deadline?, hp]
  have hle : time ≤ start.pace.probed job.service (attempt.toNat - 1) :=
    hu.deadline hj hdue (hlull.deadline hj hdue)
  obtain ⟨n, hn, hattempt, -⟩ := Pace.le_asked hb.1 hb.2
  refine ⟨?_, rfl, hle, hshows.congr rfl rfl⟩
  rw [Pace.leave_of_asked ht hn]
  exact Nat.le_trans hle (Pace.probed_mono (Nat.sub_le_sub_right hattempt 1))

omit ht hf in
/-- No start job waits for an answer whether a container is ready: the engine says so at once. -/
theorem Lull.not_probing {handle : Container.Handle} {attempt : UInt32} :
    job.phase ≠ .probing handle attempt := by
  intro hp
  have hexpects : (Job.start job).Expects (.probe handle) := by
    rw [Job.Expects, hp]
    exact rfl
  obtain ⟨entry, hm, he, hlt⟩ := hlull.expects hj hexpects
  obtain ⟨job', hj', hd⟩ := hdue entry hm
  rw [he] at hj'
  obtain rfl := Option.some.inj (hj.symm.trans hj')
  exact absurd (hd.2 rfl) (Nat.not_le.2 hlt)

end

end Setting

end Bringup.Simulation
