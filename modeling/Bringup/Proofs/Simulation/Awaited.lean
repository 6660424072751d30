import Bringup.Proofs.Engine.Scripts
import Bringup.Proofs.Lifecycle.Outside
import Bringup.Proofs.Simulation.Clients
import Bringup.Proofs.Simulation.Scene
import Bringup.Proofs.Volume.Refusals

/-!
# Whatever is answered is awaited

What engine and store have in store for the services at the beginning is a prospect
(`Scene.prospect`). From then on the scripts of the engine are used up as containers are asked
(`Scripts`), and everything that engine and store are going to answer is awaited by the job that
asked, and agrees with the prospect (`Awaited`). So every answer finds the controller where the
prospect has it.
-/

namespace Bringup.Simulation

open Lifecycle
open Lifecycle.Controller (Asks Foretold)

variable {t : Topology}

/-- What engine and store of a scene have in store for the services. -/
def Scene.prospect (x : Scene t) : Prospect t where
  fate s := {
    refuses := fun volume => x.store.table.refusal? volume.id (t.id s)
    fault := (x.engine.script (t.id s)).fault
    probe := (x.engine.script (t.id s)).answer }
  attempts := x.controller.config.retry.maxAttempts

/-- The scripts of an engine are those at the beginning, less answers that are used up. -/
def Kept (start : Scene t) (engine : Engine.Scripted.State) : Prop :=
  ∀ s, ∃ n, engine.script (t.id s) = (start.engine.script (t.id s)).after n

/-- The answers that are used up are those that the controller asked for. -/
structure Scripts (start : Scene t) (c : Controller t) (engine : Engine.Scripted.State) : Prop where
  kept : Kept start engine
  unasked : ∀ s, (c.slot s).state = .pending →
    engine.script (t.id s) = start.engine.script (t.id s)
  asked : ∀ {id n : Nat} {job : StartJob t.size}, c.jobs[id]? = some (.start job) →
    job.phase.asked? = some n →
      engine.script (t.id job.service) = (start.engine.script (t.id job.service)).after n

/-- What engine and store work on is awaited, and their answers agree with the prospect. -/
structure Awaited (start x : Scene t) : Prop where
  working : ∀ call ∈ x.ongoing, ∃ job, x.controller.jobs[call.job]? = some job ∧ job.AtEngine ∧
    ∀ engine, Kept start engine →
      job.Takes start.prospect (.container (engine.finish call.work).2)
  asking : ∀ entry ∈ x.store.queue, ∃ (id : Nat) (job : StartJob t.size) (volume : Volume)
    (rest : List Volume), entry = (.job 0 id, .attach volume.id (t.id job.service)) ∧
      x.controller.jobs[id]? = some (.start job) ∧ job.phase = .attaching (volume :: rest)
  answering : ∀ entry ∈ x.store.answers, ∃ (id : Nat) (job : Job t.size), entry.1 = .job 0 id ∧
    x.controller.jobs[id]? = some job ∧ job.AtStore ∧ job.Takes start.prospect (.volume entry.2)
  /-- Nobody waits for two answers. -/
  sole : x.store.clients.Nodup

/-- Neither engine nor store have anything to do for the job. -/
def Scene.Frees (x : Scene t) (id : JobId) : Prop :=
  (∀ call ∈ x.ongoing, call.job ≠ id) ∧ .job 0 id ∉ x.store.clients

variable {start x : Scene t} {c : Controller t} {action : Action} {effects : List Effect}

theorem Awaited.client (h : Awaited start x) {client : Client} (hc : client ∈ x.store.clients) :
    ∃ (id : Nat) (job : Job t.size), client = .job 0 id ∧ x.controller.jobs[id]? = some job ∧
      job.AtStore := by
  rcases List.mem_append.1 hc with hm | hm
  · obtain ⟨entry, he, rfl⟩ := List.mem_map.1 hm
    obtain ⟨id, job, volume, rest, rfl, hj, hp⟩ := h.asking entry he
    exact ⟨id, _, rfl, hj, volume, rest, hp⟩
  · obtain ⟨entry, he, rfl⟩ := List.mem_map.1 hm
    obtain ⟨id, job, hi, hj, hw, -⟩ := h.answering entry he
    exact ⟨id, job, hi, hj, hw⟩

/-! ## Steps of the controller -/

/-- A step of the controller moves nobody who still waits. -/
theorem Awaited.step (h : Awaited start x) (hf : Foretold start.prospect x.controller)
    (hs : x.controller.step x.now action = some (c, effects))
    (hfree : ∀ id reply, action = .answer id reply → x.Frees id) :
    Awaited start { x with controller := c } where
  working call hc := by
    obtain ⟨job, hj, hw, htakes⟩ := h.working call hc
    refine ⟨job, hf.waits_kept hs hj (.inr hw) ?_, hw, htakes⟩
    intro reply ha
    exact (hfree _ _ ha).1 call hc rfl
  asking entry he := by
    obtain ⟨id, job, volume, rest, rfl, hj, hp⟩ := h.asking entry he
    refine ⟨id, job, volume, rest, rfl, ?_, hp⟩
    apply hf.waits_kept hs hj (.inl ⟨volume, rest, hp⟩)
    intro reply ha
    exact (hfree _ _ ha).2 (List.mem_append_left _ (List.mem_map_of_mem he))
  answering entry he := by
    obtain ⟨id, job, hi, hj, hw, htakes⟩ := h.answering entry he
    refine ⟨id, job, hi, hf.waits_kept hs hj (.inl hw) ?_, hw, htakes⟩
    intro reply ha
    exact (hfree _ _ ha).2 (hi ▸ List.mem_append_right _ (List.mem_map_of_mem he))
  sole := h.sole

/-! ## Questions -/

/-- The engine takes up a call for a job that waits for it. -/
theorem Awaited.engage (h : Awaited start x) {id : JobId} {due : Nat}
    {work : Engine.Scripted.Work} (engine : Engine.Scripted.State) {job : Job t.size}
    (hj : x.controller.jobs[id]? = some job) (hw : job.AtEngine)
    (htakes : ∀ engine, Kept start engine →
      job.Takes start.prospect (.container (engine.finish work).2)) :
    Awaited start { x with
      engine
      ongoing := x.others id ++ [⟨id, due, work⟩] } where
  working call hc := by
    rcases List.mem_append.1 hc with hc | hc
    · exact h.working call (List.mem_filter.1 hc).1
    · obtain rfl := List.mem_singleton.1 hc
      exact ⟨job, hj, hw, htakes⟩
  asking := h.asking
  answering := h.answering
  sole := h.sole

/-- The store takes in the request of a job that waits for it. -/
theorem Awaited.request (h : Awaited start x) {delay : Nat} (hmode : x.store.mode = .serving delay)
    {id : Nat} {job : StartJob t.size} {volume : Volume} {rest : List Volume}
    (hj : x.controller.jobs[id]? = some (.start job)) (hp : job.phase = .attaching (volume :: rest))
    (hn : .job 0 id ∉ x.store.clients) :
    Awaited start { x with
      store := x.store.request x.now (.job 0 id) (.attach volume.id (t.id job.service)) } where
  working := h.working
  asking entry he := by
    rw [Store.request_of_serving hmode] at he
    rcases List.mem_append.1 he with he | he
    · exact h.asking entry he
    · obtain rfl := List.mem_singleton.1 he
      exact ⟨id, job, volume, rest, rfl, hj, hp⟩
  answering entry he := by
    rw [Store.request_of_serving hmode] at he
    exact h.answering entry he
  sole := (Store.clients_request _).nodup_iff.2 (List.nodup_cons.2 ⟨hn, h.sole⟩)

/-! ## Answers -/

/-- The engine is done with what it did for a job. -/
theorem Awaited.reply (h : Awaited start x) {call : Ongoing Engine.Scripted.Work}
    (hm : call ∈ x.ongoing) (engine : Engine.Scripted.State) :
    Awaited start { x with
      engine
      ongoing := x.others call.job } ∧
    Scene.Frees { x with
      engine
      ongoing := x.others call.job } call.job := by
  obtain ⟨job, hj, hw, -⟩ := h.working call hm
  refine ⟨⟨fun other ho => h.working other (List.mem_filter.1 ho).1, h.asking, h.answering, h.sole⟩,
    fun other ho => by simpa using (List.mem_filter.1 ho).2, ?_⟩
  intro hc
  obtain ⟨id, job', he, hj', hw'⟩ := h.client hc
  obtain rfl := (Client.job.inj he).2
  obtain rfl := Option.some.inj (hj.symm.trans hj')
  -- A job that waits for the engine does not wait for the store.
  exact hw'.not_atEngine hw

/-- The store serves the oldest request. -/
theorem Awaited.serve (h : Awaited start x) {store : Store} (hs : x.store.serve? x.now = some store)
    (htakes : ∀ (job : StartJob t.size) (volume : Volume) (rest : List Volume) (id : Nat),
      x.controller.jobs[id]? = some (.start job) → job.phase = .attaching (volume :: rest) →
        (Job.start job).Takes start.prospect
          (.volume (x.store.table.serve (.attach volume.id (t.id job.service))).2)) :
    Awaited start { x with store } := by
  obtain ⟨client, request, queue, hq, hq', ha, -⟩ := Store.serve?_eq_some hs
  refine ⟨h.working, ?_, ?_, ?_⟩
  · intro entry he
    rw [hq'] at he
    exact h.asking entry (hq ▸ List.mem_cons_of_mem _ he)
  · intro entry he
    rw [ha] at he
    rcases List.mem_append.1 he with he | he
    · exact h.answering entry he
    · obtain rfl := List.mem_singleton.1 he
      obtain ⟨id, job, volume, rest, hentry, hj, hp⟩ :=
        h.asking (client, request) (hq ▸ List.mem_cons_self)
      obtain ⟨rfl, rfl⟩ := Prod.mk.inj hentry
      exact ⟨id, _, rfl, hj, ⟨volume, rest, hp⟩, htakes job volume rest id hj hp⟩
  · exact (Store.clients_serve hs).nodup_iff.2 h.sole

/-- An answer of the store reaches the job that waits for it. -/
theorem Awaited.deliver (h : Awaited start x) {place : Nat} {id : JobId} {result : Store.Result}
    (ha : x.store.answers[place]? = some (.job 0 id, result)) :
    Awaited start { x with store := { x.store with answers := x.store.answers.eraseIdx place } } ∧
    Scene.Frees { x with
      store := { x.store with answers := x.store.answers.eraseIdx place } } id := by
  -- Nobody waits for two answers, so the job waits for no other one.
  have hsole := List.nodup_cons.1 ((Store.clients_eraseIdx ha).nodup_iff.1 h.sole)
  obtain ⟨i, job, hi, hj, hw, -⟩ := h.answering _ (List.mem_of_getElem? ha)
  refine ⟨⟨h.working, h.asking, fun entry he => h.answering entry (List.mem_of_mem_eraseIdx he),
    hsole.2⟩, ?_, hsole.1⟩
  intro call hc he
  obtain ⟨job', hj', hw', -⟩ := h.working call hc
  obtain rfl := (Client.job.inj hi).2
  subst he
  obtain rfl := Option.some.inj (hj.symm.trans hj')
  exact hw.not_atEngine hw'

/-! ## Scripts -/

/-- A start that the engine takes up comes to what the prospect has in store. -/
theorem takes_start (hk : Kept start x.engine) {l : Launch t.size} {s : Fin t.size}
    (hs : l.service = s) (volumes : List Volume) {engine : Engine.Scripted.State}
    (he : Kept start engine) : (Job.launch l).Takes start.prospect (.container
      (engine.finish (x.engine.take x.now (.start (t.service s) volumes)).2.2).2) := by
  subst hs
  obtain ⟨n, hn⟩ := hk l.service
  obtain ⟨m, hm⟩ := he l.service
  rcases Engine.Scripted.State.finish_take_start x.now (t.service l.service) volumes hn hm with
    ⟨error, hf, hr⟩ | ⟨name, hf, hr⟩ <;> rw [hr]
  · exact hf
  · exact ⟨hf, rfl⟩

/-- The controller is where the scripts are, as long as it asks nothing. -/
theorem Scripts.step {engine : Engine.Scripted.State} {now : Nat} {c' : Controller t}
    (h : Scripts start c engine) (ht : t.Built) (hf : Foretold start.prospect c) (hfits : c.Fits)
    (hfair : action.Fair start.prospect c) (hs : c.step now action = some (c', effects))
    (hq : ∀ id handle, effects ≠ [.asks id (.container (.probe handle))]) :
    Scripts start c' engine where
  kept := h.kept
  unasked s hp := h.unasked s (hf.pending_before ht hfits hfair hs hp)
  asked {id n job'} hj ha := by
    rcases hf.asked hs hj ha with ⟨rfl, hp⟩ | ⟨job, hi, he, hk | ⟨handle, _, _, _, hq'⟩⟩
    · rw [h.unasked _ hp, Engine.Scripted.Script.after_zero]
    · exact he ▸ h.asked hi hk
    · exact absurd hq' (hq id handle)

/-- An answer is used up when the controller asks for it. -/
theorem Scripts.probe {engine : Engine.Scripted.State} {now : Nat} {c' : Controller t} {id : Nat}
    {handle : Container.Handle} (h : Scripts start c engine) (ht : t.Built)
    (hf : Foretold start.prospect c) (hf' : Foretold start.prospect c') (hfits : c.Fits)
    (hfair : action.Fair start.prospect c)
    (hs : c.step now action = some (c', [.asks id (.container (.probe handle))]))
    {job : StartJob t.size} {attempt : UInt32} (hj : c.jobs[id]? = some (.start job))
    (hp : job.phase = .asking handle attempt)
    (hj' : c'.jobs[id]? = some (.start (job.goTo (.probing handle attempt)))) :
    handle.service = t.id job.service ∧
    (engine.nextProbe handle.service).2
      = (start.prospect.fate job.service).probe (attempt.toNat - 1) ∧
    Scripts start c' (engine.nextProbe handle.service).1 := by
  have hb := hf.backs hj
  rw [hp] at hb
  obtain ⟨⟨-, -, hservice⟩, hpos, -⟩ := hb
  obtain ⟨hanswer, hnext⟩ := Engine.Scripted.State.nextProbe_of_after
    (h.asked hj (n := attempt.toNat - 1) (by rw [hp]; rfl))
  rw [Nat.sub_add_cancel hpos] at hnext
  -- The other services keep their scripts.
  have hother {s : Fin t.size} (hne : s ≠ job.service) :
      (engine.nextProbe (t.id job.service)).1.script (t.id s) = engine.script (t.id s) :=
    Engine.Scripted.State.script_nextProbe_of_ne fun he => hne (ht.id_injective he)
  rw [hservice]
  refine ⟨rfl, hanswer, ?_, ?_, ?_⟩
  · intro s
    by_cases hne : s = job.service
    · subst hne
      exact ⟨_, hnext⟩
    · rw [hother hne]
      exact h.kept s
  · intro s hpend
    have hpend := hf.pending_before ht hfits hfair hs hpend
    by_cases hne : s = job.service
    · rw [hne, hf.owner hj (by rw [hp]; trivial)] at hpend
      cases hpend
    · rw [hother hne]
      exact h.unasked s hpend
  · intro i n job' hi ha
    by_cases hne : job'.service = job.service
    · -- One job alone counts what a service was asked: the one that owns it.
      have he : i = id := hf'.sole hi hj' hne (StartPhase.owns_of_asked? ha) trivial
      subst he
      obtain rfl := Job.start.inj (Option.some.inj (hj'.symm.trans hi))
      obtain rfl := Option.some.inj ha
      exact hnext
    · rw [hother hne]
      rcases hf.asked hs hi ha with ⟨rfl, hpend⟩ | ⟨old, ho, he, hk | ⟨_, _, _, _, hq⟩⟩
      · rw [h.unasked _ hpend, Engine.Scripted.Script.after_zero]
      · exact he ▸ h.asked ho hk
      · rw [List.cons.injEq, Effect.asks.injEq] at hq
        obtain rfl := hq.1.1
        rw [hj, Option.some.injEq, Job.start.injEq] at ho
        exact absurd (ho ▸ he.symm) hne

end Bringup.Simulation
