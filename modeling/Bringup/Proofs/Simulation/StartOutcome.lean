import Bringup.Proofs.Simulation.Awaited

/-!
# What a start comes to, whatever the schedule

A fresh controller, an engine that answers from scripts, and a store that serves requests. Somebody
calls starts, any number of them and whenever they like. However long everything takes and in whatever
order it happens, each call reports what the prospect at the beginning says (`Leads.reports_outcome`).

The invariant `Tied` holds the controller, the scripts and the requests together: what engine and store
answer is what the prospect has in store, so the controller stays where the prospect has it.
-/

namespace Bringup.Simulation

open Lifecycle
open Lifecycle.Controller (Asks Foretold Told)

variable {t : Topology}

/-- Nothing has happened yet, and the store serves requests. -/
structure Scene.Fresh (x : Scene t) : Prop where
  controller : ∃ config, x.controller = .fresh t config
  ongoing : x.ongoing = []
  serving : ∃ delay, x.store.mode = .serving delay
  queue : x.store.queue = []
  answers : x.store.answers = []

/-- Controller, engine and store are where the prospect has them. -/
structure Tied (start x : Scene t) : Prop where
  told : Told start.prospect x.controller
  scripts : Scripts start x.controller x.engine
  awaited : Awaited start x
  serving : ∃ delay, x.store.mode = .serving delay
  /-- No service is refused another volume than at the beginning. -/
  table : ∀ s, ∀ volume ∈ t.volumesOf s, x.store.table.refusal? volume.id (t.id s)
    = start.store.table.refusal? volume.id (t.id s)

variable {start x y : Scene t} {c : Controller t} {action : Action} {effects : List Effect}

theorem Scene.Fresh.tied (h : x.Fresh) : Tied x x := by
  obtain ⟨⟨config, hc⟩, ho, hs, hq, ha⟩ := h
  have hjobs : x.controller.jobs = #[] := by rw [hc]; rfl
  refine ⟨hc ▸ Controller.told_fresh (by rw [prospect, hc]; rfl),
    ⟨fun s => ⟨0, by simp⟩, fun _ _ => rfl, ?_⟩, ⟨?_, ?_, ?_, ?_⟩, hs, fun _ _ _ => rfl⟩
  · intro id n job hj
    simp [hjobs] at hj
  · simp [ho]
  · simp [hq]
  · simp [ha]
  · simp [Store.clients, hq, ha]

/-! ## What can happen -/

/-- A step of the controller, with what it asks. -/
theorem Tied.after (h : Tied start x) (ht : t.Built)
    (hfair : action.Fair start.prospect x.controller)
    (hs : x.controller.step x.now action = some (c, effects))
    (hfree : ∀ id reply, action = .answer id reply → x.Frees id) : Tied start (x.after c effects) := by
  have hf := h.told.foretold
  have htold := h.told.step ht hfair hs
  have hawaited := h.awaited.step hf hs hfree
  have hscripts (hq : ∀ id handle, effects ≠ [.asks id (.container (.probe handle))]) :
      Scripts start c x.engine := h.scripts.step ht hf h.told.fits hfair hs hq
  rcases hf.asks hs with rfl | ⟨i, request, rfl, hasks, hwaits⟩
  · exact ⟨htold, hscripts (by simp), hawaited, h.serving, h.table⟩
  cases hasks with
  | @attach job s volume rest hj hjs hp =>
      subst hjs
      obtain ⟨delay, hmode⟩ := h.serving
      -- The job has nothing at the store: if it waited, this is the step that takes its answer.
      have hclient : Client.job 0 i ∉ x.store.clients := by
        intro hm
        obtain ⟨id, old, he, hold, hw⟩ := h.awaited.client hm
        obtain rfl := (Client.job.inj he).2
        obtain ⟨reply, ha⟩ := hwaits old hold (.inl hw)
        exact (hfree _ _ ha).2 hm
      have hstore := Store.request_of_serving hmode x.now (.job 0 i)
        (.attach volume.id (t.id job.service))
      exact ⟨htold, hscripts (by simp), hawaited.request hmode hj hp hclient,
        ⟨delay, (congrArg Store.mode hstore).trans hmode⟩,
        fun s v hv => (congrArg (fun store => store.table.refusal? v.id (t.id s)) hstore).trans
          (h.table s v hv)⟩
  | @probe job handle attempt hj hp hj' =>
      obtain ⟨hservice, hfound, hnext⟩ :=
        h.scripts.probe ht hf htold.foretold h.told.fits hfair hs hj hp hj'
      refine ⟨htold, ⟨hnext.kept, hnext.unasked, hnext.asked⟩,
        hawaited.engage _ hj' ⟨handle, attempt, rfl⟩ ?_,
        h.serving, h.table⟩
      intro engine _ handle' attempt' hp'
      obtain ⟨rfl, rfl⟩ := StartPhase.probing.inj hp'
      exact hfound
  | @start l s hl hls hp =>
      have hkept := hscripts (by simp)
      exact ⟨htold, ⟨hkept.kept, hkept.unasked, hkept.asked⟩,
        hawaited.engage _ hl hp fun engine he => takes_start h.scripts.kept hls (t.volumesOf s) he,
        h.serving, h.table⟩

/-- The answer of the store to a request to bind a volume is the one that the prospect has in store. -/
theorem Tied.takes (h : Tied start x) {job : StartJob t.size} {volume : Volume} {rest : List Volume}
    {id : Nat} (hj : x.controller.jobs[id]? = some (.start job))
    (hp : job.phase = .attaching (volume :: rest)) : (Job.start job).Takes start.prospect
      (.volume (x.store.table.serve (.attach volume.id (t.id job.service))).2) := by
  intro volume' rest' hp'
  obtain ⟨rfl, rfl⟩ := List.cons.inj (StartPhase.attaching.inj (hp.symm.trans hp'))
  have hb := h.told.foretold.backs hj
  rw [hp] at hb
  obtain ⟨bound, he, -⟩ := hb
  have htable := h.table job.service volume (by rw [he]; simp)
  simp only [Volume.Bindings.serve]
  rcases x.store.table.attach_cases volume.id (t.id job.service) with
    ⟨fresh, ha, hr⟩ | ⟨error, ha, hr⟩ <;> rw [ha] <;> exact htable.symm.trans hr

/-- Serving a request takes no volume from a service that owns it. -/
theorem Tied.served (h : Tied start x) (ht : t.Built) {store : Store}
    (hs : x.store.serve? x.now = some store) (s : Fin t.size) {volume : Volume}
    (hv : volume ∈ t.volumesOf s) : store.table.refusal? volume.id (t.id s)
      = x.store.table.refusal? volume.id (t.id s) := by
  obtain ⟨client, request, queue, hq, -, -, htable, -⟩ := Store.serve?_eq_some hs
  obtain ⟨id, job, wanted, rest, hentry, hj, hp⟩ :=
    h.awaited.asking (client, request) (hq ▸ List.mem_cons_self)
  obtain ⟨rfl, rfl⟩ := Prod.mk.inj hentry
  have hb := h.told.foretold.backs hj
  rw [hp] at hb
  obtain ⟨bound, he, -⟩ := hb
  have hwanted : wanted ∈ t.volumesOf job.service := by rw [he]; simp
  rw [htable, Volume.Bindings.serve]
  -- Only the owner of a volume asks for it, and to the owner it is not refused for being bound.
  by_cases hid : volume.id = wanted.id
  · rw [ht.owner_unique hv hwanted hid, hid]
    exact Volume.Bindings.refusal?_attach_self
  · exact Volume.Bindings.refusal?_attach_of_ne hid _

theorem Tied.moves (h : Tied start x) (ht : t.Built) (hm : Moves x y) : Tied start y := by
  cases hm with
  | @act action c effects hs ha hi =>
      refine h.after ht ?_ hs fun id reply he => absurd he (ha id reply)
      cases action with
      | invoke operation => exact hi operation rfl
      | answer job reply => exact absurd rfl (ha job reply)
      | _ => trivial
  | @reply call c effects hm hs =>
      obtain ⟨hawaited, hfree⟩ := h.awaited.reply hm (x.engine.finish call.work).1
      have hscript (service : ServiceId) : (x.engine.finish call.work).1.script service
          = x.engine.script service := Engine.Scripted.State.script_finish call.work
      have hkept : Kept start x.engine := h.scripts.kept
      have hfin : Scripts start x.controller (x.engine.finish call.work).1 :=
        ⟨fun s => hscript _ ▸ h.scripts.kept s, fun s hp => hscript _ ▸ h.scripts.unasked s hp,
          fun hj ha => hscript _ ▸ h.scripts.asked hj ha⟩
      refine Tied.after (x := { x with
        engine := (x.engine.finish call.work).1
        ongoing := x.others call.job }) ⟨h.told, hfin, hawaited, h.serving, h.table⟩ ht ?_ hs ?_
      · intro job hj
        obtain ⟨job', hj', -, htakes⟩ := h.awaited.working call hm
        obtain rfl := Option.some.inj (hj.symm.trans hj')
        exact htakes _ hkept
      · rintro id reply he
        obtain ⟨rfl, -⟩ := Action.answer.inj he
        exact hfree
  | @serve store hs =>
      obtain ⟨_, _, _, -, -, -, -, hmode⟩ := Store.serve?_eq_some hs
      obtain ⟨delay, hd⟩ := h.serving
      exact ⟨h.told, h.scripts, h.awaited.serve hs fun job volume rest id hj hp => h.takes hj hp,
        ⟨delay, hmode.trans hd⟩,
        fun s volume hv => (h.served ht hs s hv).trans (h.table s volume hv)⟩
  | @deliver place job result c effects ha hs =>
      obtain ⟨hawaited, hfree⟩ := h.awaited.deliver ha
      refine Tied.after (x := { x with
        store := { x.store with answers := x.store.answers.eraseIdx place } })
        ⟨h.told, h.scripts, hawaited, h.serving, h.table⟩ ht ?_ hs ?_
      · intro job' hj
        obtain ⟨id, old, hi, hold, -, htakes⟩ := h.awaited.answering _ (List.mem_of_getElem? ha)
        obtain rfl := (Client.job.inj hi).2
        obtain rfl := Option.some.inj (hj.symm.trans hold)
        exact htakes
      · rintro id reply he
        obtain ⟨rfl, -⟩ := Action.answer.inj he
        exact hfree
  | pass => exact ⟨h.told, h.scripts, ⟨h.awaited.working, h.awaited.asking, h.awaited.answering,
      h.awaited.sole⟩, h.serving, h.table⟩

/-! ## Every schedule -/

/-- Every world that comes about is tied to the prospect at the beginning. -/
theorem Leads.tied (ht : t.Built) (hx : start.Fresh) {w : World Engine.Scripted.engine}
    (h : Leads start.world w) : ∃ y, w = y.world ∧ Tied start y := by
  induction h with
  | refl => exact ⟨start, rfl, hx.tied⟩
  | tail _ hstep he ih =>
      obtain ⟨y, rfl, hy⟩ := ih
      obtain ⟨z, hm, rfl⟩ := Scene.moves_of_step (fun entry hentry hvisitor => by
        obtain ⟨id, _, hi, -⟩ := hy.awaited.answering entry hentry
        rw [hi] at hvisitor
        cases hvisitor) he hstep
      exact ⟨z, rfl, hy.moves ht hm⟩

/-- **What a start comes to does not depend on the schedule.** In a world with a built topology, a
fresh controller, an engine that answers from scripts and a store that serves requests, let somebody
call starts, however many and whenever. The prospect at the beginning says which services get ready:
those all of whose dependencies do, whose volumes are known and bound to nobody else, whose start does
not fail, and whose container says that it is ready when it is asked as often as the policy allows.
Every call that has answered has reported the outcome that the prospect has for every service, in the
order of their start, and from then on the controller shows it, too. -/
theorem Leads.reports_outcome (ht : t.Built) (hx : start.Fresh) {w : World Engine.Scripted.engine}
    (h : Leads start.world w) :
    (∀ s, s ∈ start.prospect.ready ↔ (∀ d ∈ t.dependencies s, d ∈ start.prospect.ready) ∧
      (∀ volume ∈ t.volumesOf s, start.store.table.refusal? volume.id (t.id s) = none) ∧
      (start.engine.script (t.id s)).fault = none ∧
      ∃ i < start.controller.config.retry.maxAttempts.toNat,
        (start.engine.script (t.id s)).answer i = .ready) ∧
    ∀ k answer time, w.answer? 0 k = some (answer, time) →
      (∃ report, answer = .report report ∧ (∀ s, t.id s ∈ report.services.map Status.id) ∧
        report.services.map Status.sight
          = (Controller.reportOrder t).map fun s => (t.id s, start.prospect.outcome s)) ∧
      ∃ y : Scene t, w = y.world ∧ ∀ s, (y.controller.slot s).sight = start.prospect.outcome s := by
  refine ⟨fun s => (Prospect.mem_ready ht).trans (and_congr_right fun _ => Prospect.trial_eq_none),
    ?_⟩
  intro k answer time ha
  obtain ⟨y, rfl, hy⟩ := h.tied ht hx
  obtain ⟨hslots, report, he, hsights⟩ := hy.told.report ha
  have hids : report.services.map Status.id = (Controller.reportOrder t).map t.id := by
    simpa [Function.comp_def, Status.sight] using congrArg (List.map Prod.fst) hsights
  refine ⟨⟨report, he, ?_, hsights⟩, y, rfl, hslots⟩
  intro s
  exact hids ▸ List.mem_map_of_mem (Controller.mem_reportOrder ht s)

/-! ### Two starts of a shop -/

/-- The services of a shop, each of which depends on the one before. -/
def shopServices : List Service :=
  [{ id := ⟨"db"⟩, image := "db:img" },
    { id := ⟨"web"⟩, image := "web:img", dependsOn := .ofList [⟨"db"⟩] },
    { id := ⟨"worker"⟩, image := "worker:img", dependsOn := .ofList [⟨"web"⟩] }]

/-- The volume of the database. -/
def shopVolume : Volume := { id := ⟨"data"⟩, mountPath := "/data" }

def shop : Topology where
  services := shopServices
  index := [(⟨"worker"⟩, 2), (⟨"web"⟩, 1), (⟨"db"⟩, 0)]
  graph := { nodes := [⟨"db"⟩, ⟨"web"⟩, ⟨"worker"⟩], edges := [(1, 2), (0, 1)] }
  volumes := [⟨shopVolume, ⟨"db"⟩⟩]

theorem shop_built : shop.Built :=
  ⟨_, .volume (.services .empty shopServices) shopVolume ⟨"db"⟩, rfl⟩

/-- The database gets ready when it is asked the second time, and the web server does not start. -/
def opening : Scene shop where
  controller := .fresh shop {}
  engine := { scripts := [(⟨"db"⟩, { probes := [.notReady], startTime := .ofMillis 3 }),
    (⟨"web"⟩, { startError := some (.start "no image") })] }
  store := { mode := .serving 2, table := .ofVolumes [shopVolume] }

/-- The shop is started twice at once, and the second start is waited for. -/
def openedTwice : World Engine.Scripted.engine :=
  ((opening.world.invoke 0 .startAll).1.invoke 0 .startAll).1.await 0 1

/-- The theorem at the end of that run. -/
theorem reports_outcome_shop :
    ∃ (w : World Engine.Scripted.engine) (report : Report) (time : Nat), shop.Built ∧
      opening.Fresh ∧ Leads opening.world w ∧ w.answer? 0 1 = some (.report report, time) ∧
      report.services.map Status.sight = [(⟨"db"⟩, .ready, none),
        (⟨"web"⟩, .failed, some (.startFailed ⟨"web"⟩ (.start "no image"))),
        (⟨"worker"⟩, .pending, some (.dependencyFailed ⟨"worker"⟩ ⟨"web"⟩))] := by
  have fresh : opening.Fresh := ⟨⟨{}, rfl⟩, rfl, ⟨2, rfl⟩, rfl, rfl⟩
  have leads : Leads opening.world openedTwice := ((Leads.refl.invoke 0).invoke 0).await 0 1
  have answered : (openedTwice.answer? 0 1).isSome := by decide +kernel
  have expected : (Controller.reportOrder shop).map (fun s => (shop.id s, opening.prospect.outcome s))
      = [(⟨"db"⟩, .ready, none),
        (⟨"web"⟩, .failed, some (.startFailed ⟨"web"⟩ (.start "no image"))),
        (⟨"worker"⟩, .pending, some (.dependencyFailed ⟨"worker"⟩ ⟨"web"⟩))] := by decide +kernel
  obtain ⟨⟨answer, time⟩, ha⟩ := Option.isSome_iff_exists.1 answered
  obtain ⟨⟨report, rfl, -, hsights⟩, -⟩ :=
    (leads.reports_outcome shop_built fresh).2 1 answer time ha
  exact ⟨openedTwice, report, time, shop_built, fresh, leads, ha, hsights.trans expected⟩

end Bringup.Simulation
