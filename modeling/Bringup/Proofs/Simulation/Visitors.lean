import Bringup.Proofs.Simulation.BindingsAgree
import Bringup.Proofs.Simulation.Outstanding

/-!
# A store with visitors

A controller in its setting, whose store has other users: at any instant a visitor may request anything
of the store (`Visited`). The controller sees only the answers, so in such a run too every request of a
job is what the job waits for (`Queueing`).

A binding is changed by a request to unbind the volume, and by nothing else as long as the volume has an
owner (`Volume.Bindings.get?_serve_kept`). So a volume stays bound, and its binding stays as it is, until
the store serves such a request of a visitor, or of a job that stops the service of the volume
(`Visited.bound_until_released`). The stop job does not look who owns the volume: one that was refused to
the service because somebody else has it is taken from them when the service is stopped (`taken_away`).
-/

namespace Bringup.Volume.Bindings

variable {table : Bindings} {volume other : VolumeId} {service owner : ServiceId}
  {binding : Binding}

/-! ## The bindings of volumes that have an owner -/

theorem get?_attach_kept (h : table.get? volume = some binding) (ho : binding.owner = some owner)
    (other : VolumeId) (service : ServiceId) :
    (table.attach other service).1.get? volume = some binding := by
  by_cases hne : volume = other
  · subst hne
    unfold attach
    rw [h]
    by_cases he : owner = service <;> simp [ho, he, h]
  · rcases table.attach_table other service with he | ⟨new, hid, -, -, he⟩
    · rw [he, h]
    · rw [he, get?_put_of_ne (hid ▸ hne), h]

theorem get?_register_kept (h : table.get? volume = some binding) (new : Volume) :
    (table.register new).get? volume = some binding := by
  unfold register
  cases hg : table.get? new.id with
  | some => exact h
  | none =>
      have hne : volume ≠ Binding.id { volume := new } := by
        rintro rfl
        rw [hg] at h
        cases h
      exact (get?_put_of_ne hne).trans h

theorem get?_destroy_kept (h : table.get? volume = some binding) (ho : binding.owner = some owner)
    (other : VolumeId) : (table.destroy other).1.get? volume = some binding := by
  unfold destroy
  cases hg : table.get? other with
  | none => exact h
  | some old =>
      cases hold : old.owner with
      | some => simpa [hold] using h
      | none =>
          have hne : volume ≠ other := by
            rintro rfl
            obtain rfl : old = binding := Option.some.inj (hg.symm.trans h)
            rw [ho] at hold
            cases hold
          simpa [hold, get?_erase_of_ne hne] using h

/-- **The binding of a volume that has an owner** stays as it is, whatever the table is asked, unless it
is asked to unbind this volume. -/
theorem get?_serve_kept (h : table.get? volume = some binding) (ho : binding.owner = some owner)
    {request : Request} (hr : request ≠ .detach volume) :
    (table.serve request).1.get? volume = some binding := by
  cases request with
  | register new => exact get?_register_kept h new
  | attach other service => exact get?_attach_kept h ho other service
  | detach other =>
      have hne : volume ≠ other := fun he => hr (he ▸ rfl)
      exact (get?_detach_of_ne hne).trans h
  | destroy other => exact get?_destroy_kept h ho other
  | binding => exact h

end Bringup.Volume.Bindings

namespace Bringup.Simulation

open Lifecycle

variable {t : Topology} {e : Engine}

/-! ## What requests leave of a store -/

namespace Store

variable {store : Store} {now : Nat} {client : Client} {request : Volume.Request}

theorem table_request : (store.request now client request).table = store.table := by
  unfold Store.request
  split <;> rfl

theorem mem_queue_request {entry : Client × Volume.Request}
    (h : entry ∈ (store.request now client request).queue) :
    entry ∈ store.queue ∨ entry = (client, request) := by
  unfold Store.request at h
  split at h
  next => exact .inl h
  next => exact .inl h
  next => simpa using h

theorem table_hear (now : Nat) (store : Store) (effects : List Effect) :
    (effects.foldl (hear now) store).table = store.table := by
  induction effects generalizing store with
  | nil => rfl
  | cons effect rest ih =>
      rw [List.foldl_cons, ih]
      unfold hear
      split
      next => exact table_request
      next => rfl

/-- The jobs that wait for an answer. -/
def askers (store : Store) : List Client := store.clients.filter (· ≠ .visitor)

/-- A visitor who requests something is none of them. -/
theorem askers_visit : (store.request now .visitor request).askers.Perm store.askers := by
  have hperm : (store.request now .visitor request).clients.Perm (.visitor :: store.clients) :=
    clients_request request
  simpa [askers] using hperm.filter (· ≠ .visitor)

/-- A job that requests something is one more. -/
theorem askers_request (id : JobId) :
    (store.request now (.job 0 id) request).askers.Perm (.job 0 id :: store.askers) := by
  have hperm : (store.request now (.job 0 id) request).clients.Perm (.job 0 id :: store.clients) :=
    clients_request request
  simpa [askers] using hperm.filter (· ≠ .visitor)

theorem mem_askers {id : JobId} : .job 0 id ∈ store.askers ↔ .job 0 id ∈ store.clients := by
  simp [askers]

end Store

/-! ## The requests of jobs -/

/-- Those who wait for the store, visitors apart, are jobs that wait for it, none of them for two
answers, and what they requested and is not served yet is what they wait for. -/
structure Queueing (c : Controller t) (store : Store) : Prop where
  waits : ∀ client ∈ store.askers, ∃ (id : Nat) (job : Job t.size) (request : Volume.Request),
    client = .job 0 id ∧ c.jobs[id]? = some job ∧ job.errand? = some request
  sole : store.askers.Nodup
  queued : ∀ (id : Nat) (request : Volume.Request), (.job 0 id, request) ∈ store.queue →
    ∃ job : Job t.size, c.jobs[id]? = some job ∧ job.errand? = some request

namespace Queueing

variable {c c' : Controller t} {store store' : Store} {now : Nat} {id : Nat} {action : Action}
  {effects : List Effect}

/-- Who asks for nothing has nothing in the queue. -/
theorem mem_askers_of_queue {client : Client} {request : Volume.Request}
    (h : (client, request) ∈ store.queue) (hc : client ≠ .visitor) : client ∈ store.askers :=
  List.mem_filter.2 ⟨List.mem_append_left _ (List.mem_map_of_mem h), by simpa using hc⟩

/-- Visitors come and go. -/
theorem visit (h : Queueing c store) (now : Nat) (request : Volume.Request) :
    Queueing c (store.request now .visitor request) := by
  have hperm : (store.request now .visitor request).askers.Perm store.askers := Store.askers_visit
  refine ⟨fun client hm => h.waits client (hperm.mem_iff.1 hm), hperm.nodup_iff.2 h.sole, ?_⟩
  intro id request' hm
  refine h.queued id request' ((Store.mem_queue_request hm).resolve_right fun he => ?_)
  cases he

/-- **The turn of a job** leaves those waiting who wait for the store, if the store does not owe the job
an answer any more. -/
theorem turn (h : Queueing c store) {old new : Job t.size} {slot : Slot} {aside : Aside}
    (hj : c.jobs[id]? = some old) (turn : Turn c now id old action new slot aside effects)
    (hclient : .job 0 id ∉ store.clients) :
    Queueing (c.after id new old.service slot aside) (effects.foldl (Store.hear now) store) := by
  have hself : (c.after id new old.service slot aside).jobs[id]? = some new :=
    Controller.jobs_after_self (Controller.lt_size_of_job hj)
  have hkept {i : Nat} {job : Job t.size} {request : Volume.Request} (hi : c.jobs[i]? = some job)
      (hr : job.errand? = some request) (hm : .job 0 i ∈ store.clients) :
      ∃ later, (c.after id new old.service slot aside).jobs[i]? = some later ∧
        later.errand? = some request := by
    have hne : i ≠ id := fun hne => hclient (hne ▸ hm)
    obtain ⟨later, hl, halike⟩ := alike_after hj turn hi hne
    exact ⟨later, hl, halike.errand.trans hr⟩
  have hwaits : ∀ client ∈ store.askers, ∃ (i : Nat) (job : Job t.size) (request : Volume.Request),
      client = .job 0 i ∧ (c.after id new old.service slot aside).jobs[i]? = some job ∧
        job.errand? = some request := by
    intro client hm
    obtain ⟨i, job, request, rfl, hi, hr⟩ := h.waits client hm
    obtain ⟨later, hl, hr⟩ := hkept hi hr (Store.mem_askers.1 hm)
    exact ⟨i, later, request, rfl, hl, hr⟩
  have hqueued : ∀ (i : Nat) (request : Volume.Request), (.job 0 i, request) ∈ store.queue →
      ∃ job : Job t.size, (c.after id new old.service slot aside).jobs[i]? = some job ∧
        job.errand? = some request := by
    intro i request hm
    obtain ⟨job, hi, hr⟩ := h.queued i request hm
    exact hkept hi hr (List.mem_append_left _ (List.mem_map_of_mem hm))
  rcases turn.errand_cases with ⟨request, hn, rfl⟩ | ⟨hn, hnone⟩
  · have hperm : (store.request now (.job 0 id) request).askers.Perm (.job 0 id :: store.askers) :=
      Store.askers_request id
    refine ⟨?_, hperm.nodup_iff.2 (List.nodup_cons.2 ⟨mt Store.mem_askers.1 hclient, h.sole⟩), ?_⟩
    · intro client hm
      rcases List.mem_cons.1 (hperm.mem_iff.1 hm) with rfl | hm
      · exact ⟨id, new, request, rfl, hself, hn⟩
      · exact hwaits client hm
    · intro i request' hm
      rcases Store.mem_queue_request hm with hm | he
      · exact hqueued i request' hm
      · cases he
        exact ⟨new, hself, hn⟩
  · rw [Store.hear_unasked hnone]
    exact ⟨hwaits, h.sole, hqueued⟩

/-- A change of the calls leaves those waiting who wait for the store. -/
theorem change {d : Controller t} {operation : Operation} (h : Queueing c store)
    (change : Controller.CallChange now c operation d) : Queueing d store where
  waits client hm := by
    obtain ⟨id, job, request, rfl, hi, hr⟩ := h.waits client hm
    exact ⟨id, job, request, rfl, change.sets.jobs_kept hi, hr⟩
  sole := h.sole
  queued id request hm := by
    obtain ⟨job, hi, hr⟩ := h.queued id request hm
    exact ⟨job, change.sets.jobs_kept hi, hr⟩

/-- A step of the controller that is no answer of the store. -/
theorem act (h : Queueing c store) (hs : c.step now action = some (c', effects))
    (ha : ∀ id result, action ≠ .answer id (.volume result)) :
    Queueing c' (effects.foldl (Store.hear now) store) := by
  cases hid : action.job? with
  | none =>
      obtain ⟨changes, rfl⟩ := Controller.changesTo_of_step hid hs
      exact changes.induct (P := fun c => Queueing c store) change h
  | some id =>
      obtain ⟨old, new, slot, aside, hj, turn, rfl⟩ := Controller.turnsTo_of_step hid hs
      -- A job that the store owes an answer takes no other turn.
      refine h.turn hj turn fun hm => ?_
      obtain ⟨i, job, request, he, hi, hr⟩ := h.waits _ (Store.mem_askers.2 hm)
      obtain rfl : id = i := (Client.job.inj he).2
      obtain rfl : old = job := Option.some.inj (hj.symm.trans hi)
      obtain ⟨result, rfl⟩ := turn.answers hr
      exact ha _ _ rfl

/-- The store serves the oldest request. -/
theorem serve (h : Queueing c store) (hs : store.serve? now = some store') : Queueing c store' := by
  have hperm : store'.askers.Perm store.askers := (Store.clients_serve hs).filter _
  obtain ⟨client, request, queue, hq, hq', -⟩ := Store.serve?_eq_some hs
  refine ⟨fun client hm => h.waits client (hperm.mem_iff.1 hm), hperm.nodup_iff.2 h.sole, ?_⟩
  intro id request' hm
  exact h.queued id request' (hq ▸ List.mem_cons_of_mem _ (hq' ▸ hm))

/-- An answer is handed out. -/
theorem handed (h : Queueing c store) {place : Nat} {client : Client} {result : Store.Result}
    (ha : store.answers[place]? = some (client, result)) :
    Queueing c { store with answers := store.answers.eraseIdx place } ∧
      (client ≠ .visitor →
        client ∉ { store with answers := store.answers.eraseIdx place }.clients) := by
  have hperm := (Store.clients_eraseIdx ha).filter (· ≠ .visitor)
  have hsub : ({ store with answers := store.answers.eraseIdx place } : Store).askers.Sublist
      store.askers :=
    (((List.eraseIdx_sublist ..).map Prod.fst).append_left _).filter _
  refine ⟨⟨fun client hm => h.waits client (hsub.subset hm), hsub.nodup h.sole, h.queued⟩, ?_⟩
  intro hc hm
  rw [List.filter_cons_of_pos (by simpa using hc)] at hperm
  exact (List.nodup_cons.1 (hperm.nodup_iff.1 h.sole)).1 (List.mem_filter.2 ⟨hm, by simpa using hc⟩)

/-- The answer of the store reaches the job that asked. -/
theorem deliver (h : Queueing c store) {place : Nat} {result : Store.Result}
    (ha : store.answers[place]? = some (.job 0 id, result))
    (hs : c.step now (.answer id (.volume result)) = some (c', effects)) :
    Queueing c' (effects.foldl (Store.hear now)
      { store with answers := store.answers.eraseIdx place }) := by
  obtain ⟨hleft, hclient⟩ := h.handed ha
  obtain ⟨old, new, slot, aside, hj, turn, rfl⟩ := Controller.turnsTo_of_step rfl hs
  exact hleft.turn hj turn (hclient (by simp))

/-- **Whatever happens in the setting**, the requests of jobs are what they wait for. -/
theorem moves {x y : Setting e t} {event : Event} {moments : List (Moment t)}
    (h : Queueing x.controller x.store) (hm : Setting.Moves x event moments y) :
    Queueing y.controller y.store := by
  cases hm with
  | act hs ha =>
      rw [Setting.controller_after, Setting.store_after]
      exact h.act hs fun id result => ha id (.volume result)
  | ring _ _ _ hs | reply _ _ _ hs =>
      rw [Setting.controller_after, Setting.store_after]
      exact h.act hs (by simp)
  | work | pass => exact h
  | serve hs => exact h.serve hs
  | deliver ha hs =>
      rw [Setting.controller_after, Setting.store_after]
      exact h.deliver ha hs
  | hand ha => exact (h.handed ha).1

end Queueing

/-! ## Runs with visitors -/

namespace Setting

/-- The setting after a visitor has requested something of the store. -/
def visited (x : Setting e t) (request : Volume.Request) : Setting e t :=
  { x with store := x.store.request x.now .visitor request }

/-- Something that happens in a setting whose store has visitors. -/
inductive Incident where
  /-- It happens in the setting. -/
  | inside (event : Event)
  /-- A visitor requests something of the store. -/
  | visit (request : Volume.Request)

/-- A run of a setting whose store has visitors, with the settings before all that happened in it, the
latest first. -/
inductive Visited (start : Setting e t) : List (Setting e t × Incident) → Setting e t → Prop where
  | refl : Visited start [] start
  | inside {past : List (Setting e t × Incident)} {x y : Setting e t} {event : Event}
    {moments : List (Moment t)} (run : Visited start past x) (h : Moves x event moments y) :
    Visited start ((x, .inside event) :: past) y
  | visit {past : List (Setting e t × Incident)} {x : Setting e t} (run : Visited start past x)
    (request : Volume.Request) : Visited start ((x, .visit request) :: past) (x.visited request)

/-- The controller has done nothing yet, and none of those who wait for the store is one of its jobs. -/
structure Untouched (x : Setting e t) : Prop where
  controller : ∃ config, x.controller = .fresh t config
  visitors : ∀ client ∈ x.store.clients, client = .visitor

/-- The client is a job that stops the service of a volume, and waits until the volume is unbound. -/
def StopsOwner (x : Setting e t) (client : Client) (volume : VolumeId) : Prop :=
  ∃ (id : Nat) (job : StopJob t.size), client = .job 0 id ∧ x.controller.jobs[id]? = some (.stop job) ∧
    ∃ declared ∈ t.volumesOf job.service, declared.id = volume ∧
      ∃ rest, job.phase = .detaching (declared :: rest)

/-- The store serves a request to unbind a volume next, one of a visitor or of a job that stops the
service of the volume. -/
def Releases (x : Setting e t) (volume : VolumeId) : Prop :=
  ∃ client, x.store.queue.head? = some (client, .detach volume) ∧
    (client = .visitor ∨ x.StopsOwner client volume)

namespace Visited

variable {start x y : Setting e t} {past later : List (Setting e t × Incident)} {event : Event}
  {moments : List (Moment t)}

theorem of_run {steps : List (Moment t)} (run : Run x steps y) :
    ∃ later, Visited x later y ∧ ∀ m ∈ later, ∃ event, m.2 = .inside event := by
  induction run with
  | refl => exact ⟨[], .refl, by simp⟩
  | @tail _ _ z _ event run h ih =>
      obtain ⟨later, hrun, hinside⟩ := ih
      exact ⟨(z, .inside event) :: later, hrun.inside h, by simpa using hinside⟩

/-- Jobs wait for volumes of their own services, and their requests are what they wait for. -/
theorem queueing (h : start.Untouched) (run : Visited start past x) :
    Queueing x.controller x.store ∧ x.controller.KeepToVolumes := by
  induction run with
  | refl =>
      obtain ⟨config, hconfig⟩ := h.controller
      have hnone : start.store.askers = [] := by
        simpa [Store.askers, List.filter_eq_nil_iff] using h.visitors
      refine ⟨⟨by simp [hnone], by simp [hnone], fun id request hm => ?_⟩, fun id job hj => ?_⟩
      · have := h.visitors _ (List.mem_append_left _ (List.mem_map_of_mem hm))
        cases this
      · rw [hconfig] at hj
        simp [Controller.fresh] at hj
  | inside _ hm ih =>
      refine ⟨ih.1.moves hm, ?_⟩
      rcases hm.controller with ⟨-, hc⟩ | ⟨action, c, effects, hs, hc, -⟩
      · rw [hc]
        exact ih.2
      · rw [hc]
        exact ih.2.step hs
  | visit _ request ih => exact ⟨ih.1.visit _ request, ih.2⟩

/-- What a job has the store unbind is a volume of the service that it stops. -/
theorem stopsOwner (h : start.Untouched) (run : Visited start past x) {client : Client}
    {volume : VolumeId} (hm : (client, .detach volume) ∈ x.store.queue) (hc : client ≠ .visitor) :
    x.StopsOwner client volume := by
  obtain ⟨hqueueing, hvolumes⟩ := run.queueing h
  obtain ⟨id, -, -, rfl, -, -⟩ := hqueueing.waits client (Queueing.mem_askers_of_queue hm hc)
  obtain ⟨job, hj, hr⟩ := hqueueing.queued id _ hm
  cases job with
  | start job => simp [Job.errand?] at hr
  | stop job =>
      obtain ⟨service, phase⟩ := job
      cases phase with
      | detaching volumes =>
          obtain ⟨declared, hd, he⟩ := Option.map_eq_some_iff.1 hr
          obtain ⟨rest, rfl⟩ := List.head?_eq_some_iff.1 hd
          exact ⟨id, _, rfl, hj, declared, hvolumes id _ hj declared List.mem_cons_self,
            Volume.Request.detach.inj he, rest, rfl⟩
      | _ => simp [Job.errand?, StopPhase.toUnbind] at hr
  | launch => cases hr

end Visited

/-- The table changes when the store serves its oldest request. -/
theorem Moves.table_cases {x y : Setting e t} {event : Event} {moments : List (Moment t)}
    (h : Moves x event moments y) : y.store.table = x.store.table ∨
      event = .serve 0 ∧ ∃ client request, x.store.queue.head? = some (client, request) ∧
        y.store.table = (x.store.table.serve request).1 := by
  cases h with
  | act | ring | reply | deliver =>
      rw [store_after, Store.table_hear]
      exact .inl rfl
  | work | hand | pass => exact .inl rfl
  | serve hs =>
      obtain ⟨client, request, queue, hq, -, -, ht, -⟩ := Store.serve?_eq_some hs
      exact .inr ⟨rfl, client, request, by rw [hq]; rfl, ht⟩

namespace Visited

variable {start x y : Setting e t} {past later : List (Setting e t × Incident)}

theorem trans (run : Visited start past x) (rest : Visited x later y) :
    Visited start (later ++ past) y := by
  induction rest with
  | refl => exact run
  | inside _ h ih => exact ih.inside h
  | visit _ request ih => exact ih.visit request

/-- **A volume stays bound until somebody has it unbound.** Let visitors request anything of the store
of a controller, before, during and after any calls. A volume that is bound to a service, whichever it
is, keeps its binding until the store serves a request to unbind it, and such a request is one of a
visitor or of a job that stops the service that the volume is declared for. -/
theorem bound_until_released (h : start.Untouched) (run : Visited start past x) (rest : Visited x later y)
    {volume : VolumeId} {binding : Volume.Binding} {owner : ServiceId}
    (hb : x.store.table.get? volume = some binding) (ho : binding.owner = some owner) :
    y.store.table.get? volume = some binding ∨
      ∃ z, (z, .inside (.serve 0)) ∈ later ∧ z.store.table.get? volume = some binding ∧
        z.Releases volume := by
  induction rest with
  | refl => exact .inl hb
  | @inside _ z _ event _ rest hm ih =>
      rcases ih with hz | ⟨z', hz', hreleases⟩
      · rcases hm.table_cases with he | ⟨rfl, client, request, hq, he⟩
        · exact .inl (he ▸ hz)
        · by_cases hr : request = .detach volume
          · subst hr
            refine .inr ⟨z, List.mem_cons_self, hz, client, hq, ?_⟩
            by_cases hc : client = .visitor
            · exact .inl hc
            · exact .inr ((run.trans rest).stopsOwner h (List.mem_of_mem_head? hq) hc)
          · exact .inl (he ▸ Volume.Bindings.get?_serve_kept hz ho hr)
      · exact .inr ⟨z', List.mem_cons_of_mem _ hz', hreleases⟩
  | visit _ request ih =>
      rcases ih with hz | ⟨z', hz', hreleases⟩
      · exact .inl ((congrArg (Volume.Bindings.get? · volume) Store.table_request).trans hz)
      · exact .inr ⟨z', List.mem_cons_of_mem _ hz', hreleases⟩

end Visited

/-! ### A volume that somebody else has -/

/-- Somebody who is none of the services. -/
def intruder : ServiceId := ⟨"intruder"⟩

/-- Nobody has called anything, and the volumes of the database are not bound. -/
def unoccupied : Setting Engine.Scripted.engine stocked where
  controller := .fresh stocked default
  engine := { scripts := [] }
  store := { table := .ofVolumes [dataVolume, logsVolume] }

/-- A visitor has had one of the volumes bound. -/
def occupied : Setting Engine.Scripted.engine stocked where
  controller := .fresh stocked default
  engine := { scripts := [] }
  store := { table := ((Volume.Bindings.ofVolumes [dataVolume, logsVolume]).attach ⟨"data"⟩ intruder).1 }
  received := [.ok (.attached true)]

theorem untouched_unoccupied : unoccupied.Untouched :=
  ⟨⟨default, rfl⟩, by decide⟩

theorem visited_occupied : ∃ past, Visited unoccupied past occupied :=
  let served := (Visited.refl.visit (.attach ⟨"data"⟩ intruder)).inside (.serve rfl)
  ⟨_, served.inside (.hand rfl : Moves _ (.deliver 0 0) [] occupied)⟩

/-- The volume is refused to the database, which fails, and then everything is stopped. -/
def refusedEvents : List Event :=
  [.control 0 (.invoke .startAll), .control 0 (.run 0), .control 0 (.run 0), .serve 0, .deliver 0 0,
    .control 0 (.run 0), .control 0 (.invoke .stopAll), .control 0 (.run 1), .control 0 (.run 1),
    .serve 0, .deliver 0 0, .serve 0, .deliver 0 0, .control 0 (.run 1)]

/-- No visitor comes any more, and in the end the volume is not bound. -/
theorem exists_unbound : ∃ later y, Visited occupied later y ∧
    (∀ m ∈ later, ∃ event, m.2 = .inside event) ∧
    y.store.table.get? ⟨"data"⟩ = some ⟨dataVolume, none, 1⟩ := by
  obtain ⟨past, y, run, shown⟩ := exists_run occupied refusedEvents
    (fun w => w.showsStocked fun state store => state = some .failed &&
      store.table.get? ⟨"data"⟩ = some ⟨dataVolume, none, 1⟩)
    (by decide +kernel)
  obtain ⟨c, store, hsees, hshown⟩ := World.sees_of_showsStocked shown
  have hy : y.world.Sees y.controller y.store := ⟨⟨y.engine, y.ongoing, rfl⟩, rfl⟩
  obtain ⟨rfl, rfl⟩ := hy.unique hsees
  simp only [Bool.and_eq_true, decide_eq_true_iff] at hshown
  obtain ⟨later, hrun, hinside⟩ := Visited.of_run run
  exact ⟨later, y, hrun, hinside, hshown.2⟩

/-- The theorem about the volume that was refused to the database. -/
theorem kept_refused : ∃ past later y, unoccupied.Untouched ∧ Visited unoccupied past occupied ∧
    Visited occupied later y ∧
    occupied.store.table.get? ⟨"data"⟩ = some ⟨dataVolume, some intruder, 1⟩ ∧
    ∃ z, (z, .inside (.serve 0)) ∈ later ∧
      z.store.table.get? ⟨"data"⟩ = some ⟨dataVolume, some intruder, 1⟩ ∧ z.Releases ⟨"data"⟩ := by
  obtain ⟨past, run⟩ := visited_occupied
  obtain ⟨later, y, rest, -, hunbound⟩ := exists_unbound
  have hbound : occupied.store.table.get? ⟨"data"⟩ = some ⟨dataVolume, some intruder, 1⟩ := by decide
  refine ⟨past, later, y, untouched_unoccupied, run, rest, hbound, ?_⟩
  refine (run.bound_until_released untouched_unoccupied rest hbound rfl).resolve_left fun hkept => ?_
  rw [hunbound] at hkept
  cases hkept

/-- **A stop takes a volume away from somebody else.** A visitor had the volume bound before anything was
called, and requests nothing any more. The volume is refused to the database, and when everything is
stopped it is unbound all the same. -/
theorem taken_away : ∃ past later y, Visited unoccupied past occupied ∧ Visited occupied later y ∧
    (∀ m ∈ later, ∀ request, m.2 ≠ .visit request) ∧ occupied.store.queue = [] ∧
    stocked.id keeper ≠ intruder ∧ dataVolume ∈ stocked.volumesOf keeper ∧
    occupied.store.table.get? dataVolume.id = some ⟨dataVolume, some intruder, 1⟩ ∧
    y.store.table.get? dataVolume.id = some ⟨dataVolume, none, 1⟩ := by
  obtain ⟨past, run⟩ := visited_occupied
  obtain ⟨later, y, rest, hinside, hunbound⟩ := exists_unbound
  refine ⟨past, later, y, run, rest, fun m hm request he => ?_, rfl, by decide, by decide, by decide,
    hunbound⟩
  obtain ⟨event, hevent⟩ := hinside m hm
  rw [hevent] at he
  cases he

end Setting

end Bringup.Simulation
