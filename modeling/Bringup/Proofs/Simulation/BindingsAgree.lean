import Bringup.Proofs.Simulation.Agreement
import Bringup.Proofs.Simulation.Exchange

/-!
# Volume bindings agree with the lifecycle

A world with one stack and one store that serves requests, any engine, any calls, any order of events.
As long as starts and stops of a service keep clear of each other, its volumes are bound to it when it is
ready, and none of them when it is pending or stopped (`World.Run.bindings_agree`). What happens in the
world comes to exchanges of the controller and its store (`Exchange`), and what the store hears in a turn
is what `Agrees` is about (`hear_turn`).

Two things can go wrong. A service that is started under a stop that is still at work gets ready, and
then the stop unbinds its volumes (`ready_unbound`). And a start that hears late that its first volume
is bound asks for the next one when the stop that took the service is over (`stopped_bound`).
-/

namespace Bringup.Simulation

open Lifecycle
open Volume (Bindings)

variable {t : Topology} {c c' : Controller t} {now : Nat} {id : JobId} {action : Action}
  {slot : Slot} {aside : Aside} {effects : List Effect} {s : Fin t.size}

/-! ## The controller and its store -/

/-- What a store comes to hear in the turn of a job that waits for it afterwards. -/
theorem hear_turn {store : Store} {delay : Nat} (hmode : store.mode = .serving delay)
    {old new : Job t.size} (turn : Turn c now id old action new slot aside effects) :
    (effects.foldl (Store.hear now) store).settled = tableAfter store.settled new.errand? ∧
    (effects.foldl (Store.hear now) store).owed
      = owedAfter store.settled store.owed id new.errand? ∧
    (effects.foldl (Store.hear now) store).mode = .serving delay ∧
    ∀ entry ∈ (effects.foldl (Store.hear now) store).queue,
      entry ∈ store.queue ∨ (entry.1 = .job 0 id ∧ new.errand? = some entry.2) := by
  rcases turn.errand_cases with ⟨request, hn, rfl⟩ | ⟨hn, hnone⟩
  · rw [hn]
    refine ⟨Store.settled_request hmode .., Store.owed_request hmode .., ?_, ?_⟩
    · exact (congrArg Store.mode (Store.request_of_serving hmode ..)).trans hmode
    · intro entry he
      have hqueue := congrArg Store.queue
        (Store.request_of_serving hmode now (.job 0 id) request)
      rw [List.foldl_cons, List.foldl_nil, Store.hear, hqueue] at he
      refine (List.mem_append.1 he).imp_right fun he => ?_
      rw [List.mem_singleton.1 he]
      exact ⟨rfl, rfl⟩
  · rw [Store.hear_unasked hnone, hn]
    exact ⟨rfl, rfl, hmode, fun _ he => .inl he⟩

/-- A controller and its store, where the bindings of the volumes of a service agree with it. -/
structure InStep (c : Controller t) (store : Store) (s : Fin t.size) : Prop where
  serving : ∃ delay, store.mode = .serving delay
  /-- Only services ask, for their own volumes. -/
  asked : ∀ entry ∈ store.queue, ∃ s', ∃ volume ∈ t.volumesOf s',
    entry.2 = .attach volume.id (t.id s') ∨ entry.2 = .detach volume.id
  owes : Owes c store.owed
  volumes : c.KeepToVolumes
  vacant : c.Vacant s
  agrees : Agrees c store.settled store.owed s

variable {store store' : Store}

/-- The turn of a job, for which the store had the answer if the job took one. -/
theorem InStep.turn (ht : t.Built) (h : InStep c store s) (ha : action.job? = some id)
    (hs : c.step now action = some (c', effects)) {store₀ : Store}
    (hmode : store₀.mode = store.mode) (hqueue : store₀.queue = store.queue)
    (hsettled : store₀.settled = store.settled) (hleaves : Leaves store.owed store₀.owed id action)
    (hclear : c.KeepsClear s) (hclear' : c'.KeepsClear s) :
    InStep c' (effects.foldl (Store.hear now) store₀) s := by
  have hvolumes := h.volumes.step hs
  have hvacant := h.vacant.step hs hclear'.under
  obtain ⟨old, new, slot, aside, hj, turn, rfl⟩ := Controller.turnsTo_of_step ha hs
  obtain ⟨delay, hd⟩ := h.serving
  obtain ⟨htable, howed, hmode', hasked⟩ := hear_turn (hmode.trans hd) turn
  refine ⟨⟨delay, hmode'⟩, ?_, ?_, hvolumes, hvacant, ?_⟩
  · intro entry he
    rcases hasked entry he with he | ⟨-, he⟩
    · exact h.asked entry (hqueue ▸ he)
    · obtain ⟨volume, hv, hr⟩ := Job.errand_mem he
      have hself : (c.after id new old.service slot aside).jobs[id]? = some new :=
        Controller.jobs_after_self (Controller.lt_size_of_job hj)
      exact ⟨new.service, volume, hvolumes id new hself volume hv, hr⟩
  · rw [howed]
    exact h.owes.turn hj turn hleaves
  · rw [htable, howed, hsettled]
    exact h.agrees.turn ht h.volumes hj turn hleaves hvolumes hvacant hclear.behind hclear'.under
      hclear'.overlap

theorem InStep.exchange (ht : t.Built) (h : InStep c store s) (hx : Exchange now c store c' store')
    (hclear : c.KeepsClear s) (hclear' : c'.KeepsClear s) : InStep c' store' s := by
  cases hx with
  | rest => exact h
  | serve hs =>
      obtain ⟨delay, hd⟩ := h.serving
      obtain ⟨client, request, queue, hq, hq', -, -, hmode⟩ := Store.serve?_eq_some hs
      obtain ⟨hsettled, howed⟩ := Store.settled_serve hs
      exact ⟨⟨delay, hmode.trans hd⟩,
        fun entry he => h.asked entry (hq ▸ List.mem_cons_of_mem _ (hq' ▸ he)),
        howed ▸ h.owes, h.volumes, h.vacant, hsettled ▸ howed ▸ h.agrees⟩
  | @act action _ effects hs ha =>
      cases hid : action.job? with
      | none =>
          obtain ⟨changes, rfl⟩ := Controller.changesTo_of_step hid hs
          exact ⟨h.serving, h.asked, changes.induct Owes.change h.owes, h.volumes.step hs,
            h.vacant.step hs hclear'.under,
            changes.induct (P := fun c => Agrees c store.settled store.owed s) Agrees.change
              h.agrees⟩
      | some id =>
          obtain ⟨old, new, slot, aside, hj, turn, -⟩ := Controller.turnsTo_of_step hid hs
          exact h.turn ht hid hs rfl rfl rfl (h.owes.leaves_act hj turn ha) hclear hclear'
  | deliver ha hs =>
      obtain ⟨howed, hleft⟩ := Store.owed_eraseIdx ha
      refine h.turn ht rfl hs rfl rfl rfl ?_ hclear hclear'
      rw [hleft]
      exact h.owes.leaves_deliver howed

/-! ## Every run -/

section

variable {e : Engine} {start w : World e} {past : List (World e)} {config : Config}
  {opening : Store}

theorem World.Run.inStep (ht : t.Built) (hstart : start.Sees (Controller.fresh t config) opening)
    (hserving : ∃ delay, opening.mode = .serving delay) (hqueue : opening.queue = [])
    (hanswers : opening.answers = [])
    (hfree : ∀ volume ∈ t.volumesOf s, ¬ Held opening.table s volume) (run : Run start past w)
    (hclear : ∀ w' ∈ w :: past, ∀ (c : Controller t) (store : Store), w'.Sees c store →
      c.KeepsClear s) :
    ∃ (c : Controller t) (store : Store), w.Sees c store ∧ InStep c store s := by
  induction run with
  | refl =>
      have howed : opening.owed = [] := Store.owed_of_clients (Store.clients_eq_nil.2 ⟨hqueue, hanswers⟩)
      have hsettled : opening.settled = opening.table := Store.settled_of_queue hqueue
      refine ⟨_, opening, hstart, hserving, by simp [hqueue], ?_, ?_,
        Controller.vacant_fresh config s, agrees_fresh config (hsettled ▸ hfree)⟩
      · rw [howed]
        exact ⟨by simp, by simp⟩
      · intro i job hj
        simp [Controller.fresh] at hj
  | @tail past w w' event run hs ih =>
      obtain ⟨c, store, hsees, hstep⟩ := ih fun w' hw' => hclear w' (List.mem_cons_of_mem _ hw')
      have hjobs : ∀ entry ∈ store.answers, entry.1 ≠ .visitor := by
        intro entry he hv
        obtain ⟨id, job, request, hi, -⟩ := hstep.owes.waits entry (List.mem_append_left _ he)
        rw [hv] at hi
        cases hi
      obtain ⟨c', store', hsees', hx⟩ := hsees.exchange hjobs hs
      exact ⟨c', store', hsees', hstep.exchange ht hx
        (hclear w (List.mem_cons_of_mem _ List.mem_cons_self) c store hsees)
        (hclear w' List.mem_cons_self c' store' hsees')⟩

/-- **Volume bindings agree with the lifecycle.** In a world with a fresh controller of a built
topology, any engine, and a store that serves requests and that nobody else uses, where no volume of a
service is bound to it at the beginning, let anything happen, in any order, as long as starts and stops
of the service keep clear of each other at every instant. Then at every instant at which no request of
the service to bind or unbind a volume is waiting to be served, each of its volumes is bound to it if
the service is ready, and none of them is if it is pending or stopped. -/
theorem World.Run.bindings_agree (ht : t.Built)
    (hstart : start.Sees (Controller.fresh t config) opening)
    (hserving : ∃ delay, opening.mode = .serving delay) (hqueue : opening.queue = [])
    (hanswers : opening.answers = [])
    (hfree : ∀ volume ∈ t.volumesOf s, ¬ Held opening.table s volume) (run : Run start past w)
    (hclear : ∀ w' ∈ w :: past, ∀ (c : Controller t) (store : Store), w'.Sees c store →
      c.KeepsClear s) :
    ∃ (c : Controller t) (store : Store), w.Sees c store ∧
      ((∀ entry ∈ store.queue, ∀ volume ∈ t.volumesOf s,
          entry.2 ≠ .attach volume.id (t.id s) ∧ entry.2 ≠ .detach volume.id) →
        ((c.slot s).state = .ready → ∀ volume ∈ t.volumesOf s, Held store.table s volume) ∧
        ((c.slot s).state = .pending ∨ (c.slot s).state = .stopped →
          ∀ volume ∈ t.volumesOf s, ¬ Held store.table s volume)) := by
  obtain ⟨c, store, hsees, hstep⟩ :=
    run.inStep ht hstart hserving hqueue hanswers hfree hclear
  refine ⟨c, store, hsees, fun hnone => ?_⟩
  have hheld {volume : Volume} (hv : volume ∈ t.volumesOf s) :
      Held store.settled s volume ↔ Held store.table s volume := by
    refine iff_of_eq (congrArg (· = _) (Store.owner?_settled fun entry he => ?_))
    obtain ⟨s', other, ho, hr⟩ := hstep.asked entry he
    refine ⟨other.id, t.id s', fun hid => ?_, hr⟩
    -- A request about the volume would be one of the service.
    obtain rfl := ht.owner_unique ho hv hid
    rw [hid] at hr
    exact hr.elim (hnone entry he volume hv).1 (hnone entry he volume hv).2
  constructor
  · exact fun hst volume hv => (hheld hv).1 (hstep.agrees.ready hst volume hv)
  · intro hst volume hv
    refine mt (hheld hv).2 (hstep.agrees.idle ?_ volume hv)
    rcases hst with hst | hst <;> rw [hst] <;> rfl

end

/-! ### Volumes that are bound, and volumes that are not -/

/-- What the database keeps. -/
def dataVolume : Volume := { id := ⟨"data"⟩, mountPath := "/data" }

/-- What the database writes down about itself. -/
def logsVolume : Volume := { id := ⟨"logs"⟩, mountPath := "/logs" }

/-- A database with two volumes. -/
def stocked : Topology where
  services := [{ id := ⟨"db"⟩, image := "db:img" }]
  index := [(⟨"db"⟩, 0)]
  graph := { nodes := [⟨"db"⟩] }
  volumes := [⟨dataVolume, ⟨"db"⟩⟩, ⟨logsVolume, ⟨"db"⟩⟩]

theorem stocked_built : stocked.Built :=
  ⟨_, .volume (.volume (.service .empty { id := ⟨"db"⟩, image := "db:img" }) dataVolume ⟨"db"⟩)
    logsVolume ⟨"db"⟩, rfl⟩

/-- The database. -/
def keeper : Fin stocked.size := ⟨0, by decide⟩

/-- The store is slow, and so is the engine when the database is to be stopped. -/
def unopened (config : Config) : World Engine.Scripted.engine where
  members := #[{
    topology := stocked
    controller := .fresh stocked config
    engine := { scripts := [(⟨"db"⟩, { stopTime := .ofMillis 100 })] }
    store := 0 }]
  stores := #[{ mode := .serving 1, table := .ofVolumes [dataVolume, logsVolume] }]

/-- The database is started and found ready. -/
def openingEvents : List Event :=
  [.control 0 (.invoke .startAll), .control 0 (.run 0), .control 0 (.run 0), .pass 1, .serve 0,
    .deliver 0 0, .pass 2, .serve 0, .deliver 0 0, .control 0 (.run 1), .resume 0 1,
    .control 0 (.run 0), .control 0 (.run 0), .control 0 (.run 0), .resume 0 0,
    .control 0 (.run 0)]

/-- It is stopped and started again. -/
def reopeningEvents : List Event :=
  openingEvents ++ [.control 0 (.invoke .stopAll), .control 0 (.run 2), .control 0 (.run 2),
    .pass 102, .resume 0 2, .pass 103, .serve 0, .deliver 0 0, .pass 104, .serve 0, .deliver 0 0,
    .control 0 (.run 2), .control 0 (.invoke .startAll), .control 0 (.run 3), .control 0 (.run 3),
    .pass 105, .serve 0, .deliver 0 0, .pass 106, .serve 0, .deliver 0 0, .control 0 (.run 4),
    .resume 0 4, .control 0 (.run 3), .control 0 (.run 3), .control 0 (.run 3), .resume 0 3,
    .control 0 (.run 3)]

/-- Whether starts and stops keep clear of each other in a world, told by counting jobs. -/
def World.showsClear (w : World Engine.Scripted.engine) : Bool :=
  w.members.all fun stack => (List.finRange stack.topology.size).all stack.controller.countsClear

theorem World.Sees.keepsClear {w : World Engine.Scripted.engine} (h : w.Sees c store)
    (hclear : w.showsClear) : c.KeepsClear s := by
  obtain ⟨engine, ongoing, hm⟩ := h.members
  simp only [showsClear, hm, List.all_toArray, List.all_cons, List.all_nil, Bool.and_true,
    List.all_eq_true, List.mem_finRange, true_implies] at hclear
  exact Controller.keepsClear_of_counts (hclear s)

/-- Whether a world has one stack, with the topology of the database, and one store, and what is shown
by them. -/
def World.showsStocked (w : World Engine.Scripted.engine)
    (shows : Option ServiceState → Store → Bool) : Bool :=
  match w.members.toList, w.stores.toList with
  | [stack], [store] => stack.topology = stocked && stack.store = 0 &&
    shows (stack.controller.state? ⟨"db"⟩) store
  | _, _ => false

theorem World.sees_of_showsStocked {w : World Engine.Scripted.engine}
    {shows : Option ServiceState → Store → Bool} (h : w.showsStocked shows) :
    ∃ (c : Controller stocked) (store : Store), w.Sees c store ∧
      shows (some (c.slot keeper).state) store := by
  unfold showsStocked at h
  split at h
  next stack store hm hs =>
    obtain ⟨topology, c, engine, ongoing, k⟩ := stack
    simp only [Bool.and_eq_true, decide_eq_true_iff] at h
    obtain ⟨⟨rfl, rfl⟩, h⟩ := h
    exact ⟨c, store, ⟨⟨engine, ongoing, Array.toList_inj.1 hm⟩, Array.toList_inj.1 hs⟩, h⟩
  next => cases h

/-- The theorem about the volumes of a database that was stopped and is ready again. -/
theorem bindings_agree_reopened :
    ∃ (past : List (World Engine.Scripted.engine)) (w : World Engine.Scripted.engine)
      (c : Controller stocked) (store : Store), stocked.Built ∧ World.Run (unopened {}) past w ∧
      (∀ w' ∈ w :: past, ∀ (c : Controller stocked) (store : Store), w'.Sees c store →
        c.KeepsClear keeper) ∧
      w.Sees c store ∧ (c.slot keeper).state = .ready ∧ store.queue = [] ∧
      ∀ volume ∈ stocked.volumesOf keeper, Held store.table keeper volume := by
  obtain ⟨past, w, run, shown⟩ := World.exists_run (unopened {}) reopeningEvents
    (fun past w => (w :: past).all World.showsClear &&
      w.showsStocked fun state store => state = some .ready && store.queue = [])
    (by decide +kernel)
  rw [Bool.and_eq_true, List.all_eq_true] at shown
  have clear : ∀ w' ∈ w :: past, ∀ (c : Controller stocked) (store : Store), w'.Sees c store →
      c.KeepsClear keeper := fun w' hw' c store hsees => hsees.keepsClear (shown.1 w' hw')
  have free : ∀ volume ∈ stocked.volumesOf keeper,
      ¬ Held (.ofVolumes [dataVolume, logsVolume]) keeper volume := by decide +kernel
  obtain ⟨c, store, hsees, hagree⟩ := run.bindings_agree stocked_built
    ⟨⟨_, _, rfl⟩, rfl⟩ ⟨1, rfl⟩ rfl rfl free clear
  obtain ⟨c', store', hsees', hshown⟩ := World.sees_of_showsStocked shown.2
  obtain ⟨rfl, rfl⟩ := hsees.unique hsees'
  simp only [Bool.and_eq_true, decide_eq_true_iff, Option.some.injEq] at hshown
  obtain ⟨hready, hqueue⟩ := hshown
  exact ⟨past, w, c', store', stocked_built, run, clear, hsees, hready, hqueue,
    (hagree (by simp [hqueue])).1 hready⟩

/-- A second stop that meets the first one at work moves the database to stopped, and it is started
again and ready when the first stop comes to the volumes. -/
def unboundEvents : List Event :=
  openingEvents ++ [.control 0 (.invoke .stopAll), .control 0 (.run 2), .control 0 (.run 2),
    .control 0 (.invoke .stopAll), .control 0 (.run 3), .control 0 (.run 3), .pass 3, .serve 0,
    .deliver 0 0, .pass 4, .serve 0, .deliver 0 0, .control 0 (.run 3),
    .control 0 (.invoke .startAll), .control 0 (.run 4), .control 0 (.run 4), .pass 5, .serve 0,
    .deliver 0 0, .pass 6, .serve 0, .deliver 0 0, .control 0 (.run 5), .resume 0 5,
    .control 0 (.run 4), .control 0 (.run 4), .control 0 (.run 4), .resume 0 4, .control 0 (.run 4),
    .pass 102, .resume 0 2, .pass 103, .serve 0, .deliver 0 0, .pass 104, .serve 0, .deliver 0 0,
    .control 0 (.run 2)]

/-- The database is ready, nothing is requested of the store, and its volumes are not bound. -/
theorem ready_unbound :
    ∃ (past : List (World Engine.Scripted.engine)) (w : World Engine.Scripted.engine)
      (c : Controller stocked) (store : Store), stocked.Built ∧ World.Run (unopened {}) past w ∧
      w.Sees c store ∧ (c.slot keeper).state = .ready ∧ store.queue = [] ∧ store.answers = [] ∧
      dataVolume ∈ stocked.volumesOf keeper ∧ ¬ Held store.table keeper dataVolume := by
  obtain ⟨past, w, run, shown⟩ := World.exists_run (unopened {}) unboundEvents
    (fun past w => w.showsStocked fun state store => state = some .ready && store.queue = [] &&
      store.answers = [] && !decide (Held store.table keeper dataVolume))
    (by decide +kernel)
  obtain ⟨c, store, hsees, hshown⟩ := World.sees_of_showsStocked shown
  simp only [Bool.and_eq_true, decide_eq_true_iff, Option.some.injEq, Bool.not_eq_true',
    decide_eq_false_iff_not] at hshown
  obtain ⟨⟨⟨hready, hqueue⟩, hanswers⟩, hnot⟩ := hshown
  exact ⟨past, w, c, store, stocked_built, run, hsees, hready, hqueue, hanswers, by decide, hnot⟩

/-- A start has asked for the first volume and a stop asks for both to be unbound, before the start
hears that the first one was bound. -/
def latecomingEvents : List Event :=
  [.control 0 (.invoke .startAll), .control 0 (.run 0), .control 0 (.run 0), .pass 1, .serve 0,
    .control 0 (.invoke .stopAll), .control 0 (.run 1), .control 0 (.run 1), .pass 2, .serve 0,
    .deliver 0 1, .pass 3, .serve 0, .deliver 0 1, .control 0 (.run 1), .deliver 0 0, .pass 4,
    .serve 0, .deliver 0 0]

/-- The database is stopped, nothing is requested of the store, and the second volume is bound: the
start asked for it when the stop was over. -/
theorem stopped_bound :
    ∃ (past : List (World Engine.Scripted.engine)) (w : World Engine.Scripted.engine)
      (c : Controller stocked) (store : Store), World.Run (unopened {}) past w ∧ w.Sees c store ∧
      (c.slot keeper).state = .stopped ∧ store.queue = [] ∧ store.answers = [] ∧
      Held store.table keeper logsVolume := by
  obtain ⟨past, w, run, shown⟩ := World.exists_run (unopened {}) latecomingEvents
    (fun past w => w.showsStocked fun state store => state = some .stopped && store.queue = [] &&
      store.answers = [] && decide (Held store.table keeper logsVolume))
    (by decide +kernel)
  obtain ⟨c, store, hsees, hshown⟩ := World.sees_of_showsStocked shown
  simp only [Bool.and_eq_true, decide_eq_true_iff, Option.some.injEq] at hshown
  obtain ⟨⟨⟨hstopped, hqueue⟩, hanswers⟩, hheld⟩ := hshown
  exact ⟨past, w, c, store, run, hsees, hstopped, hqueue, hanswers, hheld⟩

end Bringup.Simulation
