import Bringup.Proofs.Simulation.BindingsAgree
import Bringup.Proofs.Simulation.Preparation

/-!
# Containers are started for starts that go on

In a world with one stack and one store that serves requests, whatever the engine and whatever happens,
a container is only ever asked for on behalf of a start job that took the service up (`Since`) and went
on to a launch. If nothing has disturbed the service since then, it is starting and all its volumes are
bound to it when the engine is asked (`World.Run.live_starts`). The invariant `OnCourse` says so of each
start job without a container and of each launch that has not asked yet, by what one exchange does to
a prepared start.

Where a cancel or a stop takes the service while the start waits for the store, the engine is asked for
a container all the same (`started_stopped`): between entering the state of starting and the launch
nobody looks at the run or at the state again.
-/

namespace Bringup.Simulation

open Lifecycle
open Volume (Bindings)

variable {t : Topology} {c c' : Controller t} {now : Nat} {id : JobId} {action : Action}
  {effects : List Effect} {s : Fin t.size} {store store' store₀ : Store}

/-! ## What the store has been asked -/

/-- A controller and a store that serves it: what is requested and what is owed is what its jobs wait
for. -/
structure InTouch (c : Controller t) (store : Store) : Prop where
  serving : ∃ delay, store.mode = .serving delay
  queued : ∀ entry ∈ store.queue, ∃ (id : Nat) (job : Job t.size),
    entry.1 = .job 0 id ∧ c.jobs[id]? = some job ∧ job.errand? = some entry.2
  owes : Owes c store.owed
  volumes : c.KeepToVolumes

/-- Whoever has asked is owed an answer. -/
theorem owed_of_queue {entry : Client × Volume.Request} (h : entry ∈ store.queue) :
    ∃ result, (entry.1, result) ∈ store.owed := by
  have hall (queue : List (Client × Volume.Request)) (table : Bindings) (h : entry ∈ queue) :
      ∃ result, (entry.1, result) ∈ (Store.serveAll table queue).2 := by
    induction queue generalizing table with
    | nil => cases h
    | cons first rest ih =>
        rcases List.mem_cons.1 h with rfl | h
        · exact ⟨_, List.mem_cons_self⟩
        · obtain ⟨result, hm⟩ := ih (table.serve first.2).1 h
          exact ⟨result, List.mem_cons_of_mem _ hm⟩
  obtain ⟨result, hm⟩ := hall store.queue store.table h
  exact ⟨result, List.mem_append_right _ hm⟩

/-- Nobody from outside has asked. -/
theorem InTouch.no_visitor (h : InTouch c store) : ∀ entry ∈ store.answers, entry.1 ≠ .visitor := by
  intro entry he hv
  obtain ⟨id, job, request, hi, -⟩ := h.owes.waits entry (List.mem_append_left _ he)
  rw [hv] at hi
  cases hi

theorem InTouch.turn (h : InTouch c store) (ha : action.job? = some id)
    (hs : c.step now action = some (c', effects)) (hmode : store₀.mode = store.mode)
    (hqueue : store₀.queue = store.queue) (hleaves : Leaves store.owed store₀.owed id action) :
    InTouch c' (effects.foldl (Store.hear now) store₀) := by
  have hvolumes := h.volumes.step hs
  obtain ⟨old, new, slot, aside, hj, turn, rfl⟩ := Controller.turnsTo_of_step ha hs
  obtain ⟨delay, hd⟩ := h.serving
  obtain ⟨-, howed, hmode', hasked⟩ := hear_turn (hmode.trans hd) turn
  refine ⟨⟨delay, hmode'⟩, fun entry he => ?_, howed ▸ h.owes.turn hj turn hleaves, hvolumes⟩
  rcases hasked entry he with he | ⟨hclient, hr⟩
  · obtain ⟨i, job, hclient, hi, hr⟩ := h.queued entry (hqueue ▸ he)
    have hne : i ≠ id := by
      rintro rfl
      obtain ⟨result, hm⟩ := owed_of_queue he
      exact hleaves.free result (hclient ▸ hm)
    refine ⟨i, job, hclient, Controller.other_after_of_ne hne hi ?_, hr⟩
    rintro l rfl
    cases hr
  · exact ⟨id, new, hclient, Controller.jobs_after_self (Controller.lt_size_of_job hj), hr⟩

theorem InTouch.changes (h : InTouch c store) (changes : Controller.ChangesTo now c c') :
    InTouch c' store where
  serving := h.serving
  queued entry he := by
    obtain ⟨i, job, hclient, hi, hr⟩ := h.queued entry he
    exact ⟨i, job, hclient, changes.induct (P := fun d => d.jobs[i]? = some job)
      (fun hd change => change.sets.jobs_kept hd) hi, hr⟩
  owes := changes.induct Owes.change h.owes
  volumes := changes.induct Controller.KeepToVolumes.change h.volumes

theorem InTouch.serve (h : InTouch c store) (hs : store.serve? now = some store') :
    InTouch c store' := by
  obtain ⟨delay, hd⟩ := h.serving
  obtain ⟨client, request, queue, hq, hq', -, -, hmode⟩ := Store.serve?_eq_some hs
  obtain ⟨-, howed⟩ := Store.settled_serve hs
  exact ⟨⟨delay, hmode.trans hd⟩,
    fun entry he => h.queued entry (hq ▸ List.mem_cons_of_mem _ (hq' ▸ he)), howed ▸ h.owes, h.volumes⟩

/-- **A prepared start that waits for no volume has all of them bound**, also in the table as it is
now, where nothing disturbs it: whoever could still have asked for something would be at work on the
service as well. -/
theorem InTouch.held (ht : t.Built) (h : InTouch c store) {k : Nat} {job : StartJob t.size}
    (hk : c.jobs[k]? = some (.start job)) (hu : job.phase.Unrecorded) (hnil : job.phase.toBind = [])
    (hprepared : Prepared c store.settled store.owed k job) (hcalm : Undisturbed c job.service) :
    ∀ volume ∈ t.volumesOf job.service, Held store.table job.service volume := by
  intro volume hv
  have hheld := (hprepared.bound volume hv).resolve_left (by simp [hnil])
  refine (congrArg (· = some (t.id job.service)) (Store.owner?_settled fun entry he => ?_)).mp hheld
  obtain ⟨i, other, -, hi, hr⟩ := h.queued entry he
  obtain ⟨wanted, hw, hasks⟩ := Job.errand_mem hr
  refine ⟨wanted.id, t.id other.service, fun hid => ?_, hasks⟩
  have hsame : other.service = job.service := ht.owner_unique (h.volumes i other hi wanted hw) hv hid
  cases other with
  | start other =>
      have howns := (StartPhase.goesOn_of_toBind (show wanted ∈ other.phase.toBind from hw)).owns
      refine hcalm.overlap ⟨i, k, other, job, ?_, hi, hk, hsame, rfl, howns, hu.owns⟩
      rintro rfl
      obtain rfl := Job.start.inj (Option.some.inj (hi.symm.trans hk))
      rw [Job.volumesLeft, hnil] at hw
      cases hw
  | stop other =>
      have hunbinds := StopPhase.unbinds_of_toUnbind (show wanted ∈ other.phase.toUnbind from hw)
      exact hcalm.under ⟨hprepared.starting, i, other, hi, hsame, hunbinds.active⟩
  | launch => cases hw

/-! ## Since the service was taken up -/

section

variable {e : Engine} {start w w' : World e} {past : List (World e)} {trace since : List (World e)}
  {k : Nat}

/-- From one world to the next the start job takes the service up, which is starting then. -/
def World.TakesUp (w w' : World e) (k : Nat) (s : Fin t.size) : Prop :=
  ∃ (c c' : Controller t) (store store' : Store) (job : StartJob t.size), w.Sees c store ∧
    w'.Sees c' store' ∧ c.jobs[k]? = some (.start job) ∧ job.service = s ∧
    job.phase = .entering ∧ c.isCancelled job.run = false ∧ (c.slot s).state.isStartable ∧
    (c'.slot s).state = .starting

/-- The worlds since the start job took the service up, the latest first. -/
def Since (trace : List (World e)) (k : Nat) (s : Fin t.size) (since : List (World e)) : Prop :=
  ∃ (later : List (World e)) (w w' : World e) (earlier : List (World e)), since = later ++ [w'] ∧
    trace = since ++ w :: earlier ∧ w.TakesUp w' k s

/-- Nothing disturbs the service. -/
def World.Undisturbed (w : World e) (s : Fin t.size) : Prop :=
  ∀ (c : Controller t) (store : Store), w.Sees c store → Simulation.Undisturbed c s

/-- The start job waits for the launch of the service's container. -/
def World.Awaits (w : World e) (k launch : Nat) (s : Fin t.size) : Prop :=
  ∃ (c : Controller t) (store : Store) (job : StartJob t.size), w.Sees c store ∧
    c.jobs[k]? = some (.start job) ∧ job.service = s ∧ job.phase.launch? = some launch

theorem Since.cons (h : Since trace k s since) (w : World e) : Since (w :: trace) k s (w :: since) := by
  obtain ⟨later, w₀, w₁, earlier, rfl, rfl, htakes⟩ := h
  exact ⟨w :: later, w₀, w₁, earlier, rfl, rfl, htakes⟩

theorem Since.subset (h : Since trace k s since) : since ⊆ trace := by
  obtain ⟨later, w₀, w₁, earlier, -, rfl, -⟩ := h
  exact List.subset_append_left _ _

theorem Since.head_mem (h : Since (w :: past) k s since) : w ∈ since := by
  obtain ⟨later, w₀, w₁, earlier, rfl, htrace, -⟩ := h
  cases later with
  | nil => exact List.mem_singleton.2 (List.cons.inj htrace).1
  | cons first later => exact List.mem_cons.2 (.inl (List.cons.inj htrace).1)

/-- Every start without a container, and every launch that has not asked for one, goes back to a moment
at which a start job took the service up, and the start is prepared if nothing has disturbed the service
since. -/
structure OnCourse (trace : List (World e)) (c : Controller t) (table : Bindings)
    (owed : List (Client × Store.Result)) : Prop where
  starts : ∀ {k : Nat} {job : StartJob t.size}, c.jobs[k]? = some (.start job) →
    job.phase.Unrecorded → ∃ since, Since trace k job.service since ∧
      ((∀ w ∈ since, w.Undisturbed job.service) → Prepared c table owed k job)
  launches : ∀ {launch : Nat} {l : Launch t.size}, c.jobs[launch]? = some (.launch l) →
    l.phase = .calling → ∃ k since, Since trace k l.service since ∧
      (∃ w ∈ since, w.Awaits k launch l.service) ∧
      ((∀ w ∈ since, w.Undisturbed l.service) → ∃ job, c.jobs[k]? = some (.start job) ∧
        job.service = l.service ∧ job.phase.launch? = some launch ∧ Prepared c table owed k job)

theorem onCourse_fresh (config : Config) (table : Bindings) (owed : List (Client × Store.Result)) :
    OnCourse trace (Controller.fresh t config) table owed where
  starts hk := by simp [Controller.fresh] at hk
  launches hl := by simp [Controller.fresh] at hl

variable {table : Bindings} {owed rest : List (Client × Store.Result)}

/-- What calls change leaves every start on its course. -/
theorem OnCourse.changes (h : OnCourse (w :: past) c table owed)
    (changes : Controller.ChangesTo now c c') (hsees' : w'.Sees c' store') :
    OnCourse (w' :: w :: past) c' table owed where
  starts {k job} hk hu := by
    have hbefore : c.jobs[k]? = some (.start job) := by
      refine changes.induct (P := fun d => d.jobs[k]? = some (.start job) →
        c.jobs[k]? = some (.start job)) (fun hd change he => hd ?_) (fun he => he) hk
      rcases change.sets.start_cases he with he | ⟨-, hp, -⟩
      · exact he
      · rw [hp] at hu
        exact hu.elim
    obtain ⟨since, hsince, hprepared⟩ := h.starts hbefore hu
    exact ⟨w' :: since, hsince.cons w', fun hcalm =>
      (hprepared fun v hv => hcalm v (List.mem_cons_of_mem _ hv)).changes changes
        (hcalm w' List.mem_cons_self c' store' hsees')⟩
  launches {launch l} hl hp := by
    have hbefore : c.jobs[launch]? = some (.launch l) :=
      changes.induct (P := fun d => d.jobs[launch]? = some (.launch l) →
        c.jobs[launch]? = some (.launch l)) (fun hd change he => hd (change.sets.launch_before he))
        (fun he => he) hl
    obtain ⟨k, since, hsince, ⟨v, hv, hawaits⟩, hprepared⟩ := h.launches hbefore hp
    refine ⟨k, w' :: since, hsince.cons w', ⟨v, List.mem_cons_of_mem _ hv, hawaits⟩, fun hcalm => ?_⟩
    obtain ⟨job, hk, hjs, hw, hjob⟩ := hprepared fun v hv => hcalm v (List.mem_cons_of_mem _ hv)
    exact ⟨job, changes.induct (P := fun d => d.jobs[k]? = some (.start job))
      (fun hd change => change.sets.jobs_kept hd) hk, hjs, hw,
      hjob.changes changes (hjs ▸ hcalm w' List.mem_cons_self c' store' hsees')⟩

/-! ## One turn -/

section

variable {old new : Job t.size} {slot : Slot} {aside : Aside}

/-- A prepared start goes on to wait for a launch that has not asked yet, unless a stop takes the
service from it. -/
theorem prepared_awaits_turn (ht : t.Built) (hj : c.jobs[id]? = some old)
    (turn : Turn c now id old action new slot aside effects) (hrest : Leaves owed rest id action)
    (hvolumes : (c.after id new old.service slot aside).KeepToVolumes) {job : StartJob t.size}
    (hk : c.jobs[k]? = some (.start job)) (hprepared : Prepared c table owed k job) {launch : Nat}
    (hw : job.phase.launch? = some launch) {l : Launch t.size}
    (hl : c.jobs[launch]? = some (.launch l)) (hcalling : l.phase = .calling)
    (hbefore : Undisturbed c job.service)
    (hafter : Undisturbed (c.after id new old.service slot aside) job.service) :
    ∃ job', (c.after id new old.service slot aside).jobs[k]? = some (.start job') ∧
      job'.service = job.service ∧ job'.phase.launch? = some launch ∧
      Prepared (c.after id new old.service slot aside) (tableAfter table new.errand?)
        (owedAfter table rest id new.errand?) k job' := by
  by_cases hne : id = k
  · subst hne
    obtain rfl := Option.some.inj (hj.symm.trans hk)
    cases turn with
    | @start _ after _ _ _ _ turn =>
        have hself : (c.after id (.start after) job.service slot aside).jobs[id]?
            = some (.start after) := Controller.jobs_after_self (Controller.lt_size_of_job hj)
        rcases waits_on turn hw hl hcalling hprepared.starting with hw' | hstop
        · exact ⟨after, hself, turn.same.1, hw', prepared_turn (fun _ => hprepared) turn hrest
            (StartPhase.unrecorded_of_launch? hw').1⟩
        · refine absurd ?_ hafter.kept
          rw [Job.service_start, Controller.slot_after_self, hstop]
  · exact ⟨job, Controller.start_after_of_ne (Ne.symm hne) hk, rfl, hw,
      hprepared.other_turn hk (StartPhase.unrecorded_of_launch? hw).1 ht hj hne turn hrest hvolumes
        hbefore hafter⟩

section

variable (ht : t.Built) (h : OnCourse (w :: past) c table owed) (hsees : w.Sees c store)
  (hsees' : w'.Sees (c.after id new old.service slot aside) store')
  (hj : c.jobs[id]? = some old) (turn : Turn c now id old action new slot aside effects)
  (hrest : Leaves owed rest id action)
  (hvolumes : (c.after id new old.service slot aside).KeepToVolumes)
include ht h hsees hsees' hj turn hrest hvolumes

theorem OnCourse.starts_turn {job : StartJob t.size}
    (hk : (c.after id new old.service slot aside).jobs[k]? = some (.start job))
    (hu : job.phase.Unrecorded) : ∃ since, Since (w' :: w :: past) k job.service since ∧
      ((∀ w ∈ since, w.Undisturbed job.service) →
        Prepared (c.after id new old.service slot aside) (tableAfter table new.errand?)
          (owedAfter table rest id new.errand?) k job) := by
  rcases Controller.start_after_cases (Controller.lt_size_of_job hj) hk with ⟨rfl, rfl⟩ | ⟨hne, hk⟩
  · cases turn with
    | @start before _ _ _ _ _ turn =>
        rcases unrecorded_cases turn hu with ⟨-, hp, hc, hs, hst, -⟩ | ⟨hwas, -⟩
        · -- The job has just taken the service up.
          refine ⟨[w'], ⟨[], w, w', past, rfl, rfl, c, _, store, store', before, hsees, hsees', hj,
            turn.same.1.symm, hp, hc, turn.same.1 ▸ hs, ?_⟩, fun _ => ?_⟩
          · rw [turn.same.1, Job.service_start, Controller.slot_after_self, hst]
          · exact prepared_turn (fun hwas => by rw [hp] at hwas; exact hwas.elim) turn hrest hu
        · obtain ⟨since, hsince, hprepared⟩ := h.starts hj hwas
          rw [turn.same.1]
          exact ⟨w' :: since, hsince.cons w', fun hcalm => prepared_turn
            (fun _ => hprepared fun v hv => hcalm v (List.mem_cons_of_mem _ hv)) turn hrest hu⟩
  · obtain ⟨since, hsince, hprepared⟩ := h.starts hk hu
    refine ⟨w' :: since, hsince.cons w', fun hcalm => ?_⟩
    have hbefore := fun v hv => hcalm v (List.mem_cons_of_mem _ hv)
    exact (hprepared hbefore).other_turn hk hu ht hj hne.symm turn hrest hvolumes
      (hbefore w hsince.head_mem c store hsees) (hcalm w' List.mem_cons_self _ store' hsees')

theorem OnCourse.launches_turn {launch : Nat} {l : Launch t.size}
    (hl : (c.after id new old.service slot aside).jobs[launch]? = some (.launch l))
    (hp : l.phase = .calling) : ∃ k since, Since (w' :: w :: past) k l.service since ∧
      (∃ w ∈ since, w.Awaits k launch l.service) ∧
      ((∀ w ∈ since, w.Undisturbed l.service) →
        ∃ job, (c.after id new old.service slot aside).jobs[k]? = some (.start job) ∧
          job.service = l.service ∧ job.phase.launch? = some launch ∧
          Prepared (c.after id new old.service slot aside) (tableAfter table new.errand?)
            (owedAfter table rest id new.errand?) k job) := by
  have hid := Controller.lt_size_of_job hj
  rcases Controller.launch_after_cases hid hl with
    ⟨-, rfl⟩ | ⟨rfl, rfl, rfl⟩ | ⟨-, l', hl', hs, hkept⟩
  · -- A launch that has had a turn has asked.
    cases turn with
    | launch turn => cases turn <;> cases hp
  · cases turn with
    | @start before after _ _ _ _ turn =>
        rcases turn.launch_cases with ⟨he, -⟩ | ⟨-, -, hw⟩ | ⟨_, _, _, he, -⟩ | ⟨_, he, -⟩
        · cases he
        · have hself : (c.after id (.start after) before.service slot .launches).jobs[id]?
              = some (.start after) := Controller.jobs_after_self hid
          obtain ⟨since, hsince, hprepared⟩ := h.starts_turn ht hsees hsees' hj (.start turn) hrest
            hvolumes hself (StartPhase.unrecorded_of_launch? hw).1
          rw [turn.same.1] at hsince hprepared
          exact ⟨id, since, hsince, ⟨w', hsince.head_mem, _, store', after, hsees', hself,
            turn.same.1, hw⟩, fun hcalm => ⟨after, hself, turn.same.1, hw, hprepared hcalm⟩⟩
        all_goals cases he
  · have hcalling : l'.phase = .calling := by
      rcases hkept with ⟨rfl, -⟩ | ⟨-, rfl⟩ | ⟨-, rfl⟩
      · exact hp
      · cases hp
      · exact hp
    obtain ⟨k, since, hsince, ⟨v, hv, hawaits⟩, hprepared⟩ := h.launches hl' hcalling
    rw [hs]
    refine ⟨k, w' :: since, hsince.cons w', ⟨v, List.mem_cons_of_mem _ hv, hawaits⟩, fun hcalm => ?_⟩
    have hbefore := fun v hv => hcalm v (List.mem_cons_of_mem _ hv)
    have hafter := hcalm w' List.mem_cons_self _ store' hsees'
    obtain ⟨job, hk, hjs, hw, hjob⟩ := hprepared hbefore
    obtain ⟨job', hk', hjs', hw', hjob'⟩ := prepared_awaits_turn ht hj turn hrest hvolumes hk hjob hw
      hl' hcalling (hjs ▸ hbefore w hsince.head_mem c store hsees) (hjs ▸ hafter)
    exact ⟨job', hk', hjs'.trans hjs, hw', hjob'⟩

theorem OnCourse.after : OnCourse (w' :: w :: past) (c.after id new old.service slot aside)
    (tableAfter table new.errand?) (owedAfter table rest id new.errand?) where
  starts := h.starts_turn ht hsees hsees' hj turn hrest hvolumes
  launches := h.launches_turn ht hsees hsees' hj turn hrest hvolumes

end

end

/-! ## Every run -/

variable {config : Config} {opening : Store}

theorem OnCourse.step (ht : t.Built) (h : OnCourse (w :: past) c store.settled store.owed)
    (htouch : InTouch c store) (hsees : w.Sees c store) (ha : action.job? = some id)
    (hs : c.step now action = some (c', effects)) (hmode : store₀.mode = store.mode)
    (hqueue : store₀.queue = store.queue) (hsettled : store₀.settled = store.settled)
    (hleaves : Leaves store.owed store₀.owed id action)
    (hsees' : w'.Sees c' (effects.foldl (Store.hear now) store₀)) :
    InTouch c' (effects.foldl (Store.hear now) store₀) ∧
      OnCourse (w' :: w :: past) c' (effects.foldl (Store.hear now) store₀).settled
        (effects.foldl (Store.hear now) store₀).owed := by
  have htouch' := htouch.turn ha hs hmode hqueue hleaves
  obtain ⟨old, new, slot, aside, hj, turn, rfl⟩ := Controller.turnsTo_of_step ha hs
  obtain ⟨delay, hd⟩ := htouch.serving
  obtain ⟨htable, howed, -⟩ := hear_turn (hmode.trans hd) turn
  rw [htable, howed, hsettled]
  exact ⟨htouch', h.after ht hsees hsees' hj turn hleaves htouch'.volumes⟩

theorem OnCourse.exchange (ht : t.Built) (h : OnCourse (w :: past) c store.settled store.owed)
    (htouch : InTouch c store) (hsees : w.Sees c store) (hsees' : w'.Sees c' store')
    (hx : Exchange now c store c' store') :
    InTouch c' store' ∧ OnCourse (w' :: w :: past) c' store'.settled store'.owed := by
  have hnone : Controller.ChangesTo now c c := .refl
  cases hx with
  | rest => exact ⟨htouch, h.changes hnone hsees'⟩
  | serve hs =>
      obtain ⟨hsettled, howed⟩ := Store.settled_serve hs
      rw [hsettled, howed]
      exact ⟨htouch.serve hs, h.changes hnone hsees'⟩
  | @act action _ effects hs ha =>
      cases hid : action.job? with
      | none =>
          obtain ⟨changes, rfl⟩ := Controller.changesTo_of_step hid hs
          exact ⟨htouch.changes changes, h.changes changes hsees'⟩
      | some id =>
          obtain ⟨old, new, slot, aside, hj, turn, -⟩ := Controller.turnsTo_of_step hid hs
          exact h.step ht htouch hsees hid hs rfl rfl rfl (htouch.owes.leaves_act hj turn ha) hsees'
  | deliver ha hs =>
      obtain ⟨howed, hleft⟩ := Store.owed_eraseIdx ha
      exact h.step ht htouch hsees rfl hs rfl rfl rfl (hleft ▸ htouch.owes.leaves_deliver howed)
        hsees'

theorem World.Run.onCourse (ht : t.Built) (hstart : start.Sees (Controller.fresh t config) opening)
    (hserving : ∃ delay, opening.mode = .serving delay) (hqueue : opening.queue = [])
    (hanswers : opening.answers = []) (run : Run start past w) :
    ∃ (c : Controller t) (store : Store), w.Sees c store ∧ InTouch c store ∧
      OnCourse (w :: past) c store.settled store.owed := by
  induction run with
  | refl =>
      refine ⟨_, opening, hstart, ⟨hserving, by simp [hqueue], ?_, ?_⟩, onCourse_fresh config _ _⟩
      · rw [Store.owed_of_clients (Store.clients_eq_nil.2 ⟨hqueue, hanswers⟩)]
        exact ⟨by simp, by simp⟩
      · intro i job hj
        simp [Controller.fresh] at hj
  | @tail past w w' event run hs ih =>
      obtain ⟨c, store, hsees, htouch, hcourse⟩ := ih
      obtain ⟨c', store', hsees', hx⟩ := hsees.exchange htouch.no_visitor hs
      exact ⟨c', store', hsees', hcourse.exchange ht htouch hsees hsees' hx⟩

/-- **Containers are started for starts that go on.** In a world with a fresh controller of a built
topology, any engine, and a store that serves requests and that nobody else uses, let anything happen,
in any order. Whenever a launch asks the engine to start a container of a service, there is a start job
that took the service up and has waited for this launch since; and if the service has not been stopped
since then, and no stop and no other start of it was at work, the service is starting and every one of
its volumes is bound to it. -/
theorem World.Run.live_starts (ht : t.Built)
    (hstart : start.Sees (Controller.fresh t config) opening)
    (hserving : ∃ delay, opening.mode = .serving delay) (hqueue : opening.queue = [])
    (hanswers : opening.answers = []) (run : Run start past w) (hsees : w.Sees c store)
    (hs : c.step w.now action = some (c', effects)) {launch : Nat}
    (hasks : Moment.AsksStartBy ⟨c, w.now, action, effects, c'⟩ launch s) :
    ∃ (k : Nat) (since : List (World e)), Since (w :: past) k s since ∧
      (∃ w' ∈ since, w'.Awaits k launch s) ∧
      ((∀ w' ∈ since, w'.Undisturbed s) →
        (c.slot s).state = .starting ∧ ∀ volume ∈ t.volumesOf s, Held store.table s volume) := by
  obtain ⟨_, _, hsees', htouch, hcourse⟩ := run.onCourse ht hstart hserving hqueue hanswers
  obtain ⟨rfl, rfl⟩ := hsees.unique hsees'
  obtain ⟨l, hl, rfl, he⟩ := hasks
  obtain ⟨l', hl', -, hp, -⟩ := Controller.asks_start_of_step hs he
  obtain rfl := Job.launch.inj (Option.some.inj (hl.symm.trans hl'))
  obtain ⟨k, since, hsince, hawaits, hprepared⟩ := hcourse.launches hl hp
  refine ⟨k, since, hsince, hawaits, fun hcalm => ?_⟩
  obtain ⟨job, hk, hjs, hw, hjob⟩ := hprepared hcalm
  have hnil : job.phase.toBind = [] := toBind_of_launch? hw
  rw [← hjs]
  exact ⟨hjob.starting, htouch.held ht hk (StartPhase.unrecorded_of_launch? hw).1 hnil hjob
    (hjs ▸ hcalm w hsince.head_mem _ _ hsees)⟩

end

/-! ### A start that goes on, and one that does not -/

/-- Whether a world has one stack, with the topology of the database, and one store, and what is shown
by its controller and its store. -/
def World.showsController (w : World Engine.Scripted.engine)
    (shows : Controller stocked → Store → Bool) : Bool :=
  match w.members.toList, w.stores.toList with
  | [⟨topology, c, _, _, k⟩], [store] =>
    if h : topology = stocked then k = 0 && shows (h ▸ c) store else false
  | _, _ => false

theorem World.sees_of_showsController {w : World Engine.Scripted.engine}
    {shows : Controller stocked → Store → Bool} (h : w.showsController shows) :
    ∃ (c : Controller stocked) (store : Store), w.Sees c store ∧ shows c store := by
  unfold showsController at h
  split at h
  next topology c engine ongoing k store hm hs =>
    split at h
    next ht =>
      subst ht
      simp only [Bool.and_eq_true, decide_eq_true_iff] at h
      obtain ⟨rfl, h⟩ := h
      exact ⟨c, store, ⟨⟨engine, ongoing, Array.toList_inj.1 hm⟩, Array.toList_inj.1 hs⟩, h⟩
    next => cases h
  next => cases h

/-- Whether a controller asks the engine for the database when it goes on with a launch. -/
def asksFor (c : Controller stocked) (now : Nat) (launch : JobId) : Bool :=
  (c.step now (.run launch)).any fun (c', effects) =>
    Moment.AsksStartBy ⟨c, now, .run launch, effects, c'⟩ launch keeper

theorem asks_of_asksFor {c : Controller stocked} {launch : JobId} (h : asksFor c now launch) :
    ∃ c' effects, c.step now (.run launch) = some (c', effects) ∧
      Moment.AsksStartBy ⟨c, now, .run launch, effects, c'⟩ launch keeper := by
  obtain ⟨⟨c', effects⟩, hs, h⟩ := (Option.any_eq_true _ _).1 h
  exact ⟨c', effects, hs, of_decide_eq_true h⟩

/-- The theorem where the database is started: when the engine is asked, both volumes are bound. -/
theorem live_starts_opening :
    ∃ (past : List (World Engine.Scripted.engine)) (w : World Engine.Scripted.engine)
      (c c' : Controller stocked) (store : Store) (effects : List Effect), stocked.Built ∧
      World.Run (unopened {}) past w ∧ w.Sees c store ∧
      c.step w.now (.run 1) = some (c', effects) ∧
      Moment.AsksStartBy ⟨c, w.now, .run 1, effects, c'⟩ 1 keeper ∧
      (∀ w' ∈ w :: past, w'.Undisturbed keeper) ∧ (c.slot keeper).state = .starting ∧
      ∀ volume ∈ stocked.volumesOf keeper, Held store.table keeper volume := by
  obtain ⟨past, w, run, shown⟩ := World.exists_run (unopened {}) (openingEvents.take 9)
    (fun past w => ((w :: past).all fun w => w.showsClear &&
        w.showsStocked fun state _ => state ≠ some .stopping) &&
      w.showsController fun c _ => asksFor c w.now 1)
    (by decide +kernel)
  rw [Bool.and_eq_true, List.all_eq_true] at shown
  obtain ⟨hall, hlast⟩ := shown
  have calm : ∀ w' ∈ w :: past, w'.Undisturbed keeper := by
    intro w' hw' c store hsees
    obtain ⟨hclear, hstate⟩ := Bool.and_eq_true_iff.1 (hall w' hw')
    obtain ⟨c', store', hsees', hshown⟩ := World.sees_of_showsStocked hstate
    obtain ⟨rfl, rfl⟩ := hsees.unique hsees'
    have clear : c'.KeepsClear keeper := hsees.keepsClear hclear
    exact ⟨by simpa using hshown, clear.under, clear.overlap⟩
  obtain ⟨c, store, hsees, hasked⟩ := World.sees_of_showsController hlast
  obtain ⟨c', effects, hs, hasks⟩ := asks_of_asksFor hasked
  obtain ⟨k, since, hsince, -, hlive⟩ := run.live_starts stocked_built ⟨⟨_, _, rfl⟩, rfl⟩ ⟨1, rfl⟩ rfl
    rfl hsees hs hasks
  obtain ⟨hstarting, hheld⟩ := hlive fun w' hw' => calm w' (hsince.subset hw')
  exact ⟨past, w, c, c', store, effects, stocked_built, run, hsees, hs, hasks, calm, hstarting, hheld⟩

/-- Where a stop takes the database while its start waits for the store, the engine is asked for a
container when the database is stopped, and one of its volumes is not bound. -/
theorem started_stopped :
    ∃ (past : List (World Engine.Scripted.engine)) (w : World Engine.Scripted.engine)
      (c c' : Controller stocked) (store : Store) (effects : List Effect),
      World.Run (unopened {}) past w ∧ w.Sees c store ∧
      c.step w.now (.run 2) = some (c', effects) ∧
      Moment.AsksStartBy ⟨c, w.now, .run 2, effects, c'⟩ 2 keeper ∧
      (c.slot keeper).state = .stopped ∧
      dataVolume ∈ stocked.volumesOf keeper ∧ ¬ Held store.table keeper dataVolume := by
  obtain ⟨past, w, run, shown⟩ := World.exists_run (unopened {}) latecomingEvents
    (fun _ w => w.showsController fun c store => asksFor c w.now 2 &&
      (c.slot keeper).state = .stopped && !decide (Held store.table keeper dataVolume))
    (by decide +kernel)
  obtain ⟨c, store, hsees, hshown⟩ := World.sees_of_showsController shown
  simp only [Bool.and_eq_true, decide_eq_true_iff, Bool.not_eq_true', decide_eq_false_iff_not]
    at hshown
  obtain ⟨⟨hasked, hstopped⟩, hnot⟩ := hshown
  obtain ⟨c', effects, hs, hasks⟩ := asks_of_asksFor hasked
  exact ⟨past, w, c, c', store, effects, run, hsees, hs, hasks, hstopped, by decide, hnot⟩

end Bringup.Simulation
