import Bringup.Proofs.Lifecycle.Errands
import Bringup.Proofs.Simulation.Served
import Bringup.Proofs.Topology.Built

/-!
# How bindings go with the jobs of a service

What a job asks of the store is settled in the turn that asks it, whenever it is served (`Served`). So
the invariants here speak of a table of bindings and of the answers that are owed, and each turn of a
job acts on both at once (`tableAfter`, `owedAfter`). `Owes` says that every answer is for a job that
waits for it. `Agrees` says which volumes are bound to a service: those a start that goes on no longer
waits for, all of them when the service is ready, none that a stop has asked to unbind, and none at all
when the service can be started. A turn keeps it (`Agrees.turn`) where starts and stops of the service
keep clear of each other.
-/

namespace Bringup.Simulation

open Lifecycle
open Volume (Bindings)

variable {t : Topology}

/-- The volume is bound to the service. -/
def Held (table : Bindings) (s : Fin t.size) (volume : Volume) : Prop :=
  table.owner? volume.id = some (t.id s)

instance (table : Bindings) (s : Fin t.size) (volume : Volume) : Decidable (Held table s volume) :=
  inferInstanceAs (Decidable (_ = _))

/-- The table once what a job waits for is served. -/
def tableAfter (table : Bindings) : Option Volume.Request → Bindings
  | none => table
  | some request => (table.serve request).1

/-- The answers that have not reached their clients once a job waits for one. -/
def owedAfter (table : Bindings) (owed : List (Client × Store.Result)) (id : JobId) :
    Option Volume.Request → List (Client × Store.Result)
  | none => owed
  | some request => owed ++ [(.job 0 id, (table.serve request).2)]

variable {c c' d : Controller t} {now : Nat} {id : JobId} {action : Action} {slot : Slot}
  {aside : Aside} {effects : List Effect} {operation : Operation} {s : Fin t.size}
  {table table' : Bindings} {owed owed' : List (Client × Store.Result)}

/-! ## What requests do to the volumes of a service -/

/-- A request of a start job of the service binds the volume it is about, if that is granted. -/
theorem held_attach {volume : Volume} {answer : Volume.Answer}
    (h : (table.serve (.attach volume.id (t.id s))).2 = .ok answer) :
    Held (tableAfter table (some (.attach volume.id (t.id s)))) s volume := by
  simp only [Bindings.serve] at h
  cases hr : (table.attach volume.id (t.id s)).2 with
  | ok fresh => exact Bindings.owner?_attach_of_ok hr
  | error error =>
      rw [hr] at h
      cases h

/-- A request of a start job takes no volume away. -/
theorem Held.start_kept {job : StartJob t.size} {volume : Volume} (h : Held table s volume) :
    Held (tableAfter table (Job.start job).errand?) s volume := by
  rw [Job.errand?]
  cases job.phase.toBind.head? with
  | none => exact h
  | some wanted => exact Bindings.owner?_attach_kept h wanted.id (t.id job.service)

/-- A request of a start job binds no volume but one that the job waits for. -/
theorem held_start_cases {job : StartJob t.size} {volume : Volume}
    (h : Held (tableAfter table (Job.start job).errand?) s volume) :
    Held table s volume ∨ ∃ wanted ∈ job.phase.toBind, wanted.id = volume.id := by
  rw [Job.errand?] at h
  cases hw : job.phase.toBind.head? with
  | none =>
      rw [hw] at h
      exact .inl h
  | some wanted =>
      rw [hw] at h
      by_cases hne : volume.id = wanted.id
      · exact .inr ⟨wanted, List.mem_of_mem_head? hw, hne.symm⟩
      · exact .inl ((Bindings.owner?_attach_of_ne hne (t.id job.service)).symm.trans h)

/-- A request of a stop job binds no volume. -/
theorem not_held_stop {job : StopJob t.size} {volume : Volume} (h : ¬ Held table s volume) :
    ¬ Held (tableAfter table (Job.stop job).errand?) s volume := by
  rw [Job.errand?]
  cases job.phase.toUnbind.head? with
  | none => exact h
  | some first => exact Bindings.owner?_detach_ne h first.id

/-- A request of a stop job unbinds the first of the volumes that the job waits for. -/
theorem not_held_stop_cases {job : StopJob t.size} {volume : Volume}
    (h : volume ∈ job.phase.toUnbind ∨ ¬ Held table s volume) :
    volume ∈ job.phase.toUnbind.tail ∨
      ¬ Held (tableAfter table (Job.stop job).errand?) s volume := by
  rcases h with hm | hn
  · cases hu : job.phase.toUnbind with
    | nil =>
        rw [hu] at hm
        cases hm
    | cons first rest =>
        rw [hu] at hm
        rcases List.mem_cons.1 hm with rfl | hm
        · refine .inr fun hh => ?_
          have hasked : (Job.stop job).errand? = some (.detach volume.id) := by
            rw [Job.errand?, hu]
            rfl
          rw [hasked, Held, tableAfter, Bindings.serve, Bindings.owner?_detach_self] at hh
          cases hh
        · exact .inl hm
  · exact .inr (not_held_stop hn)

/-- Jobs of other services leave the volumes of a service alone. -/
theorem held_other (ht : t.Built) {job : Job t.size} (hne : job.service ≠ s)
    (hown : ∀ volume ∈ job.volumesLeft, volume ∈ t.volumesOf job.service) {volume : Volume}
    (hv : volume ∈ t.volumesOf s) :
    Held (tableAfter table job.errand?) s volume ↔ Held table s volume := by
  cases he : job.errand? with
  | none => exact Iff.rfl
  | some request =>
      obtain ⟨wanted, hm, hr⟩ := Job.errand_mem he
      have hid : volume.id ≠ wanted.id := fun he =>
        hne (ht.owner_unique (hown wanted hm) hv he.symm)
      rcases hr with rfl | rfl
      · exact iff_of_eq (congrArg (· = _) (Bindings.owner?_attach_of_ne hid (t.id job.service)))
      · exact iff_of_eq (congrArg (· = _) (Bindings.owner?_detach_of_ne hid))

/-! ## Who waits for an answer -/

/-- The answers that have not reached their clients are for jobs that wait for them, one for each. -/
structure Owes (c : Controller t) (owed : List (Client × Store.Result)) : Prop where
  waits : ∀ entry ∈ owed, ∃ (id : Nat) (job : Job t.size) (request : Volume.Request),
    entry.1 = .job 0 id ∧ c.jobs[id]? = some job ∧ job.errand? = some request
  sole : (owed.map Prod.fst).Nodup

/-- What is left of the answers for a job that takes a turn: none for the job itself, and the one that
moved it was among them. -/
structure Leaves (owed rest : List (Client × Store.Result)) (id : JobId) (action : Action) : Prop where
  sub : List.Sublist rest owed
  free : ∀ result, (.job 0 id, result) ∉ rest
  answer : ∀ result, action = .answer id (.volume result) → (.job 0 id, result) ∈ owed

/-- The answer that is new is for the job whose turn it was. -/
theorem mem_of_owedAfter {errand? : Option Volume.Request} {i : Nat} {result : Store.Result}
    (hne : i ≠ id) (h : (.job 0 i, result) ∈ owedAfter table owed id errand?) :
    (.job 0 i, result) ∈ owed := by
  cases errand? with
  | none => exact h
  | some request =>
      refine (List.mem_append.1 h).resolve_right fun h => hne ?_
      exact (Client.job.inj (Prod.mk.inj (List.mem_singleton.1 h)).1).2

theorem Owes.turn {old new : Job t.size} {rest : List (Client × Store.Result)} (h : Owes c owed)
    (hj : c.jobs[id]? = some old) (turn : Turn c now id old action new slot aside effects)
    (hrest : Leaves owed rest id action) :
    Owes (c.after id new old.service slot aside) (owedAfter table rest id new.errand?) := by
  have hwaits : ∀ entry ∈ rest, ∃ (i : Nat) (job : Job t.size) (request : Volume.Request),
      entry.1 = .job 0 i ∧ (c.after id new old.service slot aside).jobs[i]? = some job ∧
        job.errand? = some request := by
    intro entry he
    obtain ⟨i, job, request, hi, hjob, hr⟩ := h.waits entry (hrest.sub.subset he)
    have hne : i ≠ id := by
      rintro rfl
      exact hrest.free entry.2 (hi ▸ he)
    refine ⟨i, job, request, hi, Controller.other_after_of_ne hne hjob ?_, hr⟩
    rintro l rfl
    cases hr
  have hsole := h.sole.sublist (hrest.sub.map Prod.fst)
  cases hn : new.errand? with
  | none => exact ⟨hwaits, hsole⟩
  | some request =>
      constructor
      · intro entry he
        rcases List.mem_append.1 he with he | he
        · exact hwaits entry he
        · obtain rfl := List.mem_singleton.1 he
          exact ⟨id, new, request, rfl, Controller.jobs_after_self (Controller.lt_size_of_job hj), hn⟩
      · rw [owedAfter, List.map_append, List.map_cons, List.map_nil]
        refine List.nodup_append.2 ⟨hsole, by simp, ?_⟩
        intro client hc client' hc' he
        obtain rfl := List.mem_singleton.1 hc'
        obtain ⟨⟨client, result⟩, hm, rfl⟩ := List.mem_map.1 hc
        obtain rfl : client = _ := he
        exact hrest.free result hm

theorem Owes.change (h : Owes c owed) (change : Controller.CallChange now c operation d) :
    Owes d owed where
  waits entry he := by
    obtain ⟨i, job, request, hi, hjob, hr⟩ := h.waits entry he
    exact ⟨i, job, request, hi, change.sets.jobs_kept hjob, hr⟩
  sole := h.sole

/-- A job that takes a turn by itself has no answer to come. -/
theorem Owes.leaves_act {old new : Job t.size} (h : Owes c owed) (hj : c.jobs[id]? = some old)
    (turn : Turn c now id old action new slot aside effects)
    (ha : ∀ i result, action ≠ .answer i (.volume result)) : Leaves owed owed id action where
  sub := List.Sublist.refl _
  free result hm := by
    obtain ⟨i, job, request, hi, hjob, hr⟩ := h.waits _ hm
    obtain rfl := (Client.job.inj hi).2
    obtain rfl := Option.some.inj (hj.symm.trans hjob)
    obtain ⟨result, he⟩ := turn.answers hr
    exact ha _ _ he
  answer result he := absurd he (ha id result)

/-- A job that takes an answer has no other one to come. -/
theorem Owes.leaves_deliver (h : Owes c owed) {place : Nat} {result : Store.Result}
    (ha : owed[place]? = some (.job 0 id, result)) :
    Leaves owed (owed.eraseIdx place) id (.answer id (.volume result)) where
  sub := List.eraseIdx_sublist _ _
  free result' hm := by
    have hperm := (Store.perm_eraseIdx ha).map Prod.fst
    have hnot := (List.nodup_cons.1 (hperm.nodup_iff.1 h.sole)).1
    exact hnot (List.mem_map.2 ⟨_, hm, rfl⟩)
  answer result' he := by
    obtain rfl := Reply.volume.inj (Action.answer.inj he).2
    exact List.mem_of_getElem? ha

/-! ## Bindings and states -/

/-- The bindings of the volumes of a service agree with its state and with its jobs. -/
structure Agrees (c : Controller t) (table : Bindings) (owed : List (Client × Store.Result))
    (s : Fin t.size) : Prop where
  /-- A start that goes on has bound the volumes it no longer waits for. -/
  binding : ∀ {id : Nat} {job : StartJob t.size}, c.jobs[id]? = some (.start job) →
    job.service = s → job.phase.GoesOn → (c.slot s).state = .starting →
    ∀ volume ∈ t.volumesOf s, volume ∈ job.phase.toBind ∨ Held table s volume
  /-- A volume is bound when the start is going to be told so. -/
  granted : ∀ {id : Nat} {job : StartJob t.size} {volume : Volume} {rest : List Volume}
    {answer : Volume.Answer}, c.jobs[id]? = some (.start job) → job.service = s →
    job.phase.toBind = volume :: rest → (.job 0 id, .ok answer) ∈ owed →
    (c.slot s).state = .starting → volume ∈ t.volumesOf s → Held table s volume
  /-- A stop has unbound the volumes it has asked for. -/
  unbinding : ∀ {id : Nat} {job : StopJob t.size}, c.jobs[id]? = some (.stop job) →
    job.service = s → job.phase.Unbinds →
    ∀ volume ∈ t.volumesOf s, volume ∈ job.phase.toUnbind.tail ∨ ¬ Held table s volume
  ready : (c.slot s).state = .ready → ∀ volume ∈ t.volumesOf s, Held table s volume
  idle : (c.slot s).state.isStartable → ∀ volume ∈ t.volumesOf s, ¬ Held table s volume

theorem agrees_fresh (config : Config)
    (h : ∀ volume ∈ t.volumesOf s, ¬ Held table s volume) :
    Agrees (.fresh t config) table owed s where
  binding hj := by simp [Controller.fresh] at hj
  granted hj := by simp [Controller.fresh] at hj
  unbinding hj := by simp [Controller.fresh] at hj
  ready hs := by simp [Controller.fresh, Controller.slot] at hs
  idle _ := h

/-- The bindings go on to agree with the service after what leaves its volumes and its jobs alone, and
its state too, unless it takes it to stopping. -/
theorem Agrees.frame (h : Agrees c table owed s)
    (hheld : ∀ volume ∈ t.volumesOf s, (Held table' s volume ↔ Held table s volume))
    (hstate : (c'.slot s).state = (c.slot s).state ∨ (c'.slot s).state = .stopping)
    (hstart : ∀ {i : Nat} {job : StartJob t.size}, c'.jobs[i]? = some (.start job) →
      job.service = s → job.phase.GoesOn → c.jobs[i]? = some (.start job) ∧
        ∀ result, (.job 0 i, result) ∈ owed' → (.job 0 i, result) ∈ owed)
    (hstop : ∀ {i : Nat} {job : StopJob t.size}, c'.jobs[i]? = some (.stop job) →
      job.service = s → job.phase.Unbinds → c.jobs[i]? = some (.stop job)) :
    Agrees c' table' owed' s := by
  have hsame {state : ServiceState} (hs : (c'.slot s).state = state) (hne : state ≠ .stopping) :
      (c.slot s).state = state :=
    (hstate.resolve_right fun he => hne (hs.symm.trans he)) ▸ hs
  constructor
  case binding =>
    intro i job hj hjs hgoes hst volume hv
    have hold := h.binding (hstart hj hjs hgoes).1 hjs hgoes (hsame hst (by simp)) volume hv
    exact hold.imp_right (hheld volume hv).2
  case granted =>
    intro i job volume rest answer hj hjs hp hm hst hv
    have hgoes := StartPhase.goesOn_of_toBind (hp ▸ List.mem_cons_self : volume ∈ job.phase.toBind)
    obtain ⟨hold, howed⟩ := hstart hj hjs hgoes
    exact (hheld volume hv).2 (h.granted hold hjs hp (howed _ hm) (hsame hst (by simp)) hv)
  case unbinding =>
    intro i job hj hjs hu volume hv
    exact (h.unbinding (hstop hj hjs hu) hjs hu volume hv).imp_right (mt (hheld volume hv).1)
  case ready =>
    intro hst volume hv
    exact (hheld volume hv).2 (h.ready (hsame hst (by simp)) volume hv)
  case idle =>
    intro hst volume hv
    have hne : (c'.slot s).state ≠ .stopping := by
      intro he
      rw [he] at hst
      cases hst
    exact mt (hheld volume hv).1 (h.idle (hsame rfl hne ▸ hst) volume hv)

/-! ### Turns of start jobs -/

section

variable {job job' : StartJob t.size} {rest : List (Client × Store.Result)}

/-- A volume that is newly bound is the first one that a start asks for, or one that the job still had
to ask for. -/
theorem newly_held (ht : t.Built) (hvolumes : c.KeepToVolumes)
    (hj : c.jobs[id]? = some (.start job))
    (turn : StartTurn c now id job action job' slot aside effects) {volume : Volume}
    (hv : volume ∈ t.volumesOf job.service)
    (hh : Held (tableAfter table (Job.start job').errand?) job.service volume)
    (hn : ¬ Held table job.service volume) :
    slot.state = .starting ∨ volume ∈ job.phase.toBind.tail := by
  obtain ⟨wanted, hw, he⟩ := (held_start_cases hh).resolve_left hn
  rcases turn.goesOn_cases (StartPhase.goesOn_of_toBind hw) with
    ⟨-, -, hnil⟩ | ⟨-, hst, -⟩ | ⟨first, answer, hfirst, rfl⟩
  · rw [hnil] at hw
    cases hw
  · exact .inl hst
  · have hmine : wanted ∈ job.phase.toBind := hfirst ▸ List.mem_cons_of_mem _ hw
    obtain rfl := (ht.volume_unique (hvolumes id _ hj wanted hmine) hv he).2
    exact .inr (by rw [hfirst]; exact hw)

/-- A service that is starting after a turn was so before, unless the job takes it up. -/
theorem starting_before (turn : StartTurn c now id job action job' slot aside effects)
    (hp : job.phase ≠ .entering) (hst : slot.state = .starting) :
    (c.slot job.service).state = .starting := by
  rcases turn.state_cases with hs | ⟨-, he, -⟩ | ⟨_, -, hs, -⟩
  · exact hs ▸ hst
  · exact absurd he hp
  · exact hs

/-- While another start job owns the service, no turn takes it up. -/
theorem starting_before_owned (hj : c.jobs[id]? = some (.start job))
    (turn : StartTurn c now id job action job' slot aside effects)
    (hsole : ¬ (c.after id (.start job') job.service slot aside).StartsOverlap job.service)
    {i : Nat} {other : StartJob t.size} (hne : i ≠ id) (ho : c.jobs[i]? = some (.start other))
    (hos : other.service = job.service) (howns : other.phase.Owns) (hst : slot.state = .starting) :
    (c.slot job.service).state = .starting := by
  rcases turn.state_cases with hs | ⟨-, hp, -, hidle, -⟩ | ⟨_, -, hs, -⟩
  · exact hs ▸ hst
  · rcases turn.owns_cases with
      ⟨-, -, howns', -⟩ | ⟨h, -⟩ | ⟨_, h, -⟩ | ⟨h, -⟩ | ⟨-, -, -, hs, -⟩
    · exact absurd ⟨i, id, other, job', hne, Controller.start_after_of_ne hne ho,
        Controller.jobs_after_self (Controller.lt_size_of_job hj), hos, turn.same.1, howns, howns'⟩
        hsole
    · exact (hp ▸ h : StartPhase.Owns .entering).elim
    · cases hp.symm.trans h
    · exact (hp ▸ h : StartPhase.Owns .entering).elim
    · exact hs ▸ hst
  · exact hs

/-- A start job that goes on after its turn still waits for a volume, or the volume is bound. -/
theorem Agrees.bound_after (h : Agrees c table owed job.service)
    (hj : c.jobs[id]? = some (.start job))
    (turn : StartTurn c now id job action job' slot aside effects)
    (hrest : Leaves owed rest id action) (hgoes : job'.phase.GoesOn) (hst : slot.state = .starting)
    {volume : Volume} (hv : volume ∈ t.volumesOf job.service) :
    volume ∈ job'.phase.toBind ∨
      Held (tableAfter table (Job.start job').errand?) job.service volume := by
  have hbefore (hwas : job.phase.GoesOn) : (c.slot job.service).state = .starting :=
    starting_before turn (by rintro he; rw [he] at hwas; exact hwas) hst
  rcases turn.goesOn_cases hgoes with
    ⟨hwas, hnil, -⟩ | ⟨-, -, hall⟩ | ⟨first, answer, hfirst, rfl⟩
  · have hheld := (h.binding hj rfl hwas (hbefore hwas) volume hv).resolve_left (by simp [hnil])
    exact .inr hheld.start_kept
  · exact .inl (hall ▸ hv)
  · have hwas : job.phase.GoesOn :=
      StartPhase.goesOn_of_toBind (hfirst ▸ List.mem_cons_self : first ∈ job.phase.toBind)
    rcases h.binding hj rfl hwas (hbefore hwas) volume hv with hm | hheld
    · rcases List.mem_cons.1 (hfirst ▸ hm) with rfl | hm
      · have hheld := h.granted hj rfl hfirst (hrest.answer _ rfl) (hbefore hwas) hv
        exact .inr hheld.start_kept
      · exact .inl hm
    · exact .inr hheld.start_kept

/-- The turn of a start job of the service. -/
theorem Agrees.start_turn (ht : t.Built) (h : Agrees c table owed job.service)
    (hvolumes : c.KeepToVolumes) (hj : c.jobs[id]? = some (.start job))
    (turn : StartTurn c now id job action job' slot aside effects)
    (hrest : Leaves owed rest id action) (hbehind : ¬ c.BindsBehind job.service)
    (hclear : ¬ (c.after id (.start job') job.service slot aside).StartsUnderStop job.service)
    (hsole : ¬ (c.after id (.start job') job.service slot aside).StartsOverlap job.service) :
    Agrees (c.after id (.start job') job.service slot aside)
      (tableAfter table (Job.start job').errand?) (owedAfter table rest id (Job.start job').errand?)
      job.service := by
  have hid := Controller.lt_size_of_job hj
  constructor
  case binding =>
    intro i k hi hks hgoes hst volume hv
    rw [Controller.slot_after_self] at hst
    rcases Controller.start_after_start_cases hid hi with ⟨-, rfl⟩ | ⟨hne, hi⟩
    · exact h.bound_after hj turn hrest hgoes hst hv
    · have hold := starting_before_owned hj turn hsole hne hi hks hgoes.owns hst
      exact (h.binding hi hks hgoes hold volume hv).imp_right Held.start_kept
  case granted =>
    intro i k volume left answer hi hks hp hm hst hv
    rw [Controller.slot_after_self] at hst
    rcases Controller.start_after_start_cases hid hi with ⟨rfl, rfl⟩ | ⟨hne, hi⟩
    · have hasked : (Job.start job').errand? = some (.attach volume.id (t.id job.service)) := by
        rw [Job.errand?, hp, turn.same.1]
        rfl
      rw [hasked] at hm ⊢
      rcases List.mem_append.1 hm with hm | hm
      · exact absurd hm (hrest.free _)
      · exact held_attach (Prod.mk.inj (List.mem_singleton.1 hm)).2.symm
    · have hgoes := StartPhase.goesOn_of_toBind (hp ▸ List.mem_cons_self : volume ∈ k.phase.toBind)
      have hold := starting_before_owned hj turn hsole hne hi hks hgoes.owns hst
      have howed := hrest.sub.subset (mem_of_owedAfter hne hm)
      exact (h.granted hi hks hp howed hold hv).start_kept
  case unbinding =>
    intro i k hi hks hu volume hv
    have hi' := Controller.stop_of_after hid (by simp) hi
    by_cases hm : volume ∈ k.phase.toUnbind.tail
    · exact .inl hm
    · refine .inr fun hh => ?_
      have hn := (h.unbinding hi' hks hu volume hv).resolve_left hm
      rcases newly_held ht hvolumes hj turn hv hh hn with hst | hmine
      · exact hclear ⟨by rw [Controller.slot_after_self, hst], i, k, hi, hks, hu.active⟩
      · exact hbehind ⟨id, job, hj, rfl, volume, hmine, .inr ⟨i, k, hi', hks, hu, hm⟩⟩
  case ready =>
    intro hst volume hv
    rw [Controller.slot_after_self] at hst
    rcases turn.state_cases with hs | ⟨-, -, -, -, rfl⟩ | ⟨verdict, hp, hs, hs'⟩
    · exact (h.ready (hs ▸ hst) volume hv).start_kept
    · cases hst
    · rw [hs'] at hst
      cases verdict with
      | ready =>
          have hheld := (h.binding hj rfl (by rw [hp]; trivial) hs volume hv).resolve_left
            (by rw [hp]; exact List.not_mem_nil)
          exact hheld.start_kept
      | failed | cancelled => cases hst
  case idle =>
    intro hst volume hv hh
    rw [Controller.slot_after_self] at hst
    have hold : (c.slot job.service).state.isStartable := by
      rcases turn.state_cases with hs | ⟨-, -, -, hs, -⟩ | ⟨verdict, -, -, hs'⟩
      · exact hs ▸ hst
      · exact hs
      · rw [hs'] at hst
        cases verdict <;> cases hst
    rcases newly_held ht hvolumes hj turn hv hh (h.idle hold volume hv) with hs | hmine
    · rw [hs] at hst
      cases hst
    · exact hbehind ⟨id, job, hj, rfl, volume, hmine, .inl hold⟩

end

/-! ### Turns of stop jobs -/

/-- While the service is starting or ready no stop job is at work on it, so none asks the store. -/
theorem asks_nothing {job : StopJob t.size} {phase : StopPhase} (hj : c.jobs[id]? = some (.stop job))
    (turn : StopTurn c now id job action phase slot effects)
    (hvacant : (c.after id (.stop { job with phase }) job.service slot .nothing).Vacant job.service)
    (hst : slot.state = .starting ∨ slot.state = .ready) :
    (Job.stop { job with phase }).errand? = none ∧
      slot.state = (c.slot job.service).state := by
  constructor
  · cases hu : phase.toUnbind with
    | nil => simp [Job.errand?, hu]
    | cons volume left =>
        have hunbinds := StopPhase.unbinds_of_toUnbind
          (hu ▸ List.mem_cons_self : volume ∈ phase.toUnbind)
        have hself : (c.after id (.stop { job with phase }) job.service slot .nothing).jobs[id]?
            = some (.stop { job with phase }) :=
          Controller.jobs_after_self (Controller.lt_size_of_job hj)
        obtain ⟨-, hdown⟩ := hvacant.taken hself rfl hunbinds.active
        rw [Controller.slot_after_self] at hdown
        rcases hst with hst | hst <;> rw [hst] at hdown <;> simp [ServiceState.isDown] at hdown
  · rcases turn.state_cases with hs | ⟨-, -, hs⟩ | ⟨-, -, hs⟩ | ⟨-, -, hs⟩
    · exact hs
    all_goals rw [hs] at hst; simp at hst

/-- The turn of a stop job of the service. -/
theorem Agrees.stop_turn {job : StopJob t.size} {phase : StopPhase}
    {rest : List (Client × Store.Result)} (h : Agrees c table owed job.service)
    (hj : c.jobs[id]? = some (.stop job))
    (turn : StopTurn c now id job action phase slot effects) (hrest : Leaves owed rest id action)
    (hvacant : (c.after id (.stop { job with phase }) job.service slot .nothing).Vacant job.service) :
    Agrees (c.after id (.stop { job with phase }) job.service slot .nothing)
      (tableAfter table (Job.stop { job with phase }).errand?)
      (owedAfter table rest id (Job.stop { job with phase }).errand?) job.service := by
  have hid := Controller.lt_size_of_job hj
  have hquiet := asks_nothing hj turn hvacant
  constructor
  case binding =>
    intro i k hi hks hgoes hst volume hv
    rw [Controller.slot_after_self] at hst
    obtain ⟨hnone, hsame⟩ := hquiet (.inl hst)
    rw [hnone]
    exact h.binding (Controller.start_of_after hid (by simp) hi) hks hgoes (hsame ▸ hst) volume hv
  case granted =>
    intro i k volume left answer hi hks hp hm hst hv
    rw [Controller.slot_after_self] at hst
    obtain ⟨hnone, hsame⟩ := hquiet (.inl hst)
    rw [hnone] at hm ⊢
    exact h.granted (Controller.start_of_after hid (by simp) hi) hks hp (hrest.sub.subset hm)
      (hsame ▸ hst) hv
  case unbinding =>
    intro i k hi hks hu volume hv
    rcases Controller.stop_after_cases hid hi with ⟨-, he⟩ | ⟨-, hi⟩
    · obtain rfl := Job.stop.inj he
      refine not_held_stop_cases ?_
      rcases turn.unbinds_cases hu with hall | ⟨hwas, htail⟩
      · exact .inl (hall ▸ hv)
      · exact htail ▸ h.unbinding hj rfl hwas volume hv
    · exact (h.unbinding hi hks hu volume hv).imp_right not_held_stop
  case ready =>
    intro hst volume hv
    rw [Controller.slot_after_self] at hst
    obtain ⟨hnone, hsame⟩ := hquiet (.inr hst)
    rw [hnone]
    exact h.ready (hsame ▸ hst) volume hv
  case idle =>
    intro hst volume hv
    rw [Controller.slot_after_self] at hst
    refine not_held_stop ?_
    rcases turn.state_cases with hs | ⟨-, hs, -⟩ | ⟨-, -, hs⟩ | ⟨hp, -, -⟩
    · exact h.idle (hs ▸ hst) volume hv
    · exact h.idle (by rw [hs]; rfl) volume hv
    · rw [hs] at hst
      cases hst
    · refine (h.unbinding hj rfl (by rw [hp]; trivial) volume hv).resolve_left ?_
      rw [hp]
      exact List.not_mem_nil

/-! ### Other steps -/

/-- The turn of a job of another service. -/
theorem Agrees.other_turn (ht : t.Built) {old new : Job t.size}
    {rest : List (Client × Store.Result)} (h : Agrees c table owed s)
    (hj : c.jobs[id]? = some old) (turn : Turn c now id old action new slot aside effects)
    (hrest : Leaves owed rest id action)
    (hvolumes : (c.after id new old.service slot aside).KeepToVolumes) (hne : s ≠ old.service) :
    Agrees (c.after id new old.service slot aside) (tableAfter table new.errand?)
      (owedAfter table rest id new.errand?) s := by
  have hid := Controller.lt_size_of_job hj
  have hservice : new.service ≠ s := fun he => hne (he.symm.trans turn.service_eq)
  refine h.frame (fun volume hv => held_other ht hservice
    (hvolumes id new (Controller.jobs_after_self hid)) hv)
    (.inl (by rw [Controller.slot_after_of_ne hne])) ?_ ?_
  · intro i job hi hjs _
    rcases Controller.start_after_cases hid hi with ⟨-, rfl⟩ | ⟨hni, hi⟩
    · exact absurd hjs hservice
    · exact ⟨hi, fun result hm => hrest.sub.subset (mem_of_owedAfter hni hm)⟩
  · intro i job hi hjs _
    rcases Controller.stop_after_cases hid hi with ⟨-, rfl⟩ | ⟨-, hi⟩
    · exact absurd hjs hservice
    · exact hi

theorem Agrees.turn (ht : t.Built) {old new : Job t.size} {rest : List (Client × Store.Result)}
    (h : Agrees c table owed s) (hvolumes : c.KeepToVolumes) (hj : c.jobs[id]? = some old)
    (turn : Turn c now id old action new slot aside effects) (hrest : Leaves owed rest id action)
    (hvolumes' : (c.after id new old.service slot aside).KeepToVolumes)
    (hvacant : (c.after id new old.service slot aside).Vacant s) (hbehind : ¬ c.BindsBehind s)
    (hclear : ¬ (c.after id new old.service slot aside).StartsUnderStop s)
    (hsole : ¬ (c.after id new old.service slot aside).StartsOverlap s) :
    Agrees (c.after id new old.service slot aside) (tableAfter table new.errand?)
      (owedAfter table rest id new.errand?) s := by
  by_cases hs : s = old.service
  · subst hs
    cases turn with
    | start turn => exact h.start_turn ht hvolumes hj turn hrest hbehind hclear hsole
    | stop turn => exact h.stop_turn hj turn hrest hvacant
    | launch turn =>
        have hid := Controller.lt_size_of_job hj
        refine h.frame (fun _ _ => Iff.rfl) (.inl (by rw [Controller.slot_after_self]; rfl)) ?_ ?_
        · exact fun hi _ _ => ⟨Controller.start_of_after hid (by simp) hi,
            fun result hm => hrest.sub.subset hm⟩
        · exact fun hi _ _ => Controller.stop_of_after hid (by simp) hi
  · exact h.other_turn ht hj turn hrest hvolumes' hs

theorem Agrees.change (h : Agrees c table owed s)
    (change : Controller.CallChange now c operation d) : Agrees d table owed s := by
  refine h.frame (fun _ _ => Iff.rfl) ((change.sets.state_cases s).imp_right And.right) ?_ ?_
  · intro i job hi _ hgoes
    rcases change.sets.start_cases hi with hi | ⟨-, hp, -⟩
    · exact ⟨hi, fun _ hm => hm⟩
    · rw [hp] at hgoes
      exact hgoes.elim
  · intro i job hi _ hu
    exact (change.sets.stop_cases hi).resolve_right fun hf => hf.not_active hu.active

end Bringup.Simulation
