import Bringup.Proofs.Lifecycle.Waiting
import Bringup.Proofs.Simulation.Setting

/-!
# What is outstanding

At every instant of a run the engine works for just those jobs that wait for it, on the calls that they
wait for, and the store owes each job that waits for it one answer, and nobody else any (`Attends`). A
turn of a job asks for just what the job waits for afterwards (`Turn.asking`, `Turn.errand_cases`), and
what was outstanding for the job before is withdrawn or was the cause of the turn.

So as long as a job waits for an answer from outside, there is something that is going to answer it.
-/

namespace Bringup.Simulation

open Lifecycle

variable {t : Topology} {e : Engine}

/-! ## Others than the one whose turn it is -/

/-- The jobs wait for the same of engine and store. -/
structure Alike (job job' : Job t.size) : Prop where
  expects : ∀ call, job'.Expects call ↔ job.Expects call
  errand : job'.errand? = job.errand?

/-- The job waits neither for the engine nor for the store. -/
structure Idles (job : Job t.size) : Prop where
  expects : ∀ call, ¬ job.Expects call
  errand : job.errand? = none

section Turns

variable {c d : Controller t} {now : Nat} {id : JobId} {old new : Job t.size} {action : Action}
  {slot : Slot} {aside : Aside} {effects : List Effect} {i : Nat} {job : Job t.size}

/-- A launch that is taken waits for nothing any more, and did not before. -/
theorem alike_taken {l : Launch t.size} {result : Except Container.Error Container.Handle}
    (h : l.phase = .returned result) :
    Alike (.launch l) (.launch { l with phase := .finished } : Job t.size) where
  expects call := by
    refine iff_of_false not_false ?_
    rw [Job.Expects, h]
    exact not_false
  errand := rfl

/-- Only the launch that is taken or given up changes beside the job whose turn it is, and its waits
stay as they are. -/
theorem alike_of_launch (turn : Turn c now id old action new slot aside effects) {l : Launch t.size}
    (hl : c.jobs[i]? = some (.launch l)) {job : Job t.size}
    (h : aside = .takes i ∧ job = .launch { l with phase := .finished } ∨
      aside = .leaves i ∧ job = .launch { l with orphaned := true }) : Alike (.launch l) job := by
  rcases h with ⟨rfl, rfl⟩ | ⟨-, rfl⟩
  · cases turn with
    | start turn =>
        rcases turn.launch_cases with ⟨ha, -⟩ | ⟨ha, -⟩ | ⟨launch, l', result, ha, hl', hr, -⟩ |
          ⟨launch, ha, -⟩
        · cases ha
        · cases ha
        · obtain rfl := Aside.takes.inj ha
          obtain rfl : l = l' := Job.launch.inj (Option.some.inj (hl.symm.trans hl'))
          exact alike_taken hr
        · cases ha
  · exact ⟨fun _ => Iff.rfl, rfl⟩

/-- **Beside the job whose turn it is**, a job waits for what it waited for before, or it is a new
one. -/
theorem alike_before (hj : c.jobs[id]? = some old)
    (turn : Turn c now id old action new slot aside effects)
    (hi : (c.after id new old.service slot aside).jobs[i]? = some job) (hne : i ≠ id) :
    (∃ before, c.jobs[i]? = some before ∧ Alike before job) ∨ Idles job := by
  rcases Controller.jobs_after_cases (Controller.lt_size_of_job hj) hi with
    ⟨heq, -⟩ | ⟨-, hi⟩ | ⟨-, -, rfl⟩ | ⟨-, l, hl, h⟩
  · exact absurd heq hne
  · exact .inl ⟨job, hi, fun _ => Iff.rfl, rfl⟩
  · exact .inr ⟨fun _ => not_false, rfl⟩
  · exact .inl ⟨_, hl, alike_of_launch turn hl h⟩

/-- A job whose turn it is not stays, and waits for what it waited for before. -/
theorem alike_after (hj : c.jobs[id]? = some old)
    (turn : Turn c now id old action new slot aside effects) (hi : c.jobs[i]? = some job)
    (hne : i ≠ id) : ∃ later, (c.after id new old.service slot aside).jobs[i]? = some later ∧
      Alike job later := by
  have hlt : i < (c.after id new old.service slot aside).jobs.size :=
    Nat.lt_of_lt_of_le (Controller.lt_size_of_job hi) Controller.size_jobs_le_after
  have hlater := Array.getElem?_eq_getElem hlt
  refine ⟨_, hlater, ?_⟩
  rcases Controller.jobs_after_cases (Controller.lt_size_of_job hj) hlater with
    ⟨heq, -⟩ | ⟨-, hi'⟩ | ⟨-, heq, -⟩ | ⟨-, l, hl, h⟩
  · exact absurd heq hne
  · obtain rfl : job = _ := Option.some.inj (hi.symm.trans hi')
    exact ⟨fun _ => Iff.rfl, rfl⟩
  · exact absurd heq (Nat.ne_of_lt (Controller.lt_size_of_job hi))
  · obtain rfl : job = _ := Option.some.inj (hi.symm.trans hl)
    exact alike_of_launch turn hl h

/-- A change creates no job that waits for engine or store. -/
theorem idles_of_sets (h : Controller.Sets now c d) (hi : d.jobs[i]? = some job) :
    c.jobs[i]? = some job ∨ Idles job := by
  cases job with
  | start job =>
      refine (h.start_cases hi).imp_right fun ⟨_, hp, _⟩ => ?_
      obtain ⟨service, run, claimed, phase⟩ := job
      obtain rfl : phase = .arriving := hp
      exact ⟨fun _ => not_false, rfl⟩
  | stop job =>
      refine (h.stop_cases hi).imp_right fun hp => ?_
      obtain ⟨service, phase⟩ := job
      obtain rfl | ⟨_, rfl⟩ : phase = .taking ∨ ∃ jobs, phase = .awaiting jobs := hp
      all_goals exact ⟨fun _ => not_false, rfl⟩
  | launch l => exact .inl (h.launch_before hi)

end Turns

/-! ## What the controller shows -/

namespace Setting

variable {x : Setting e t} {c : Controller t} {effects : List Effect} {id : JobId}

@[simp] theorem others_others (id : JobId) :
    ({ x with ongoing := x.others id } : Setting e t).others id = x.others id := by
  simp [others]

theorem store_after (x : Setting e t) (c : Controller t) (effects : List Effect) :
    (x.after c effects).store = effects.foldl (Store.hear x.now) x.store := by
  have hfold (x : Setting e t) :
      (effects.foldl carry x).store = effects.foldl (Store.hear x.now) x.store := by
    induction effects generalizing x with
    | nil => rfl
    | cons effect rest ih =>
        rw [List.foldl_cons, List.foldl_cons, ih, now_carry]
        congr 1
        cases effect with
        | asks job request => cases request <;> rfl
        | _ => rfl
  exact hfold _

/-- A job that asks the engine has what it asked worked on, and nothing else. -/
theorem ongoing_after_asks (c : Controller t) {before : List Effect} {call : Container.Call}
    (hb : before = [] ∨ before = [.withdraws id]) :
    (x.after c (before ++ [.asks id (.container call)])).ongoing = x.others id ++
      [⟨id, x.now + (e.take x.engine x.now call).2.1, (e.take x.engine x.now call).2.2⟩] := by
  rcases hb with rfl | rfl
  · rfl
  · show ({ x with
      controller := c
      ongoing := x.others id } : Setting e t).others id ++ _ = _
    congr 1
    exact x.others_others id

/-- The engine goes on with the same where it is neither asked nor told to leave something. -/
theorem ongoing_after_leaves (x : Setting e t) (c : Controller t)
    (ha : ∀ asker call, .asks asker (.container call) ∉ effects)
    (hw : ∀ asker, .withdraws asker ∉ effects) :
    (x.after c effects).ongoing = x.ongoing ∧ (x.after c effects).engine = x.engine := by
  have hfold (x : Setting e t) : (effects.foldl carry x).ongoing = x.ongoing ∧
      (effects.foldl carry x).engine = x.engine := by
    induction effects generalizing x with
    | nil => exact ⟨rfl, rfl⟩
    | cons effect rest ih =>
        have hcarry : (x.carry effect).ongoing = x.ongoing ∧
            (x.carry effect).engine = x.engine := by
          cases effect with
          | asks job request =>
              cases request with
              | container call => exact absurd List.mem_cons_self (ha job call)
              | volume => exact ⟨rfl, rfl⟩
          | withdraws job => exact absurd List.mem_cons_self (hw job)
          | refusedMove => exact ⟨rfl, rfl⟩
        obtain ⟨hongoing, hengine⟩ := ih (fun asker call hm => ha asker call (.tail _ hm))
          (fun asker hm => hw asker (.tail _ hm)) (x.carry effect)
        exact ⟨hongoing.trans hcarry.1, hengine.trans hcarry.2⟩
  exact hfold _

end Setting

/-! ## The engine -/

/-- The engine works for just the jobs that wait for it, but for the one that is being answered. -/
structure Working (c : Controller t) (ongoing : List (Ongoing e.Work)) (answered : Option JobId) :
    Prop where
  engaged : ∀ {id : Nat} {job : Job t.size} {call : Container.Call}, some id ≠ answered →
    c.jobs[id]? = some job → job.Expects call → ∃ entry ∈ ongoing, entry.job = id
  works : ∀ entry ∈ ongoing, ∃ job call, c.jobs[entry.job]? = some job ∧ job.Expects call ∧
    e.Pends call entry.work

namespace Working

variable {x : Setting e t} {c d : Controller t} {now : Nat} {ongoing : List (Ongoing e.Work)}
  {answered : Option JobId} {id : Nat} {old new : Job t.size} {action : Action} {slot : Slot}
  {aside : Aside} {effects : List Effect}

/-- What others wait for than the job whose turn it is, the engine works on as before. -/
theorem others (h : Working c ongoing answered) (hj : c.jobs[id]? = some old)
    (turn : Turn c now id old action new slot aside effects)
    (hanswered : ∀ i, some i = answered → i = id) :
    (∀ {i : Nat} {job : Job t.size} {call : Container.Call}, i ≠ id →
      (c.after id new old.service slot aside).jobs[i]? = some job → job.Expects call →
        ∃ entry ∈ ongoing, entry.job = i) ∧
    ∀ entry ∈ ongoing, entry.job ≠ id → ∃ job call,
      (c.after id new old.service slot aside).jobs[entry.job]? = some job ∧ job.Expects call ∧
        e.Pends call entry.work := by
  constructor
  · intro i job call hne hi hexpects
    rcases alike_before hj turn hi hne with ⟨before, hb, halike⟩ | hidle
    · exact h.engaged (fun hi => hne (hanswered i hi)) hb ((halike.expects call).1 hexpects)
    · exact absurd hexpects (hidle.expects call)
  · intro entry hm hne
    obtain ⟨job, call, hi, hexpects, hpends⟩ := h.works entry hm
    obtain ⟨later, hl, halike⟩ := alike_after hj turn hi hne
    exact ⟨later, call, hl, (halike.expects call).2 hexpects, hpends⟩

/-- **The turn of a job** leaves the engine with just what the jobs wait for, if it does not work any
more on what the job was answered. -/
theorem turn (h : Working x.controller x.ongoing answered) (hj : x.controller.jobs[id]? = some old)
    (turn : Turn x.controller x.now id old action new slot aside effects)
    (hanswered : ∀ i, some i = answered → i = id)
    (hentry : ∀ reply, action = .answer id (.container reply) →
      ∀ entry ∈ x.ongoing, entry.job ≠ id) (d : Controller t) :
    Working (x.controller.after id new old.service slot aside) (x.after d effects).ongoing none := by
  have hself : (x.controller.after id new old.service slot aside).jobs[id]? = some new :=
    Controller.jobs_after_self (Controller.lt_size_of_job hj)
  obtain ⟨hbefore, hlater⟩ := h.others hj turn hanswered
  have hfiltered {entry : Ongoing e.Work} (hm : entry ∈ x.ongoing) (hne : entry.job ≠ id) :
      entry ∈ x.others id := List.mem_filter.2 ⟨hm, by simpa using hne⟩
  have hkept {entry : Ongoing e.Work} (hm : entry ∈ x.others id) :
      entry ∈ x.ongoing ∧ entry.job ≠ id := by
    simpa using List.mem_filter.1 hm
  cases turn.asking with
  | @asks call before hb he hn =>
      rw [he, Setting.ongoing_after_asks _ hb]
      refine ⟨fun {i job call'} _ hi hexpects => ?_, fun entry hm => ?_⟩
      · by_cases hne : i = id
        · exact ⟨_, List.mem_append_right _ (List.mem_singleton_self _), hne.symm⟩
        · obtain ⟨entry, hm, rfl⟩ := hbefore hne hi hexpects
          exact ⟨entry, List.mem_append_left _ (hfiltered hm hne), rfl⟩
      · rcases List.mem_append.1 hm with hm | hm
        · exact hlater entry (hkept hm).1 (hkept hm).2
        · obtain rfl := List.mem_singleton.1 hm
          exact ⟨new, call, hself, hn, .take _ _⟩
  | withdraws he hn =>
      have hongoing : (x.after d effects).ongoing = x.others id := by rw [he]; rfl
      rw [hongoing]
      refine ⟨fun {i job call} _ hi hexpects => ?_, fun entry hm => ?_⟩
      · by_cases hne : i = id
        · subst hne
          obtain rfl : new = job := Option.some.inj (hself.symm.trans hi)
          exact absurd hexpects (hn call)
        · obtain ⟨entry, hm, rfl⟩ := hbefore hne hi hexpects
          exact ⟨entry, hfiltered hm hne, rfl⟩
      · exact hlater entry (hkept hm).1 (hkept hm).2
  | leaves ha hw hn ho =>
      rw [(x.ongoing_after_leaves _ ha hw).1]
      refine ⟨fun {i job call} _ hi hexpects => ?_, fun entry hm => hlater entry hm ?_⟩
      · by_cases hne : i = id
        · subst hne
          obtain rfl : new = job := Option.some.inj (hself.symm.trans hi)
          exact absurd hexpects (hn call)
        · exact hbefore hne hi hexpects
      · rcases ho with ho | ⟨reply, hreply⟩
        · rintro rfl
          obtain ⟨job, call, hi, hexpects, -⟩ := h.works entry hm
          obtain rfl : old = job := Option.some.inj (hj.symm.trans hi)
          exact ho call hexpects
        · exact hentry reply hreply entry hm

/-- A change of the calls leaves the engine with what it works on. -/
theorem change {operation : Operation} (h : Working c ongoing none)
    (change : Controller.CallChange now c operation d) : Working d ongoing none where
  engaged hne hi hexpects := by
    rcases idles_of_sets change.sets hi with hi | hidle
    · exact h.engaged hne hi hexpects
    · exact absurd hexpects (hidle.expects _)
  works entry hm := by
    obtain ⟨job, call, hi, hexpects⟩ := h.works entry hm
    exact ⟨job, call, change.sets.jobs_kept hi, hexpects⟩

/-- The engine is done with what it did for a job. -/
theorem reply (h : Working x.controller x.ongoing none) (id : JobId) :
    Working x.controller (x.others id) (some id) where
  engaged hne hi hexpects := by
    obtain ⟨entry, hm, rfl⟩ := h.engaged (by simp) hi hexpects
    refine ⟨entry, List.mem_filter.2 ⟨hm, ?_⟩, rfl⟩
    simpa using hne
  works entry hm := h.works entry (List.mem_filter.1 hm).1

/-- The engine goes on with what it does for a job. -/
theorem work (h : Working x.controller x.ongoing none) {entry : Ongoing e.Work}
    (hm : entry ∈ x.ongoing) {engine : e.State} {millis : Nat} {work : e.Work}
    (he : e.resume x.engine entry.work = (engine, .wait millis work)) (due : Nat) :
    Working x.controller (x.others entry.job ++ [⟨entry.job, due, work⟩]) none where
  engaged {id job call} hne hi hexpects := by
    by_cases hid : id = entry.job
    · exact ⟨_, List.mem_append_right _ (List.mem_singleton_self _), hid.symm⟩
    · obtain ⟨other, ho, rfl⟩ := h.engaged hne hi hexpects
      exact ⟨other, List.mem_append_left _ (List.mem_filter.2 ⟨ho, by simpa using hid⟩), rfl⟩
  works other ho := by
    rcases List.mem_append.1 ho with ho | ho
    · exact h.works other (List.mem_filter.1 ho).1
    · obtain rfl := List.mem_singleton.1 ho
      obtain ⟨job, call, hi, hexpects, hpends⟩ := h.works entry hm
      exact ⟨job, call, hi, hexpects, hpends.wait he⟩

end Working

/-! ## The store -/

/-- The store owes an answer to just the jobs that wait for it, but for the one that is being
answered, and is going to give it. -/
structure Owing (c : Controller t) (store : Store) (answered : Option JobId) : Prop where
  attended : ∀ {id : Nat} {job : Job t.size} {request : Volume.Request}, some id ≠ answered →
    c.jobs[id]? = some job → job.errand? = some request → .job 0 id ∈ store.clients
  clients : ∀ client ∈ store.clients, ∃ (id : Nat) (job : Job t.size) (request : Volume.Request),
    client = .job 0 id ∧ c.jobs[id]? = some job ∧ job.errand? = some request
  /-- Nobody waits for two answers. -/
  sole : store.clients.Nodup
  serving : store.queue ≠ [] → ∃ delay, store.mode = .serving delay

namespace Owing

variable {c d : Controller t} {store : Store} {now : Nat} {answered : Option JobId} {id : Nat}
  {old new : Job t.size} {action : Action} {slot : Slot} {aside : Aside} {effects : List Effect}

/-- A store that is asked keeps no request that it is not going to serve. -/
theorem serving_request {client : Client} {request : Volume.Request}
    (h : store.queue ≠ [] → ∃ delay, store.mode = .serving delay)
    (hq : (store.request now client request).queue ≠ []) :
    ∃ delay, (store.request now client request).mode = .serving delay := by
  unfold Store.request at hq ⊢
  split at hq
  next => exact h hq
  next => exact h hq
  next delay hm => exact ⟨delay, hm⟩

/-- **The turn of a job** leaves the store with just what the jobs wait for, if it does not owe the job
an answer any more. -/
theorem turn (h : Owing c store answered) (hj : c.jobs[id]? = some old)
    (turn : Turn c now id old action new slot aside effects)
    (hanswered : ∀ i, some i = answered → i = id) (hclient : .job 0 id ∉ store.clients) :
    Owing (c.after id new old.service slot aside) (effects.foldl (Store.hear now) store) none := by
  have hself : (c.after id new old.service slot aside).jobs[id]? = some new :=
    Controller.jobs_after_self (Controller.lt_size_of_job hj)
  have hattended {i : Nat} {job : Job t.size} {request : Volume.Request} (hne : i ≠ id)
      (hi : (c.after id new old.service slot aside).jobs[i]? = some job)
      (hr : job.errand? = some request) : .job 0 i ∈ store.clients := by
    rcases alike_before hj turn hi hne with ⟨before, hb, halike⟩ | hidle
    · exact h.attended (fun hi => hne (hanswered i hi)) hb (halike.errand ▸ hr)
    · rw [hidle.errand] at hr
      cases hr
  have hclients : ∀ client ∈ store.clients, ∃ (i : Nat) (job : Job t.size)
      (request : Volume.Request), client = .job 0 i ∧
        (c.after id new old.service slot aside).jobs[i]? = some job ∧
        job.errand? = some request := by
    intro client hm
    obtain ⟨i, job, request, rfl, hi, hr⟩ := h.clients client hm
    have hne : i ≠ id := fun hne => hclient (hne ▸ hm)
    obtain ⟨later, hl, halike⟩ := alike_after hj turn hi hne
    exact ⟨i, later, request, rfl, hl, halike.errand.trans hr⟩
  rcases turn.errand_cases with ⟨request, hn, rfl⟩ | ⟨hn, hnone⟩
  · have hperm : (store.request now (.job 0 id) request).clients.Perm _ := Store.clients_request request
    refine ⟨?_, ?_, hperm.nodup_iff.2 (List.nodup_cons.2 ⟨hclient, h.sole⟩),
      serving_request h.serving⟩
    · intro i job request' _ hi hr
      refine hperm.mem_iff.2 ?_
      by_cases hne : i = id
      · exact hne ▸ List.mem_cons_self
      · exact List.mem_cons_of_mem _ (hattended hne hi hr)
    · intro client hm
      rcases List.mem_cons.1 (hperm.mem_iff.1 hm) with rfl | hm
      · exact ⟨id, new, request, rfl, hself, hn⟩
      · exact hclients client hm
  · rw [Store.hear_unasked hnone]
    refine ⟨?_, hclients, h.sole, h.serving⟩
    intro i job request _ hi hr
    have hne : i ≠ id := by
      rintro rfl
      obtain rfl : new = job := Option.some.inj (hself.symm.trans hi)
      rw [hn] at hr
      cases hr
    exact hattended hne hi hr

/-- A change of the calls leaves the store with what it owes. -/
theorem change {operation : Operation} (h : Owing c store none)
    (change : Controller.CallChange now c operation d) : Owing d store none where
  attended hne hi hr := by
    rcases idles_of_sets change.sets hi with hi | hidle
    · exact h.attended hne hi hr
    · rw [hidle.errand] at hr
      cases hr
  clients client hm := by
    obtain ⟨id, job, request, rfl, hi, hr⟩ := h.clients client hm
    exact ⟨id, job, request, rfl, change.sets.jobs_kept hi, hr⟩
  sole := h.sole
  serving := h.serving

/-- The store serves the oldest request. -/
theorem serve (h : Owing c store none) {store' : Store} (hs : store.serve? now = some store') :
    Owing c store' none := by
  have hperm := Store.clients_serve hs
  obtain ⟨client, request, queue, hq, hq', -, -, hmode⟩ := Store.serve?_eq_some hs
  refine ⟨fun hne hi hr => hperm.mem_iff.2 (h.attended hne hi hr),
    fun client hm => h.clients client (hperm.mem_iff.1 hm), hperm.nodup_iff.2 h.sole, fun _ => ?_⟩
  rw [hmode]
  exact h.serving (by rw [hq]; simp)

/-- An answer of the store reaches a job, which waits for no other one. -/
theorem deliver (h : Owing c store none) {place : Nat} {result : Store.Result}
    (ha : store.answers[place]? = some (.job 0 id, result)) :
    Owing c { store with answers := store.answers.eraseIdx place } (some id) ∧
      .job 0 id ∉ { store with answers := store.answers.eraseIdx place }.clients := by
  have hperm := Store.clients_eraseIdx ha
  have hsole := List.nodup_cons.1 (hperm.nodup_iff.1 h.sole)
  refine ⟨⟨?_, ?_, hsole.2, h.serving⟩, hsole.1⟩
  · intro i job request hne hi hr
    rcases List.mem_cons.1 (hperm.mem_iff.1 (h.attended (by simp) hi hr)) with he | hm
    · exact absurd (congrArg some (Client.job.inj he).2) hne
    · exact hm
  · exact fun client hm => h.clients client (hperm.mem_iff.2 (List.mem_cons_of_mem _ hm))

/-- The store owes nothing to a job that takes a turn without an answer of it. -/
theorem not_client (h : Owing c store none) (hj : c.jobs[id]? = some old)
    (turn : Turn c now id old action new slot aside effects)
    (ha : ∀ result, action ≠ .answer id (.volume result)) : .job 0 id ∉ store.clients := by
  intro hm
  obtain ⟨i, job, request, he, hi, hr⟩ := h.clients _ hm
  obtain rfl : id = i := (Client.job.inj he).2
  obtain rfl : old = job := Option.some.inj (hj.symm.trans hi)
  obtain ⟨result, hanswer⟩ := turn.answers hr
  exact ha result hanswer

end Owing

/-! ## Engine and store -/

/-- Engine and store work on just what the jobs wait for. -/
structure Attends (x : Setting e t) : Prop where
  engine : Working x.controller x.ongoing none
  store : Owing x.controller x.store none

namespace Attends

variable {x y : Setting e t} {action : Action} {effects : List Effect} {c : Controller t}
  {event : Event} {moments : List (Moment t)}

/-- Nobody but jobs waits for the store. -/
theorem no_visitor (h : Attends x) : ∀ entry ∈ x.store.answers, entry.1 ≠ .visitor := by
  rintro ⟨client, result⟩ hm rfl
  obtain ⟨id, job, request, hclient, -⟩ := h.store.clients .visitor
    (List.mem_append_right _ (List.mem_map.2 ⟨_, hm, rfl⟩))
  cases hclient

/-- A step of the controller that is no answer. -/
theorem act (h : Attends x) (hs : x.controller.step x.now action = some (c, effects))
    (ha : ∀ id reply, action ≠ .answer id reply) : Attends (x.after c effects) := by
  cases hid : action.job? with
  | none =>
      obtain ⟨changes, rfl⟩ := Controller.changesTo_of_step hid hs
      exact changes.induct (P := fun c => Attends { x with controller := c })
        (fun h change => ⟨h.engine.change change, h.store.change change⟩) h
  | some id =>
      obtain ⟨old, new, slot, aside, hj, turn, rfl⟩ := Controller.turnsTo_of_step hid hs
      have hclient := h.store.not_client hj turn fun result => ha id _
      have hengine := h.engine.turn hj turn (by simp) (fun reply hr => absurd hr (ha id _))
        (x.controller.after id new old.service slot aside)
      have hstore := h.store.turn hj turn (by simp) hclient
      rw [← x.store_after] at hstore
      exact ⟨by rwa [Setting.controller_after], by rwa [Setting.controller_after]⟩

/-- The engine answers a job. -/
theorem reply (h : Attends x) {id : JobId} (engine : e.State) {reply : Container.Reply}
    (hs : x.controller.step x.now (.answer id (.container reply)) = some (c, effects)) :
    Attends ({ x with
      engine
      ongoing := x.others id }.after c effects) := by
  obtain ⟨old, new, slot, aside, hj, turn, rfl⟩ := Controller.turnsTo_of_step rfl hs
  have hclient := h.store.not_client hj turn (by simp)
  have hothers : Working x.controller (x.others id) (some id) := h.engine.reply id
  have hengine := Working.turn (x := { x with
    engine
    ongoing := x.others id }) hothers hj turn (by simp)
      (fun _ _ entry hm => by simpa using (List.mem_filter.1 hm).2)
      (x.controller.after id new old.service slot aside)
  have hstore := h.store.turn hj turn (by simp) hclient
  refine ⟨by rwa [Setting.controller_after], ?_⟩
  rw [Setting.controller_after, Setting.store_after]
  exact hstore

/-- An answer of the store reaches a job. -/
theorem deliver (h : Attends x) {place : Nat} {id : JobId} {result : Store.Result}
    (ha : x.store.answers[place]? = some (.job 0 id, result))
    (hs : x.controller.step x.now (.answer id (.volume result)) = some (c, effects)) :
    Attends ({ x with
      store := { x.store with answers := x.store.answers.eraseIdx place } }.after c effects) := by
  obtain ⟨hothers, hclient⟩ := h.store.deliver ha
  obtain ⟨old, new, slot, aside, hj, turn, rfl⟩ := Controller.turnsTo_of_step rfl hs
  have hengine := Working.turn (x := { x with
    store := { x.store with answers := x.store.answers.eraseIdx place } }) h.engine hj turn
      (by simp) (fun reply hr => by cases hr) (x.controller.after id new old.service slot aside)
  have hstore := hothers.turn hj turn (by simp) hclient
  refine ⟨by rwa [Setting.controller_after], ?_⟩
  rw [Setting.controller_after, Setting.store_after]
  exact hstore

/-- **Whatever happens, engine and store work on just what the jobs wait for.** -/
theorem moves (h : Attends x) (hm : Setting.Moves x event moments y) : Attends y := by
  cases hm with
  | act hs ha => exact h.act hs ha
  | @ring alarm _ _ _ _ _ hs =>
      have halarms : Attends { x with alarms := x.alarms.erase alarm } := ⟨h.engine, h.store⟩
      exact halarms.act hs (by simp)
  | reply hm _ _ hs => exact h.reply _ hs
  | work hm hd he =>
      obtain rfl := by simpa using List.find?_some hm
      exact ⟨h.engine.work (List.mem_of_find?_eq_some hm) he _, h.store⟩
  | serve hs => exact ⟨h.engine, h.store.serve hs⟩
  | deliver ha hs => exact h.deliver ha hs
  | hand ha =>
      -- No visitor waits for an answer.
      obtain ⟨i, job, request, he, -⟩ := h.store.clients _
        ((Store.clients_eraseIdx ha).mem_iff.2 List.mem_cons_self)
      cases he
  | pass => exact ⟨h.engine, h.store⟩

end Attends

end Bringup.Simulation
