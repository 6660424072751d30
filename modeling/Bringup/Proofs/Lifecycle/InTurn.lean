import Bringup.Proofs.Lifecycle.Errands
import Bringup.Proofs.Lifecycle.Interrupts

/-!
# Calls made in turn

Starts, stops and restarts are made one after another, each when all calls before have answered, and a
cancel at any time while nothing but starts of all services and other cancels are under way
(`Moment.InTurn`). Then of two calls that have not answered neither stops anything (`Spaced`). A start job
that is not at its end has a call that waits for it, and so has a stop job; so no start job is under way
beside a stop job (`Apart`).

From this the rest follows step by step: one start job at most owns a service, and only while the service
cannot be started (`Tended`), and at every instant starts and stops of each service keep clear of each
other (`Run.keepsClear`).
-/

namespace Bringup.Lifecycle

variable {t : Topology} {n : Nat}

/-- Calls of the operation may be under way beside one another: they stop nothing. -/
def Operation.Shares : Operation → Prop
  | .startAll | .cancel => True
  | _ => False

/-- Calls of the operation are made of no others. -/
def Operation.Single : Operation → Prop
  | .startAll | .stopAll | .restart _ | .cancel => True
  | _ => False

/-- A call is made in its turn: a start, a stop or a restart once all calls before have answered, a cancel
while only starts of all services and cancels have not. Calls of other operations are not made. -/
def Moment.InTurn (m : Moment t) : Prop :=
  match m.action with
  | .invoke .startAll | .invoke .stopAll | .invoke (.restart _) =>
    ∀ call ∈ m.before.calls, call.answer?.isSome
  | .invoke .cancel => ∀ call ∈ m.before.calls, call.answer? = none → call.operation.Shares
  | .invoke _ => False
  | _ => True

/-- Nothing that is no call is out of turn. -/
theorem Moment.inTurn_of_not_invokes {m : Moment t} (h : ¬ m.Invokes) : m.InTurn := by
  unfold Moment.InTurn
  split <;> first | trivial | exact absurd ⟨_, ‹_›⟩ h

theorem CallPhase.answered_of_answer {call : Call t.size} (h : call.answer?.isSome) :
    call.phase.Answered := by
  obtain ⟨answer, time, hp⟩ := Controller.Call.phase_of_answer h
  rw [hp]
  trivial

/-! ## Who is under way at once -/

/-- No call is made of others, and of two calls that have not answered neither stops anything. -/
structure Spaced (l : List (Operation × CallPhase n)) : Prop where
  single : ∀ entry ∈ l, entry.1.Single
  shares : ∀ {k k' : Nat} {entry entry' : Operation × CallPhase n}, k ≠ k' → l[k]? = some entry →
    l[k']? = some entry' → ¬ entry.2.Answered → ¬ entry'.2.Answered → entry.1.Shares

namespace Spaced

variable {l : List (Operation × CallPhase n)} {operation : Operation} {p p' : CallPhase n}

/-- A call is made while none is under way that it cannot be beside. -/
theorem append (h : Spaced l) (hs : operation.Single)
    (hopen : (∀ entry ∈ l, entry.2.Answered) ∨
      operation.Shares ∧ ∀ entry ∈ l, ¬ entry.2.Answered → entry.1.Shares) :
    Spaced (l ++ [(operation, p)]) := by
  have hcases {k : Nat} {entry : Operation × CallPhase n}
      (hk : (l ++ [(operation, p)])[k]? = some entry) :
      l[k]? = some entry ∨ k = l.length ∧ entry = (operation, p) := by
    by_cases hlt : k < l.length
    · exact .inl (by rwa [List.getElem?_append_left hlt] at hk)
    · have hsize := (List.getElem?_eq_some_iff.1 hk).1
      rw [List.length_append, List.length_singleton] at hsize
      obtain rfl : k = l.length := by omega
      exact .inr ⟨rfl, by simpa using hk.symm⟩
  constructor
  · intro entry hm
    rcases List.mem_append.1 hm with hm | hm
    · exact h.single entry hm
    · rw [List.mem_singleton.1 hm]
      exact hs
  · intro k k' entry entry' hne hk hk' ha ha'
    rcases hcases hk with hk | ⟨rfl, rfl⟩
    · rcases hcases hk' with hk' | ⟨rfl, rfl⟩
      · exact h.shares hne hk hk' ha ha'
      · rcases hopen with hall | ⟨-, hshares⟩
        · exact absurd (hall entry (List.mem_of_getElem? hk)) ha
        · exact hshares entry (List.mem_of_getElem? hk) ha
    · rcases hcases hk' with hk' | ⟨rfl, rfl⟩
      · rcases hopen with hall | ⟨hshares, -⟩
        · exact absurd (hall entry' (List.mem_of_getElem? hk')) ha'
        · exact hshares
      · exact absurd rfl hne

/-- A call that has not answered moves on. -/
theorem set (h : Spaced l) {k : Nat} (hk : l[k]? = some (operation, p)) (hp : ¬ p.Answered) :
    Spaced (l.set k (operation, p')) := by
  -- Whoever has not answered afterwards had not answered before.
  have hbefore {i : Nat} {entry : Operation × CallPhase n}
      (hi : (l.set k (operation, p'))[i]? = some entry) (ha : ¬ entry.2.Answered) :
      ∃ phase, l[i]? = some (entry.1, phase) ∧ ¬ phase.Answered := by
    by_cases hik : i = k
    · subst hik
      obtain rfl : (operation, p') = entry := by
        simpa [List.getElem?_set_self (List.getElem?_eq_some_iff.1 hk).1] using hi
      exact ⟨p, hk, hp⟩
    · rw [List.getElem?_set_ne (Ne.symm hik)] at hi
      exact ⟨entry.2, hi, ha⟩
  constructor
  · intro entry hm
    rcases List.mem_or_eq_of_mem_set hm with hm | rfl
    · exact h.single entry hm
    · exact h.single (operation, p) (List.mem_of_getElem? hk)
  · intro i i' entry entry' hne hi hi' ha ha'
    obtain ⟨phase, hi, ha⟩ := hbefore hi ha
    obtain ⟨phase', hi', ha'⟩ := hbefore hi' ha'
    have hs : (entry.1, phase).1.Shares := h.shares hne hi hi' ha ha'
    exact hs

end Spaced

namespace Controller

variable {c c' d : Controller t} {now : Nat} {id : JobId} {action : Action} {effects : List Effect}
  {operation : Operation} {s : Fin t.size} {k : CallId} {call : Call t.size}

theorem standing_restart (c : Controller t) (now : Nat) (service : ServiceId) :
    ∃ phase, (c.restart now service).1.standing = c.standing ++ [(.restart service, phase)] := by
  unfold Controller.restart
  split <;> exact ⟨_, standing_openCall _ _ _⟩

/-- A call of a single operation opens one call. -/
theorem standing_invoke (ht : t.Built) (hs : operation.Single) :
    ∃ phase, (c.invoke now operation).1.standing = c.standing ++ [(operation, phase)] := by
  cases operation with
  | startAll => exact ⟨_, (standing_startAll ht).1⟩
  | stopAll => exact ⟨_, (standing_stopAll ht).1⟩
  | restart service => exact standing_restart c now service
  | cancel => exact ⟨_, (standing_cancel c).1⟩
  | status | shutDown | upUntil => exact hs.elim

/-- A call of a single operation is not made of others. -/
theorem not_makesOthers (hs : call.operation.Single) (hfit : call.operation.Allows call.phase) :
    ¬ call.phase.MakesOthers := by
  intro hm
  revert hs hfit hm
  cases call.operation <;> cases call.phase <;>
    simp [Operation.Single, Operation.Allows, CallPhase.MakesOthers]

theorem mem_standing {entry : Operation × CallPhase t.size} (h : entry ∈ c.standing) :
    ∃ call ∈ c.calls, entry = (call.operation, call.phase) := by
  obtain ⟨call, hm, rfl⟩ := List.mem_map.1 h
  exact ⟨call, Array.mem_toList_iff.1 hm, rfl⟩

theorem not_answer_of_open {entry : Operation × CallPhase t.size}
    (he : entry = (call.operation, call.phase)) (h : ¬ entry.2.Answered) : call.answer? = none := by
  subst he
  rw [Option.eq_none_iff_forall_ne_some]
  exact fun answer ha => h (CallPhase.answered_of_answer (by rw [ha]; rfl))

/-- **Calls that are made in turn** stay spaced. -/
theorem spaced_step (ht : t.Built) (h : Spaced c.standing) (hfits : c.Fits)
    (hs : c.step now action = some (c', effects))
    (hturn : Moment.InTurn ⟨c, now, action, effects, c'⟩) : Spaced c'.standing := by
  cases action with
  | invoke operation =>
      obtain ⟨rfl, -⟩ := by simpa [step] using hs
      have hall (ho : operation.Single) (hanswered : ∀ call ∈ c.calls, call.answer?.isSome) :
          Spaced (c.invoke now operation).1.standing := by
        obtain ⟨phase, he⟩ : ∃ phase,
          (c.invoke now operation).1.standing = c.standing ++ [(operation, phase)] := standing_invoke ht ho
        rw [he]
        refine h.append ho (.inl fun entry hm => ?_)
        obtain ⟨call, hcall, rfl⟩ := mem_standing hm
        exact CallPhase.answered_of_answer (hanswered call hcall)
      cases operation with
      | startAll | stopAll | restart => exact hall trivial hturn
      | cancel =>
          rw [show (c.invoke now .cancel).1.standing = _ from (standing_cancel c).1]
          refine h.append trivial (.inr ⟨trivial, fun entry hm ho => ?_⟩)
          obtain ⟨call, hcall, rfl⟩ := mem_standing hm
          exact hturn call hcall (not_answer_of_open rfl ho)
      | status | shutDown | upUntil => exact hturn.elim
  | proceed k =>
      obtain ⟨call, hk, hs⟩ := Option.bind_eq_some_iff.1 hs
      have hentry := standing_of_call hk
      obtain ⟨hopen, phase, he⟩ := standing_moves_on hk
        (not_makesOthers (h.single _ (List.mem_of_getElem? hentry)) (hfits k call hk)) hs
      rw [he]
      exact h.set hentry hopen
  | interrupt k =>
      obtain ⟨call, hk, hs⟩ := Option.bind_eq_some_iff.1 hs
      have hsingle := h.single _ (List.mem_of_getElem? (standing_of_call hk))
      have hmakes := not_makesOthers hsingle (hfits k call hk)
      unfold interrupt at hs
      split at hs
      next hp => exact absurd (by rw [hp]; trivial) hmakes
      next hp => exact absurd (by rw [hp]; trivial) hmakes
      next => cases hs
  | run id | heed id | timeout id | answer id reply =>
      obtain ⟨old, new, slot, aside, -, -, rfl⟩ :=
        turnsTo_of_step (rfl : Action.job? _ = some id) hs
      rwa [standing_congr calls_after]

theorem spaced_fresh (config : Config) : Spaced (fresh t config).standing where
  single := by simp [fresh, standing]
  shares _ h := by simp [fresh, standing] at h

/-! ## No start beside a stop -/

/-- No start job is under way beside a stop job. -/
def Apart (c : Controller t) : Prop :=
  ∀ {i j : JobId} {job : StartJob t.size} {stop : StopJob t.size},
    c.jobs[i]? = some (.start job) → c.jobs[j]? = some (.stop stop) →
      job.phase = .finished ∨ stop.phase = .finished

/-- A call that waits for a start job starts all services, or it is a restart that has come to its
start. -/
theorem operation_of_awaits (hfits : c.Fits) (hjobs : c.JobsFit) (hk : c.calls[k]? = some call)
    {job : StartJob t.size} (hj : c.jobs[id]? = some (.start job)) (ha : call.Awaits id) :
    (call.operation = .startAll ∧ call.phase = .joining) ∨ ∃ s, call.phase = .starting s id := by
  refine ha.imp_left fun ⟨hp, hid⟩ => ⟨?_, hp⟩
  have hfit := hfits k call hk
  rw [hp] at hfit
  obtain ⟨job', hj', -, hkind⟩ := hjobs k call hk id hid
  obtain rfl : Job.start job = job' := Option.some.inj (hj.symm.trans hj')
  cases ho : call.operation with
  | startAll => rfl
  | stopAll => cases hkind ho
  | _ => rw [ho] at hfit; exact hfit.elim

/-- A call that waits for a stop job stops all services, or it is a restart that has come to its stop;
none such is beside another call. -/
theorem operation_of_watches (hfits : c.Fits) (hjobs : c.JobsFit) (hk : c.calls[k]? = some call)
    {stop : StopJob t.size} (hj : c.jobs[id]? = some (.stop stop)) (ha : WatchesStop call id) :
    ¬ call.operation.Shares ∧
      ((call.operation = .stopAll ∧ call.phase = .joining) ∨ ∃ s, call.phase = .stopping s id) := by
  have hfit := hfits k call hk
  rcases ha with ⟨hp, hid⟩ | ⟨s, hp⟩
  · rw [hp] at hfit
    obtain ⟨job', hj', hkind, -⟩ := hjobs k call hk id hid
    obtain rfl : Job.stop stop = job' := Option.some.inj (hj.symm.trans hj')
    cases ho : call.operation with
    | stopAll => exact ⟨not_false, .inl ⟨rfl, hp⟩⟩
    | startAll => cases hkind ho
    | _ => rw [ho] at hfit; exact hfit.elim
  · rw [hp] at hfit
    obtain ⟨service, ho⟩ := Operation.allows_stopping hfit
    exact ⟨by rw [ho]; exact not_false, .inr ⟨s, hp⟩⟩

/-- **Where calls are spaced** no start job is under way beside a stop job: the calls that wait for them
would be under way at once. -/
theorem apart_of_spaced (h : Spaced c.standing) (hfits : c.Fits) (hjobs : c.JobsFit)
    {instants : List (Controller t)} (hordered : Ordered instants c) (hwatched : c.StopsWatched) :
    c.Apart := by
  intro i j job stop hi hj
  by_contra hn
  obtain ⟨hstart, hstop⟩ := not_or.1 hn
  obtain ⟨k, call, hk, ha⟩ := hordered.awaited hi hstart
  obtain ⟨k', call', hk', hw⟩ := hwatched j stop hj hstop
  have hstarts := operation_of_awaits hfits hjobs hk hi ha
  obtain ⟨hshares, hstops⟩ := operation_of_watches hfits hjobs hk' hj hw
  by_cases hkk : k = k'
  · subst hkk
    obtain rfl : call = call' := Option.some.inj (hk.symm.trans hk')
    rcases hstarts with ⟨ho, hp⟩ | ⟨s, hp⟩ <;> rcases hstops with ⟨ho', hp'⟩ | ⟨s', hp'⟩
    · rw [ho] at ho'
      cases ho'
    all_goals
      rw [hp] at hp'
      cases hp'
  · refine hshares (h.shares (Ne.symm hkk) (standing_of_call hk') (standing_of_call hk) ?_ ?_)
    · rcases hstops with ⟨-, hp⟩ | ⟨s, hp⟩ <;> rw [hp] <;> exact not_false
    · rcases hstarts with ⟨-, hp⟩ | ⟨s, hp⟩ <;> rw [hp] <;> exact not_false

/-- **In every run of calls made in turn** no start job is under way beside a stop job. -/
theorem Run.spaced {config : Config} {past : List (Moment t)} (ht : t.Built)
    (run : Run (fresh t config) past c) (hturn : ∀ m ∈ past, m.InTurn) :
    Spaced c.standing ∧ c.Fits := by
  induction run with
  | refl => exact ⟨spaced_fresh config, fits_fresh config⟩
  | tail _ hs ih =>
      obtain ⟨hspaced, hfits⟩ := ih fun m hm => hturn m (List.mem_cons_of_mem _ hm)
      exact ⟨spaced_step ht hspaced hfits hs (hturn _ List.mem_cons_self), hfits.step hs⟩

theorem Run.apart {config : Config} {past : List (Moment t)} (ht : t.Built)
    (run : Run (fresh t config) past c) (hturn : ∀ m ∈ past, m.InTurn) : c.Apart := by
  obtain ⟨hspaced, hfits⟩ := run.spaced ht hturn
  exact apart_of_spaced hspaced hfits run.jobsFit run.ordered run.stopsWatched

/-! ## Who owns a service -/

/-- One start job at most owns the service, and none while it can be started. -/
structure Tended (c : Controller t) (s : Fin t.size) : Prop where
  owner : ∀ {id : Nat} {job : StartJob t.size}, c.jobs[id]? = some (.start job) →
    job.service = s → job.phase.Owns → ¬ (c.slot s).state.isStartable
  sole : ∀ {id id' : Nat} {job job' : StartJob t.size}, c.jobs[id]? = some (.start job) →
    c.jobs[id']? = some (.start job') → job.service = s → job'.service = s → job.phase.Owns →
    job'.phase.Owns → id = id'

theorem tended_fresh (config : Config) (s : Fin t.size) : Tended (fresh t config) s where
  owner h := by simp [fresh] at h
  sole h := by simp [fresh] at h

/-- The invariant survives what sets no start job to own the service and does not make it startable. -/
theorem Tended.frame (h : Tended c s)
    (hstart : ∀ {i : Nat} {job : StartJob t.size}, c'.jobs[i]? = some (.start job) →
      job.service = s → job.phase.Owns →
        ∃ before : StartJob t.size, c.jobs[i]? = some (.start before) ∧ before.service = s ∧
          before.phase.Owns)
    (hstate : (c'.slot s).state.isStartable → (c.slot s).state.isStartable ∨
      ∀ {i : Nat} {job : StartJob t.size}, c'.jobs[i]? = some (.start job) → job.service = s →
        ¬ job.phase.Owns) : Tended c' s where
  owner hj hs ho he := by
    rcases hstate he with he | hnone
    · obtain ⟨before, hb, hs', ho'⟩ := hstart hj hs ho
      exact h.owner hb hs' ho' he
    · exact hnone hj hs ho
  sole hj hj' hs hs' ho ho' := by
    obtain ⟨before, hb, hsb, hob⟩ := hstart hj hs ho
    obtain ⟨before', hb', hsb', hob'⟩ := hstart hj' hs' ho'
    exact h.sole hb hb' hsb hsb' hob hob'

theorem Tended.start_turn {job job' : StartJob t.size} {slot : Slot} {aside : Aside}
    (h : Tended c job.service) (hj : c.jobs[id]? = some (.start job))
    (turn : StartTurn c now id job action job' slot aside effects) :
    Tended (c.after id (.start job') job.service slot aside) job.service := by
  have hid := lt_size_of_job hj
  -- Of those that own the service afterwards all but the job itself owned it before.
  have hothers {i : Nat} {k : StartJob t.size}
      (hi : (c.after id (.start job') job.service slot aside).jobs[i]? = some (.start k))
      (ho : k.phase.Owns) : (i = id ∧ job' = k) ∨ c.jobs[i]? = some (.start k) :=
    (start_after_start_cases hid hi).imp_right And.right
  rcases turn.owns_cases with
    ⟨-, hst, ho, -, hst', -⟩ | ⟨ho, ho', -, hst, -⟩ | hends | ⟨ho, hst, ho', rfl⟩ | ⟨-, ho', -, hst, -⟩
  · have hsole {i : Nat} {k : StartJob t.size}
        (hi : (c.after id (.start job') job.service slot aside).jobs[i]? = some (.start k))
        (hks : k.service = job.service) (hk : k.phase.Owns) : i = id := by
      rcases hothers hi hk with ⟨he, -⟩ | hi
      · exact he
      · exact absurd hst (h.owner hi hks hk)
    refine ⟨fun _ _ _ => ?_, fun hi hi' hs hs' hk hk' =>
      (hsole hi hs hk).trans (hsole hi' hs' hk').symm⟩
    rw [slot_after_self, hst']
    decide
  · refine h.frame (fun hi hs hk => ?_) fun he => .inl ?_
    · rcases hothers hi hk with ⟨rfl, rfl⟩ | hi
      · exact ⟨job, hj, rfl, ho⟩
      · exact ⟨_, hi, hs, hk⟩
    · rwa [slot_after_self, hst] at he
  · obtain ⟨verdict, hp, ho', -, -, hst⟩ := hends
    have ho : job.phase.Owns := by rw [hp]; trivial
    have hnobody {i : Nat} {k : StartJob t.size}
        (hi : (c.after id (.start job') job.service slot aside).jobs[i]? = some (.start k))
        (hks : k.service = job.service) : ¬ k.phase.Owns := by
      intro hk
      rcases start_after_start_cases hid hi with ⟨-, rfl⟩ | ⟨hne, hi⟩
      · exact ho' hk
      · exact hne (h.sole hi hj hks rfl hk ho)
    exact h.frame (fun hi hs hk => absurd hk (hnobody hi hs)) fun _ => .inr hnobody
  · refine h.frame (fun hi hs hk => ?_) fun he => .inl ?_
    · rcases hothers hi hk with ⟨-, rfl⟩ | hi
      · exact absurd hk ho'
      · exact ⟨_, hi, hs, hk⟩
    · rwa [slot_after_self] at he
  · refine h.frame (fun hi hs hk => ?_) fun he => .inl ?_
    · rcases hothers hi hk with ⟨-, rfl⟩ | hi
      · exact absurd hk ho'
      · exact ⟨_, hi, hs, hk⟩
    · rwa [slot_after_self, hst] at he

theorem Tended.turn (h : Tended c s) (hapart : c.Apart) (ht : TurnsTo c now id action c' effects) :
    Tended c' s := by
  obtain ⟨old, new, slot, aside, hj, turn, rfl⟩ := ht
  have hid := lt_size_of_job hj
  by_cases hs : s = old.service
  · subst hs
    cases turn with
    | start turn => exact h.start_turn hj turn
    | stop turn =>
        -- The stop is under way, so no start is.
        have hnone {i : Nat} {k : StartJob t.size}
            (hi : c.jobs[i]? = some (.start k)) : ¬ k.phase.Owns := by
          intro ho
          rw [(hapart hi hj).resolve_right turn.phase_ne_finished] at ho
          exact ho
        exact h.frame (fun hi _ hk => absurd hk (hnone (start_of_after hid (by simp) hi)))
          fun _ => .inr fun hi _ => hnone (start_of_after hid (by simp) hi)
    | launch turn =>
        refine h.frame (fun hi hs hk => ⟨_, start_of_after hid (by simp) hi, hs, hk⟩) fun he => .inl ?_
        rwa [slot_after_self] at he
  · refine h.frame (fun {i k} hi hks hk => ?_) fun he => .inl ?_
    · rcases start_after_cases hid hi with ⟨-, he⟩ | ⟨-, hi⟩
      · have hold := turn.service_eq
        rw [he] at hold
        exact absurd (hks.symm.trans hold) hs
      · exact ⟨k, hi, hks, hk⟩
    · rwa [slot_after_of_ne hs] at he

theorem Tended.change (h : Tended c s) (change : CallChange now c operation d) : Tended d s := by
  refine h.frame (fun {i k} hi hs hk => ?_) fun he => .inl ?_
  · rcases change.sets.start_cases hi with hi | ⟨-, hp, -⟩
    · exact ⟨k, hi, hs, hk⟩
    · rw [hp] at hk
      exact hk.elim
  · rcases change.sets.state_cases s with hst | ⟨-, hst⟩
    · rwa [hst] at he
    · rw [hst] at he
      cases he

theorem Tended.step (h : Tended c s) (hapart : c.Apart)
    (hs : c.step now action = some (c', effects)) : Tended c' s :=
  step_induct hs (fun _ turn => h.turn hapart turn) Tended.change h

/-- A service does not come to start under a stop that is still at work. -/
theorem not_startsUnderStop_step (h : ¬ c.StartsUnderStop s) (hapart : c.Apart)
    (hs : c.step now action = some (c', effects)) : ¬ c'.StartsUnderStop s := by
  by_cases hb : (c.slot s).state = .starting
  · refine step_induct (P := fun c => ¬ c.StartsUnderStop s) hs ?_ ?_ h
    · rintro id ⟨old, new, slot, aside, hj, turn, rfl⟩ ⟨hst, i, stop, hi, hks, ha⟩
      rcases stop_after_cases (lt_size_of_job hj) hi with ⟨rfl, rfl⟩ | ⟨-, hi⟩
      · cases turn with
        | @stop job phase _ _ _ turn =>
            subst hks
            rw [Job.service_stop, slot_after_self] at hst
            rcases turn.at_work ha with ⟨hp, -⟩ | ⟨-, -, he, -⟩ | ⟨-, he, -⟩
            · exact h ⟨hb, i, job, hj, rfl, hp⟩
            · rw [hst] at he
              cases he
            · rw [hst] at he
              rcases he with he | he <;> cases he
      · exact h ⟨hb, i, stop, hi, hks, ha⟩
    · rintro c operation d hc change ⟨hst, i, stop, hi, hks, ha⟩
      rcases change.sets.state_cases s with he | ⟨he, he'⟩
      · rcases change.sets.stop_cases hi with hi | hfresh
        · exact hc ⟨he.symm.trans hst, i, stop, hi, hks, ha⟩
        · exact hfresh.not_active ha
      · rw [he'] at hst
        cases hst
  · rintro ⟨hst, i, stop, hi, -, ha⟩
    -- The start job that moves the service is under way beside the stop.
    obtain ⟨id, job, rfl, hj, -, hp, -⟩ := enters_of_step hs hb hst
    obtain ⟨old, new, slot, aside, hj', turn, rfl⟩ :=
      turnsTo_of_step (rfl : Action.job? _ = some id) hs
    obtain rfl : Job.start job = old := Option.some.inj (hj.symm.trans hj')
    cases turn with
    | start turn =>
        have hi := stop_of_after (lt_size_of_job hj) (by simp) hi
        rcases hapart hj hi with he | he
        · rw [hp] at he
          cases he
        · rw [he] at ha
          exact ha

/-- Starts and stops keep clear of each other where neither is under way beside the other. -/
theorem Tended.keepsClear (h : Tended c s) (hapart : c.Apart) (hunder : ¬ c.StartsUnderStop s) :
    c.KeepsClear s := by
  refine ⟨hunder, ?_, ?_⟩
  · rintro ⟨i, j, job, job', hne, hi, hj, hs, hs', ho, ho'⟩
    exact hne (h.sole hi hj hs hs' ho ho')
  · rintro ⟨i, job, hi, hs, volume, hv, hpassed⟩
    have ho : job.phase.Owns :=
      (StartPhase.goesOn_of_toBind (List.mem_of_mem_tail hv)).owns
    rcases hpassed with he | ⟨j, stop, hj, -, hu, -⟩
    · exact h.owner hi hs ho he
    · rcases hapart hi hj with hp | hp
      · rw [hp] at ho
        exact ho
      · rw [hp] at hu
        exact hu

/-- **In every run of calls made in turn** starts and stops of a service keep clear of each other, at every
instant. -/
theorem Run.keepsClear {config : Config} {past : List (Moment t)} (ht : t.Built)
    (run : Run (fresh t config) past c) (hturn : ∀ m ∈ past, m.InTurn) (s : Fin t.size) :
    ∀ p ∈ instants c past, p.KeepsClear s := by
  have hclear {past : List (Moment t)} {c : Controller t} (run : Run (fresh t config) past c)
      (hturn : ∀ m ∈ past, m.InTurn) : Tended c s ∧ ¬ c.StartsUnderStop s := by
    induction run with
    | refl =>
        refine ⟨tended_fresh config s, ?_⟩
        rintro ⟨hst, -⟩
        simp [fresh, Controller.slot] at hst
    | tail run hs ih =>
        have hearlier := fun m hm => hturn m (List.mem_cons_of_mem _ hm)
        obtain ⟨htended, hunder⟩ := ih hearlier
        have hapart : Apart _ := run.apart ht hearlier
        exact ⟨htended.step hapart hs, not_startsUnderStop_step hunder hapart hs⟩
  induction run with
  | refl =>
      intro p hp
      obtain rfl := List.mem_singleton.1 hp
      obtain ⟨htended, hunder⟩ := hclear .refl hturn
      exact htended.keepsClear (Run.apart ht .refl hturn) hunder
  | tail run hs ih =>
      intro p hp
      rcases List.mem_cons.1 hp with rfl | hp
      · obtain ⟨htended, hunder⟩ := hclear (run.tail hs) hturn
        exact htended.keepsClear (Run.apart ht (run.tail hs) hturn) hunder
      · exact ih (fun m hm => hturn m (List.mem_cons_of_mem _ hm)) p hp

end Controller

end Bringup.Lifecycle
