import Bringup.Proofs.Lifecycle.SingleInstance

/-!
# Histories are courses of the state machine

The moves recorded with a service start at pending, each begins where the one before it ended, each is
allowed, and together they lead to the state the service is in (`Course`). A turn of a job and a change
of a call either leave the slot where it is or add one such move to it, at the time of the step; a step
is some of them one after another (`Slot.Moves`, `moves_of_step`). So histories grow by appending, and
their times are those of the steps.

Every move is made behind a guard that allows it, so none is ever refused (`no_refusal_of_step`).
-/

namespace Bringup.Lifecycle

variable {t : Topology}

/-- The moves lead from one state to the other: each starts where the one before it ended, and is
allowed. -/
def Course (source : ServiceState) : List Transition → ServiceState → Prop
  | [], target => source = target
  | move :: rest, target =>
    move.source = source ∧ source.canMoveTo move.target ∧ Course move.target rest target

theorem Course.append {a b : ServiceState} {moves : List Transition} (h : Course a moves b)
    {rest : List Transition} {d : ServiceState} (h' : Course b rest d) :
    Course a (moves ++ rest) d := by
  induction moves generalizing a with
  | nil => exact (show a = b from h) ▸ h'
  | cons move moves ih =>
      obtain ⟨hs, ha, hm⟩ := h
      exact ⟨hs, ha, ih hm⟩

/-- The moves tell the state to which they lead. -/
theorem Course.unique {a b d : ServiceState} {moves : List Transition} (h : Course a moves b)
    (h' : Course a moves d) : b = d := by
  induction moves generalizing a with
  | nil => exact (show a = b from h).symm.trans h'
  | cons move moves ih => exact ih h.2.2 h'.2.2

/-! ## What happens to a slot -/

namespace Slot

variable {now : Nat} {slot slot' slot'' : Slot} {target : ServiceState}

/-- Between the two some moves were made, all of them now, and added to the history. -/
def Moves (now : Nat) (slot slot' : Slot) : Prop :=
  ∃ moves, slot'.transitions = slot.transitions ++ moves ∧ Course slot.state moves slot'.state ∧
    ∀ move ∈ moves, move.time = now

theorem Moves.stay (hs : slot'.state = slot.state) (ht : slot'.transitions = slot.transitions) :
    slot.Moves now slot' :=
  ⟨[], by rw [ht, List.append_nil], hs.symm, by simp⟩

theorem Moves.single (h : slot.state.canMoveTo target) (hs : slot'.state = target)
    (ht : slot'.transitions = slot.transitions ++ [⟨slot.state, target, now⟩]) :
    slot.Moves now slot' :=
  ⟨_, ht, ⟨rfl, h, hs.symm⟩, by simp⟩

theorem Moves.trans (h : slot.Moves now slot') (h' : slot'.Moves now slot'') :
    slot.Moves now slot'' := by
  obtain ⟨moves, ht, hc, hn⟩ := h
  obtain ⟨moves', ht', hc', hn'⟩ := h'
  refine ⟨moves ++ moves', by rw [ht', ht, List.append_assoc], hc.append hc', ?_⟩
  intro move hm
  rcases List.mem_append.1 hm with hm | hm
  · exact hn move hm
  · exact hn' move hm

theorem Moves.leaveStarting (h : ServiceState.starting.canMoveTo target) (error : Option Error) :
    slot.Moves now (slot.leaveStarting now target error) := by
  unfold Slot.leaveStarting
  split
  next hs => exact .single (hs ▸ h) rfl rfl
  next => exact .stay rfl rfl

@[simp] theorem transitions_recordIfStartable (error : Error) :
    (slot.recordIfStartable error).transitions = slot.transitions := by
  unfold recordIfStartable
  split <;> rfl

end Slot

@[simp] theorem StartJob.transitions_unclaim {n : Nat} (job : StartJob n) (slot : Slot) :
    (job.unclaim slot).transitions = slot.transitions := by
  unfold unclaim
  split <;> rfl

theorem Verdict.allowed (verdict : Verdict) : ServiceState.starting.canMoveTo verdict.target := by
  cases verdict <;> rfl

variable {c c' : Controller t} {now : Nat} {id : JobId} {action : Action} {slot : Slot}
  {aside : Aside} {effects : List Effect} {s : Fin t.size}

/-- A start job makes at most one move, an allowed one. -/
theorem StartTurn.moves {job job' : StartJob t.size}
    (turn : StartTurn c now id job action job' slot aside effects) :
    (c.slot job.service).Moves now slot := by
  cases turn with
  | enter hp hc hs hv | enterBare hp hc hs hv =>
      exact .single (ServiceState.isStartable_iff.1 hs) rfl rfl
  | @conclude verdict hp =>
      have hmoves : (c.slot job.service).Moves now ((c.slot job.service).leaveStarting now
          verdict.target (verdict.error (t.id job.service))) := .leaveStarting verdict.allowed _
      exact hmoves.trans (.stay (by simp) (by simp))
  | _ => exact .stay (by simp) (by simp)

/-- A stop job makes at most one move, an allowed one. -/
theorem StopTurn.moves {job : StopJob t.size} {phase : StopPhase}
    (turn : StopTurn c now id job action phase slot effects) :
    (c.slot job.service).Moves now slot := by
  cases turn with
  | skip hp hs | retire hp hs => exact .single (by rw [hs]; rfl) rfl rfl
  | take hp hs => exact .single (by rcases hs with hs | hs <;> rw [hs] <;> rfl) rfl rfl
  | _ => exact .stay rfl rfl

namespace Controller

theorem Sets.moves (h : Sets now c c') (s : Fin t.size) : (c.slot s).Moves now (c'.slot s) := by
  cases h with
  | starts services jobs slots cancelled run => exact .stay (by rw [slots]) (by rw [slots])
  | stops stops fresh jobs slots cancelled run => exact .stay (by rw [slots]) (by rw [slots])
  | sweeps s' jobs slots cancelled run =>
      rw [slots]
      split
      next h => exact h ▸ .leaveStarting rfl _
      next => exact .stay rfl rfl

/-- **What a step adds to the history of a service**: allowed moves, made at the time of the step. -/
theorem moves_of_step (hs : c.step now action = some (c', effects)) (s : Fin t.size) :
    (c.slot s).Moves now (c'.slot s) := by
  refine step_induct (P := fun d => (c.slot s).Moves now (d.slot s)) hs (fun id hturn => ?_)
    (fun h change => h.trans (change.sets.moves s)) (.stay rfl rfl)
  obtain ⟨old, new, slot, aside, hj, turn, rfl⟩ := hturn
  by_cases hs : s = old.service
  · subst hs
    rw [slot_after_self]
    cases turn with
    | start turn => exact turn.moves
    | stop turn => exact turn.moves
    | launch => exact .stay rfl rfl
  · rw [slot_after_of_ne hs]
    exact .stay rfl rfl

end Controller

/-! ## No move is refused -/

/-- No turn attempts a move that is not allowed. -/
theorem Turn.no_refusal {old new : Job t.size}
    (turn : Turn c now id old action new slot aside effects) (service : ServiceId)
    (source target : ServiceState) : .refusedMove service source target ∉ effects := by
  intro h
  have hdetach (volumes : List Volume) :
      .refusedMove service source target ∉ Controller.askDetach id volumes := by
    cases volumes <;> simp [Controller.askDetach]
  have htaken (s : Fin t.size) (handle : Option Container.Handle) :
      .refusedMove service source target ∉ c.askTaken id s handle := by
    cases handle with
    | none => exact hdetach _
    | some => simp [Controller.askTaken, Controller.askStop]
  cases turn with
  | start turn =>
      cases turn <;> simp [Controller.askAttach, Controller.askStop, Controller.askKill] at h
  | stop turn =>
      cases turn with
      | take | takeLeft => exact htaken _ _ h
      | skip | halted | unbind => exact hdetach _ h
      | _ => simp [Controller.askKill] at h
  | launch turn => cases turn <;> simp [Controller.askStop, Controller.askKill] at h

namespace Controller

theorem no_refusal_of_step (hs : c.step now action = some (c', effects)) (service : ServiceId)
    (source target : ServiceState) : .refusedMove service source target ∉ effects := by
  cases hj : action.job? with
  | none =>
      rw [(changesTo_of_step hj hs).2]
      exact List.not_mem_nil
  | some id =>
      obtain ⟨old, new, slot, aside, -, turn, -⟩ := turnsTo_of_step hj hs
      exact turn.no_refusal service source target

/-! ## Runs -/

/-- At the end of a run the history of a service is a course from pending to where the service is. -/
theorem Run.course {config : Config} {past : List (Moment t)} (run : Run (fresh t config) past c)
    (s : Fin t.size) : Course .pending (c.slot s).transitions (c.slot s).state := by
  refine run.invariant (P := fun d => Course .pending (d.slot s).transitions (d.slot s).state) ?_
    fun h hs => ?_
  · simp [fresh, Controller.slot, Course]
  · obtain ⟨moves, ht, hc, -⟩ := moves_of_step hs s
    rw [ht]
    exact h.append hc

/-- Along a run histories only grow. -/
theorem Run.history_grows {start : Controller t} {past : List (Moment t)} (run : Run start past c)
    (s : Fin t.size) : ∀ p ∈ instants c past, (start.slot s).transitions <+: (p.slot s).transitions := by
  induction run with
  | refl =>
      intro p hp
      obtain rfl := List.mem_singleton.1 hp
      exact List.prefix_refl _
  | tail run hs ih =>
      intro p hp
      rcases List.mem_cons.1 hp with rfl | hp
      · obtain ⟨moves, ht, -⟩ := moves_of_step hs s
        exact (ih _ List.mem_cons_self).trans ⟨moves, ht.symm⟩
      · exact ih p hp

theorem Run.history_extends {start : Controller t} {past later earlier : List (Moment t)}
    {m : Moment t} (run : Run start past c) (hpast : past = later ++ m :: earlier)
    {p : Controller t} (hp : p ∈ instants c later) (s : Fin t.size) :
    (m.before.slot s).transitions <+: (p.slot s).transitions := by
  have hstep := run.step_of_mem (hpast ▸ List.mem_append_right _ List.mem_cons_self)
  obtain ⟨moves, ht, -⟩ := moves_of_step hstep s
  exact .trans ⟨moves, ht.symm⟩ ((run.split hpast).2.history_grows s p hp)

/-- Every move was made at the time of some step. -/
theorem Run.timed {config : Config} {past : List (Moment t)} (run : Run (fresh t config) past c)
    (s : Fin t.size) : ∀ move ∈ (c.slot s).transitions, ∃ m ∈ past, move.time = m.now := by
  induction run with
  | refl => simp [fresh, Controller.slot]
  | tail run hs ih =>
      obtain ⟨moves, ht, -, hn⟩ := moves_of_step hs s
      intro move hm
      rw [ht] at hm
      rcases List.mem_append.1 hm with hm | hm
      · obtain ⟨m, hmem, he⟩ := ih move hm
        exact ⟨m, List.mem_cons_of_mem _ hmem, he⟩
      · exact ⟨_, List.mem_cons_self, hn move hm⟩

/-- Under a clock that never goes back, the times of a history never decrease. -/
theorem Run.times_ordered {config : Config} {past : List (Moment t)}
    (run : Run (fresh t config) past c)
    (clock : past.Pairwise fun later earlier => earlier.now ≤ later.now) (s : Fin t.size) :
    (c.slot s).transitions.Pairwise fun move next => move.time ≤ next.time := by
  induction run with
  | refl => simp [fresh, Controller.slot]
  | tail run hs ih =>
      obtain ⟨hlast, hbefore⟩ := List.pairwise_cons.1 clock
      obtain ⟨moves, ht, -, hn⟩ := moves_of_step hs s
      rw [ht, List.pairwise_append]
      refine ⟨ih hbefore, List.pairwise_of_forall_mem_list fun move hm next hm' => ?_,
        fun move hm next hm' => ?_⟩
      · exact Nat.le_of_eq ((hn move hm).trans (hn next hm').symm)
      · obtain ⟨m, hmem, he⟩ := run.timed s move hm
        rw [he, hn next hm']
        exact hlast m hmem

/-- **Histories are legal runs of the state machine.** At every instant of every run the moves recorded
with a service lead from pending to the state it is in, each allowed and from where the one before it
led, and this state is what those see who wait for the service. From one instant to a later one the
history only grows by appending, and no step ever attempts a move that is not allowed. If the clock
never goes back, the times of the moves never decrease. -/
theorem Run.histories {config : Config} {past : List (Moment t)}
    (run : Run (fresh t config) past c) :
    (∀ p ∈ instants c past, ∀ s, Course .pending (p.slot s).transitions (p.slot s).state ∧
      (p.slot s).progress.state = (p.slot s).state) ∧
    (∀ (later : List (Moment t)) (m : Moment t) (earlier : List (Moment t)),
      past = later ++ m :: earlier → ∀ p ∈ instants c later, ∀ s,
        (m.before.slot s).transitions <+: (p.slot s).transitions) ∧
    (∀ m ∈ past, ∀ service source target, .refusedMove service source target ∉ m.effects) ∧
    ((past.Pairwise fun later earlier => earlier.now ≤ later.now) → ∀ p ∈ instants c past, ∀ s,
      (p.slot s).transitions.Pairwise fun move next => move.time ≤ next.time) := by
  refine ⟨fun p hp s => ?_, fun later m earlier hpast p hp s => run.history_extends hpast hp s,
    fun m hm => no_refusal_of_step (run.step_of_mem hm), fun clock p hp s => ?_⟩
  · -- What is watched is what a move has published.
    obtain ⟨before, hrun⟩ := run.upTo hp
    exact ⟨hrun.course s, hrun.published s⟩
  · have hend := run.times_ordered clock s
    rcases List.mem_cons.1 hp with rfl | hp
    · exact hend
    -- What is recorded at an earlier instant is where the history begins that is there at the end.
    · obtain ⟨m, hm, rfl⟩ := List.mem_map.1 hp
      obtain ⟨later, earlier, hpast⟩ := List.append_of_mem hm
      exact hend.sublist (run.history_extends hpast List.mem_cons_self s).sublist

/-- The theorem where the database is started, stopped and started again. -/
theorem histories_again :
    ∃ (past : List (Moment solo)) (c : Controller solo), Run (fresh solo {}) past c ∧
      (past.Pairwise fun later earlier => earlier.now ≤ later.now) ∧
      (c.slot only).transitions.map Transition.target
        = [.starting, .ready, .stopping, .stopped, .starting] ∧
      Course .pending (c.slot only).transitions .starting ∧
      (c.slot only).transitions.Pairwise fun move next => move.time ≤ next.time := by
  obtain ⟨past, c, run, shown⟩ := exists_run (fresh solo {}) againSteps
    (fun past c => past.Pairwise (fun later earlier : Moment solo => earlier.now ≤ later.now) &&
      (c.slot only).transitions.map Transition.target
        = [.starting, .ready, .stopping, .stopped, .starting] &&
      (c.slot only).state = .starting)
    (by decide +kernel)
  simp only [Bool.and_eq_true, decide_eq_true_iff] at shown
  obtain ⟨⟨clock, moved⟩, starting⟩ := shown
  obtain ⟨courses, -, -, times⟩ := run.histories
  have course := (courses c List.mem_cons_self only).1
  rw [starting] at course
  exact ⟨past, c, run, clock, moved, course, times clock c List.mem_cons_self only⟩

end Controller

end Bringup.Lifecycle
