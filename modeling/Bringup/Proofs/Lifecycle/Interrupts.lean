import Bringup.Proofs.Lifecycle.Answers
import Bringup.Proofs.Lifecycle.CancelHolds
import Bringup.Proofs.Lifecycle.StopWins

/-!
# How an interrupted start winds down

A start that may be interrupted is a call made of others. Its first step makes one start of all services,
and it waits for it. An interrupt makes a cancel; after the cancel the call waits for the start all the
same, and then for a shutdown, which is a cancel and a stop. An interrupt that comes before the first step
makes the cancel when there is nothing to cancel yet, and the start after it. `WindDown` lists how far all
these calls can have come on a fresh controller, and a step of any of them leads from one entry to the
next (`WindDown.step`).

So the stop is the last call that is made, after the start has answered, and the report of the interrupted
call is that of the stop (`WindDown.answer_of_interrupted`).
-/

namespace Bringup.Lifecycle

variable {t : Topology} {n : Nat}

/-- The call has answered. -/
def CallPhase.Answered : CallPhase n → Prop
  | .answered .. => True
  | _ => False

/-- The call is made of others. -/
def CallPhase.MakesOthers : CallPhase n → Prop
  | .beginning | .following .. => True
  | _ => False

theorem CallPhase.Answered.exists {phase : CallPhase n} (h : phase.Answered) :
    ∃ answer time, phase = .answered answer time := by
  cases phase with
  | answered answer time => exact ⟨answer, time, rfl⟩
  | _ => exact h.elim

namespace Controller

variable {c c' : Controller t} {now : Nat} {action : Action} {effects : List Effect} {k : CallId}
  {call : Call t.size} {operation : Operation} {phase : CallPhase t.size}

/-! ## Where calls stand -/

/-- What was called, and where the calls stand. -/
def standing (c : Controller t) : List (Operation × CallPhase t.size) :=
  c.calls.toList.map fun call => (call.operation, call.phase)

theorem standing_congr {d : Controller t} (h : d.calls = c.calls) : d.standing = c.standing := by
  rw [standing, h, standing]

theorem standing_of_call (hk : c.calls[k]? = some call) :
    c.standing[k]? = some (call.operation, call.phase) := by
  simp [standing, hk]

theorem call_of_standing (h : c.standing[k]? = some (operation, phase)) :
    ∃ call, c.calls[k]? = some call ∧ call.operation = operation ∧ call.phase = phase := by
  simpa [standing] using h

theorem standing_of_answer? {answer : Answer} {time : Nat} (h : c.answer? k = some (answer, time)) :
    ∃ operation, c.standing[k]? = some (operation, .answered answer time) := by
  obtain ⟨call, hk, ha⟩ := Option.bind_eq_some_iff.1 h
  obtain ⟨answer', time', hp⟩ := Call.phase_of_answer (Option.isSome_of_mem ha)
  rw [Call.answer?, hp] at ha
  obtain ⟨rfl, rfl⟩ := Prod.mk.inj (Option.some.inj ha)
  exact ⟨call.operation, hp ▸ standing_of_call hk⟩

theorem standing_openCall (operation : Operation) (jobs : List JobId) (phase : CallPhase t.size) :
    (c.openCall operation jobs phase).1.standing = c.standing ++ [(operation, phase)] := by
  simp [standing, openCall]

theorem length_standing (c : Controller t) : c.standing.length = c.calls.size := by
  simp [standing]

theorem standing_setCallPhase {p : CallPhase t.size} (h : c.standing[k]? = some (operation, p))
    (phase : CallPhase t.size) :
    (c.setCallPhase k phase).standing = c.standing.set k (operation, phase) := by
  obtain ⟨call, hk, rfl, -⟩ := call_of_standing h
  have hset : (c.setCallPhase k phase).calls = c.calls.setIfInBounds k { call with phase } := by
    rw [setCallPhase, hk]
    rfl
  simp [standing, hset, List.map_set]

theorem standing_cancel (c : Controller t) :
    c.cancel.1.standing = c.standing ++ [(.cancel, .sweeping (List.finRange t.size))] ∧
      c.cancel.2 = c.calls.size := by
  have hsame : c.cancelRuns.standing = c.standing := standing_congr rfl
  exact ⟨by rw [cancel, standing_openCall, hsame], rfl⟩

theorem standing_startAll (ht : t.Built) :
    c.startAll.1.standing = c.standing ++ [(.startAll, .joining)] ∧ c.startAll.2 = c.calls.size := by
  obtain ⟨order, horder, -⟩ := ht.startOrder
  have hsame : (c.arm.spawnStarts order).standing = c.standing := standing_congr (by simp)
  rw [startAll, horder]
  exact ⟨by rw [standing_openCall, hsame], by simp [openCall]⟩

theorem standing_stopAll (ht : t.Built) :
    c.stopAll.1.standing = c.standing ++ [(.stopAll, .joining)] ∧ c.stopAll.2 = c.calls.size := by
  obtain ⟨order, horder, -⟩ := ht.startOrder
  have hsame (jobs : List (Fin t.size)) : (c.cancelRuns.spawnStops jobs).standing = c.standing :=
    standing_congr rfl
  rw [stopAll, Topology.stopOrder, horder]
  exact ⟨by rw [Except.map, standing_openCall, hsame], rfl⟩

theorem standing_shutDown (c : Controller t) (now : Nat) :
    (c.invoke now .shutDown).1.standing = c.standing ++
        [(.cancel, .sweeping (List.finRange t.size)), (.shutDown, .following c.calls.size .stopAll)] ∧
      (c.invoke now .shutDown).2 = c.calls.size + 1 := by
  obtain ⟨hcancel, hid⟩ := c.standing_cancel
  constructor
  · show (c.cancel.1.openCall .shutDown [] (.following c.cancel.2 .stopAll)).1.standing = _
    rw [standing_openCall, hcancel, hid, List.append_assoc]
    rfl
  · show c.cancel.1.calls.size = _
    rw [← length_standing, hcancel, List.length_append, length_standing]
    rfl

/-- A call that is not made of others moves itself on, and nothing else. -/
theorem standing_moves_on (hk : c.calls[k]? = some call) (hf : ¬ call.phase.MakesOthers)
    (hs : c.proceed now k call = some (c', effects)) : ¬ call.phase.Answered ∧
      ∃ phase, c'.standing = c.standing.set k (call.operation, phase) := by
  have hmoved (d : Controller t) (hd : d.calls = c.calls) (phase : CallPhase t.size) :
      (d.setCallPhase k phase).standing = c.standing.set k (call.operation, phase) := by
    rw [← standing_congr hd]
    exact standing_setCallPhase (standing_congr hd ▸ standing_of_call hk) phase
  cases hp : call.phase with
  | joining =>
      simp only [proceed, hp, Option.ite_none_right_eq_some, Option.some.injEq, Prod.mk.injEq] at hs
      exact ⟨not_false, _, hs.2.1 ▸ hmoved c rfl _⟩
  | reporting services taken =>
      cases services <;> simp only [proceed, hp, Option.some.injEq, Prod.mk.injEq] at hs <;>
        rw [← hs.1] <;> exact ⟨not_false, _, hmoved c rfl _⟩
  | checking s =>
      simp only [proceed, hp] at hs
      split at hs
      all_goals
        obtain ⟨rfl, -⟩ := by simpa using hs
        exact ⟨not_false, _, hmoved _ (by simp) _⟩
  | stopping s job =>
      simp only [proceed, hp, Option.ite_none_right_eq_some, Option.some.injEq, Prod.mk.injEq] at hs
      exact ⟨not_false, _, hs.2.1 ▸ hmoved (c.arm.spawnStarts [s]) (by simp) _⟩
  | starting s job =>
      simp only [proceed, hp, Option.ite_none_right_eq_some, Option.some.injEq, Prod.mk.injEq] at hs
      exact ⟨not_false, _, hs.2.1 ▸ hmoved c rfl _⟩
  | reading s =>
      simp only [proceed, hp, Option.some.injEq, Prod.mk.injEq] at hs
      rw [← hs.1]
      exact ⟨not_false, _, hmoved c rfl _⟩
  | sweeping services =>
      cases services with
      | nil =>
          simp only [proceed, hp, Option.some.injEq, Prod.mk.injEq] at hs
          rw [← hs.1]
          exact ⟨not_false, _, hmoved c rfl _⟩
      | cons s rest =>
          rw [proceed, hp] at hs
          dsimp only at hs
          rw [moveFromStarting_eq _ _ _ (by rfl), Option.some.injEq, Prod.mk.injEq] at hs
          exact ⟨not_false, _, hs.1 ▸ hmoved (c.setSlot s _) (calls_setSlot _ _) _⟩
  | beginning | following => exact absurd (by rw [hp]; trivial) hf
  | answered => simp [proceed, hp] at hs

/-- A start, a stop and a cancel move themselves on, and nothing else. -/
theorem standing_proceed (hfits : c.Fits) (hk : c.calls[k]? = some call)
    (ho : call.operation = .startAll ∨ call.operation = .stopAll ∨ call.operation = .cancel)
    (hs : c.proceed now k call = some (c', effects)) : ¬ call.phase.Answered ∧
      ∃ phase, c'.standing = c.standing.set k (call.operation, phase) := by
  refine standing_moves_on hk (fun hmakes => ?_) hs
  have hphase := hfits k call hk
  revert hmakes hphase
  rcases ho with ho | ho | ho <;> rw [ho] <;> cases call.phase <;>
    simp [CallPhase.MakesOthers, Operation.Allows]

/-- A call that is made of others goes on when the one that it waits for has answered. -/
theorem proceed_following {other : CallId} {sequel : Sequel} (hp : call.phase = .following other sequel)
    (hs : c.proceed now k call = some (c', effects)) : ∃ operation answer time,
      c.standing[other]? = some (operation, .answered answer time) ∧
        c' = c.follow now k sequel answer := by
  simp only [proceed, hp] at hs
  split at hs
  next answer time ha =>
    obtain ⟨rfl, -⟩ := by simpa using hs
    obtain ⟨operation, hother⟩ := standing_of_answer? ha
    exact ⟨operation, answer, time, hother, rfl⟩
  next => cases hs

end Controller

/-! ## The calls of an interrupted start -/

/-- A start, with its number, and the cancel of an interrupt: the start comes first, unless the interrupt
found that it had not begun. -/
inductive Paired (up sweep : CallPhase n) : CallId → List (Operation × CallPhase n) → Prop where
  | late : Paired up sweep 1 [(.startAll, up), (.cancel, sweep)]
  | early : Paired up sweep 2 [(.cancel, sweep), (.startAll, up)]

/-- How far the calls have come that a start makes which may be interrupted. -/
inductive WindDown : List (Operation × CallPhase n) → Prop where
  /-- The start has not begun. -/
  | beginning : WindDown [(.upUntil, .beginning)]
  /-- All services are being started. -/
  | starting {up : CallPhase n} : WindDown [(.upUntil, .following 1 .finish), (.startAll, up)]
  /-- They were, and nobody interrupted it. -/
  | finished {up : CallPhase n} {report : Report} {time : Nat} :
    WindDown [(.upUntil, .answered (.finished report) time), (.startAll, up)]
  /-- The start was interrupted, and is being cancelled. -/
  | cancelling {up sweep : CallPhase n} :
    WindDown [(.upUntil, .following 2 (.drain 1)), (.startAll, up), (.cancel, sweep)]
  /-- The interrupt came before the start, which is to begin once the cancel has answered. -/
  | forestalled {sweep : CallPhase n} :
    WindDown [(.upUntil, .following 1 .startAll), (.cancel, sweep)]
  /-- The start is waited for after the cancel. -/
  | draining {up sweep : CallPhase n} {start : CallId} {pair : List (Operation × CallPhase n)}
    (hpair : Paired up sweep start pair) (hsweep : sweep.Answered) :
    WindDown ((.upUntil, .following start .shutDown) :: pair)
  /-- The shutdown cancels once more. -/
  | closing {up sweep again : CallPhase n} {start : CallId} {pair : List (Operation × CallPhase n)}
    (hpair : Paired up sweep start pair) (hup : up.Answered) (hsweep : sweep.Answered) :
    WindDown ((.upUntil, .following 4 .interrupt) :: pair ++
      [(.cancel, again), (.shutDown, .following 3 .stopAll)])
  /-- All services are being stopped. -/
  | stopping {up sweep again stop : CallPhase n} {start : CallId}
    {pair : List (Operation × CallPhase n)} (hpair : Paired up sweep start pair) (hup : up.Answered)
    (hsweep : sweep.Answered) (hagain : again.Answered) :
    WindDown ((.upUntil, .following 4 .interrupt) :: pair ++
      [(.cancel, again), (.shutDown, .following 5 .report), (.stopAll, stop)])
  /-- They were, and the report is handed on. -/
  | reported {up sweep again : CallPhase n} {start : CallId} {pair : List (Operation × CallPhase n)}
    {report : Report} {stopped shut : Nat} (hpair : Paired up sweep start pair) (hup : up.Answered)
    (hsweep : sweep.Answered) (hagain : again.Answered) :
    WindDown ((.upUntil, .following 4 .interrupt) :: pair ++
      [(.cancel, again), (.shutDown, .answered (.report report) shut),
        (.stopAll, .answered (.report report) stopped)])
  /-- The call has answered with it. -/
  | interrupted {up sweep again : CallPhase n} {start : CallId}
    {pair : List (Operation × CallPhase n)} {report : Report} {stopped shut time : Nat}
    (hpair : Paired up sweep start pair) (hup : up.Answered) (hsweep : sweep.Answered)
    (hagain : again.Answered) :
    WindDown ((.upUntil, .answered (.interrupted report) time) :: pair ++
      [(.cancel, again), (.shutDown, .answered (.report report) shut),
        (.stopAll, .answered (.report report) stopped)])

/-- Where a call stands among those that are made: no restart is among them and nobody asks for a report,
the start is one of the first three, and the stop is the last. -/
structure Placed (operation : Operation) (k : CallId) : Prop where
  noRestart : ∀ service, operation ≠ .restart service
  noReport : operation ≠ .status
  whole : operation = .upUntil → k = 0
  start : operation = .startAll → k < 3
  shut : operation = .shutDown → k = 4
  stop : operation = .stopAll → k = 5

namespace WindDown

variable {c c' : Controller t} {now : Nat} {action : Action} {effects : List Effect} {k : CallId}
  {call : Call t.size}

variable {l : List (Operation × CallPhase n)} {operation : Operation} {p : CallPhase n}

/-- A call that is not made of others moves on by itself. -/
theorem set_own (h : WindDown l) {k : Nat} (hk : l[k]? = some (operation, p))
    (ho : operation = .startAll ∨ operation = .stopAll ∨ operation = .cancel) (hp : ¬ p.Answered)
    (phase : CallPhase n) : WindDown (l.set k (operation, phase)) := by
  -- The entry is kept where it leaves the phase open. Elsewhere it has the call answered, or made of others.
  cases h with
  | beginning =>
      rcases k with _ | k <;> simp at hk
      obtain ⟨rfl, rfl⟩ := hk
      simp at ho
  | starting =>
      rcases k with _ | _ | k <;> simp at hk <;> obtain ⟨rfl, rfl⟩ := hk
      · simp at ho
      · exact .starting
  | finished =>
      rcases k with _ | _ | k <;> simp at hk <;> obtain ⟨rfl, rfl⟩ := hk
      · simp at ho
      · exact .finished
  | cancelling =>
      rcases k with _ | _ | _ | k <;> simp at hk <;> obtain ⟨rfl, rfl⟩ := hk
      · simp at ho
      · exact .cancelling
      · exact .cancelling
  | forestalled =>
      rcases k with _ | _ | k <;> simp at hk <;> obtain ⟨rfl, rfl⟩ := hk
      · simp at ho
      · exact .forestalled
  | draining hpair hsweep =>
      cases hpair with
      | late =>
          rcases k with _ | _ | _ | k <;> simp at hk <;> obtain ⟨rfl, rfl⟩ := hk
          · simp at ho
          · exact .draining .late hsweep
          · exact absurd hsweep hp
      | early =>
          rcases k with _ | _ | _ | k <;> simp at hk <;> obtain ⟨rfl, rfl⟩ := hk
          · simp at ho
          · exact absurd hsweep hp
          · exact .draining .early hsweep
  | closing hpair hup hsweep =>
      cases hpair
      all_goals
        rcases k with _ | _ | _ | _ | _ | k <;> simp at hk <;> obtain ⟨rfl, rfl⟩ := hk
        · simp at ho
        · exact absurd ‹_› hp
        · exact absurd ‹_› hp
        · first | exact .closing .late hup hsweep | exact .closing .early hup hsweep
        · simp at ho
  | stopping hpair hup hsweep hagain =>
      cases hpair
      all_goals
        rcases k with _ | _ | _ | _ | _ | _ | k <;> simp at hk <;> obtain ⟨rfl, rfl⟩ := hk
        · simp at ho
        · exact absurd ‹_› hp
        · exact absurd ‹_› hp
        · exact absurd hagain hp
        · simp at ho
        · first | exact .stopping .late hup hsweep hagain | exact .stopping .early hup hsweep hagain
  | reported hpair hup hsweep hagain | interrupted hpair hup hsweep hagain =>
      cases hpair
      all_goals
        rcases k with _ | _ | _ | _ | _ | _ | k <;> simp at hk <;> obtain ⟨rfl, rfl⟩ := hk
        · simp at ho
        · exact absurd ‹_› hp
        · exact absurd ‹_› hp
        · exact absurd hagain hp
        · simp at ho
        · exact absurd trivial hp

theorem placed (h : WindDown l) {k : Nat} (hk : l[k]? = some (operation, p)) :
    Placed operation k := by
  cases h with
  | beginning =>
      rcases k with _ | k <;> simp at hk
      constructor <;> simp [← hk.1]
  | starting | finished | forestalled =>
      rcases k with _ | _ | k <;> simp at hk <;> constructor <;> simp [← hk.1]
  | cancelling => rcases k with _ | _ | _ | k <;> simp at hk <;> constructor <;> simp [← hk.1]
  | draining hpair =>
      cases hpair <;> rcases k with _ | _ | _ | k <;> simp at hk <;> constructor <;> simp [← hk.1]
  | closing hpair =>
      cases hpair <;> rcases k with _ | _ | _ | _ | _ | k <;> simp at hk <;> constructor <;>
        simp [← hk.1]
  | stopping hpair | reported hpair | interrupted hpair =>
      cases hpair <;> rcases k with _ | _ | _ | _ | _ | _ | k <;> simp at hk <;> constructor <;>
        simp [← hk.1]

theorem eq_of_beginning (h : WindDown l) {k : Nat} (hk : l[k]? = some (.upUntil, .beginning)) :
    k = 0 ∧ l = [(.upUntil, .beginning)] := by
  obtain rfl := (h.placed hk).whole rfl
  cases h with
  | beginning => exact ⟨rfl, rfl⟩
  | _ => simp at hk

theorem eq_of_starting (h : WindDown l) {k : Nat} {up : CallId}
    (hk : l[k]? = some (operation, .following up .finish))
    (ho : operation = .upUntil ∨ operation = .shutDown) : k = 0 ∧ up = 1 ∧
      ∃ phase, l = [(.upUntil, .following 1 .finish), (.startAll, phase)] := by
  rcases ho with rfl | rfl
  · obtain rfl := (h.placed hk).whole rfl
    cases h with
    | starting =>
        obtain rfl : 1 = up := by simpa using hk
        exact ⟨rfl, rfl, _, rfl⟩
    | _ => simp at hk
  · -- A shutdown never waits for what may be interrupted.
    obtain rfl := (h.placed hk).shut rfl
    cases h with
    | draining hpair | closing hpair | stopping hpair | reported hpair | interrupted hpair =>
        cases hpair <;> simp at hk
    | _ => simp at hk

/-- The start begins. -/
theorem begin (ht : t.Built) (h : WindDown c.standing)
    (hk : c.standing[k]? = some (.upUntil, .beginning)) :
    WindDown (c.startAll.1.setCallPhase k (.following c.startAll.2 .finish)).standing := by
  have hsize := c.length_standing
  obtain ⟨hstart, hid⟩ := Controller.standing_startAll (c := c) ht
  obtain ⟨rfl, hl⟩ := h.eq_of_beginning hk
  rw [hl] at hstart hsize
  rw [← hsize] at hid
  rw [Controller.standing_setCallPhase (by rw [hstart]; rfl), hstart, hid]
  exact .starting

/-- The call that may be interrupted goes on with the next call, or answers. -/
theorem follow_upUntil (ht : t.Built) (h : WindDown c.standing) {other : CallId} {sequel : Sequel}
    (hk : c.standing[k]? = some (.upUntil, .following other sequel)) {called : Operation}
    {answer : Answer} {time : Nat}
    (hother : c.standing[other]? = some (called, .answered answer time)) :
    WindDown (c.follow now k sequel answer).standing := by
  obtain rfl := (h.placed hk).whole rfl
  have hsize := c.length_standing
  have hset (phase : CallPhase t.size) := Controller.standing_setCallPhase hk phase
  generalize hl : c.standing = l at h hk hother hsize hset
  cases h with
  | beginning | finished | interrupted => simp at hk
  | starting =>
      obtain ⟨rfl, rfl⟩ := by simpa using hk
      show WindDown (c.setCallPhase 0 (.answered (.finished _) now)).standing
      rw [hset]
      exact .finished
  | cancelling =>
      obtain ⟨rfl, rfl⟩ := by simpa using hk
      obtain ⟨-, rfl⟩ := by simpa using hother
      show WindDown (c.setCallPhase 0 (.following 1 .shutDown)).standing
      rw [hset]
      exact .draining .late trivial
  | forestalled =>
      obtain ⟨rfl, rfl⟩ := by simpa using hk
      obtain ⟨-, rfl⟩ := by simpa using hother
      obtain ⟨hstart, hid⟩ := Controller.standing_startAll (c := c) ht
      rw [hl] at hstart
      rw [← hsize] at hid
      show WindDown (c.startAll.1.setCallPhase 0 (.following c.startAll.2 .shutDown)).standing
      rw [Controller.standing_setCallPhase (by rw [hstart]; rfl), hstart, hid]
      exact .draining .early trivial
  | draining hpair hsweep =>
      obtain ⟨rfl, rfl⟩ := by simpa using hk
      obtain ⟨hshut, hid⟩ := c.standing_shutDown now
      rw [hl, ← hsize] at hshut
      rw [← hsize] at hid
      show WindDown ((c.invoke now .shutDown).1.setCallPhase 0
        (.following (c.invoke now .shutDown).2 .interrupt)).standing
      rw [Controller.standing_setCallPhase (by rw [hshut]; rfl), hshut, hid]
      cases hpair
      all_goals obtain ⟨-, rfl⟩ := by simpa using hother
      · exact .closing .late trivial hsweep
      · exact .closing .early trivial hsweep
  | closing hpair | stopping hpair =>
      -- The shutdown has not answered.
      obtain ⟨rfl, rfl⟩ := by simpa using hk
      cases hpair <;> simp at hother
  | reported hpair hup hsweep hagain =>
      obtain ⟨rfl, rfl⟩ := by simpa using hk
      show WindDown (c.setCallPhase 0 (.answered (.interrupted _) now)).standing
      rw [hset]
      cases hpair
      all_goals obtain ⟨-, rfl, -⟩ := by simpa using hother
      · exact .interrupted .late hup hsweep hagain
      · exact .interrupted .early hup hsweep hagain

/-- A shutdown goes on with the stop, or hands its report on. -/
theorem follow_shutDown (ht : t.Built) (h : WindDown c.standing) (hfits : c.Fits) {other : CallId}
    {sequel : Sequel} (hk : c.standing[k]? = some (.shutDown, .following other sequel))
    {called : Operation} {answer : Answer} {time : Nat}
    (hother : c.standing[other]? = some (called, .answered answer time)) :
    WindDown (c.follow now k sequel answer).standing := by
  obtain rfl := (h.placed hk).shut rfl
  have hsize := c.length_standing
  have hset (phase : CallPhase t.size) := Controller.standing_setCallPhase hk phase
  have hcall := Controller.call_of_standing hother
  generalize hl : c.standing = l at h hk hother hsize hset
  cases h with
  | beginning | starting | finished | cancelling | forestalled => simp at hk
  | draining hpair | reported hpair | interrupted hpair => cases hpair <;> simp at hk
  | closing hpair hup hsweep =>
      obtain ⟨hstop, hid⟩ := Controller.standing_stopAll (c := c) ht
      rw [hl] at hstop
      rw [← hsize] at hid
      cases hpair
      all_goals
        obtain ⟨rfl, rfl⟩ := by simpa using hk
        obtain ⟨-, rfl⟩ := by simpa using hother
        show WindDown (c.stopAll.1.setCallPhase 4 (.following c.stopAll.2 .report)).standing
        rw [Controller.standing_setCallPhase (by rw [hstop]; rfl), hstop, hid]
      · exact .stopping .late hup hsweep trivial
      · exact .stopping .early hup hsweep trivial
  | stopping hpair hup hsweep hagain =>
      have hstop : other = 5 ∧ sequel = .report ∧ called = .stopAll := by
        cases hpair
        all_goals
          obtain ⟨rfl, rfl⟩ := by simpa using hk
          obtain ⟨rfl, -⟩ := by simpa using hother
          exact ⟨rfl, rfl, rfl⟩
      obtain ⟨rfl, rfl, rfl⟩ := hstop
      -- A stop answers with a report.
      obtain ⟨call, hcall, ho, hp⟩ := hcall
      have hphase := hfits 5 call hcall
      rw [ho, hp] at hphase
      cases answer with
      | report report =>
          show WindDown (c.setCallPhase 4 (.answered (.report report) now)).standing
          rw [hset]
          cases hpair
          all_goals obtain rfl := by simpa using hother
          · exact .reported .late hup hsweep hagain
          · exact .reported .early hup hsweep hagain
      | _ => exact hphase.elim

theorem proceed (ht : t.Built) (h : WindDown c.standing) (hfits : c.Fits)
    (hk : c.calls[k]? = some call) (hs : c.proceed now k call = some (c', effects)) :
    WindDown c'.standing := by
  have hst := Controller.standing_of_call hk
  have hown (ho : call.operation = .startAll ∨ call.operation = .stopAll ∨ call.operation = .cancel) :
      WindDown c'.standing := by
    obtain ⟨hn, phase, he⟩ := Controller.standing_proceed hfits hk ho hs
    exact he ▸ h.set_own hst ho hn phase
  have hphase := hfits k call hk
  cases ho : call.operation with
  | startAll | stopAll | cancel => exact hown (by simp [ho])
  | upUntil =>
      rw [ho] at hphase hst
      cases hp : call.phase with
      | beginning =>
          rw [hp] at hst
          obtain ⟨rfl, -⟩ := by simpa [Controller.proceed, hp] using hs
          exact h.begin ht hst
      | following other sequel =>
          rw [hp] at hst
          obtain ⟨called, answer, time, hother, rfl⟩ := Controller.proceed_following hp hs
          exact h.follow_upUntil ht hst hother
      | answered => simp [Controller.proceed, hp] at hs
      | _ => simp [hp, Operation.Allows] at hphase
  | shutDown =>
      rw [ho] at hphase hst
      cases hp : call.phase with
      | following other sequel =>
          rw [hp] at hst
          obtain ⟨called, answer, time, hother, rfl⟩ := Controller.proceed_following hp hs
          exact h.follow_shutDown ht hfits hst hother
      | answered => simp [Controller.proceed, hp] at hs
      | _ => simp [hp, Operation.Allows] at hphase
  | restart | status =>
      -- Nobody asked for these.
      rw [ho] at hst
      first | exact absurd rfl ((h.placed hst).noRestart _) | exact absurd rfl (h.placed hst).noReport

/-- An interrupt makes a cancel. If the start had begun it is not to come after the cancel. -/
theorem interrupt (h : WindDown c.standing) (hfits : c.Fits) (hk : c.calls[k]? = some call)
    (hs : c.interrupt k call = some (c', effects)) : WindDown c'.standing ∧ k = 0 ∧
      ∃ sequel, c' = c.cancel.1.setCallPhase 0 (.following c.calls.size sequel) ∧
        (1 < c.calls.size → sequel ≠ .startAll ∧ ∃ up, (.startAll, up) ∈ c.standing) := by
  have hst := Controller.standing_of_call hk
  have hphase := hfits k call hk
  obtain ⟨hcancel, hid⟩ := c.standing_cancel
  unfold Controller.interrupt at hs
  split at hs
  next hp =>
    -- The call has not begun: its cancel is the second call, and the start is to follow it.
    obtain ⟨rfl, -⟩ := by simpa using hs
    rw [hp] at hst hphase
    have ho : call.operation = .upUntil := by
      cases ho : call.operation <;> rw [ho] at hphase <;> first | rfl | exact hphase.elim
    rw [ho] at hst
    obtain ⟨rfl, hl⟩ := h.eq_of_beginning hst
    have hsize : c.calls.size = 1 := by rw [← c.length_standing, hl]; rfl
    rw [hl] at hcancel
    rw [hid, hsize]
    refine ⟨?_, rfl, .startAll, rfl, by simp⟩
    rw [Controller.standing_setCallPhase (by rw [hcancel]; rfl), hcancel]
    exact .forestalled
  next up hp =>
    -- The start is under way: it is drained after the cancel.
    obtain ⟨rfl, -⟩ := by simpa using hs
    rw [hp] at hst hphase
    have ho : call.operation = .upUntil ∨ call.operation = .shutDown := by
      cases ho : call.operation <;> rw [ho] at hphase <;>
        first | exact .inl rfl | exact .inr rfl | exact hphase.elim
    obtain ⟨rfl, rfl, phase, hl⟩ := h.eq_of_starting hst ho
    have hsize : c.calls.size = 2 := by rw [← c.length_standing, hl]; rfl
    rw [hl] at hcancel ⊢
    rw [hid, hsize]
    refine ⟨?_, rfl, .drain 1, rfl, fun _ => ⟨by simp, phase, by simp⟩⟩
    rw [Controller.standing_setCallPhase (by rw [hcancel]; rfl), hcancel]
    exact .cancelling
  next => cases hs

/-- **The calls wind down**, whatever happens but that somebody makes another call. -/
theorem step (ht : t.Built) (h : WindDown c.standing) (hfits : c.Fits)
    (hs : c.step now action = some (c', effects)) (ha : ∀ operation, action ≠ .invoke operation) :
    WindDown c'.standing := by
  cases action with
  | invoke operation => exact absurd rfl (ha operation)
  | proceed k =>
      obtain ⟨call, hk, hs⟩ := Option.bind_eq_some_iff.1 hs
      exact h.proceed ht hfits hk hs
  | interrupt k =>
      obtain ⟨call, hk, hs⟩ := Option.bind_eq_some_iff.1 hs
      exact (h.interrupt hfits hk hs).1
  | run id | heed id | timeout id | answer id reply =>
      obtain ⟨old, new, slot, aside, -, -, rfl⟩ :=
        Controller.turnsTo_of_step (rfl : Action.job? _ = some id) hs
      rwa [Controller.standing_congr Controller.calls_after]

/-! ## What follows from how far the calls have come -/

theorem stopsLast (h : WindDown c.standing) : c.StopsLast := by
  intro k call hk
  have hplaced := h.placed (Controller.standing_of_call hk)
  refine ⟨hplaced.noRestart, fun ho k' call' hk' ho' => ?_⟩
  rw [(h.placed (Controller.standing_of_call hk')).stop ho']
  exact Nat.lt_of_lt_of_le (hplaced.start ho) (by decide)

/-- The first step of the call begins the start, so there are two calls then. -/
theorem lt_size_of_proceed (ht : t.Built) (h : WindDown c.standing)
    (hs : c.step now (.proceed 0) = some (c', effects)) : 1 < c'.calls.size := by
  by_cases hlt : 1 < c.calls.size
  · have run : Controller.Run c [⟨c, now, .proceed 0, effects, c'⟩] c' := Controller.Run.refl.tail hs
    obtain ⟨call, hk, -⟩ := run.call_kept (Array.getElem?_eq_getElem hlt)
    exact (Array.getElem?_eq_some_iff.1 hk).1
  · have hl : c.standing = [(.upUntil, .beginning)] := by
      rw [← c.length_standing] at hlt
      generalize c.standing = l at h hlt
      cases h with
      | beginning => rfl
      | draining hpair => cases hpair <;> simp at hlt
      | _ => simp at hlt
    obtain ⟨call, hk, hp⟩ := Option.bind_eq_some_iff.1 hs
    obtain ⟨-, hphase⟩ : _ ∧ call.phase = .beginning := by
      simpa [hl, eq_comm] using Controller.standing_of_call hk
    obtain ⟨rfl, -⟩ := by simpa [Controller.proceed, hphase] using hp
    obtain ⟨hstart, -⟩ := Controller.standing_startAll (c := c) ht
    rw [Controller.size_calls_setCallPhase, ← Controller.length_standing, hstart, hl]
    simp

/-- Once the start has been called, no call has a start before it any more. -/
theorem noneToStart (h : WindDown c.standing) (hfits : c.Fits) {up : CallPhase t.size}
    (hup : (.startAll, up) ∈ c.standing) : c.NoneToStart := by
  intro k call hk hto
  have hst := Controller.standing_of_call hk
  have hphase := hfits k call hk
  have hrestart := (h.placed hst).noRestart
  have hmakes : call.operation ≠ .startAll ∧ call.operation ≠ .stopAll ∧ call.operation ≠ .cancel := by
    refine ⟨?_, ?_, ?_⟩ <;> intro ho <;> rw [ho] at hphase <;> revert hphase hto <;>
      cases call.phase <;> simp [CallPhase.ToStart, Operation.Allows]
  cases hp : call.phase with
  | checking | stopping =>
      rw [hp] at hphase
      cases ho : call.operation with
      | restart service => exact hrestart service ho
      | _ => simp [ho, Operation.Allows] at hphase
  | beginning =>
      rw [hp] at hphase hst
      have ho : call.operation = .upUntil := by
        cases ho : call.operation <;> rw [ho] at hphase <;> first | rfl | exact hphase.elim
      obtain ⟨-, hl⟩ := h.eq_of_beginning (ho ▸ hst)
      simp [hl] at hup
  | following other sequel =>
      have hsequel : sequel = .startAll := by
        rw [hp] at hto
        cases sequel <;> first | rfl | exact hto.elim
      rw [hp, hsequel] at hst
      -- Only after an early interrupt a start is to follow, and then there is none yet.
      have hmem := List.mem_of_getElem? hst
      generalize c.standing = l at h hup hmem
      cases h with
      | draining hpair | closing hpair | stopping hpair | reported hpair | interrupted hpair =>
          cases hpair <;> simp [hmakes] at hmem
      | beginning | forestalled => simp at hup
      | starting | finished | cancelling => simp [hmakes] at hmem
  | _ => rw [hp] at hto; exact hto.elim

/-- Once the services are being stopped, their start has answered. -/
theorem started (h : WindDown l) {stop up : CallPhase n} (hstop : (.stopAll, stop) ∈ l)
    (hup : (.startAll, up) ∈ l) : up.Answered := by
  cases h with
  | beginning | starting | finished | cancelling | forestalled => simp at hstop
  | draining hpair | closing hpair => cases hpair <;> simp at hstop
  | stopping hpair hup' | reported hpair hup' | interrupted hpair hup' =>
      cases hpair
      all_goals
        obtain rfl : up = _ := by simpa using hup
        exact hup'

/-- Once a service is being stopped, no start job is under way any more. -/
theorem starts_over (h : WindDown c.standing) (hfits : c.Fits) (hcloses : c.Closes)
    (hjobs : c.JobsFit) {instants : List (Controller t)} (hordered : Controller.Ordered instants c)
    {i id : JobId} {stop : StopJob t.size} (hstop : c.jobs[i]? = some (.stop stop))
    {job : StartJob t.size} (hj : c.jobs[id]? = some (.start job)) : job.phase = .finished := by
  refine Classical.byContradiction fun hn => ?_
  obtain ⟨k, call, hk, ha⟩ := hordered.awaited hj hn
  obtain ⟨k', call', hk', ho'⟩ := hcloses.stop hstop
  have hphase := hfits k call hk
  rcases ha with ⟨hp, hid⟩ | ⟨s, hp⟩
  · cases ho : call.operation with
    | startAll =>
        have hanswered := h.started
          (List.mem_of_getElem? (ho' ▸ Controller.standing_of_call hk'))
          (List.mem_of_getElem? (ho ▸ Controller.standing_of_call hk))
        rw [hp] at hanswered
        exact hanswered
    | stopAll =>
        obtain ⟨job', hj', -, hkind⟩ := hjobs k call hk id hid
        obtain rfl : Job.start job = job' := Option.some.inj (hj.symm.trans hj')
        cases hkind ho
    | _ => simp [ho, hp, Operation.Allows] at hphase
  · have hrestart := (h.stopsLast k call hk).1
    cases ho : call.operation with
    | restart service => exact hrestart service ho
    | _ => simp [ho, hp, Operation.Allows] at hphase

/-- **What an interrupted start answers** is what the stop reports, which is the last call, and all
calls have answered then. -/
theorem answer_of_interrupted (h : WindDown c.standing) {i : CallId} {cancel : Call t.size}
    (hi : c.calls[i]? = some cancel) (hcancel : cancel.operation = .cancel) {answer : Answer}
    {time : Nat} (ha : c.answer? 0 = some (answer, time)) :
    ∃ report call, answer = .interrupted report ∧ c.calls[5]? = some call ∧
      call.operation = .stopAll ∧ (∃ time, call.answer? = some (.report report, time)) ∧
      ∀ (k : Nat) (call : Call t.size), c.calls[k]? = some call → call.answer?.isSome := by
  obtain ⟨operation, hst⟩ := Controller.standing_of_answer? ha
  have hsweep : (.cancel, cancel.phase) ∈ c.standing :=
    hcancel ▸ List.mem_of_getElem? (Controller.standing_of_call hi)
  have hget (k : Nat) {call : Call t.size} (hk : c.calls[k]? = some call) :
      c.standing[k]? = some (call.operation, call.phase) := Controller.standing_of_call hk
  have hcall (k : Nat) {operation : Operation} {phase : CallPhase t.size}
      (hk : c.standing[k]? = some (operation, phase)) :
      ∃ call, c.calls[k]? = some call ∧ call.operation = operation ∧ call.phase = phase :=
    Controller.call_of_standing hk
  generalize c.standing = l at h hst hsweep hget hcall
  cases h with
  | finished => simp at hsweep
  | beginning | starting | cancelling | forestalled => simp at hst
  | draining | closing | stopping | reported => simp at hst
  | @interrupted up sweep again start pair report stopped shut time hpair hup hsweep hagain =>
      obtain ⟨-, rfl, -⟩ : _ ∧ Answer.interrupted report = answer ∧ _ := by simpa using hst
      obtain ⟨call, hk, ho, hp⟩ : ∃ call, c.calls[5]? = some call ∧ call.operation = .stopAll ∧
          call.phase = .answered (.report report) stopped := by
        cases hpair <;> exact hcall 5 rfl
      refine ⟨report, call, rfl, hk, ho, ⟨stopped, by rw [Call.answer?, hp]⟩, ?_⟩
      intro k call hk
      have hanswered : call.phase.Answered := by
        have hk := hget k hk
        cases hpair <;> rcases k with _ | _ | _ | _ | _ | _ | k <;> simp at hk <;> rw [← hk.2] <;>
          trivial
      obtain ⟨answer, time, hp⟩ := hanswered.exists
      rw [Call.answer?, hp]
      rfl

end WindDown

/-! ## Every run of an interrupted start -/

namespace Controller

variable {config : Config} {start c : Controller t} {past later earlier : List (Moment t)}
  {m : Moment t} {k : CallId}

theorem windDown_fresh (config : Config) (now : Nat) :
    WindDown ((fresh t config).invoke now .upUntil).1.standing := by
  show WindDown ((fresh t config).openCall .upUntil [] .beginning).1.standing
  rw [standing_openCall]
  exact .beginning

/-- **In every run** the calls wind down, as long as nobody makes another one. -/
theorem Run.windDown (ht : t.Built) (run : Run start past c) (hfits : start.Fits)
    (h : WindDown start.standing) (hcalls : ∀ m ∈ past, ¬ m.Invokes) :
    WindDown c.standing ∧ c.Fits := by
  induction run with
  | refl => exact ⟨h, hfits⟩
  | tail _ hs ih =>
      obtain ⟨h, hfits⟩ := ih fun m hm => hcalls m (List.mem_cons_of_mem _ hm)
      exact ⟨h.step ht hfits hs fun operation ha => hcalls _ List.mem_cons_self ⟨operation, ha⟩,
        hfits.step hs⟩

/-- What is over stays over, as long as nobody calls for a start or a restart. -/
theorem Run.over (run : Run start past c) (h : start.Over)
    (hcalls : ∀ m ∈ past, ¬ m.CallsAnyStart) : c.Over := by
  induction run with
  | refl => exact h
  | tail _ hs ih =>
      exact (ih fun m hm => hcalls m (List.mem_cons_of_mem _ hm)).step hs
        (hcalls _ List.mem_cons_self)

/-- Where everything is over no service enters the state of starting. -/
theorem Over.not_enters (h : m.before.Over)
    (hs : m.before.step m.now m.action = some (m.after, m.effects)) (s : Fin t.size) :
    ¬ m.Enters s := by
  rintro ⟨hb, ha⟩
  obtain ⟨i, job, -, hj, -, -, hc, -⟩ := enters_of_step hs hb ha
  rw [h.quelled.isCancelled hj] at hc
  cases hc

/-- **An interrupt cancels**: one of the calls is a cancel then. If the start had begun, everything is
over. -/
theorem over_interrupt (h : WindDown m.before.standing) (hfits : m.before.Fits)
    (hopened : m.before.RunsOpened) (hm : m.action = .interrupt k)
    (hs : m.before.step m.now m.action = some (m.after, m.effects)) :
    k = 0 ∧ (∃ (i : CallId) (call : Call t.size), m.after.calls[i]? = some call ∧
      call.operation = .cancel) ∧ (1 < m.before.calls.size → m.after.Over) := by
  rw [hm] at hs
  obtain ⟨call, hk, hs⟩ := Option.bind_eq_some_iff.1 hs
  obtain ⟨-, rfl, sequel, he, hbegun⟩ := h.interrupt hfits hk hs
  have hne : m.before.calls.size ≠ 0 := Nat.ne_of_gt (Array.getElem?_eq_some_iff.1 hk).1
  rw [he]
  refine ⟨rfl, ⟨m.before.calls.size, _, (calls_setCallPhase_of_ne hne _).trans calls_openCall_size, rfl⟩,
    fun hlt => ?_⟩
  obtain ⟨hsequel, up, hup⟩ := hbegun hlt
  have hover : m.before.cancel.1.Over := over_cancel hopened (h.noneToStart hfits hup)
  refine ⟨hover.quelled.setCallPhase _ _, hover.unstarted.setCallPhase _ fun hto => hsequel ?_⟩
  cases sequel <;> first | rfl | exact hto.elim

/-- Where all that was handed over was asked to stop as often, each container that was handed over once
was asked to stop once. -/
theorem Run.stopped_once (run : Run start past c) (hone : (handedOver past).Nodup)
    (hall : ∀ s handle, stopsAsked past s handle = past.countP fun m => m.hands s handle)
    {handle : Container.Handle} (hh : handle ∈ handedOver past) :
    weigh (fun m => m.effects.countP (Effect.stops handle)) past = 1 := by
  have hle := countP_hands_le hone handle
  refine Nat.le_antisymm (run.asked_le_one hle _ fun s => Nat.le_of_eq (hall s handle)) ?_
  obtain ⟨m, hm, hm'⟩ := List.mem_filterMap.1 hh
  -- It was handed over to a job of some service, which has had it stopped.
  obtain ⟨s, hworks⟩ : ∃ s, m.hands s handle := by
    have hs := run.step_of_mem hm
    obtain ⟨id, hid⟩ : ∃ id, m.action.job? = some id := by
      cases ha : m.action with
      | answer id reply => exact ⟨id, rfl⟩
      | _ =>
          rw [ha] at hm'
          cases hm'
    obtain ⟨old, new, slot, aside, hj, -⟩ := turnsTo_of_step hid hs
    exact ⟨old.service, by simp [Moment.hands, Moment.worksFor, Moment.job?, hid, hj,
      Action.hands_iff.2 hm']⟩
  have hcount : 0 < past.countP fun m => m.hands s handle := List.countP_pos_iff.2 ⟨m, hm, hworks⟩
  rw [← hall s handle] at hcount
  refine Nat.le_trans hcount (weigh_le_weigh fun m _ => ?_)
  unfold Moment.stops
  split
  next => exact Nat.le_refl _
  next => exact Nat.zero_le _

end Controller

end Bringup.Lifecycle
