import Bringup.Proofs.Lifecycle.HaltingDiscipline
import Bringup.Proofs.Simulation.Termination

/-!
# The scripted engine numbers its containers

The engine counts the containers that it starts and names each one by its number. Only starts count
(`started_after`, `numbers_finish`), so no container is handed over twice in a run
(`Run.handedOver_nodup`).
-/

namespace Bringup.Simulation

open Lifecycle
open Container (Handle)

variable {t : Topology}

/-! ## The counter -/

namespace Numbering

open Engine.Scripted

/-- The name of the container with the number. -/
def name (n : Nat) : String := s!"mock-{n}"

theorem name_injective : Function.Injective name := by
  intro m n h
  have hrepr : m.repr = n.repr := by simpa [name, ToString.toString] using h
  have hdigits : Nat.toDigits 10 m = Nat.toDigits 10 n := by
    rwa [Nat.repr_eq_ofList_toDigits, Nat.repr_eq_ofList_toDigits, String.ofList_inj] at hrepr
  calc
    m = Nat.ofDigitChars 10 (Nat.toDigits 10 m) 0 := Nat.ofDigitChars_ten_toDigits.symm
    _ = Nat.ofDigitChars 10 (Nat.toDigits 10 n) 0 := by rw [hdigits]
    _ = n := Nat.ofDigitChars_ten_toDigits

theorem started_take (s : State) (now : Nat) (call : Container.Call) :
    (s.take now call).1.started = s.started := by
  cases call with
  | probe handle =>
      simp only [State.take, State.write, State.nextProbe]
      split <;> rfl
  | start | stop | kill => rfl

/-- A start that is under way has no container yet. -/
theorem unnumbered_of_pends {call : Container.Call} {work : Work} (h : engine.Pends call work)
    (handle : Handle) : work ≠ .answer (.start (.ok handle)) := by
  refine h.invariant (P := fun work : Work => work ≠ .answer (.start (.ok handle))) ?_ ?_
  · intro state now
    cases call with
    | start service volumes =>
        cases hs : (State.script state service.id).startError <;> simp [engine, State.take, hs]
    | stop | kill | probe => simp [engine, State.take]
  · intro _ _ _ _ _ _ hr
    cases (Prod.mk.inj hr).2

/-- A container that is handed over has the next number. -/
theorem numbers_finish {s s' : State} {work : Work} {reply : Container.Reply}
    (h : engine.resume s work = (s', .answer reply)) :
    s.started ≤ s'.started ∧ ∀ handle, reply = .start (.ok handle) →
      work ≠ .answer (.start (.ok handle)) →
        handle.id = name (s.started + 1) ∧ s'.started = s.started + 1 := by
  obtain ⟨rfl, hreply⟩ := Prod.mk.inj h
  obtain rfl := Engine.Next.answer.inj hreply
  cases work with
  | answer reply => exact ⟨Nat.le_refl _, fun handle hr hn => absurd (congrArg Work.answer hr) hn⟩
  | start service =>
      refine ⟨Nat.le_succ _, fun handle hr _ => ?_⟩
      simp only [Container.Reply.start.injEq] at hr
      split at hr
      next => cases hr
      next =>
        obtain rfl := Except.ok.inj hr
        exact ⟨rfl, rfl⟩

end Numbering

/-! ## Every run -/

namespace Setting

variable {start x y : Setting Engine.Scripted.engine t} {past moments : List (Moment t)} {event : Event}

/-- What the controller shows leaves the counter alone. -/
theorem started_after (x : Setting Engine.Scripted.engine t) (c : Controller t) (effects : List Effect) :
    (x.after c effects).engine.started = x.engine.started := by
  have hfold (x : Setting Engine.Scripted.engine t) :
      (effects.foldl carry x).engine.started = x.engine.started := by
    induction effects generalizing x with
    | nil => rfl
    | cons effect rest ih =>
        refine (ih _).trans ?_
        cases effect with
        | asks job request =>
            cases request with
            | container call => exact Numbering.started_take x.engine x.now call
            | volume => rfl
        | withdraws | refusedMove => rfl
  exact hfold _

/-- The containers that were handed over have different numbers, none beyond the counter. -/
structure Numbered (past : List (Moment t)) (x : Setting Engine.Scripted.engine t) : Prop where
  nodup : (handedOver past).Nodup
  numbered : ∀ handle ∈ handedOver past, ∃ n ≤ x.engine.started, handle.id = Numbering.name n

/-- What hands nothing over keeps the numbers. -/
theorem Numbered.keep (h : Numbered past x) (hnone : ∀ m ∈ moments, m.action.handed? = none)
    (hle : x.engine.started ≤ y.engine.started) : Numbered (moments ++ past) y := by
  have hlist : handedOver (moments ++ past) = handedOver past := by
    rw [handedOver, List.filterMap_append, List.filterMap_eq_nil_iff.2 hnone]
    rfl
  refine ⟨hlist ▸ h.nodup, fun handle hm => ?_⟩
  obtain ⟨n, hn, hid⟩ := h.numbered handle (hlist ▸ hm)
  exact ⟨n, Nat.le_trans hn hle, hid⟩

/-- A container that is handed over with the next number is a new one. -/
theorem Numbered.hand (h : Numbered past x) {m : Moment t} {handle : Handle}
    (hm : m.action.handed? = some handle) (hid : handle.id = Numbering.name (x.engine.started + 1))
    (hstarted : y.engine.started = x.engine.started + 1) : Numbered (m :: past) y := by
  have hlist : handedOver (m :: past) = handle :: handedOver past := by
    rw [handedOver, List.filterMap_cons, hm]
    rfl
  constructor
  · rw [hlist, List.nodup_cons]
    refine ⟨fun hmem => ?_, h.nodup⟩
    obtain ⟨n, hn, hid'⟩ := h.numbered handle hmem
    have heq := Numbering.name_injective (hid.symm.trans hid')
    omega
  · rw [hlist, hstarted]
    intro other hmem
    rcases List.mem_cons.1 hmem with rfl | hmem
    · exact ⟨_, Nat.le_refl _, hid⟩
    · obtain ⟨n, hn, hid'⟩ := h.numbered other hmem
      exact ⟨n, Nat.le_succ_of_le hn, hid'⟩

theorem Numbered.moves (h : Numbered past x) (hattends : Attends x) (hm : Moves x event moments y) :
    Numbered (moments ++ past) y := by
  cases hm with
  | @act action _ _ _ ha =>
      refine h.keep ?_ (by rw [started_after])
      intro m hm
      obtain rfl := List.mem_singleton.1 hm
      cases action with
      | answer job reply => exact absurd rfl (ha job reply)
      | _ => rfl
  | ring | deliver =>
      exact h.keep (by simp [Action.handed?]) (by rw [started_after])
  | work _ _ he => cases (Prod.mk.inj he).2
  | serve | hand | pass => exact h.keep (by simp) (Nat.le_refl _)
  | @reply job call engine reply _ _ hfind hd he hs =>
      obtain ⟨hle, hnext⟩ := Numbering.numbers_finish he
      cases hh : Action.handed? (.answer job (.container reply)) with
      | none => exact h.keep (by simpa using hh) (by rwa [started_after])
      | some handle =>
          obtain rfl : reply = .start (.ok handle) := by
            unfold Action.handed? at hh
            split at hh
            next ha =>
              obtain rfl := Option.some.inj hh
              exact Reply.container.inj (Action.answer.inj ha).2
            next => cases hh
          obtain ⟨_, _, -, -, hpends⟩ := hattends.engine.works call (List.mem_of_find?_eq_some hfind)
          obtain ⟨hid, hstarted⟩ := hnext handle rfl (Numbering.unnumbered_of_pends hpends handle)
          exact h.hand hh hid ((started_after _ _ _).trans hstarted)

/-- **No container is handed over twice** by a scripted engine. -/
theorem Run.handedOver_nodup (h : start.Opening) (run : Run start past x) :
    (handedOver past).Nodup := by
  have hnumbered : Numbered past x := by
    induction run with
    | refl => exact ⟨List.nodup_nil, by simp [handedOver]⟩
    | tail run hm ih => exact ih.moves (run.attends h) hm
  exact hnumbered.nodup

end Setting

end Bringup.Simulation
