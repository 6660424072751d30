import Bringup.Docker.Engine
import Bringup.Engine.Scripted
import Mathlib.Order.Lattice.Nat

/-!
# Engines that answer

All that a controller needs of an engine is that every call is answered in its kind, after finitely
many waits (`Engine.Answering`). How many waits and how long they are may depend on all that happens to
the engine meanwhile. The scripted engine is such an engine (`Scripted.answering`), and so is one that
runs commands, on any machine (`Docker.Client.answering`).
-/

namespace Bringup

/-- The reply is one to the call. -/
def Container.Call.Takes : Container.Call → Container.Reply → Prop
  | .start .., .start _ | .stop .., .stop _ | .kill _, .kill _ | .probe _, .probe _ => True
  | _, _ => False

namespace Engine

variable (e : Engine)

/-- What the engine can have left to do of a call. -/
inductive Pends (call : Container.Call) : e.Work → Prop where
  | take (state : e.State) (now : Nat) : Pends call (e.take state now call).2.2
  | wait {state state' : e.State} {millis : Nat} {work work' : e.Work} (h : Pends call work)
    (hr : e.resume state work = (state', .wait millis work')) : Pends call work'

/-- The engine waits less than so many more times before it answers. -/
def Within : Nat → e.Work → Prop
  | 0, _ => False
  | n + 1, work => ∀ state state' millis work',
    e.resume state work = (state', .wait millis work') → Within n work'

/-- Every call is answered in its kind, after finitely many waits. -/
structure Answering : Prop where
  ends : ∀ {call : Container.Call} {work : e.Work}, e.Pends call work → ∃ n, e.Within n work
  fits : ∀ {call : Container.Call} {work : e.Work} {state state' : e.State}
    {reply : Container.Reply}, e.Pends call work →
      e.resume state work = (state', .answer reply) → call.Takes reply

/-- A bound on how often the engine still waits. -/
noncomputable def waits (work : e.Work) : Nat := sInf {n | e.Within n work}

variable {e}

/-- What holds of what a call is taken up with, and after each wait, holds of all that is pending. -/
theorem Pends.invariant {P : e.Work → Prop} {call : Container.Call} {work : e.Work}
    (h : e.Pends call work) (htake : ∀ state now, P (e.take state now call).2.2)
    (hwait : ∀ {work state state' millis work'}, P work →
      e.resume state work = (state', .wait millis work') → P work') : P work := by
  induction h with
  | take state now => exact htake state now
  | wait _ hr ih => exact hwait ih hr

/-- **Each wait brings the answer nearer.** -/
theorem Answering.waits_lt (h : e.Answering) {call : Container.Call} {work work' : e.Work}
    {state state' : e.State} {millis : Nat} (hp : e.Pends call work)
    (hr : e.resume state work = (state', .wait millis work')) : e.waits work' < e.waits work := by
  have hmem : e.Within (e.waits work) work := Nat.sInf_mem (h.ends hp)
  cases hn : e.waits work with
  | zero =>
      rw [hn] at hmem
      exact hmem.elim
  | succ n =>
      rw [hn] at hmem
      exact Nat.lt_succ_of_le (Nat.sInf_le (hmem _ _ _ _ hr))

end Engine

/-! ## Scripted engines -/

namespace Engine.Scripted

/-- What the scripted engine has left to do of a call is to answer it. -/
theorem takes_of_pends {call : Container.Call} {work : Work} (h : engine.Pends call work)
    (s : State) : call.Takes (s.finish work).2 := by
  refine h.invariant (P := fun work : Work => call.Takes (s.finish work).2) ?_ ?_
  · intro state now
    cases call with
    | start service volumes =>
        cases hs : (State.script state service.id).startError <;>
          simp [engine, State.take, hs, State.finish, Container.Call.Takes]
    | stop | kill | probe => trivial
  · intro _ _ _ _ _ _ hr
    cases (Prod.mk.inj hr).2

/-- **The scripted engine answers every call.** -/
theorem answering : engine.Answering where
  ends _ := ⟨1, fun _ _ _ _ hr => by cases (Prod.mk.inj hr).2⟩
  fits {call work state state' reply} hp hr := by
    have hreply : ((state : State).finish work).2 = reply :=
      Engine.Next.answer.inj (Prod.mk.inj hr).2
    exact hreply ▸ takes_of_pends hp state

end Engine.Scripted

/-! ## Engines that run commands -/

namespace Docker

/-- The script ends after so many commands at most, with a value of this kind. -/
def Script.Ends {α : Type} (P : α → Prop) : Nat → Script α → Prop
  | _, .done a => P a
  | 0, .run .. => False
  | n + 1, .run _ next => ∀ result, (next result).Ends P n

/-- What an engine is asked takes three commands at most, and comes to a reply of the kind. -/
theorem perform_ends (project : String) (call : Container.Call) :
    (perform project call).Ends call.Takes 3 := by
  cases call with
  | start service volumes =>
      intro removed result
      match result with
      | .ok _ | .error (.start _) | .error (.stop _) | .error (.command _)
      | .error (.unavailable _) => exact trivial
  | stop handle timeout =>
      intro result
      match result with
      | .ok _ => exact fun _ => trivial
      | .error _ => exact trivial
  | kill handle => exact fun _ _ => trivial
  | probe handle =>
      intro result
      match result with
      | .ok _ | .error _ => exact trivial

namespace Client

variable {client : Client} {machine : Machine} {P : Container.Reply → Prop}

theorem ends_advance {script : Script Container.Reply} {n : Nat} (h : script.Ends P n)
    (s : machine.State) : ∃ m, (client.advance machine s script).2.2.Ends P m := by
  cases script with
  | done a => exact ⟨n, h⟩
  | run arguments next =>
      cases n with
      | zero => exact h.elim
      | succ n => exact ⟨n, h _⟩

theorem ends_of_pends {call : Container.Call} {script : Script Container.Reply}
    (h : (client.engine machine).Pends call script) : ∃ n, script.Ends call.Takes n := by
  refine h.invariant (P := fun script => ∃ n, Script.Ends call.Takes n script) ?_ ?_
  · intro s now
    exact ends_advance (perform_ends client.project call) s
  · rintro (reply | ⟨arguments, next⟩) s _ _ _ ⟨n, hn⟩ hr
    · cases (Prod.mk.inj hr).2
    · obtain ⟨-, rfl⟩ := Engine.Next.wait.inj (Prod.mk.inj hr).2
      exact ends_advance hn s

theorem within_of_ends {script : Script Container.Reply} {n : Nat} (h : script.Ends P n) :
    (client.engine machine).Within (n + 1) script := by
  induction n generalizing script with
  | zero =>
      cases script with
      | done reply => exact fun _ _ _ _ hr => by cases (Prod.mk.inj hr).2
      | run => exact h.elim
  | succ n ih =>
      cases script with
      | done reply => exact fun _ _ _ _ hr => by cases (Prod.mk.inj hr).2
      | run arguments next =>
          intro s _ _ _ hr
          obtain ⟨-, rfl⟩ := Engine.Next.wait.inj (Prod.mk.inj hr).2
          exact ih (h _)

/-- **An engine that runs commands answers every call**, on any machine. -/
theorem answering (client : Client) (machine : Machine) : (client.engine machine).Answering where
  ends hp := by
    obtain ⟨n, hn⟩ := ends_of_pends hp
    exact ⟨n + 1, within_of_ends hn⟩
  fits {call script s _ reply} hp hr := by
    obtain ⟨n, hn⟩ := ends_of_pends hp
    cases script with
    | done answer =>
        obtain rfl : answer = reply := Engine.Next.answer.inj (Prod.mk.inj hr).2
        cases n <;> exact hn
    | run => cases (Prod.mk.inj hr).2

end Client

end Docker

end Bringup
