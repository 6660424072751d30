import Bringup.Simulation.Schedule

/-!
# The virtual clock

On the virtual clock time does not pass as long as anything else can happen, and then it moves to the
next moment at which something is due. `World.Ticks` says so without choosing among the things that
can happen at one moment, so a property of all ticks holds whatever the order in which jobs, engines
and stores take their turns.

Nothing that those outside do is a tick: they have made their calls and set their alarms before. What
the world comes to then, on every path, is `Inevitably` so: a path may not end, or go on for ever,
without having come to it (`inevitably_of_wf`).
-/

namespace Bringup.Simulation

/-! ## What every path comes to -/

section

variable {α β : Type} {step : α → α → Prop} {P Q : α → Prop} {a : α}

/-- What every path along a relation comes to: it is so already, or the path goes on, and comes to it
whichever way it goes. -/
inductive Inevitably (step : α → α → Prop) (P : α → Prop) : α → Prop where
  | here {a : α} (h : P a) : Inevitably step P a
  | next {a : α} (can : ∃ b, step a b) (all : ∀ b, step a b → Inevitably step P b) :
    Inevitably step P a

theorem Inevitably.mono (h : Inevitably step P a) (hPQ : ∀ {a}, P a → Q a) :
    Inevitably step Q a := by
  induction h with
  | here h => exact .here (hPQ h)
  | next can all ih => exact .next can ih

/-- **Every path comes to it** if, for the states that are seen under an invariant, each step before
brings a measure down and keeps them so, and no path gets stuck before. -/
theorem inevitably_of_wf {γ : Type} {see : γ → α} {I : γ → Prop} {less : β → β → Prop}
    (wf : WellFounded less) (measure : γ → β)
    (down : ∀ {x b}, I x → ¬ P (see x) → step (see x) b →
      ∃ y, b = see y ∧ I y ∧ less (measure y) (measure x))
    (progress : ∀ {x}, I x → P (see x) ∨ ∃ b, step (see x) b) {x : γ} (hx : I x) :
    Inevitably step P (see x) := by
  induction hm : measure x using wf.induction generalizing x with
  | _ m ih =>
    subst hm
    by_cases hP : P (see x)
    · exact .here hP
    · refine .next ((progress hx).resolve_left hP) fun b hb => ?_
      obtain ⟨y, rfl, hy, hlt⟩ := down hx hP hb
      exact ih _ hlt hy rfl

end

/-! ## Ticks -/

/-- Something that happens by itself: nobody makes a call or interrupts one, and no time passes. -/
def Event.Inner : Event → Prop
  | .control _ (.invoke _) | .control _ (.interrupt _) | .pass _ => False
  | _ => True

variable {e : Engine} {w w' : World e}

namespace World

/-- Nothing happens by itself at this moment. -/
def Idle (w : World e) : Prop := ∀ event, event.Inner → w.step event = none

/-- What happens on the virtual clock: anything that happens by itself, and where nothing does the
clock moves to the next moment at which something is due. -/
inductive Ticks (w : World e) : World e → Prop where
  | inner {event : Event} {w' : World e} (hi : event.Inner) (h : w.step event = some w') : Ticks w w'
  | pass {time : Nat} (hi : w.Idle) (h : w.horizon? = some time) : Ticks w { w with now := time }

/-- Nothing happens any more. -/
def AtRest (w : World e) : Prop := ∀ w', ¬ w.Ticks w'

theorem horizon?_eq_some {time : Nat} : w.horizon? = some time ↔
    (time ∈ w.deadlines ∧ w.now < time) ∧ ∀ due ∈ w.deadlines, w.now < due → time ≤ due := by
  rw [horizon?, List.min?_eq_some_iff]
  simp

theorem horizon?_eq_none : w.horizon? = none ↔ ∀ due ∈ w.deadlines, due ≤ w.now := by
  rw [horizon?, List.min?_eq_none_iff, List.filter_eq_nil_iff]
  simp

/-- **A world is at rest** if nothing happens by itself and nothing is due later. -/
theorem atRest_iff : w.AtRest ↔ w.Idle ∧ ∀ due ∈ w.deadlines, due ≤ w.now := by
  rw [← horizon?_eq_none]
  constructor
  · intro h
    have hidle : w.Idle := by
      intro event hi
      rw [Option.eq_none_iff_forall_ne_some]
      exact fun w' hw => h w' (.inner hi hw)
    refine ⟨hidle, ?_⟩
    rw [Option.eq_none_iff_forall_ne_some]
    exact fun time ht => h _ (.pass hidle ht)
  · rintro ⟨hidle, hnone⟩ w' ht
    cases ht with
    | inner hi h => rw [hidle _ hi] at h; cases h
    | pass _ h => rw [hnone] at h; cases h

/-- Of some moments fewer come after one of them than after an earlier time. -/
theorem countP_later_lt {now time : Nat} {dues : List Nat} (hm : time ∈ dues) (hlt : now < time) :
    dues.countP (time < ·) < dues.countP (now < ·) := by
  induction dues with
  | nil => cases hm
  | cons due rest ih =>
      have hle : rest.countP (time < ·) ≤ rest.countP (now < ·) := by
        apply List.countP_mono_left
        intro due _ h
        simp only [decide_eq_true_iff] at h ⊢
        omega
      rw [List.countP_cons, List.countP_cons]
      rcases List.mem_cons.1 hm with rfl | hm
      · simp only [Nat.lt_irrefl, decide_false, Bool.false_eq_true, if_false, hlt, decide_true,
          if_true]
        omega
      · have := ih hm
        simp only [decide_eq_true_iff]
        split <;> split <;> omega

/-- How many of the moments at which something is due are still to come. -/
def pending (w : World e) : Nat := w.deadlines.countP (w.now < ·)

/-- **When time passes**, one moment less is still to come. -/
theorem pending_pass {time : Nat} (h : w.horizon? = some time) :
    ({ w with now := time } : World e).pending < w.pending := by
  obtain ⟨⟨hm, hlt⟩, -⟩ := horizon?_eq_some.1 h
  have hdeadlines : ({ w with now := time } : World e).deadlines = w.deadlines := rfl
  rw [pending, pending, hdeadlines]
  exact countP_later_lt hm hlt

end World

end Bringup.Simulation
