import Bringup.Engine.Scripted

/-!
# What a scripted engine answers

The script of a service changes only in that its answers to the questions whether its container is
ready are used up one after another (`Script.after`). So what the engine answers to a question is told
by the script at the start and by how many questions came before (`nextProbe_of_after`), and whether a
start fails by the script alone (`finish_take_start`).
-/

namespace Bringup.Engine.Scripted

namespace Script

/-- The answer to the question with the given number, counted from zero. -/
def answer (script : Script) (n : Nat) : Container.Probe := (script.probes[n]?).getD script.fallback

/-- The script after so many questions. -/
def after (script : Script) (n : Nat) : Script := { script with probes := script.probes.drop n }

@[simp] theorem after_zero (script : Script) : script.after 0 = script := by simp [after]

/-- Why every start fails, if it does. -/
def fault (script : Script) : Option Container.Error := script.startError.or script.startFault

end Script

namespace State

variable {s : State} {service other : ServiceId} {script : Script} {n : Nat}

/-! ## Changing scripts -/

theorem lookup_putScript_self (scripts : List (ServiceId × Script)) :
    (putScript service script scripts).lookup service = some script := by
  induction scripts with
  | nil => simp [putScript]
  | cons entry rest ih =>
      obtain ⟨name, old⟩ := entry
      rw [putScript]
      split
      next => simp
      next h => rw [List.lookup_cons, beq_false_of_ne (Ne.symm h), ih]

theorem lookup_putScript_of_ne (h : other ≠ service) (scripts : List (ServiceId × Script)) :
    (putScript service script scripts).lookup other = scripts.lookup other := by
  induction scripts with
  | nil => simp [putScript, List.lookup_cons, beq_false_of_ne h]
  | cons entry rest ih =>
      obtain ⟨name, old⟩ := entry
      rw [putScript]
      split
      next hn =>
        subst hn
        rw [List.lookup_cons, List.lookup_cons, beq_false_of_ne h]
      next => rw [List.lookup_cons, List.lookup_cons, ih]

theorem script_edit_self (change : Script → Script) :
    (s.edit service change).script service = change (s.script service) := by
  simp [edit, script, lookup_putScript_self]

theorem script_edit_of_ne (h : other ≠ service) (change : Script → Script) :
    (s.edit service change).script other = s.script other := by
  simp [edit, script, lookup_putScript_of_ne h]

@[simp] theorem script_finish (work : Work) : (s.finish work).1.script other = s.script other := by
  cases work <;> rfl

/-! ## Answers -/

/-- The next question is answered by the script, and used up. -/
theorem nextProbe_of_after (h : s.script service = script.after n) :
    (s.nextProbe service).2 = script.answer n ∧
      (s.nextProbe service).1.script service = script.after (n + 1) := by
  have hprobes : (s.script service).probes = script.probes.drop n := by rw [h]; rfl
  have hfallback : (s.script service).fallback = script.fallback := by rw [h]; rfl
  unfold nextProbe
  dsimp only
  split
  next hnil =>
    rw [hprobes, List.drop_eq_nil_iff] at hnil
    refine ⟨?_, ?_⟩
    · rw [hfallback, Script.answer, List.getElem?_eq_none hnil]
      rfl
    · rw [h, Script.after, Script.after, List.drop_eq_nil_of_le hnil,
        List.drop_eq_nil_of_le (Nat.le_succ_of_le hnil)]
  next probe probes hcons =>
    rw [hprobes] at hcons
    have hget : script.probes[n]? = some probe := by
      rw [← List.head?_drop, hcons]
      rfl
    have hdrop : script.probes.drop (n + 1) = probes := by
      rw [← List.tail_drop, hcons]
      rfl
    refine ⟨by rw [Script.answer, hget]; rfl, ?_⟩
    rw [script_edit_self, h, Script.after, Script.after, hdrop]

theorem script_nextProbe_of_ne (h : other ≠ service) :
    (s.nextProbe service).1.script other = s.script other := by
  unfold nextProbe
  dsimp only
  split
  next => rfl
  next => exact script_edit_of_ne h _

/-- A start comes to what the script says, whatever happens between its two ends. -/
theorem finish_take_start {s' : State} {m : Nat} (now : Nat) (declared : Service)
    (volumes : List Volume) (h : s.script declared.id = script.after n)
    (h' : s'.script declared.id = script.after m) :
    (∃ error, script.fault = some error ∧
      (s'.finish (s.take now (.start declared volumes)).2.2).2 = .start (.error error)) ∨
    ∃ id, script.fault = none ∧
      (s'.finish (s.take now (.start declared volumes)).2.2).2 = .start (.ok ⟨declared.id, id⟩) := by
  have herror : (s.script declared.id).startError = script.startError := by rw [h]; rfl
  have hfault : (s'.script declared.id).startFault = script.startFault := by rw [h']; rfl
  simp only [take, Script.fault, herror]
  cases script.startError with
  | some error => exact .inl ⟨error, rfl, rfl⟩
  | none =>
      simp only [finish, hfault]
      cases script.startFault with
      | some error => exact .inl ⟨error, rfl, rfl⟩
      | none => exact .inr ⟨_, rfl, rfl⟩

end State

end Bringup.Engine.Scripted
