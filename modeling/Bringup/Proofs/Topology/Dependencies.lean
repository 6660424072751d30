import Bringup.Proofs.Topology.Built
import Mathlib.Data.List.Induction
import Mathlib.Data.List.Nodup

/-!
# Along the dependencies

The dependencies of a built topology go round in no circle, so what holds of a service once it holds of
all that the service depends on holds of every service (`Built.induct`). And the services stop in an
order in which each comes behind what depends on it (`Built.stopOrder`).
-/

namespace Bringup.Topology

variable {t : Topology}

theorem mem_dependents {s e : Fin t.size} : e ∈ t.dependents s ↔ s ∈ t.dependencies e := by
  rw [dependents, mem_positions, List.mem_mergeSort, Digraph.mem_successors, mem_dependencies]

namespace Built

/-- **Induction along the dependencies**: what holds of a service once it holds of all that the service
depends on holds of every service. -/
theorem induct {P : Fin t.size → Prop} (h : Built t)
    (step : ∀ s, (∀ d ∈ t.dependencies s, P d) → P s) (s : Fin t.size) : P s := by
  obtain ⟨order, -, -, hmem, hafter⟩ := h.startOrder
  have hbefore (before behind : List (Fin t.size)) (he : order = before ++ behind) :
      ∀ s ∈ before, P s := by
    induction before using List.reverseRecOn generalizing behind with
    | nil => simp
    | append_singleton before s ih =>
        have he' : order = before ++ s :: behind := by simpa using he
        have hP := ih (s :: behind) he'
        intro s' hs'
        rcases List.mem_append.1 hs' with hs' | hs'
        · exact hP s' hs'
        · rw [List.mem_singleton.1 hs']
          exact step s fun d hd => hP d (hafter he' d hd)
  exact hbefore order [] (by simp) s (hmem s)

/-- **The order in which the services stop** has every service once, and each behind what depends on
it. -/
theorem stopOrder (h : Built t) : ∃ order, t.stopOrder = .ok order ∧ order.Nodup ∧
    (∀ s, s ∈ order) ∧ ∀ s, ∀ e ∈ t.dependents s, order.idxOf e < order.idxOf s := by
  obtain ⟨starts, hstarts, hnodup, hmem, hafter⟩ := h.startOrder
  refine ⟨starts.reverse, by rw [Topology.stopOrder, hstarts]; rfl, List.nodup_reverse.2 hnodup,
    fun s => List.mem_reverse.2 (hmem s), fun s e he => ?_⟩
  obtain ⟨before, behind, hsplit⟩ := List.append_of_mem (hmem e)
  have hs := hafter hsplit s (mem_dependents.1 he)
  rw [hsplit, List.nodup_append, List.nodup_cons] at hnodup
  obtain ⟨-, ⟨hbehind, -⟩, hdisjoint⟩ := hnodup
  have hne : e ≠ s := fun heq => hdisjoint s hs e List.mem_cons_self heq.symm
  have hsb : s ∉ behind.reverse := fun hm =>
    hdisjoint s hs s (List.mem_cons_of_mem _ (List.mem_reverse.1 hm)) rfl
  have heb : e ∉ behind.reverse := fun hm => hbehind (List.mem_reverse.1 hm)
  rw [hsplit, List.reverse_append, List.reverse_cons, List.append_assoc, List.singleton_append,
    List.idxOf_append_of_notMem heb, List.idxOf_append_of_notMem hsb, List.idxOf_cons_self,
    List.idxOf_cons_ne _ hne]
  omega

end Built

end Bringup.Topology
