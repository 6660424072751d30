import Bringup.Graph.CycleSearch
import Bringup.Proofs.Graph.StartOrder
import Mathlib.Data.List.Nodup

/-!
# A cycle search that finds nothing

The first pass leaves every node: a walk is long enough to empty its stack (`Walk.stack_run`), what is on
the stack is left in the end, and what was discovered before is on the stack or left (`Walk.Kept`). On the
way no node has an edge to itself. So where the second pass finds no node out of place every edge leads
forward in the order (`idxOf_lt_of_edge`), and the graph has no cycles (`acyclic_of_cyclicNode?`). In which
order the walk takes the nodes does not matter for that.
-/

namespace Bringup.Digraph

variable {α : Type} {g : Digraph α}

/-! ## The walk -/

namespace Walk

variable {w w' : Walk} {n : Nat}

/-- What a step of a walk does: it leaves the next node, or discovers it. -/
theorem step_cases (h : w.step g = .ok w') :
    (w.stack = [] ∧ w' = w) ∨ ∃ n rest, w.stack = n :: rest ∧
      ((n ∈ w.discovered ∧ w' = { w with
          stack := rest
          finished := if n ∈ w.finished then w.finished else n :: w.finished }) ∨
        (n ∉ w.discovered ∧ n ∉ g.successors n ∧ ∃ fresh,
          fresh.length ≤ (g.successors n).length ∧
          (∀ m, m ∈ fresh ↔ m ∈ g.successors n ∧ m ∉ n :: w.discovered) ∧
          w' = { w with
            stack := fresh ++ w.stack
            discovered := n :: w.discovered })) := by
  unfold step at h
  split at h
  next hs => exact .inl ⟨hs, (Except.ok.inj h).symm⟩
  next n rest hs =>
    refine .inr ⟨n, rest, hs, ?_⟩
    split at h
    next hd => exact .inl ⟨hd, (Except.ok.inj h).symm⟩
    next hd =>
      split at h
      next => cases h
      next hloop =>
        refine .inr ⟨hd, hloop, _, ?_, fun m => ?_, (Except.ok.inj h).symm⟩
        · rw [List.length_reverse]
          exact List.length_filter_le _ _
        · rw [List.mem_reverse, List.mem_filter, decide_eq_true_iff]

theorem run_succ {count : Nat} (h : w.run g (count + 1) = .ok w') :
    ∃ next, w.step g = .ok next ∧ next.run g count = .ok w' := by
  rw [run] at h
  cases hs : w.step g with
  | error n =>
      rw [hs] at h
      cases h
  | ok next =>
      rw [hs] at h
      exact ⟨next, rfl, h⟩

/-- What a step keeps, a walk keeps. -/
theorem run_keeps {P : Walk → Prop} (keep : ∀ {w w' : Walk}, P w → w.step g = .ok w' → P w')
    {count : Nat} (hw : P w) (h : w.run g count = .ok w') : P w' := by
  induction count generalizing w with
  | zero => exact Except.ok.inj h ▸ hw
  | succ count ih =>
      obtain ⟨next, hs, h⟩ := run_succ h
      exact ih (keep hw hs) h

/-! ### A walk is long enough -/

/-- The nodes to discover, and the edges out of them. -/
def ahead (g : Digraph α) (discovered : List Nat) : Nat :=
  (List.range g.size).countP (· ∉ discovered) +
    (g.edges.map Prod.fst).countP (· ∉ discovered)

theorem length_successors (n : Nat) : (g.successors n).length = (g.edges.map Prod.fst).count n := by
  unfold successors
  induction g.edges with
  | nil => rfl
  | cons edge rest ih =>
      obtain ⟨source, target⟩ := edge
      by_cases hs : source = n <;> simp [hs, ih]

/-- To discover a node pays for what it puts on the stack. -/
theorem ahead_cons {discovered : List Nat} (hd : n ∉ discovered) (hn : n < g.size) :
    ahead g (n :: discovered) + (g.successors n).length + 1 = ahead g discovered := by
  have hnodes := countP_not_mem_cons hd (List.range g.size)
  have hedges := countP_not_mem_cons hd (g.edges.map Prod.fst)
  rw [List.count_eq_one_of_mem List.nodup_range (List.mem_range.2 hn)] at hnodes
  rw [length_successors, ahead, ahead]
  omega

theorem ahead_le (discovered : List Nat) : ahead g discovered ≤ g.size + g.edges.length := by
  have hnodes := (List.range g.size).countP_le_length (p := (· ∉ discovered))
  have hedges := (g.edges.map Prod.fst).countP_le_length (p := (· ∉ discovered))
  rw [List.length_range] at hnodes
  rw [List.length_map] at hedges
  exact Nat.add_le_add hnodes hedges

/-- **A walk that is as long as what lies ahead** empties its stack. -/
theorem stack_run (hg : g.Closed) {count : Nat} (hstack : ∀ n ∈ w.stack, n < g.size)
    (hcount : w.stack.length + ahead g w.discovered ≤ count) (h : w.run g count = .ok w') :
    w'.stack = [] := by
  induction count generalizing w with
  | zero =>
      obtain rfl := Except.ok.inj h
      exact List.length_eq_zero_iff.1 (by omega)
  | succ count ih =>
      obtain ⟨next, hs, h⟩ := run_succ h
      rcases step_cases hs with ⟨hnil, rfl⟩ | ⟨n, rest, he, ⟨-, rfl⟩ | ⟨hd, -, fresh, hlen, hmem, rfl⟩⟩
      · -- With an empty stack nothing happens any more.
        refine run_keeps (P := fun w => w.stack = []) (fun hw hs => ?_) hnil h
        rcases step_cases hs with ⟨-, rfl⟩ | ⟨n, rest, he, -⟩
        · exact hw
        · simp [hw] at he
      · rw [he] at hstack hcount
        refine ih (fun m hm => hstack m (List.mem_cons_of_mem _ hm)) ?_ h
        rw [List.length_cons] at hcount
        show rest.length + ahead g w.discovered ≤ count
        omega
      · have hn : n < g.size := hstack n (he ▸ List.mem_cons_self)
        refine ih (fun m hm => ?_) ?_ h
        · rcases List.mem_append.1 hm with hm | hm
          · exact (hg ((mem_successors g).1 ((hmem m).1 hm).1)).2
          · exact hstack m hm
        · have := ahead_cons hd hn
          show (fresh ++ w.stack).length + ahead g (n :: w.discovered) ≤ count
          rw [List.length_append]
          omega

/-! ### What a walk keeps -/

/-- The books of a walk. -/
structure Kept (g : Digraph α) (w : Walk) : Prop where
  /-- What was discovered is on the stack or left. -/
  left : ∀ n ∈ w.discovered, n ∈ w.stack ∨ n ∈ w.finished
  /-- No node that was left has an edge to itself. -/
  loopless : ∀ n ∈ w.discovered, n ∉ g.successors n
  found : ∀ n ∈ w.finished, n ∈ w.discovered

/-- What is on the stack stays there or is left, and what is left stays so. -/
theorem left_step (h : n ∈ w.stack ∨ n ∈ w.finished) (hs : w.step g = .ok w') :
    n ∈ w'.stack ∨ n ∈ w'.finished := by
  rcases step_cases hs with ⟨-, rfl⟩ | ⟨m, rest, he, ⟨-, rfl⟩ | ⟨-, -, fresh, -, -, rfl⟩⟩
  · exact h
  · rw [he, List.mem_cons] at h
    have hfinished : n ∈ (if m ∈ w.finished then w.finished else m :: w.finished) ↔
        n = m ∨ n ∈ w.finished := by
      split
      next hm => exact ⟨.inr, fun h => h.elim (fun he => he ▸ hm) id⟩
      next => exact List.mem_cons
    show n ∈ rest ∨ n ∈ (if m ∈ w.finished then w.finished else m :: w.finished)
    rw [hfinished]
    rcases h with (h | h) | h
    · exact .inr (.inl h)
    · exact .inl h
    · exact .inr (.inr h)
  · exact h.imp_left (List.mem_append_right _)

theorem Kept.step (h : Kept g w) (hs : w.step g = .ok w') : Kept g w' := by
  have hleft (m : Nat) (hm : m ∈ w.discovered) := left_step (h.left m hm) hs
  rcases step_cases hs with ⟨-, rfl⟩ | ⟨n, rest, he, ⟨hd, rfl⟩ | ⟨hd, hloop, fresh, -, -, rfl⟩⟩
  · exact h
  · refine ⟨hleft, h.loopless, fun m hm => ?_⟩
    dsimp only at hm
    split at hm
    next => exact h.found m hm
    next =>
      rcases List.mem_cons.1 hm with rfl | hm
      · exact hd
      · exact h.found m hm
  · refine ⟨fun m hm => ?_, fun m hm => ?_, fun m hm => List.mem_cons_of_mem _ (h.found m hm)⟩
    · rcases List.mem_cons.1 hm with rfl | hm
      · exact .inl (List.mem_append_right _ (he ▸ List.mem_cons_self))
      · exact hleft m hm
    · rcases List.mem_cons.1 hm with rfl | hm
      · exact hloop
      · exact h.loopless m hm

/-- A walk between two visits: nothing is on the stack. -/
structure Rests (g : Digraph α) (w : Walk) : Prop extends Kept g w where
  stack : w.stack = []

/-- **A visit leaves its node**, and all that were left before. -/
theorem Rests.visit (hg : g.Closed) (h : Rests g w) (hn : n < g.size) (hv : w.visit g n = .ok w') :
    Rests g w' ∧ n ∈ w'.finished ∧ ∀ m ∈ w.finished, m ∈ w'.finished := by
  unfold Walk.visit at hv
  split at hv
  next hd =>
    obtain rfl := Except.ok.inj hv
    exact ⟨h, (h.left n hd).resolve_left (by simp [h.stack]), fun m hm => hm⟩
  next hd =>
    have hkept : Kept g { w with stack := [n] } := by
      refine ⟨fun m hm => .inr ?_, h.loopless, h.found⟩
      exact (h.left m hm).resolve_left (by simp [h.stack])
    have hstack : w'.stack = [] := by
      refine stack_run hg (w := { w with stack := [n] }) ?_ ?_ hv
      · intro m hm
        exact List.mem_singleton.1 hm ▸ hn
      · have := ahead_le (g := g) w.discovered
        show 1 + ahead g w.discovered ≤ _
        omega
    have hleft {m : Nat} (hm : m ∈ [n] ∨ m ∈ w.finished) : m ∈ w'.finished := by
      have := run_keeps (P := fun w => m ∈ w.stack ∨ m ∈ w.finished) left_step hm hv
      exact this.resolve_left (by simp [hstack])
    exact ⟨⟨run_keeps Kept.step hkept hv, hstack⟩, hleft (.inl (List.mem_singleton.2 rfl)),
      fun m hm => hleft (.inr hm)⟩

/-- Visits of some nodes leave all of them. -/
theorem Rests.visits (hg : g.Closed) (h : Rests g w) {nodes : List Nat}
    (hn : ∀ n ∈ nodes, n < g.size) (hv : nodes.foldlM (Walk.visit g) w = .ok w') :
    Rests g w' ∧ (∀ n ∈ nodes, n ∈ w'.finished) ∧ ∀ m ∈ w.finished, m ∈ w'.finished := by
  induction nodes generalizing w with
  | nil =>
      rw [List.foldlM_nil] at hv
      obtain rfl := Except.ok.inj hv
      exact ⟨h, by simp, fun m hm => hm⟩
  | cons n rest ih =>
      rw [List.foldlM_cons] at hv
      cases hnext : w.visit g n with
      | error m =>
          rw [hnext] at hv
          cases hv
      | ok next =>
          rw [hnext] at hv
          obtain ⟨hrests, hself, hkept⟩ := h.visit hg (hn n List.mem_cons_self) hnext
          obtain ⟨hlast, hall, hmore⟩ := ih hrests (fun m hm => hn m (List.mem_cons_of_mem _ hm)) hv
          refine ⟨hlast, fun m hm => ?_, fun m hm => hmore m (hkept m hm)⟩
          rcases List.mem_cons.1 hm with rfl | hm
          · exact hmore m hself
          · exact hall m hm

end Walk

/-- **The first pass leaves every node**, and has met no edge from a node to itself. -/
theorem walkOrder_complete (hg : g.Closed) {order : List Nat} (h : g.walkOrder = .ok order) :
    ∀ n < g.size, n ∈ order ∧ ¬ g.Edge n n := by
  unfold walkOrder at h
  cases hw : (List.range g.size).foldlM (Walk.visit g) {} with
  | error n =>
      rw [hw] at h
      cases h
  | ok w =>
      rw [hw] at h
      obtain rfl := Except.ok.inj h
      have hempty : Walk.Rests g {} := ⟨⟨by simp, by simp, by simp⟩, rfl⟩
      obtain ⟨hrests, hall, -⟩ := hempty.visits hg (fun n hn => List.mem_range.1 hn) hw
      intro n hn
      have hleft := hall n (List.mem_range.2 hn)
      exact ⟨hleft, fun he => hrests.loopless n (hrests.found n hleft) ((mem_successors g).2 he)⟩

/-! ## The order of the walk -/

/-- Where no node is out of place each stands behind its predecessors, or is its own. -/
theorem mem_before_of_misplaced? {before order : List Nat} (h : g.misplaced? before order = none)
    {first behind : List Nat} {n m : Nat} (ho : order = first ++ n :: behind) (he : g.Edge m n) :
    m = n ∨ m ∈ first ∨ m ∈ before := by
  induction order generalizing before first with
  | nil => simp at ho
  | cons k rest ih =>
      rw [misplaced?] at h
      split at h
      next => cases h
      next hnone =>
        cases first with
        | nil =>
            obtain ⟨rfl, rfl⟩ := by simpa using ho
            rw [List.getLast?_eq_none_iff, List.filter_eq_nil_iff] at hnone
            have hm := hnone m ((mem_predecessors g).2 he)
            rw [decide_eq_true_iff, not_not] at hm
            exact (List.mem_cons.1 hm).imp_right .inr
        | cons k' first =>
            obtain ⟨rfl, rfl⟩ := by simpa using ho
            rcases ih h rfl with hm | hm | hm
            · exact .inl hm
            · exact .inr (.inl (List.mem_cons_of_mem _ hm))
            · rcases List.mem_cons.1 hm with rfl | hm
              · exact .inr (.inl List.mem_cons_self)
              · exact .inr (.inr hm)

/-- Every edge leads forward in the order of a walk in which no node is out of place. -/
theorem idxOf_lt_of_edge (hg : g.Closed) {order : List Nat} (hw : g.walkOrder = .ok order)
    (hm : g.misplaced? [] order = none) {n m : Nat} (he : g.Edge m n) :
    order.idxOf m < order.idxOf n := by
  obtain ⟨hn, hloop⟩ := walkOrder_complete hg hw n (hg he).2
  obtain ⟨first, behind, ho, hfirst⟩ := List.eq_append_cons_of_mem hn
  rcases mem_before_of_misplaced? hm ho he with rfl | hm | hm
  · exact absurd he hloop
  · rw [ho, List.idxOf_append_of_mem hm, List.idxOf_append_of_notMem hfirst, List.idxOf_cons_self]
    exact Nat.lt_of_lt_of_le (List.idxOf_lt_length_of_mem hm) (Nat.le_add_right _ _)
  · cases hm

/-- **Where the search finds nothing the graph has no cycles.** -/
theorem acyclic_of_cyclicNode? (hg : g.Closed) (h : g.cyclicNode? = none) : g.Acyclic := by
  unfold cyclicNode? at h
  split at h
  next => cases h
  next order hw =>
    have forward {m n : Nat} (h' : Relation.TransGen g.Edge m n) : order.idxOf m < order.idxOf n := by
      induction h' with
      | single he => exact idxOf_lt_of_edge hg hw h he
      | tail _ he ih => exact Nat.lt_trans ih (idxOf_lt_of_edge hg hw h he)
    exact fun n hn => Nat.lt_irrefl _ (forward hn)

end Bringup.Digraph
