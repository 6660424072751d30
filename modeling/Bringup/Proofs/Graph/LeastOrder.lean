import Bringup.Proofs.Graph.StartOrder
import Mathlib.Order.Bounds.Basic

/-!
# What the placing leaves over, and what it takes first

Besides its books the placing keeps its ready nodes in ascending order (`Placing.Kept.ascending`), so it
places at each step the lowest of the nodes that could come next (`earliest_run`). A node that is left
over in the end lies on a cycle or is reached from one, and all such nodes are left over
(`missing_run_pos`): the nodes that lie behind no cycle have a first one among those left over, whose
predecessors are then all placed. The counts are only ever lowered by edges that they count
(`Releases.pos`).
-/

namespace Bringup.Digraph

variable {α : Type} {g : Digraph α} {n m : Nat}

/-! ## The lowest ready node -/

theorem ascending_insertAscending {ns : List Nat} (h : ns.Pairwise (· ≤ ·)) :
    (insertAscending n ns).Pairwise (· ≤ ·) := by
  induction ns with
  | nil => simp [insertAscending]
  | cons m rest ih =>
      obtain ⟨hm, hrest⟩ := List.pairwise_cons.1 h
      rw [insertAscending]
      split
      next hlt =>
        refine List.pairwise_cons.2 ⟨fun k hk => ?_, ih hrest⟩
        rcases mem_insertAscending.1 hk with rfl | hk
        · exact Nat.le_of_lt hlt
        · exact hm k hk
      next hle =>
        have hle := Nat.le_of_not_lt hle
        refine List.pairwise_cons.2 ⟨fun k hk => ?_, h⟩
        rcases List.mem_cons.1 hk with rfl | hk
        · exact hle
        · exact Nat.le_trans hle (hm k hk)

namespace Placing

variable {p : Placing}

theorem ascending_foldl_release {edges : List Nat} (h : p.ready.Pairwise (· ≤ ·)) :
    (edges.foldl release p).ready.Pairwise (· ≤ ·) := by
  induction edges generalizing p with
  | nil => exact h
  | cons m rest ih =>
      refine ih (p := p.release m) ?_
      simp only [release]
      split
      · exact ascending_insertAscending h
      · exact h

/-- The ready nodes ascend, and each placed node was the lowest that could come next. -/
structure Lowest (g : Digraph α) (p : Placing) : Prop where
  ascending : p.ready.Pairwise (· ≤ ·)
  earliest : ∀ {later earlier : List Nat} {n m : Nat}, p.placed = later ++ n :: earlier →
    m < g.size → m ∉ earlier → (∀ k, g.Edge k m → k ∈ earlier) → n ≤ m

theorem Lowest.start : Lowest g g.placingStart where
  ascending := (List.pairwise_lt_range.imp Nat.le_of_lt).filter _
  earliest h := by simp [placingStart] at h

/-- A node is ready once all its predecessors are placed. -/
theorem Kept.mem_ready (h : Kept g p) (hn : n < g.size) (hplaced : n ∉ p.placed)
    (hall : ∀ m, g.Edge m n → m ∈ p.placed) : n ∈ p.ready := by
  refine ((h.mem n).2 ⟨hn, ?_⟩).resolve_right hplaced
  rw [h.count n hn, List.countP_eq_zero]
  intro m hm
  simpa using hall m ((mem_predecessors g).1 hm)

theorem Lowest.step (h : Lowest g p) (kept : Kept g p) : Lowest g (p.step g) := by
  unfold Placing.step
  split
  next => exact h
  next n ready hr =>
    have hascending := h.ascending
    rw [hr, List.pairwise_cons] at hascending
    refine ⟨ascending_foldl_release hascending.2, fun {later earlier k m} he hm hnot hall => ?_⟩
    rw [placed_foldl_release] at he
    cases later with
    | nil =>
        rw [List.nil_append, List.cons.injEq] at he
        obtain ⟨rfl, rfl⟩ := he
        have hready := kept.mem_ready hm hnot hall
        rw [hr, List.mem_cons] at hready
        rcases hready with rfl | hready
        · exact Nat.le_refl _
        · exact hascending.1 m hready
    | cons k' later =>
        rw [List.cons_append, List.cons.injEq] at he
        exact h.earliest he.2 hm hnot hall

theorem Lowest.run (h : Lowest g p) (kept : Kept g p) (hg : g.Closed) (count : Nat) :
    Lowest g (p.run g count) := by
  induction count generalizing p with
  | zero => exact h
  | succ count ih => exact ih (h.step kept) (kept.step hg)

end Placing

/-- **At each step the lowest node comes** whose predecessors are all placed. -/
theorem startOrder_earliest (hg : g.Closed) {order before behind : List Nat}
    (h : g.startOrder = .ok order) (ho : order = before ++ n :: behind) (hm : m < g.size)
    (hnot : m ∉ before) (hall : ∀ k, g.Edge k m → k ∈ before) : n ≤ m := by
  obtain ⟨rfl, -⟩ := startOrder_eq h
  have lowest := Placing.Lowest.start.run Placing.Kept.start hg g.size
  have hp : (g.placingStart.run g g.size).placed = behind.reverse ++ n :: before.reverse := by
    rw [← List.reverse_reverse (Placing.placed _), ho]
    simp
  exact lowest.earliest hp hm (by simpa using hnot) (by simpa using hall)

/-! ## What the search for an order answers -/

theorem startOrder_eq_error (hg : g.Closed) :
    g.startOrder = .error n ↔ IsLeast {n | g.Stuck n} n := by
  have kept := Placing.Kept.start.run hg g.size
  have left (k : Nat) : g.Stuck k ↔ ∃ hk : k < (g.placingStart.run g g.size).missing.length,
      0 < (g.placingStart.run g g.size).missing[k] := by
    constructor
    · intro hk
      have hlt := Nat.lt_of_lt_of_eq (hk.lt hg) kept.length.symm
      have hpos := (missing_run_pos hg (hk.lt hg)).2 hk
      exact ⟨hlt, by simpa [List.getD, hlt] using hpos⟩
    · rintro ⟨hlt, hpos⟩
      exact (missing_run_pos hg (Nat.lt_of_lt_of_eq hlt kept.length)).1 (by simpa [List.getD, hlt] using hpos)
  have hfirst : g.startOrder = .error n ↔
      (g.placingStart.run g g.size).missing.findIdx? (0 < ·) = some n := by
    simp only [startOrder]
    cases (g.placingStart.run g g.size).missing.findIdx? (0 < ·) <;> simp
  rw [hfirst, List.findIdx?_eq_some_iff_getElem]
  constructor
  · rintro ⟨hlt, hpos, hbelow⟩
    refine ⟨(left n).2 ⟨hlt, of_decide_eq_true hpos⟩, fun k hk => ?_⟩
    obtain ⟨hklt, hkpos⟩ := (left k).1 hk
    by_contra hkn
    exact hbelow k (Nat.lt_of_not_le hkn) (decide_eq_true hkpos)
  · rintro ⟨hn, hleast⟩
    obtain ⟨hlt, hpos⟩ := (left n).1 hn
    refine ⟨hlt, decide_eq_true hpos, fun k hk hkpos => ?_⟩
    have hstuck : g.Stuck k := (left k).2 ⟨Nat.lt_trans hk hlt, of_decide_eq_true hkpos⟩
    exact Nat.not_le_of_lt hk (hleast hstuck)

/-- **The graph has a start order just if it has no cycle.** -/
theorem exists_startOrder_iff (hg : g.Closed) : (∃ order, g.startOrder = .ok order) ↔ g.Acyclic := by
  refine ⟨fun ⟨order, ho⟩ => acyclic_iff.2 fun n hn => ?_, exists_startOrder hg⟩
  have hpos := (missing_run_pos hg (hn.lt hg)).2 hn
  rw [(startOrder_eq ho).2 n] at hpos
  exact Nat.lt_irrefl 0 hpos

/-! ## Counting down -/

theorem Placing.Due.of_append {missing edges edges' : List Nat} (h : Due missing (edges ++ edges')) :
    Due missing edges where
  lt n hn := h.lt n (List.mem_append_left _ hn)
  count n := by
    have hcount := h.count n
    rw [List.count_append] at hcount
    exact Nat.le_trans (Nat.le_add_right _ _) hcount

/-- A moment of the placing at which an edge into a node is taken off its count. -/
def Releases (g : Digraph α) (p : Placing) (m : Nat) : Prop :=
  ∃ count n ready before behind, (g.placingStart.run g count).ready = n :: ready ∧
    g.successors n = before ++ m :: behind ∧
    p = before.foldl Placing.release { g.placingStart.run g count with
      ready, placed := n :: (g.placingStart.run g count).placed }

/-- **An edge that is taken off a count was counted.** -/
theorem Releases.pos (hg : g.Closed) {p : Placing} (h : g.Releases p m) :
    0 < p.missing.getD m 0 := by
  obtain ⟨count, n, ready, before, behind, hr, hs, rfl⟩ := h
  have kept := Placing.Kept.start.run hg count
  have hdue : Placing.Due ({ g.placingStart.run g count with
      ready, placed := n :: (g.placingStart.run g count).placed } : Placing).missing
      (before ++ m :: behind) := hs ▸ kept.due hg (kept.lowest hr).2.1
  have hbefore := hdue.of_append
  have hcount := hdue.count m
  rw [List.count_append, List.count_cons_self] at hcount
  rw [Placing.missing_foldl_release hbefore]
  omega

end Bringup.Digraph
