import Bringup.Graph.StartOrder
import Mathlib.Order.WellFoundedSet

/-!
# The start order is complete and topological

Placing keeps its books: the count of a node is the number of edges into it from nodes that are not
placed, and the nodes that are ready or placed are just those with a count of zero (`Placing.Kept`).
Each step places one ready node, so it stops early only when no node is ready. When all counts are
zero in the end, then no node is ready any more, since there are no more nodes than steps; so all
are placed, each behind its predecessors (`mem_startOrder`, `startOrder_after`). A node whose count is
not zero in the end has a predecessor of which this holds too, so it lies behind a cycle
(`exists_startOrder`).
-/

namespace Bringup.Digraph

variable {α : Type} {g : Digraph α}

/-! ## Inserting -/

@[simp] theorem mem_insertAscending {n x : Nat} {ns : List Nat} :
    x ∈ insertAscending n ns ↔ x = n ∨ x ∈ ns := by
  induction ns with
  | nil => simp [insertAscending]
  | cons m rest ih =>
      rw [insertAscending]
      split
      · rw [List.mem_cons, ih, List.mem_cons]
        exact ⟨fun h => h.elim (fun h => .inr (.inl h)) (fun h => h.imp_right .inr),
          fun h => h.elim (fun h => .inr (.inl h)) (fun h => h.imp_right .inr)⟩
      · rw [List.mem_cons]

theorem nodup_insertAscending {n : Nat} {ns : List Nat} (hn : n ∉ ns) (h : ns.Nodup) :
    (insertAscending n ns).Nodup := by
  induction ns with
  | nil => simp [insertAscending]
  | cons m rest ih =>
      rw [insertAscending]
      split
      · rw [List.nodup_cons] at h ⊢
        rw [List.mem_cons, not_or] at hn
        refine ⟨?_, ih hn.2 h.2⟩
        rw [mem_insertAscending, not_or]
        exact ⟨fun e => hn.1 e.symm, h.1⟩
      · exact List.nodup_cons.2 ⟨hn, h⟩

namespace Placing

variable {p : Placing} {edges : List Nat}

/-! ## Releasing edges -/

theorem missing_release {m : Nat} (hm : m < p.missing.length) (n : Nat) :
    (p.release m).missing.getD n 0 = p.missing.getD n 0 - if m == n then 1 else 0 := by
  simp only [release]
  by_cases h : m = n
  · subst h
    simp [List.getD, hm]
  · simp [List.getD, List.getElem?_set_ne h, h]

@[simp] theorem length_missing_release (m : Nat) :
    (p.release m).missing.length = p.missing.length := by
  simp [release]

theorem mem_ready_release {m : Nat} (hm : 0 < p.missing.getD m 0) (n : Nat) :
    n ∈ (p.release m).ready ↔ n ∈ p.ready ∨ (n = m ∧ p.missing.getD m 0 = 1) := by
  simp only [release]
  split
  next hz =>
    have hone : p.missing.getD m 0 = 1 := by omega
    rw [mem_insertAscending, or_comm]
    exact or_congr_right (iff_self_and.2 fun _ => hone)
  next hz =>
    have hone : p.missing.getD m 0 ≠ 1 := by omega
    exact ⟨.inl, fun h => h.resolve_right fun h => hone h.2⟩

theorem nodup_ready_release {m : Nat} (hm : m ∉ p.ready) (h : p.ready.Nodup) :
    (p.release m).ready.Nodup := by
  simp only [release]
  split
  · exact nodup_insertAscending hm h
  · exact h

/-- Edges that can be released: they lead to nodes of which at least as many edges are counted. -/
structure Due (missing edges : List Nat) : Prop where
  lt : ∀ n ∈ edges, n < missing.length
  count : ∀ n, edges.count n ≤ missing.getD n 0

theorem Due.pos {missing : List Nat} (h : Due missing edges) {n : Nat} (hn : n ∈ edges) :
    0 < missing.getD n 0 :=
  Nat.lt_of_lt_of_le (List.count_pos_iff.2 hn) (h.count n)

theorem Due.tail {m : Nat} (h : Due p.missing (m :: edges)) : Due (p.release m).missing edges where
  lt n hn := by simpa using h.lt n (List.mem_cons_of_mem m hn)
  count n := by
    have hcount := h.count n
    rw [List.count_cons] at hcount
    rw [missing_release (h.lt m List.mem_cons_self)]
    omega

@[simp] theorem placed_foldl_release : (edges.foldl release p).placed = p.placed := by
  induction edges generalizing p with
  | nil => rfl
  | cons m rest ih =>
      rw [List.foldl_cons, ih]
      rfl

@[simp] theorem length_missing_foldl_release :
    (edges.foldl release p).missing.length = p.missing.length := by
  induction edges generalizing p with
  | nil => rfl
  | cons m rest ih => rw [List.foldl_cons, ih, length_missing_release]

/-- Releasing edges takes them off the counts. -/
theorem missing_foldl_release (h : Due p.missing edges) (n : Nat) :
    (edges.foldl release p).missing.getD n 0 = p.missing.getD n 0 - edges.count n := by
  induction edges generalizing p with
  | nil => rfl
  | cons m rest ih =>
      rw [List.foldl_cons, ih h.tail, missing_release (h.lt m List.mem_cons_self), List.count_cons]
      omega

/-- Releasing edges makes the nodes ready whose last edge is among them. -/
theorem mem_ready_foldl_release (h : Due p.missing edges) (n : Nat) :
    n ∈ (edges.foldl release p).ready ↔
      n ∈ p.ready ∨ (n ∈ edges ∧ p.missing.getD n 0 = edges.count n) := by
  induction edges generalizing p with
  | nil => simp
  | cons m rest ih =>
      rw [List.foldl_cons, ih h.tail, mem_ready_release (h.pos List.mem_cons_self),
        missing_release (h.lt m List.mem_cons_self), List.count_cons, List.mem_cons, or_assoc]
      apply or_congr_right
      by_cases hn : n = m
      · subst hn
        have hcount := h.count n
        rw [List.count_cons_self] at hcount
        simp only [true_and, true_or, beq_self_eq_true, if_true]
        -- The edge released last is this one, or one of those that are left.
        by_cases hr : n ∈ rest
        · have hpos := List.count_pos_iff.2 hr
          simp only [hr, true_and]
          omega
        · rw [List.count_eq_zero.2 hr]
          simp [hr]
      · have hbeq : (m == n) = false := beq_false_of_ne (Ne.symm hn)
        simp [hn, hbeq]

theorem nodup_ready_foldl_release (h : Due p.missing edges) (hready : ∀ n ∈ p.ready, n ∉ edges)
    (hnodup : p.ready.Nodup) : (edges.foldl release p).ready.Nodup := by
  induction edges generalizing p with
  | nil => exact hnodup
  | cons m rest ih =>
      have hm : m ∉ p.ready := fun hr => hready m hr List.mem_cons_self
      refine ih h.tail (?_) (nodup_ready_release hm hnodup)
      intro n hn hr
      rcases (mem_ready_release (h.pos List.mem_cons_self) n).1 hn with hn | ⟨rfl, hone⟩
      · exact hready n hn (List.mem_cons_of_mem m hr)
      · have hcount := h.count n
        have hpos := List.count_pos_iff.2 hr
        rw [List.count_cons_self] at hcount
        omega

end Placing

/-! ## The books -/

/-- All edges lead between nodes of the graph. -/
def Closed (g : Digraph α) : Prop := ∀ {n m : Nat}, g.Edge n m → n < g.size ∧ m < g.size

theorem count_successors (n m : Nat) : (g.successors n).count m = (g.predecessors m).count n := by
  unfold successors predecessors
  induction g.edges with
  | nil => rfl
  | cons edge rest ih =>
      obtain ⟨source, target⟩ := edge
      rw [List.filterMap_cons, List.filterMap_cons]
      by_cases hs : source = n <;> by_cases ht : target = m <;>
        simp [hs, ht, ih]

theorem countP_not_mem_cons {n : Nat} {placed : List Nat} (hn : n ∉ placed) (ns : List Nat) :
    ns.countP (fun m => m ∉ n :: placed) + ns.count n = ns.countP fun m => m ∉ placed := by
  induction ns with
  | nil => rfl
  | cons m rest ih =>
      simp only [List.mem_cons] at ih
      by_cases h : m = n
      · subst h
        simp only [List.countP_cons, List.count_cons_self, List.mem_cons, true_or, not_true,
          decide_false, hn, not_false_eq_true, decide_true, if_true, Bool.false_eq_true, if_false]
        omega
      · simp only [List.countP_cons, List.count_cons_of_ne h, List.mem_cons, h, false_or]
        omega

/-- The books of the placing. -/
structure Placing.Kept (g : Digraph α) (p : Placing) : Prop where
  length : p.missing.length = g.size
  count : ∀ n < g.size, p.missing.getD n 0 = (g.predecessors n).countP fun m => m ∉ p.placed
  mem : ∀ n, n ∈ p.ready ∨ n ∈ p.placed ↔ n < g.size ∧ p.missing.getD n 0 = 0
  nodup : (p.ready ++ p.placed).Nodup
  /-- Each node was placed after its predecessors. -/
  after : ∀ {later earlier : List Nat} {n m : Nat}, p.placed = later ++ n :: earlier →
    g.Edge m n → m ∈ earlier

namespace Placing.Kept

variable {p : Placing}

theorem start : Kept g g.placingStart where
  length := by simp [placingStart]
  count n hn := by simp [placingStart, hn, List.getD]
  mem n := by
    simp only [placingStart, List.mem_filter, List.mem_range, decide_eq_true_eq, List.not_mem_nil,
      or_false]
  nodup := by
    rw [placingStart, List.append_nil]
    exact List.nodup_range.filter _
  after h := by simp [placingStart] at h

/-- The edges out of a node that is not placed are counted. -/
theorem due (h : Kept g p) (hg : g.Closed) {n : Nat} (hn : n ∉ p.placed) :
    Placing.Due p.missing (g.successors n) where
  lt m hm := by
    rw [h.length]
    exact (hg ((mem_successors g).1 hm)).2
  count m := by
    by_cases hm : m ∈ g.successors n
    · rw [h.count m (hg ((mem_successors g).1 hm)).2, ← countP_not_mem_cons hn, count_successors]
      exact Nat.le_add_left _ _
    · rw [List.count_eq_zero.2 hm]
      exact Nat.zero_le _

/-- A node whose edges are counted is neither ready nor placed. -/
theorem not_mem_of_pos (h : Kept g p) {n : Nat} (hn : 0 < p.missing.getD n 0) :
    n ∉ p.ready ∧ n ∉ p.placed := by
  rw [← not_or, h.mem]
  rintro ⟨-, hz⟩
  omega

section

variable (h : Kept g p) (hg : g.Closed) {n : Nat} {ready : List Nat} (hr : p.ready = n :: ready)

include h hr

/-- The lowest ready node is placed nowhere, and ready only once. -/
theorem lowest : n ∉ ready ∧ n ∉ p.placed ∧ (ready ++ p.placed).Nodup := by
  have hnodup := h.nodup
  rw [hr, List.cons_append, List.nodup_cons, List.mem_append, not_or] at hnodup
  exact ⟨hnodup.1.1, hnodup.1.2, hnodup.2⟩

include hg

theorem mem_step (m : Nat) :
    m ∈ ((g.successors n).foldl Placing.release { p with ready, placed := n :: p.placed }).ready ∨
      m ∈ n :: p.placed ↔ m < g.size ∧ p.missing.getD m 0 - (g.successors n).count m = 0 := by
  obtain ⟨-, hnp, -⟩ := h.lowest hr
  have hdue : Placing.Due ({ p with ready, placed := n :: p.placed } : Placing).missing
      (g.successors n) := h.due hg hnp
  have hmem := h.mem m
  rw [hr, List.mem_cons] at hmem
  rw [Placing.mem_ready_foldl_release hdue, List.mem_cons]
  by_cases hs : m ∈ g.successors n
  · -- An edge into the node is released: it was neither ready nor placed.
    have hlt := (hg ((mem_successors g).1 hs)).2
    have hcount : (g.successors n).count m ≤ p.missing.getD m 0 := hdue.count m
    obtain ⟨hmr, hmp⟩ := h.not_mem_of_pos (hdue.pos hs)
    rw [hr, List.mem_cons, not_or] at hmr
    simp only [hs, hmr, hmp, hlt, true_and, false_or, or_false]
    omega
  · rw [List.count_eq_zero.2 hs, Nat.sub_zero, ← hmem]
    simp only [hs, false_and, or_false]
    rw [or_left_comm, or_assoc]

theorem nodup_step :
    (((g.successors n).foldl Placing.release { p with ready, placed := n :: p.placed }).ready
      ++ n :: p.placed).Nodup := by
  obtain ⟨hnr, hnp, hnodup⟩ := h.lowest hr
  obtain ⟨hready, hplaced, hdisjoint⟩ := List.nodup_append.1 hnodup
  have hdue : Placing.Due ({ p with ready, placed := n :: p.placed } : Placing).missing
      (g.successors n) := h.due hg hnp
  have hnew {m : Nat} (hm : m ∈ g.successors n) : m ∉ ready ∧ m ∉ p.placed := by
    obtain ⟨hmr, hmp⟩ := h.not_mem_of_pos (hdue.pos hm)
    rw [hr, List.mem_cons, not_or] at hmr
    exact ⟨hmr.2, hmp⟩
  refine List.nodup_append.2 ⟨?_, List.nodup_cons.2 ⟨hnp, hplaced⟩, ?_⟩
  · exact Placing.nodup_ready_foldl_release hdue (fun m hm hs => (hnew hs).1 hm) hready
  · intro a ha b hb
    rintro rfl
    rcases (Placing.mem_ready_foldl_release hdue a).1 ha with har | ⟨has, hac⟩
    · rcases List.mem_cons.1 hb with rfl | hap
      · exact hnr har
      · exact hdisjoint a har a hap rfl
    · rcases List.mem_cons.1 hb with rfl | hap
      · exact (h.not_mem_of_pos (hdue.pos has)).1 (hr ▸ List.mem_cons_self)
      · exact (hnew has).2 hap

end

/-- **Placing a node keeps the books.** -/
theorem step (h : Kept g p) (hg : g.Closed) : Kept g (p.step g) := by
  unfold Placing.step
  split
  next => exact h
  next n ready hr =>
    obtain ⟨-, hnp, -⟩ := h.lowest hr
    have hdue : Placing.Due ({ p with ready, placed := n :: p.placed } : Placing).missing
        (g.successors n) := h.due hg hnp
    constructor
    case length =>
      rw [Placing.length_missing_foldl_release]
      exact h.length
    case count =>
      intro m hm
      rw [Placing.missing_foldl_release hdue, Placing.placed_foldl_release, h.count m hm,
        ← countP_not_mem_cons hnp, count_successors]
      exact Nat.add_sub_cancel _ _
    case mem =>
      intro m
      rw [Placing.missing_foldl_release hdue, Placing.placed_foldl_release]
      exact h.mem_step hg hr m
    case nodup =>
      rw [Placing.placed_foldl_release]
      exact h.nodup_step hg hr
    case after =>
      intro later earlier k m he hmk
      rw [Placing.placed_foldl_release] at he
      cases later with
      | nil =>
          rw [List.nil_append, List.cons.injEq] at he
          obtain ⟨rfl, rfl⟩ := he
          -- A ready node misses no edge, so all its predecessors are placed.
          obtain ⟨hn, hzero⟩ := (h.mem n).1 (.inl (hr ▸ List.mem_cons_self))
          have hall := h.count n hn
          rw [hzero, eq_comm, List.countP_eq_zero] at hall
          simpa using hall m ((mem_predecessors g).2 hmk)
      | cons k' later =>
          rw [List.cons_append, List.cons.injEq] at he
          exact h.after he.2 hmk

theorem run (h : Kept g p) (hg : g.Closed) (count : Nat) : Kept g (p.run g count) := by
  induction count generalizing p with
  | zero => exact h
  | succ count ih => exact ih (h.step hg)

end Placing.Kept

theorem Placing.run_of_ready_nil {p : Placing} (h : p.ready = []) (count : Nat) :
    p.run g count = p := by
  induction count with
  | zero => rfl
  | succ count ih => rw [run, step, h, ih]

/-- As long as there are ready nodes, each step places one. -/
theorem Placing.length_placed_run (p : Placing) (count : Nat) :
    (p.run g count).ready = [] ∨ (p.run g count).placed.length = p.placed.length + count := by
  induction count generalizing p with
  | zero => exact .inr rfl
  | succ count ih =>
      rw [run]
      cases hr : p.ready with
      | nil =>
          have hs : p.step g = p := by rw [step, hr]
          rw [hs, run_of_ready_nil hr]
          exact .inl hr
      | cons n ready =>
          apply (ih (p.step g)).imp_right
          intro h
          rw [h]
          simp only [step, hr, placed_foldl_release, List.length_cons]
          omega

/-! ## The order -/

theorem startOrder_eq {order : List Nat} (h : g.startOrder = .ok order) :
    order = (g.placingStart.run g g.size).placed.reverse ∧
      ∀ n, (g.placingStart.run g g.size).missing.getD n 0 = 0 := by
  simp only [startOrder] at h
  split at h
  next => cases h
  next hnone =>
    refine ⟨(Except.ok.inj h).symm, ?_⟩
    intro n
    rw [List.findIdx?_eq_none_iff] at hnone
    rw [List.getD]
    cases hn : (g.placingStart.run g g.size).missing[n]? with
    | none => rfl
    | some m => simpa using hnone m (List.mem_of_getElem? hn)

/-- In the end no node is ready: more ready nodes would make more nodes than there are. -/
theorem ready_run (hg : g.Closed) : (g.placingStart.run g g.size).ready = [] := by
  have kept := Placing.Kept.start.run hg g.size
  rcases Placing.length_placed_run g.placingStart g.size with hr | hl
  · exact hr
  · have hsub : (g.placingStart.run g g.size).ready ++ (g.placingStart.run g g.size).placed
        ⊆ List.range g.size := by
      intro n hn
      exact List.mem_range.2 ((kept.mem n).1 (List.mem_append.1 hn)).1
    have hle := kept.nodup.length_le_of_subset hsub
    rw [List.length_append, hl, List.length_range] at hle
    exact List.length_eq_zero_iff.1 (by omega)

/-- **The start order is complete**: it has every node once. -/
theorem mem_startOrder (hg : g.Closed) {order : List Nat} (h : g.startOrder = .ok order) :
    order.Nodup ∧ ∀ n, n ∈ order ↔ n < g.size := by
  obtain ⟨rfl, hzero⟩ := startOrder_eq h
  have kept := Placing.Kept.start.run hg g.size
  have hready := ready_run hg
  refine ⟨List.pairwise_reverse.2 ((List.nodup_append.1 kept.nodup).2.1.imp Ne.symm), ?_⟩
  intro n
  have := kept.mem n
  rw [hready, hzero] at this
  simpa using this

/-- **The start order is topological**: each node stands behind its predecessors. -/
theorem startOrder_after (hg : g.Closed) {order before behind : List Nat} {n m : Nat}
    (h : g.startOrder = .ok order) (ho : order = before ++ n :: behind) (he : g.Edge m n) :
    m ∈ before := by
  obtain ⟨rfl, -⟩ := startOrder_eq h
  have kept := Placing.Kept.start.run hg g.size
  have hp : (g.placingStart.run g g.size).placed = behind.reverse ++ n :: before.reverse := by
    rw [← List.reverse_reverse (Placing.placed _), ho]
    simp
  simpa using kept.after hp he

/-! ## Cycles -/

/-- No node is reached from itself. -/
def Acyclic (g : Digraph α) : Prop := ∀ n, ¬ Relation.TransGen g.Edge n n

/-- The node lies on a cycle, or is reached from one. -/
def Stuck (g : Digraph α) (n : Nat) : Prop :=
  ∃ m, Relation.TransGen g.Edge m m ∧ Relation.ReflTransGen g.Edge m n

theorem Stuck.lt (hg : g.Closed) {n : Nat} (h : g.Stuck n) : n < g.size := by
  obtain ⟨m, hm, hmn⟩ := h
  obtain ⟨k, -, he⟩ := Relation.TransGen.tail'_iff.1 (hm.trans_left hmn)
  exact (hg he).2

theorem acyclic_iff : g.Acyclic ↔ ∀ n, ¬ g.Stuck n :=
  ⟨fun h _ ⟨m, hm, _⟩ => h m hm, fun h n hn => h n ⟨n, hn, .refl⟩⟩

/-- Of some nodes behind no cycle one has no predecessor among them. -/
theorem exists_source (hg : g.Closed) {P : Nat → Prop} (hfree : ∀ {n}, P n → ¬ g.Stuck n) {n : Nat}
    (hn : n < g.size) (hP : P n) : ∃ n < g.size, P n ∧ ∀ m, g.Edge m n → ¬ P m := by
  -- Reachability is a strict order where it leads to nodes behind no cycle.
  have strict : IsStrictOrder Nat fun m n => Relation.TransGen g.Edge m n ∧ ¬ g.Stuck n :=
    { irrefl := fun m h => h.2 ⟨m, h.1, .refl⟩
      trans := fun _ _ _ h h' => ⟨h.1.trans h'.1, h'.2⟩ }
  have finite : {n | n < g.size ∧ P n}.Finite :=
    (Set.finite_lt_nat g.size).subset fun n hn => hn.1
  obtain ⟨n, hn, hmin⟩ := (Set.Finite.wellFoundedOn
    (r := fun m n => Relation.TransGen g.Edge m n ∧ ¬ g.Stuck n) finite).has_min
    Set.univ ⟨⟨n, hn, hP⟩, trivial⟩
  exact ⟨n, n.2.1, n.2.2, fun m he hm =>
    hmin ⟨m, (hg he).1, hm⟩ trivial ⟨.single he, hfree n.2.2⟩⟩

/-- Of two placed nodes the one from which the other is reached was placed before. -/
theorem Placing.Kept.idxOf_lt {p : Placing} (h : Kept g p) {n m : Nat}
    (hr : Relation.TransGen g.Edge m n) (hn : n ∈ p.placed) :
    m ∈ p.placed ∧ p.placed.idxOf n < p.placed.idxOf m := by
  have edge {n m : Nat} (he : g.Edge m n) (hn : n ∈ p.placed) :
      m ∈ p.placed ∧ p.placed.idxOf n < p.placed.idxOf m := by
    obtain ⟨later, earlier, hp, hlater⟩ := List.eq_append_cons_of_mem hn
    have hm := h.after hp he
    have hnodup := (List.nodup_append.1 h.nodup).2.1
    rw [hp, List.nodup_append, List.nodup_cons] at hnodup
    obtain ⟨-, ⟨hne, -⟩, hdisjoint⟩ := hnodup
    have hmlater : m ∉ later := fun hl => hdisjoint m hl m (List.mem_cons_of_mem _ hm) rfl
    rw [hp, List.idxOf_append_of_notMem hlater, List.idxOf_append_of_notMem hmlater,
      List.idxOf_cons_self, List.idxOf_cons_ne _ (ne_of_mem_of_not_mem hm hne).symm]
    exact ⟨List.mem_append_right _ (List.mem_cons_of_mem _ hm), by omega⟩
  induction hr using Relation.TransGen.head_induction_on with
  | single he => exact edge he hn
  | head he _ ih =>
      obtain ⟨hk, hlt⟩ := ih
      obtain ⟨hm, hlt'⟩ := edge he hk
      exact ⟨hm, Nat.lt_trans hlt hlt'⟩

/-- **The nodes that are left over** are those on a cycle and those reached from one. -/
theorem missing_run_pos (hg : g.Closed) {n : Nat} (hn : n < g.size) :
    0 < (g.placingStart.run g g.size).missing.getD n 0 ↔ g.Stuck n := by
  have kept := Placing.Kept.start.run hg g.size
  have hready := ready_run hg
  have placed_of_zero {n : Nat} (hn : n < g.size)
      (hzero : (g.placingStart.run g g.size).missing.getD n 0 = 0) :
      n ∈ (g.placingStart.run g g.size).placed := by
    have hmem := (kept.mem n).2 ⟨hn, hzero⟩
    rwa [hready, or_iff_right List.not_mem_nil] at hmem
  constructor
  · intro hpos
    by_contra hfree
    obtain ⟨n, hn, ⟨hpos, hfree⟩, hsource⟩ := exists_source hg
      (P := fun n => 0 < (g.placingStart.run g g.size).missing.getD n 0 ∧ ¬ g.Stuck n)
      (fun h => h.2) hn ⟨hpos, hfree⟩
    -- An edge into the node is missing still, and so is one into the node where it comes from.
    rw [kept.count n hn] at hpos
    obtain ⟨m, hm, hplaced⟩ := List.countP_pos_iff.1 hpos
    have he := (mem_predecessors g).1 hm
    refine hsource m he ⟨Nat.pos_of_ne_zero fun hzero => ?_, fun ⟨k, hk, hkm⟩ =>
      hfree ⟨k, hk, hkm.tail he⟩⟩
    exact of_decide_eq_true hplaced (placed_of_zero (hg he).1 hzero)
  · rintro ⟨m, hm, hmn⟩
    refine Nat.pos_of_ne_zero fun hzero => ?_
    have hplaced := placed_of_zero hn hzero
    have hmplaced : m ∈ (g.placingStart.run g g.size).placed := by
      rcases Relation.reflTransGen_iff_eq_or_transGen.1 hmn with rfl | hmn
      · exact hplaced
      · exact (kept.idxOf_lt hmn hplaced).1
    exact Nat.lt_irrefl _ (kept.idxOf_lt hm hmplaced).2

/-- **A graph without cycles has a start order.** -/
theorem exists_startOrder (hg : g.Closed) (ha : g.Acyclic) : ∃ order, g.startOrder = .ok order := by
  have kept := Placing.Kept.start.run hg g.size
  have hnone : (g.placingStart.run g g.size).missing.findIdx? (0 < ·) = none := by
    rw [List.findIdx?_eq_none_iff]
    intro m hm
    obtain ⟨n, hn, rfl⟩ := List.mem_iff_getElem.1 hm
    have hfree := mt (missing_run_pos hg (kept.length ▸ hn)).1 (acyclic_iff.1 ha n)
    simpa [List.getD, hn] using hfree
  exact ⟨_, by rw [startOrder, hnone]⟩

end Bringup.Digraph
