import Bringup.Proofs.Graph.CycleSearch
import Bringup.Proofs.Graph.LeastOrder

/-!
# The node that a cycle search finds

The node that is blamed for a cycle lies on one (`cyclicNode?_cyclic`). During the first pass a node that
was discovered and not left stands on the stack below nodes that are reached from it, and all its
successors are discovered or among those (`Walk.Nested`). So when a node is left, each of its successors
was left before it or reaches it, and the second pass names a node that was left before one of its
successors. So the search agrees with the placing of the nodes (`cyclicNode?_isSome_iff`).

The second pass may be read as a walk of its own (`retracedNode?`): from each node in turn it follows the
edges backwards, and it ends as soon as such a walk comes to a second new node. As long as this does not
happen each walk discovers the node where it begins and nothing else, so both readings name the same node
(`cyclicNode?_eq_retracedNode?`).
-/

namespace Bringup.Digraph

open Relation (ReflTransGen TransGen)

variable {α : Type} {g : Digraph α}

/-! ## What is on the stack -/

namespace Walk

variable {w w' : Walk} {n : Nat}

/-- A discovered node on the stack, with nodes above it that are reached from it. -/
def OpenAt (g : Digraph α) (w : Walk) (n : Nat) (above below : List Nat) : Prop :=
  w.stack = above ++ n :: below ∧ n ∉ above ∧ (∀ m ∈ above, ReflTransGen g.Edge n m) ∧
    ∀ m, g.Edge n m → m ∈ w.discovered ∨ m ∈ above

/-- The discovered nodes are nested, and so are those that were left. -/
structure Nested (g : Digraph α) (w : Walk) : Prop where
  opened : ∀ n ∈ w.discovered, n ∉ w.finished → ∃ above below, OpenAt g w n above below
  closed : ∀ {later earlier : List Nat} {n m : Nat}, w.finished = later ++ n :: earlier →
    g.Edge n m → m ∈ earlier ∨ TransGen g.Edge m n
  once : w.finished.Nodup

/-- A node on the stack is on top of it, or it is further down. -/
theorem OpenAt.top {k : Nat} {above below rest : List Nat} (h : OpenAt g w k above below)
    (hs : w.stack = n :: rest) : (above = [] ∧ k = n) ∨
      ∃ between, above = n :: between ∧ rest = between ++ k :: below := by
  have hsplit : n :: rest = above ++ k :: below := hs.symm.trans h.1
  rcases List.cons_eq_append_iff.1 hsplit with ⟨rfl, he⟩ | ⟨between, rfl, hrest⟩
  · exact .inl ⟨rfl, (List.cons.inj he).1⟩
  · exact .inr ⟨between, rfl, hrest⟩

/-- The top of the stack is reached from the nodes that are open. -/
theorem OpenAt.reaches_top {k : Nat} {above below rest : List Nat} (h : OpenAt g w k above below)
    (hs : w.stack = n :: rest) : ReflTransGen g.Edge k n := by
  rcases h.top hs with ⟨-, rfl⟩ | ⟨between, rfl, -⟩
  · exact .refl
  · exact h.2.2.1 n List.mem_cons_self

/-- A discovered node that is left has no successor but those that were left before and those that reach
it. -/
theorem Nested.left (h : Nested g w) {rest : List Nat} (hs : w.stack = n :: rest)
    (hd : n ∈ w.discovered) (hf : n ∉ w.finished) {m : Nat} (he : g.Edge n m) :
    m ∈ w.finished ∨ TransGen g.Edge m n := by
  obtain ⟨above, below, hopen⟩ := h.opened n hd hf
  -- The node stands on the stack only where it was discovered, so nothing is above it any more.
  rcases hopen.top hs with ⟨rfl, -⟩ | ⟨between, rfl, -⟩
  · obtain ⟨-, -, -, hsucc⟩ := hopen
    by_cases hleft : m ∈ w.finished
    · exact .inl hleft
    · obtain ⟨above, below, hopen⟩ := h.opened m ((hsucc m he).resolve_right List.not_mem_nil) hleft
      rcases Relation.reflTransGen_iff_eq_or_transGen.1 (hopen.reaches_top hs) with rfl | hr
      · exact .inr (.single he)
      · exact .inr hr
  · exact absurd List.mem_cons_self hopen.2.1

/-- A discovered node may be taken off the stack. -/
theorem Nested.pop (h : Nested g w) {rest : List Nat} (hstack : w.stack = n :: rest)
    (hd : n ∈ w.discovered) : Nested g { w with
      stack := rest
      finished := if n ∈ w.finished then w.finished else n :: w.finished } := by
  constructor
  case opened =>
    intro k hk hf
    have hkn : k ≠ n ∧ k ∉ w.finished := by
      dsimp only at hf
      split at hf
      next hn => exact ⟨ne_of_mem_of_not_mem hn hf |>.symm, hf⟩
      next => exact not_or.1 (mt List.mem_cons.2 hf)
    obtain ⟨above, below, hopen⟩ := h.opened k hk hkn.2
    rcases hopen.top hstack with ⟨-, he⟩ | ⟨above, rfl, hrest⟩
    · exact absurd he hkn.1
    · obtain ⟨-, hnot, hreach, hsucc⟩ := hopen
      refine ⟨above, below, hrest, fun hm => hnot (List.mem_cons_of_mem _ hm),
        fun m hm => hreach m (List.mem_cons_of_mem _ hm), fun m he => ?_⟩
      rcases hsucc m he with hm | hm
      · exact .inl hm
      · rcases List.mem_cons.1 hm with rfl | hm
        · exact .inl hd
        · exact .inr hm
  case closed =>
    intro later earlier k m hk he
    dsimp only at hk
    split at hk
    next => exact h.closed hk he
    next hf =>
      rcases List.cons_eq_append_iff.1 hk with ⟨-, hk⟩ | ⟨later, -, hk⟩
      · obtain ⟨rfl, rfl⟩ := List.cons.inj hk
        exact h.left hstack hd hf he
      · exact h.closed hk he
  case once =>
    dsimp only
    split
    next => exact h.once
    next hf => exact List.nodup_cons.2 ⟨hf, h.once⟩

/-- A node may be discovered, with its new successors on top of the stack. -/
theorem Nested.push (h : Nested g w) {rest fresh : List Nat} (hstack : w.stack = n :: rest)
    (hd : n ∉ w.discovered)
    (hfresh : ∀ m, m ∈ fresh ↔ m ∈ g.successors n ∧ m ∉ n :: w.discovered) : Nested g { w with
      stack := fresh ++ w.stack
      discovered := n :: w.discovered } := by
  refine ⟨fun k hk hf => ?_, h.closed, h.once⟩
  rcases List.mem_cons.1 hk with rfl | hk
  · refine ⟨fresh, rest, congrArg (fresh ++ ·) hstack, ?_, fun m hm => ?_, fun m he => ?_⟩
    · exact fun hm => ((hfresh k).1 hm).2 List.mem_cons_self
    · exact .single ((mem_successors g).1 ((hfresh m).1 hm).1)
    · by_cases hm : m ∈ k :: w.discovered
      · exact .inl hm
      · exact .inr ((hfresh m).2 ⟨(mem_successors g).2 he, hm⟩)
  · obtain ⟨above, below, hopen⟩ := h.opened k hk hf
    have hn := hopen.reaches_top hstack
    obtain ⟨hsplit, hnot, hreach, hsucc⟩ := hopen
    refine ⟨fresh ++ above, below, ?_, ?_, fun m hm => ?_, fun m he => ?_⟩
    · show fresh ++ w.stack = _
      rw [hsplit, List.append_assoc]
    · rw [List.mem_append, not_or]
      exact ⟨fun hm => ((hfresh k).1 hm).2 (List.mem_cons_of_mem _ hk), hnot⟩
    · rcases List.mem_append.1 hm with hm | hm
      · exact hn.tail ((mem_successors g).1 ((hfresh m).1 hm).1)
      · exact hreach m hm
    · exact (hsucc m he).imp (List.mem_cons_of_mem _) (List.mem_append_right _)

theorem Nested.step (h : Nested g w) (hs : w.step g = .ok w') : Nested g w' := by
  rcases step_cases hs with ⟨-, rfl⟩ | ⟨n, rest, hstack, ⟨hd, rfl⟩ | ⟨hd, -, fresh, -, hfresh, rfl⟩⟩
  · exact h
  · exact h.pop hstack hd
  · exact h.push hstack hd hfresh

theorem Nested.visit (hg : g.Closed) (hr : Rests g w) (h : Nested g w) (hn : n < g.size)
    (hv : w.visit g n = .ok w') : Rests g w' ∧ Nested g w' := by
  refine ⟨(hr.visit hg hn hv).1, ?_⟩
  unfold Walk.visit at hv
  split at hv
  next => exact Except.ok.inj hv ▸ h
  next =>
    -- Between two visits every discovered node was left.
    have hstart : Nested g { w with stack := [n] } := by
      refine ⟨fun k hk hf => absurd ?_ hf, h.closed, h.once⟩
      exact (hr.left k hk).resolve_left (by simp [hr.stack])
    exact run_keeps Nested.step hstart hv

theorem Nested.visits (hg : g.Closed) (hr : Rests g w) (h : Nested g w) {nodes : List Nat}
    (hn : ∀ n ∈ nodes, n < g.size) (hv : nodes.foldlM (Walk.visit g) w = .ok w') : Nested g w' := by
  induction nodes generalizing w with
  | nil =>
      rw [List.foldlM_nil] at hv
      exact Except.ok.inj hv ▸ h
  | cons n rest ih =>
      rw [List.foldlM_cons] at hv
      cases hnext : w.visit g n with
      | error m =>
          rw [hnext] at hv
          cases hv
      | ok next =>
          rw [hnext] at hv
          obtain ⟨hrests, hnested⟩ := h.visit hg hr (hn n List.mem_cons_self) hnext
          exact ih hrests hnested (fun m hm => hn m (List.mem_cons_of_mem _ hm)) hv

/-! ### Edges from a node to itself -/

/-- A walk ends early only at a node with an edge to itself. -/
theorem run_error {count : Nat} (h : w.run g count = .error n) : g.Edge n n := by
  induction count generalizing w with
  | zero => cases h
  | succ count ih =>
      rw [run] at h
      cases hs : w.step g with
      | ok next =>
          rw [hs] at h
          exact ih h
      | error m =>
          rw [hs] at h
          obtain rfl := Except.error.inj h
          unfold step at hs
          split at hs
          next => cases hs
          next =>
            split at hs
            next => cases hs
            next =>
              split at hs
              next hloop => exact Except.error.inj hs ▸ (mem_successors g).1 hloop
              next => cases hs

theorem visits_error {nodes : List Nat} (h : nodes.foldlM (Walk.visit g) w = .error n) :
    g.Edge n n := by
  induction nodes generalizing w with
  | nil =>
      rw [List.foldlM_nil] at h
      cases h
  | cons m rest ih =>
      rw [List.foldlM_cons] at h
      cases hv : w.visit g m with
      | ok next =>
          rw [hv] at h
          exact ih h
      | error m' =>
          rw [hv] at h
          obtain rfl := Except.error.inj h
          unfold Walk.visit at hv
          split at hv
          next => cases hv
          next => exact run_error hv

end Walk

/-! ## The order of the walk -/

theorem walkOrder_error {n : Nat} (h : g.walkOrder = .error n) : g.Edge n n := by
  unfold walkOrder at h
  cases hw : (List.range g.size).foldlM (Walk.visit g) {} with
  | error m =>
      rw [hw] at h
      exact Except.error.inj h ▸ Walk.visits_error hw
  | ok w =>
      rw [hw] at h
      cases h

/-- In the order of the walk each node comes once, and before its successors but for those that reach
it. -/
theorem walkOrder_nested (hg : g.Closed) {order : List Nat} (h : g.walkOrder = .ok order) :
    order.Nodup ∧ ∀ {later earlier n m}, order = later ++ n :: earlier → g.Edge n m →
      m ∈ earlier ∨ TransGen g.Edge m n := by
  unfold walkOrder at h
  cases hw : (List.range g.size).foldlM (Walk.visit g) {} with
  | error n =>
      rw [hw] at h
      cases h
  | ok w =>
      rw [hw] at h
      obtain rfl := Except.ok.inj h
      have hrests : Walk.Rests g {} := ⟨⟨by simp, by simp, by simp⟩, rfl⟩
      have hempty : Walk.Nested g {} := ⟨by simp, by simp, List.nodup_nil⟩
      have hnested := hempty.visits hg hrests (fun n hn => List.mem_range.1 hn) hw
      exact ⟨hnested.once, hnested.closed⟩

/-- A node out of place is a predecessor of one before it. -/
theorem misplaced?_eq_some {before order : List Nat} {m : Nat}
    (h : g.misplaced? before order = some m) :
    ∃ first n behind, order = first ++ n :: behind ∧ g.Edge m n ∧ m ∉ n :: first ∧ m ∉ before := by
  induction order generalizing before with
  | nil => cases h
  | cons k rest ih =>
      rw [misplaced?] at h
      split at h
      next m' hlast =>
        obtain rfl := Option.some.inj h
        obtain ⟨he, hnot⟩ := List.mem_filter.1 (List.mem_of_getLast? hlast)
        rw [decide_eq_true_iff, List.mem_cons, not_or] at hnot
        refine ⟨[], k, rest, rfl, (mem_predecessors g).1 he, ?_, hnot.2⟩
        rw [List.mem_singleton]
        exact hnot.1
      next =>
        obtain ⟨first, n, behind, rfl, he, hnot, hbefore⟩ := ih h
        rw [List.mem_cons, not_or] at hbefore hnot
        refine ⟨k :: first, n, behind, rfl, he, ?_, hbefore.2⟩
        simp only [List.mem_cons, not_or]
        exact ⟨hnot.1, hbefore.1, hnot.2⟩

/-- **The node that is found lies on a cycle.** -/
theorem cyclicNode?_cyclic (hg : g.Closed) {m : Nat} (h : g.cyclicNode? = some m) :
    TransGen g.Edge m m := by
  unfold cyclicNode? at h
  split at h
  next n hw =>
    obtain rfl := Option.some.inj h
    exact .single (walkOrder_error hw)
  next order hw =>
    obtain ⟨honce, hclosed⟩ := walkOrder_nested hg hw
    obtain ⟨first, n, behind, rfl, he, hnot, -⟩ := misplaced?_eq_some h
    have hm : m ∈ behind := by
      have hm := (walkOrder_complete hg hw m (hg he).1).1
      rw [← List.singleton_append, ← List.append_assoc] at hm
      refine (List.mem_append.1 hm).resolve_left fun hfirst => hnot ?_
      simpa [or_comm] using hfirst
    -- The named node was left before its successor, which therefore reaches it.
    obtain ⟨between, earlier, rfl⟩ := List.append_of_mem hm
    have hsplit : first ++ n :: (between ++ m :: earlier)
        = (first ++ n :: between) ++ m :: earlier := by simp
    rcases hclosed hsplit he with hn | hr
    · rw [hsplit, List.nodup_append] at honce
      refine absurd rfl (honce.2.2 n ?_ n (List.mem_cons_of_mem _ hn))
      exact List.mem_append_right _ List.mem_cons_self
    · exact .head he hr

/-- **The search finds a node just if the nodes cannot be placed.** -/
theorem cyclicNode?_isSome_iff (hg : g.Closed) :
    (∃ n, g.cyclicNode? = some n) ↔ ∃ n, g.startOrder = .error n := by
  have herror : (∃ n, g.startOrder = .error n) ↔ ¬ g.Acyclic := by
    rw [← exists_startOrder_iff hg]
    cases g.startOrder <;> simp
  rw [herror]
  constructor
  · rintro ⟨n, hn⟩ ha
    exact ha n (cyclicNode?_cyclic hg hn)
  · intro hcyclic
    cases hn : g.cyclicNode? with
    | none => exact absurd (acyclic_of_cyclicNode? hg hn) hcyclic
    | some n => exact ⟨n, rfl⟩

/-! ## The second pass as a walk -/

/-- A walk against the edges. -/
structure Retreat where
  /-- The nodes to look at, the next one first. -/
  stack : List Nat
  discovered : List Nat

/-- Leaves out the nodes that are discovered and goes on to the next one, which it discovers. -/
def Retreat.next? (g : Digraph α) (w : Retreat) : Option (Nat × Retreat) :=
  match w.stack.dropWhile (· ∈ w.discovered) with
  | [] => none
  | n :: rest =>
    let discovered := n :: w.discovered
    let fresh := (g.predecessors n).filter (· ∉ discovered)
    some (n, { stack := fresh.reverse ++ rest, discovered })

/-- Walks against the edges from one node after another, until such a walk comes to a second node. -/
def revisited? (g : Digraph α) (discovered : List Nat) : List Nat → Option Nat
  | [] => none
  | n :: rest =>
    match Retreat.next? g { stack := [n], discovered } with
    | none => g.revisited? discovered rest
    | some (_, w) =>
      match w.next? g with
      | some (m, _) => some m
      | none => g.revisited? w.discovered rest

/-- A node on a cycle, if there is a cycle, found by a walk along the edges and walks against them. -/
def retracedNode? (g : Digraph α) : Option Nat :=
  match g.walkOrder with
  | .error n => some n
  | .ok order => g.revisited? [] order

/-- A walk against the edges from a new node comes next to the last of its new predecessors. -/
theorem revisited?_cons {discovered rest : List Nat} {n : Nat} (hn : n ∉ discovered) :
    g.revisited? discovered (n :: rest) =
      match ((g.predecessors n).filter (· ∉ n :: discovered)).getLast? with
      | some m => some m
      | none => g.revisited? (n :: discovered) rest := by
  have hfirst : Retreat.next? g { stack := [n], discovered } =
      some (n, { stack := ((g.predecessors n).filter (· ∉ n :: discovered)).reverse ++ []
                 discovered := n :: discovered }) := by
    rw [Retreat.next?, List.dropWhile_cons_of_neg (by simpa using hn)]
  rw [revisited?, hfirst]
  simp only [List.append_nil]
  cases hlast : ((g.predecessors n).filter (· ∉ n :: discovered)).getLast? with
  | none =>
      rw [List.getLast?_eq_none_iff] at hlast
      rw [hlast]
      rfl
  | some m =>
      have hm := (List.mem_filter.1 (List.mem_of_getLast? hlast)).2
      obtain ⟨others, ho⟩ := List.getLast?_eq_some_iff.1 hlast
      rw [ho, List.reverse_append, List.reverse_singleton, List.singleton_append, Retreat.next?,
        List.dropWhile_cons_of_neg (by simpa using hm)]

theorem misplaced?_eq_revisited? {before order : List Nat} (h : order.Nodup)
    (hbefore : ∀ n ∈ order, n ∉ before) : g.misplaced? before order = g.revisited? before order := by
  induction order generalizing before with
  | nil => rfl
  | cons n rest ih =>
      obtain ⟨hn, hrest⟩ := List.nodup_cons.1 h
      rw [misplaced?, revisited?_cons (hbefore n List.mem_cons_self)]
      have hsame : g.misplaced? (n :: before) rest = g.revisited? (n :: before) rest := by
        refine ih hrest fun m hm => ?_
        rw [List.mem_cons, not_or]
        exact ⟨ne_of_mem_of_not_mem hm hn, hbefore m (List.mem_cons_of_mem _ hm)⟩
      cases ((g.predecessors n).filter (· ∉ n :: before)).getLast? with
      | some m => rfl
      | none => exact hsame

/-- **Both readings of the second pass** name the same node. -/
theorem cyclicNode?_eq_retracedNode? (hg : g.Closed) : g.cyclicNode? = g.retracedNode? := by
  unfold cyclicNode? retracedNode?
  cases hw : g.walkOrder with
  | error n => rfl
  | ok order =>
      exact misplaced?_eq_revisited? (walkOrder_nested hg hw).1 fun _ _ => List.not_mem_nil

end Bringup.Digraph
