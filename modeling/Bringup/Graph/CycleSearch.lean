import Bringup.Graph.Basic

/-!
# Cycle search

`cyclicNode?` finds a node on a cycle in two passes. The first walks the graph depth first and
notes in which order the nodes are left. In the reverse of that order each node of a graph without
cycles comes after all its predecessors; the second pass looks for the first node where this is not
so, and blames a predecessor that is still to come.
-/

namespace Bringup.Digraph

variable {α : Type} (g : Digraph α)

/-- A moment of the walk. -/
structure Walk where
  /-- The nodes to look at, the next one first. A node may stand here more than once. -/
  stack : List Nat := []
  /-- The nodes whose successors have been put on the stack. -/
  discovered : List Nat := []
  /-- The nodes that were left, the last one first. -/
  finished : List Nat := []
  deriving DecidableEq, Inhabited, Repr

namespace Walk

/-- Looks at the next node of a walk: a new one is discovered, an old one is left. A node with an
edge to itself ends the search. -/
def step (w : Walk) : Except Nat Walk :=
  match w.stack with
  | [] => .ok w
  | n :: rest =>
    if n ∈ w.discovered then
      .ok { w with
        stack := rest
        finished := if n ∈ w.finished then w.finished else n :: w.finished }
    else if n ∈ g.successors n then .error n
    else
      let discovered := n :: w.discovered
      let fresh := (g.successors n).filter (· ∉ discovered)
      .ok { w with stack := fresh.reverse ++ w.stack, discovered }

/-- Goes on with a walk for up to `count` steps. -/
def run (w : Walk) : Nat → Except Nat Walk
  | 0 => .ok w
  | count + 1 => do run (← w.step g) count

/-- Walks from a node, unless it is discovered. A walk discovers each node and takes each edge and
its start off the stack at most once, which bounds its steps. -/
def visit (w : Walk) (n : Nat) : Except Nat Walk :=
  if n ∈ w.discovered then .ok w
  else { w with stack := [n] }.run g (g.size + g.edges.length + 1)

end Walk

/-- The nodes in the reverse of the order in which a depth-first walk leaves them, or a node with an
edge to itself. -/
def walkOrder : Except Nat (List Nat) := do
  let w ← (List.range g.size).foldlM (Walk.visit g) {}
  return w.finished

/-- The first node among the predecessors of `order` that does not stand before its successor; of
several the one with the oldest edge. -/
def misplaced? (before : List Nat) : List Nat → Option Nat
  | [] => none
  | n :: rest =>
    let before := n :: before
    match ((g.predecessors n).filter (· ∉ before)).getLast? with
    | some m => some m
    | none => misplaced? before rest

/-- A node on a cycle, if there is a cycle. -/
def cyclicNode? : Option Nat :=
  match g.walkOrder with
  | .error n => some n
  | .ok order => g.misplaced? [] order

end Bringup.Digraph
