import Bringup.Graph.Basic

/-!
# Start order

`startOrder` places the nodes of a graph one after another so that each stands behind its
predecessors, and of all nodes that could come next takes the one with the lowest position. It
counts for each node the edges from nodes that are not placed yet: a node is ready when that count
reaches zero. Where not all nodes can be placed, the answer is the first one left over.
-/

namespace Bringup.Digraph

variable {α : Type} (g : Digraph α)

/-- Puts a position in its place among ascending positions. -/
def insertAscending (n : Nat) : List Nat → List Nat
  | [] => [n]
  | m :: rest => if m < n then m :: insertAscending n rest else n :: m :: rest

/-- A moment of the placing. -/
structure Placing where
  /-- For each node the edges into it from nodes not placed yet. -/
  missing : List Nat
  /-- The nodes that can be placed next, in ascending order. -/
  ready : List Nat
  /-- The nodes placed so far, the last one first. -/
  placed : List Nat := []
  deriving DecidableEq, Inhabited, Repr

namespace Placing

/-- Takes one edge into a node off its count; at zero the node is ready. -/
def release (p : Placing) (n : Nat) : Placing :=
  let left := p.missing.getD n 0 - 1
  { p with
    missing := p.missing.set n left
    ready := if left = 0 then insertAscending n p.ready else p.ready }

/-- Places the lowest ready node. -/
def step (p : Placing) : Placing :=
  match p.ready with
  | [] => p
  | n :: ready => (g.successors n).foldl release { p with ready, placed := n :: p.placed }

/-- Places up to `count` nodes. -/
def run (p : Placing) : Nat → Placing
  | 0 => p
  | count + 1 => run (p.step g) count

end Placing

/-- No node is placed, and those without predecessors are ready. -/
def placingStart : Placing :=
  let missing := (List.range g.size).map fun n => (g.predecessors n).length
  { missing, ready := (List.range g.size).filter fun n => missing.getD n 0 = 0 }

/-- The least order in which each node stands behind its predecessors, or the first node that has
no place. -/
def startOrder : Except Nat (List Nat) :=
  let p := g.placingStart.run g g.size
  match p.missing.findIdx? (0 < ·) with
  | some n => .error n
  | none => .ok p.placed.reverse

end Bringup.Digraph
