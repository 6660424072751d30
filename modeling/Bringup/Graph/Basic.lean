/-!
# Directed graphs

A graph has named nodes, known by their positions in the order in which they were added, and edges
between positions. The neighbours of a node are listed with the newest edge first.
-/

namespace Bringup

/-- A directed graph whose nodes carry names. -/
structure Digraph (α : Type) where
  /-- The names of the nodes in the order of their positions. -/
  nodes : List α := []
  /-- The edges as pairs of positions, the newest first. -/
  edges : List (Nat × Nat) := []
  deriving DecidableEq, Inhabited, Repr

namespace Digraph

variable {α : Type} (g : Digraph α)

/-- The number of nodes. -/
def size : Nat := g.nodes.length

/-- The name of the node at a position. -/
def name? (n : Nat) : Option α := g.nodes[n]?

/-- The graph with one more node. -/
def addNode (name : α) : Digraph α := { g with nodes := g.nodes ++ [name] }

/-- The graph with one more edge. -/
def addEdge (source target : Nat) : Digraph α := { g with edges := (source, target) :: g.edges }

/-- Where the edges of a node lead, the newest edge first. -/
def successors (n : Nat) : List Nat :=
  g.edges.filterMap fun (source, target) => if source = n then some target else none

/-- Where the edges into a node come from, the newest edge first. -/
def predecessors (n : Nat) : List Nat :=
  g.edges.filterMap fun (source, target) => if target = n then some source else none

/-! ### Edges and neighbours -/

/-- There is an edge between two positions. -/
def Edge (source target : Nat) : Prop := (source, target) ∈ g.edges

@[simp] theorem mem_successors {n m : Nat} : m ∈ g.successors n ↔ g.Edge n m := by
  simp only [successors, List.mem_filterMap, Edge]
  constructor
  · rintro ⟨⟨s, t⟩, h, he⟩
    by_cases hs : s = n <;> simp_all
  · exact fun h => ⟨(n, m), h, by simp⟩

@[simp] theorem mem_predecessors {n m : Nat} : m ∈ g.predecessors n ↔ g.Edge m n := by
  simp only [predecessors, List.mem_filterMap, Edge]
  constructor
  · rintro ⟨⟨s, t⟩, h, he⟩
    by_cases ht : t = n <;> simp_all
  · exact fun h => ⟨(m, n), h, by simp⟩

@[simp] theorem edge_addNode {name : α} {n m : Nat} : (g.addNode name).Edge n m ↔ g.Edge n m :=
  Iff.rfl

@[simp] theorem edge_addEdge {s t n m : Nat} :
    (g.addEdge s t).Edge n m ↔ (n = s ∧ m = t) ∨ g.Edge n m := by
  simp [addEdge, Edge]

end Digraph

end Bringup
