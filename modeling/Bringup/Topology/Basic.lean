import Bringup.Graph.StartOrder
import Bringup.Service

/-!
# Topologies

A topology is a set of services, the volumes they own, and the graph with an edge from each
dependency to the service that depends on it. Services are known by their positions in the order of
declaration, which are also their positions in the graph; an index keeps the position of each name.
-/

namespace Bringup

/-- Services, their volumes and their dependencies. -/
structure Topology where
  /-- The services in the order of their declaration. -/
  services : List Service := []
  /-- The position of each service. -/
  index : List (ServiceId × Nat) := []
  /-- The edges lead from a dependency to those that depend on it. -/
  graph : Digraph ServiceId := {}
  /-- The volumes in the order of their declaration. -/
  volumes : List VolumeDecl := []
  deriving DecidableEq, Inhabited

namespace Topology

variable (t : Topology)

/-- The number of services. -/
def size : Nat := t.services.length

/-- The service at a position. -/
def service (s : Fin t.size) : Service := t.services.get s

/-- The name of the service at a position. -/
def id (s : Fin t.size) : ServiceId := (t.service s).id

/-- The position of a service. -/
def position? (id : ServiceId) : Option (Fin t.size) :=
  (t.index.lookup id).bind fun n => if h : n < t.size then some ⟨n, h⟩ else none

/-- The service with a name. -/
def service? (id : ServiceId) : Option Service := (t.position? id).map t.service

/-- Whether there is a service with the name. -/
def contains (id : ServiceId) : Bool := (t.position? id).isSome

/-- The positions among some numbers. -/
def positions (ns : List Nat) : List (Fin t.size) :=
  ns.filterMap fun n => if h : n < t.size then some ⟨n, h⟩ else none

/-- What a service directly depends on, in the order of declaration. -/
def dependencies (s : Fin t.size) : List (Fin t.size) :=
  t.positions ((t.graph.predecessors s).mergeSort)

/-- What directly depends on a service, in the order of declaration. -/
def dependents (s : Fin t.size) : List (Fin t.size) :=
  t.positions ((t.graph.successors s).mergeSort)

/-- The names of nodes in the order of their positions. -/
def names (ns : List Nat) : List ServiceId := ns.mergeSort.filterMap t.graph.name?

/-- The names of what the service with a name directly depends on, in the order of declaration. -/
def dependencyIds (id : ServiceId) : List ServiceId :=
  match t.index.lookup id with
  | some n => t.names (t.graph.predecessors n)
  | none => []

/-- The names of what directly depends on the service with a name, in the order of declaration. -/
def dependentIds (id : ServiceId) : List ServiceId :=
  match t.index.lookup id with
  | some n => t.names (t.graph.successors n)
  | none => []

/-- The volumes that a service owns, in the order of declaration. -/
def volumesOf (s : Fin t.size) : List Volume :=
  (t.volumes.filter fun decl => decl.owner = t.id s).map VolumeDecl.volume

/-- The order in which the services start: each after what it depends on, and else as declared. -/
def startOrder : Except TopologyError (List (Fin t.size)) :=
  match t.graph.startOrder with
  | .ok order => .ok (t.positions order)
  | .error n => .error (.cyclicDependency ((t.graph.name? n).getD default))

/-- The order in which the services stop, the reverse of the one in which they start. -/
def stopOrder : Except TopologyError (List (Fin t.size)) := t.startOrder.map List.reverse

end Topology

end Bringup
