import Bringup.Graph.CycleSearch
import Bringup.Topology.Basic

/-!
# Declaring a topology

A builder takes declarations one after another. A batch of services is accepted as a whole or not
at all, and its members may depend on each other in any order; a single service may only depend on
those declared before it. The first refused declaration is remembered and refuses the topology.
-/

namespace Bringup

namespace Topology

/-- What has been declared so far. -/
structure Builder where
  services : List Service := []
  /-- The position of each service. -/
  index : List (ServiceId × Nat) := []
  graph : Digraph ServiceId := {}
  /-- The host ports in use and the service that exposes each. -/
  hostPorts : List (UInt16 × ServiceId) := []
  volumes : List VolumeDecl := []
  /-- Why the first refused declaration was refused. -/
  refused : Option TopologyError := none
  deriving DecidableEq, Inhabited

namespace Builder

/-- The position of a service. -/
def position? (b : Builder) (id : ServiceId) : Option Nat := b.index.lookup id

/-- The service that exposes a host port. -/
def exposer? (b : Builder) (port : UInt16) : Option ServiceId := b.hostPorts.lookup port

/-- Remembers the first error. -/
def refuse (b : Builder) (error : TopologyError) : Builder :=
  { b with refused := b.refused.or (some error) }

/-- Exposes the ports of a service. -/
def exposePorts (b : Builder) (id : ServiceId) : List PortMapping → Except TopologyError Builder
  | [] => .ok b
  | port :: ports =>
    match b.exposer? port.host with
    | some first => .error (.portConflict port.host first id)
    | none => { b with hostPorts := (port.host, id) :: b.hostPorts }.exposePorts id ports

/-- Declares a service without what it depends on. -/
def declare (b : Builder) (service : Service) : Except TopologyError Builder :=
  if (b.position? service.id).isSome then .error (.duplicateService service.id)
  else
    match service.missingEnv.head? with
    | some key => .error (.missingEnvironment service.id key)
    | none => do
      let b ← b.exposePorts service.id service.ports
      return { b with
        services := b.services ++ [service]
        index := (service.id, b.graph.size) :: b.index
        graph := b.graph.addNode service.id }

/-- Adds an edge to a service from each of its dependencies. -/
def connect (b : Builder) (id : ServiceId) : List ServiceId → Except TopologyError Builder
  | [] => .ok b
  | dependency :: rest =>
    match b.position? dependency, b.position? id with
    | some source, some target => { b with graph := b.graph.addEdge source target }.connect id rest
    | _, _ => .error (.unknownDependency id dependency)

/-- Declares a batch of services, or says why it cannot be declared. -/
def stage (b : Builder) (batch : List Service) : Except TopologyError Builder := do
  let b ← batch.foldlM declare b
  let b ← batch.foldlM (fun b service => b.connect service.id service.dependsOn.ids) b
  match b.graph.cyclicNode? with
  | some n => .error (.cyclicDependency ((b.graph.name? n).getD default))
  | none => .ok b

/-- The builder after a declaration, and whether it was accepted. -/
def settle (b : Builder) : Except TopologyError Builder → Builder × Except TopologyError Unit
  | .ok next => (next, .ok ())
  | .error error => (b.refuse error, .error error)

/-- Declares several services at once, which may depend on each other. -/
def addServices (b : Builder) (batch : List Service) : Builder × Except TopologyError Unit :=
  b.settle (b.stage batch)

/-- Declares a service that depends on services declared before it. -/
def addService (b : Builder) (service : Service) : Builder × Except TopologyError Unit :=
  if service.id ∈ service.dependsOn then b.settle (.error (.cyclicDependency service.id))
  else
    match service.dependsOn.ids.find? fun dependency => (b.position? dependency).isNone with
    | some dependency => b.settle (.error (.unknownDependency service.id dependency))
    | none => b.addServices [service]

/-- Declares a volume of a service declared before it. -/
def addVolume (b : Builder) (volume : Volume) (owner : ServiceId) :
    Builder × Except TopologyError Unit :=
  b.settle <|
    if (b.position? owner).isNone then .error (.unknownOwner volume.id owner)
    else if b.volumes.any fun decl => decl.volume.id = volume.id then
      .error (.duplicateVolume volume.id)
    else if volume.mountPath.toList.head? ≠ some '/' then
      .error (.invalidMountPath volume.id volume.mountPath)
    else .ok { b with volumes := b.volumes ++ [⟨volume, owner⟩] }

/-- The topology as declared so far. -/
def declared (b : Builder) : Topology := ⟨b.services, b.index, b.graph, b.volumes⟩

/-- The order in which the services declared so far would start. -/
def startOrder (b : Builder) : Except TopologyError (List (Fin b.declared.size)) :=
  b.declared.startOrder

/-- The declared topology, or why the first refused declaration was refused. -/
def build (b : Builder) : Except TopologyError Topology :=
  match b.refused with
  | some error => .error error
  | none => b.startOrder.map fun _ => b.declared

end Builder

end Topology

end Bringup
