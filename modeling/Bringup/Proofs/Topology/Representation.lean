import Bringup.Proofs.Graph.CycleSearch
import Bringup.Proofs.Topology.Dependencies

/-!
# The parts of a builder agree

Beside the services a builder keeps an index, a graph and the host ports in use. All can be read off the
services at any time: index and nodes tell their positions (`Sound`), the host ports are those that the
services expose (`Registered`), and the edges are one for each dependency of each service, the newest first
(`Linked`). To declare a batch adds the ports and then
the edges of its services (`declared_ports`, `connected_links`), and the graph has no cycles after that.
All of it together is `Represents`, which whatever was declared fulfils (`Declared.represents`).
-/

namespace Bringup.Topology.Builder

variable {b b' : Builder}

/-! ## Host ports -/

/-- The host ports of a service. -/
def exposed (service : Service) : List (UInt16 × ServiceId) :=
  service.ports.map fun port => (port.host, service.id)

/-- The host ports in use are those of the services, each once. -/
structure Registered (b : Builder) : Prop where
  ports : b.hostPorts = (b.services.flatMap exposed).reverse
  once : (b.hostPorts.map Prod.fst).Nodup

theorem exposer?_eq_none {port : UInt16} :
    b.exposer? port = none ↔ port ∉ b.hostPorts.map Prod.fst := by
  rw [exposer?, List.lookup_eq_none_iff, List.mem_map, not_exists]
  refine forall_congr' fun entry => ?_
  rw [not_and, bne_iff_ne]
  exact imp_congr_right fun _ => ne_comm

/-- A host port is looked up where each comes once. -/
theorem exposer?_eq_some (h : (b.hostPorts.map Prod.fst).Nodup) {port : UInt16} {id : ServiceId} :
    b.exposer? port = some id ↔ (port, id) ∈ b.hostPorts := Keyed.lookup_eq_some h

/-- Accepted ports are added in front of those in use, and each still comes once. -/
theorem exposePorts_ok {id : ServiceId} {ports : List PortMapping}
    (h : b.exposePorts id ports = .ok b') (hn : (b.hostPorts.map Prod.fst).Nodup) :
    b' = { b with hostPorts :=
      (ports.map fun port => (port.host, id)).reverse ++ b.hostPorts } ∧
      (b'.hostPorts.map Prod.fst).Nodup := by
  induction ports generalizing b with
  | nil =>
      obtain rfl := Except.ok.inj h
      exact ⟨rfl, hn⟩
  | cons port rest ih =>
      rw [exposePorts] at h
      split at h
      next => cases h
      next hnone =>
        obtain ⟨rfl, hb'⟩ := ih h (List.nodup_cons.2 ⟨exposer?_eq_none.1 hnone, hn⟩)
        refine ⟨?_, hb'⟩
        simp

/-! ## Edges -/

/-- What a service depends on, as pairs. -/
def links (service : Service) : List (ServiceId × ServiceId) :=
  service.dependsOn.ids.map fun dependency => (dependency, service.id)

/-- The edge between two names. -/
def edge? (b : Builder) (link : ServiceId × ServiceId) : Option (Nat × Nat) :=
  match b.position? link.1, b.position? link.2 with
  | some source, some target => some (source, target)
  | _, _ => none

/-- The edges are those of some links, the newest first. -/
def Linked (b : Builder) (links : List (ServiceId × ServiceId)) : Prop :=
  b.graph.edges.map some = (links.map b.edge?).reverse

theorem edge?_eq_some {link : ServiceId × ServiceId} {n m : Nat} :
    b.edge? link = some (n, m) ↔ b.position? link.1 = some n ∧ b.position? link.2 = some m := by
  unfold edge?
  split
  next hn hm => simp [hn, hm]
  next hnone => simpa using fun hn hm => hnone n m hn hm

/-- New services leave the edges alone, where the positions of the others stay. -/
theorem Linked.append {links : List (ServiceId × ServiceId)} (h : b.Linked links)
    (hedges : b'.graph.edges = b.graph.edges)
    (hposition : ∀ {id n}, b.position? id = some n → b'.position? id = some n) : b'.Linked links := by
  have hsame : ∀ link ∈ links, b'.edge? link = b.edge? link := by
    intro link hm
    have hsome : b.edge? link ∈ b.graph.edges.map some := by
      rw [h, List.mem_reverse]
      exact List.mem_map_of_mem hm
    obtain ⟨⟨n, m⟩, -, he⟩ := List.mem_map.1 hsome
    obtain ⟨hn, hm⟩ := edge?_eq_some.1 he.symm
    rw [← he, edge?_eq_some]
    exact ⟨hposition hn, hposition hm⟩
  rw [Linked, List.map_congr_left hsame, hedges]
  exact h

/-- A declared service keeps its position. -/
theorem Sound.position?_append (h : b.Sound) (h' : b'.Sound) {batch : List Service}
    (hs : b'.services = b.services ++ batch) {id : ServiceId} {n : Nat}
    (hn : b.position? id = some n) : b'.position? id = some n := by
  rw [h.position?_eq_some] at hn
  obtain ⟨service, hservice, -⟩ := Option.map_eq_some_iff.1 hn
  have hlt : n < b.services.length := (List.getElem?_eq_some_iff.1 hservice).1
  rw [h'.position?_eq_some, hs, List.getElem?_append_left hlt]
  exact hn

/-- **A service is connected** by one edge for each of its dependencies. -/
theorem connect_ok {links : List (ServiceId × ServiceId)} {id : ServiceId}
    {dependencies : List ServiceId} (h : b.connect id dependencies = .ok b') (hl : b.Linked links) :
    (∃ edges, b' = { b with graph := { b.graph with edges } }) ∧
      b'.Linked (links ++ dependencies.map fun dependency => (dependency, id)) := by
  induction dependencies generalizing b links with
  | nil =>
      obtain rfl := Except.ok.inj h
      exact ⟨⟨_, rfl⟩, by simpa using hl⟩
  | cons dependency rest ih =>
      rw [connect] at h
      split at h
      next source target hs ht =>
        have hnext : Linked { b with graph := b.graph.addEdge source target }
            (links ++ [(dependency, id)]) := by
          have he : edge? { b with graph := b.graph.addEdge source target } (dependency, id)
              = some (source, target) := edge?_eq_some.2 ⟨hs, ht⟩
          rw [Linked, List.map_append, List.reverse_append, List.map_singleton, he]
          exact congrArg (some (source, target) :: ·) hl
        obtain ⟨⟨edges, rfl⟩, hb'⟩ := ih h hnext
        refine ⟨⟨edges, rfl⟩, ?_⟩
        simpa using hb'
      next => cases h

/-! ## Batches -/

/-- An accepted service is declared behind the others, with its ports. -/
theorem declare_ok {service : Service} (h : b.declare service = .ok b') (hr : b.Registered) :
    b' = { b with
      services := b.services ++ [service]
      index := (service.id, b.graph.size) :: b.index
      graph := { b.graph with nodes := b.graph.nodes ++ [service.id] }
      hostPorts := (exposed service).reverse ++ b.hostPorts } ∧ b'.Registered := by
  unfold declare at h
  split at h
  next => cases h
  next =>
    split at h
    next => cases h
    next =>
      cases he : b.exposePorts service.id service.ports with
      | error error =>
          rw [he] at h
          cases h
      | ok next =>
          rw [he] at h
          obtain rfl := Except.ok.inj h
          obtain ⟨rfl, honce⟩ := exposePorts_ok he hr.once
          refine ⟨rfl, ?_, honce⟩
          rw [List.flatMap_append, List.reverse_append, ← hr.ports]
          simp [exposed]

/-- **The services of a batch are declared** behind the others, with their ports. -/
theorem declared_ports {batch : List Service} (h : batch.foldlM declare b = .ok b')
    (hr : b.Registered) :
    (∃ index hostPorts, b' = { b with
      services := b.services ++ batch
      index
      graph := { b.graph with nodes := b.graph.nodes ++ batch.map Service.id }
      hostPorts }) ∧ b'.Registered := by
  induction batch generalizing b with
  | nil =>
      rw [List.foldlM_nil] at h
      obtain rfl := Except.ok.inj h
      exact ⟨⟨b.index, b.hostPorts, by simp⟩, hr⟩
  | cons service rest ih =>
      rw [List.foldlM_cons] at h
      cases hd : b.declare service with
      | error error =>
          rw [hd] at h
          cases h
      | ok next =>
          rw [hd] at h
          obtain ⟨rfl, hnext⟩ := declare_ok hd hr
          obtain ⟨⟨index, hostPorts, rfl⟩, hb'⟩ := ih h hnext
          exact ⟨⟨index, hostPorts, by simp⟩, hb'⟩

/-- **The services of a batch are connected**, and nothing else changes. -/
theorem connected_links {links' : List (ServiceId × ServiceId)} {batch : List Service}
    (h : batch.foldlM (fun b service => b.connect service.id service.dependsOn.ids) b = .ok b')
    (hl : b.Linked links') :
    (∃ edges, b' = { b with graph := { b.graph with edges } }) ∧
      b'.Linked (links' ++ batch.flatMap links) := by
  induction batch generalizing b links' with
  | nil =>
      rw [List.foldlM_nil] at h
      obtain rfl := Except.ok.inj h
      exact ⟨⟨_, rfl⟩, by simpa using hl⟩
  | cons service rest ih =>
      rw [List.foldlM_cons] at h
      cases hc : b.connect service.id service.dependsOn.ids with
      | error error =>
          rw [hc] at h
          cases h
      | ok next =>
          rw [hc] at h
          obtain ⟨⟨edges, rfl⟩, hnext⟩ := connect_ok hc hl
          obtain ⟨⟨edges', rfl⟩, hb'⟩ := ih h hnext
          refine ⟨⟨edges', rfl⟩, ?_⟩
          simpa [links] using hb'

/-- The builder with a batch and what its members depend on, before it is searched for a cycle. -/
def draw (b : Builder) (batch : List Service) : Except TopologyError Builder := do
  let b ← batch.foldlM declare b
  batch.foldlM (fun b service => b.connect service.id service.dependsOn.ids) b

/-- What the search for a cycle makes of a drawn batch. -/
theorem stage_eq (b : Builder) (batch : List Service) : b.stage batch = (b.draw batch).bind fun next =>
    match next.graph.cyclicNode? with
    | some n => .error (.cyclicDependency ((next.graph.name? n).getD default))
    | none => .ok next := by
  unfold stage draw
  cases batch.foldlM declare b <;> rfl

theorem stage_ok {batch : List Service} (h : b.stage batch = .ok b') :
    b.draw batch = .ok b' ∧ b'.graph.cyclicNode? = none := by
  rw [stage_eq] at h
  cases hd : b.draw batch with
  | error error =>
      rw [hd] at h
      cases h
  | ok next =>
      rw [hd, Except.bind] at h
      split at h
      next => cases h
      next hnone =>
        obtain rfl := Except.ok.inj h
        exact ⟨rfl, hnone⟩

/-- The two passes over a batch that is drawn. -/
theorem draw_ok {batch : List Service} (h : b.draw batch = .ok b') :
    ∃ next, batch.foldlM declare b = .ok next ∧
      batch.foldlM (fun b service => b.connect service.id service.dependsOn.ids) next = .ok b' := by
  unfold draw at h
  cases hd : batch.foldlM declare b with
  | error error =>
      rw [hd] at h
      cases h
  | ok next =>
      rw [hd] at h
      exact ⟨next, rfl, h⟩

/-! ## Everything that was declared -/

/-- The parts of a builder agree. -/
structure Agrees (b : Builder) : Prop extends Sound b where
  registered : b.Registered
  linked : b.Linked (b.services.flatMap links)

/-- The parts of a builder agree, and what was declared is acceptable. -/
structure Represents (b : Builder) : Prop extends Agrees b where
  acyclic : b.graph.Acyclic
  absolute : ∀ decl ∈ b.volumes, decl.volume.mountPath.toList.head? = some '/'

theorem represents_empty : Represents {} where
  toSound := sound_empty
  registered := ⟨rfl, List.nodup_nil⟩
  linked := rfl
  acyclic n h := by
    have hno {n m : Nat} (h : Relation.TransGen ({} : Digraph ServiceId).Edge n m) : False := by
      induction h with
      | single he => cases he
      | tail _ _ ih => exact ih
    exact hno h
  absolute := by simp

/-- **The parts of a builder with a drawn batch agree**, and it has the services of the batch behind the
others. -/
theorem Agrees.draw (h : b.Agrees) {batch : List Service} (hd : b.draw batch = .ok b') :
    b'.Agrees ∧ b'.services = b.services ++ batch ∧ b'.volumes = b.volumes := by
  obtain ⟨next, hdeclare, hconnect⟩ := draw_ok hd
  have hsound := foldlM_keeps (fun hb h => Sound.declare hb h) batch h.toSound hdeclare
  obtain ⟨⟨index, hostPorts, rfl⟩, hregistered⟩ := declared_ports hdeclare h.registered
  have hdrawn := foldlM_keeps (fun hb h => Sound.connect hb h) batch hsound hconnect
  obtain ⟨⟨edges, rfl⟩, hlinked⟩ :=
    connected_links hconnect (h.linked.append rfl (h.position?_append hsound rfl))
  refine ⟨⟨hdrawn, ⟨hregistered.ports, hregistered.once⟩, ?_⟩, rfl, rfl⟩
  rw [List.flatMap_append]
  exact hlinked

theorem Represents.stage (h : b.Represents) {batch : List Service} (hs : b.stage batch = .ok b') :
    b'.Represents := by
  obtain ⟨hd, hnone⟩ := stage_ok hs
  obtain ⟨hagrees, -, hvolumes⟩ := h.toAgrees.draw hd
  exact ⟨hagrees, Digraph.acyclic_of_cyclicNode? hagrees.closed hnone, hvolumes ▸ h.absolute⟩

theorem Represents.settle (h : b.Represents) {result : Except TopologyError Builder}
    (hr : ∀ b', result = .ok b' → b'.Represents) : (b.settle result).1.Represents := by
  cases result with
  | ok next => exact hr next rfl
  | error error =>
      have hsound : (b.settle (.error error)).1.Sound := h.toSound.settle fun _ he => by cases he
      exact ⟨⟨hsound, ⟨h.registered.ports, h.registered.once⟩, h.linked⟩, h.acyclic, h.absolute⟩

theorem Represents.addServices (h : b.Represents) (batch : List Service) :
    (b.addServices batch).1.Represents :=
  h.settle fun _ hs => h.stage hs

theorem Represents.addService (h : b.Represents) (service : Service) :
    (b.addService service).1.Represents := by
  unfold Builder.addService
  split
  next => exact h.settle fun _ he => by cases he
  next =>
    split
    next => exact h.settle fun _ he => by cases he
    next => exact h.addServices [service]

theorem Represents.addVolume (h : b.Represents) (volume : Volume) (owner : ServiceId) :
    (b.addVolume volume owner).1.Represents := by
  have hsound := h.toSound.addVolume volume owner
  unfold Builder.addVolume at hsound ⊢
  refine h.settle fun b' he => ?_
  rw [he] at hsound
  split at he
  next => cases he
  next =>
    split at he
    next => cases he
    next =>
      split at he
      next => cases he
      next habsolute =>
        obtain rfl := Except.ok.inj he
        refine ⟨⟨hsound, ⟨h.registered.ports, h.registered.once⟩, h.linked⟩, h.acyclic, fun decl hd => ?_⟩
        rcases List.mem_append.1 hd with hd | hd
        · exact h.absolute decl hd
        · obtain rfl := List.mem_singleton.1 hd
          exact not_not.1 habsolute

/-- **Whatever was declared, the parts of the builder agree.** -/
theorem Declared.represents (h : Declared b) : b.Represents := by
  induction h with
  | empty => exact represents_empty
  | services _ batch ih => exact ih.addServices batch
  | service _ service ih => exact ih.addService service
  | volume _ volume owner ih => exact ih.addVolume volume owner

end Bringup.Topology.Builder
