import Bringup.Proofs.Topology.Representation

/-!
# Declarations, one after another

A builder is asked to declare services and volumes, any of which it may refuse. A refused declaration
leaves only its error behind, and that only if it is the first one: what the builder holds is what the
accepted declarations alone make of an empty builder (`takeAll_accepted`): their services and volumes
(`takeAll_services_eq`), and beside them nothing that cannot be read off these (`Faithful`). So a topology
is handed out unless a declaration was refused, and on it the services are found by name, and what they
depend on and what depends on them is listed as they say (`declarations_kept`).
-/

namespace Bringup.Topology

/-- Something that a builder is asked to declare. -/
inductive Declaration where
  /-- A service whose dependencies are declared before. -/
  | service (service : Service)
  | services (batch : List Service)
  | volume (volume : Volume) (owner : ServiceId)

namespace Declaration

/-- The services of a declaration. -/
def newServices : Declaration → List Service
  | .service s => [s]
  | .services batch => batch
  | .volume .. => []

/-- The volume of a declaration, with its owner. -/
def newVolumes : Declaration → List VolumeDecl
  | .volume v owner => [⟨v, owner⟩]
  | _ => []

end Declaration

/-- The first error of some declarations, if one was refused. -/
def firstRefusal (results : List (Except TopologyError Unit)) : Option TopologyError :=
  results.findSome? fun
    | .ok _ => none
    | .error error => some error

namespace Builder

/-- The builder after a declaration, and whether it was accepted. -/
def take (b : Builder) : Declaration → Builder × Except TopologyError Unit
  | .service service => b.addService service
  | .services batch => b.addServices batch
  | .volume volume owner => b.addVolume volume owner

/-- The builder after some declarations, and whether each was accepted. -/
def takeAll (b : Builder) : List Declaration → Builder × List (Except TopologyError Unit)
  | [] => (b, [])
  | declaration :: rest =>
    let (next, result) := b.take declaration
    let (last, results) := next.takeAll rest
    (last, result :: results)

/-- Those of some declarations that are accepted. -/
def accepted (b : Builder) : List Declaration → List Declaration
  | [] => []
  | declaration :: rest =>
    match b.take declaration with
    | (next, .ok _) => declaration :: next.accepted rest
    | (next, .error _) => next.accepted rest

variable {b b' : Builder}

theorem Declared.takeAll (h : Declared b) (declarations : List Declaration) :
    Declared (b.takeAll declarations).1 := by
  induction declarations generalizing b with
  | nil => exact h
  | cons declaration rest ih =>
      cases declaration with
      | service service => exact ih (h.service service)
      | services batch => exact ih (h.services batch)
      | volume volume owner => exact ih (h.volume volume owner)

/-! ## What a builder remembers of refused declarations changes nothing else -/

/-- The builder with another error remembered. -/
def withRefused (refused : Option TopologyError) (b : Builder) : Builder := { b with refused }

variable (refused : Option TopologyError)

theorem exposePorts_withRefused (id : ServiceId) (ports : List PortMapping) :
    (b.withRefused refused).exposePorts id ports = (b.exposePorts id ports).map (withRefused refused) := by
  induction ports generalizing b with
  | nil => rfl
  | cons port rest ih =>
      rw [exposePorts, exposePorts]
      have he : (b.withRefused refused).exposer? port.host = b.exposer? port.host := rfl
      rw [he]
      cases b.exposer? port.host with
      | some first => rfl
      | none => exact ih (b := { b with hostPorts := (port.host, id) :: b.hostPorts })

theorem declare_withRefused (service : Service) :
    (b.withRefused refused).declare service = (b.declare service).map (withRefused refused) := by
  unfold declare
  have hp (id : ServiceId) : (b.withRefused refused).position? id = b.position? id := rfl
  rw [hp]
  split
  next => rfl
  next =>
    split
    next => rfl
    next =>
      rw [exposePorts_withRefused]
      cases b.exposePorts service.id service.ports <;> rfl

theorem connect_withRefused (id : ServiceId) (dependencies : List ServiceId) :
    (b.withRefused refused).connect id dependencies = (b.connect id dependencies).map (withRefused refused) := by
  induction dependencies generalizing b with
  | nil => rfl
  | cons dependency rest ih =>
      rw [connect, connect]
      have hp (id : ServiceId) : (b.withRefused refused).position? id = b.position? id := rfl
      rw [hp, hp]
      split
      next source target _ _ => exact ih (b := { b with graph := b.graph.addEdge source target })
      next => rfl

omit refused in
/-- Steps that commute with a change commute with it one after another. -/
theorem foldlM_change {β : Type} {change : Builder → Builder}
    {f : Builder → β → Except TopologyError Builder}
    (hf : ∀ b x, f (change b) x = (f b x).map change) (xs : List β) :
    xs.foldlM f (change b) = (xs.foldlM f b).map change := by
  induction xs generalizing b with
  | nil => rfl
  | cons x rest ih =>
      rw [List.foldlM_cons, List.foldlM_cons, hf]
      cases f b x with
      | error error => rfl
      | ok next => exact ih

theorem stage_withRefused (batch : List Service) :
    (b.withRefused refused).stage batch = (b.stage batch).map (withRefused refused) := by
  unfold stage
  rw [foldlM_change fun b service => declare_withRefused refused service]
  cases batch.foldlM declare b with
  | error error => rfl
  | ok next =>
      simp only [Except.map, bind, Except.bind]
      rw [foldlM_change fun b service => connect_withRefused refused service.id _]
      cases batch.foldlM (fun b service => b.connect service.id service.dependsOn.ids) next with
      | error error => rfl
      | ok last =>
          have hg : (last.withRefused refused).graph = last.graph := rfl
          simp only [Except.map, hg]
          split <;> rfl

/-- What a builder makes of a declaration, but for what it remembers. -/
def attempt (b : Builder) : Declaration → Except TopologyError Builder
  | .service service =>
    if service.id ∈ service.dependsOn then .error (.cyclicDependency service.id)
    else
      match service.dependsOn.ids.find? fun dependency => (b.position? dependency).isNone with
      | some dependency => .error (.unknownDependency service.id dependency)
      | none => b.stage [service]
  | .services batch => b.stage batch
  | .volume volume owner =>
    if (b.position? owner).isNone then .error (.unknownOwner volume.id owner)
    else if b.volumes.any fun decl => decl.volume.id = volume.id then
      .error (.duplicateVolume volume.id)
    else if volume.mountPath.toList.head? ≠ some '/' then
      .error (.invalidMountPath volume.id volume.mountPath)
    else .ok { b with volumes := b.volumes ++ [⟨volume, owner⟩] }

theorem take_eq (declaration : Declaration) :
    b.take declaration = b.settle (b.attempt declaration) := by
  cases declaration with
  | service service =>
      simp only [take, addService, attempt]
      split
      next => rfl
      next =>
        cases service.dependsOn.ids.find? fun dependency =>
          (b.position? dependency).isNone <;> rfl
  | services batch | volume volume owner => rfl

theorem attempt_withRefused (declaration : Declaration) :
    (b.withRefused refused).attempt declaration = (b.attempt declaration).map (withRefused refused) := by
  have hp (id : ServiceId) : (b.withRefused refused).position? id = b.position? id := rfl
  have hv : (b.withRefused refused).volumes = b.volumes := rfl
  cases declaration with
  | service service =>
      simp only [attempt, hp]
      split
      next => rfl
      next =>
        split
        next => rfl
        next => exact stage_withRefused refused [service]
  | services batch => exact stage_withRefused refused batch
  | volume volume owner =>
      simp only [attempt, hp, hv]
      split
      next => rfl
      next =>
        split
        next => rfl
        next => split <;> rfl

/-- **A refused declaration** changes nothing but what is remembered, and that only if it is the
first. -/
theorem take_error {declaration : Declaration} {error : TopologyError}
    (h : b.attempt declaration = .error error) :
    b.take declaration = (b.withRefused (b.refused.or (some error)), .error error) := by
  rw [take_eq, h]
  rfl

/-- An accepted declaration leaves the remembered error alone. -/
theorem take_ok {declaration : Declaration} (h : b.attempt declaration = .ok b') :
    b.take declaration = (b', .ok ()) ∧ b'.refused = b.refused := by
  refine ⟨by rw [take_eq, h]; rfl, ?_⟩
  have hsame := attempt_withRefused (b := b) b.refused declaration
  have hself : b.withRefused b.refused = b := rfl
  rw [hself, h] at hsame
  have hwith : b' = b'.withRefused b.refused := Except.ok.inj hsame
  exact (congrArg Builder.refused hwith).trans rfl

/-! ## The accepted declarations alone -/

/-- **The accepted declarations alone** are all accepted, and make the same of a builder as all of them
do, but for the remembered error, which is the first one. -/
theorem takeAll_accepted (declarations : List Declaration) :
    (b.withRefused none).takeAll (b.accepted declarations)
      = ((b.takeAll declarations).1.withRefused none,
        (b.accepted declarations).map fun _ => .ok ()) ∧
    (b.takeAll declarations).1.refused
      = b.refused.or (firstRefusal (b.takeAll declarations).2) := by
  induction declarations generalizing b with
  | nil => exact ⟨rfl, (Option.or_none).symm⟩
  | cons declaration rest ih =>
      rw [accepted, takeAll]
      cases h : b.attempt declaration with
      | ok next =>
          obtain ⟨htake, hrefused⟩ := take_ok h
          have hwith := attempt_withRefused (b := b) none declaration
          rw [h] at hwith
          obtain ⟨hsame, hfirst⟩ := ih (b := next)
          simp only [htake]
          constructor
          · rw [takeAll, (take_ok hwith).1]
            simp only [hsame, List.map_cons]
          · rw [hfirst, hrefused]
            rfl
      | error error =>
          -- The rest is declared to the same builder, except for what it remembers.
          obtain ⟨hsame, hfirst⟩ := ih (b := b.withRefused (b.refused.or (some error)))
          simp only [take_error h]
          refine ⟨hsame, hfirst.trans ?_⟩
          show (b.refused.or (some error)).or _ = b.refused.or (some error)
          rw [Option.or_assoc]
          rfl

/-! ## What the accepted declarations add -/

theorem Represents.take (h : b.Represents) (declaration : Declaration) :
    (b.take declaration).1.Represents := by
  cases declaration with
  | service service => exact h.addService service
  | services batch => exact h.addServices batch
  | volume volume owner => exact h.addVolume volume owner

/-- An accepted declaration adds its services and its volume behind the others. -/
theorem attempt_ok (h : b.Represents) {declaration : Declaration}
    (ha : b.attempt declaration = .ok b') :
    b'.services = b.services ++ declaration.newServices ∧
      b'.volumes = b.volumes ++ declaration.newVolumes := by
  have hstage {batch : List Service} (hs : b.stage batch = .ok b') :
      b'.services = b.services ++ batch ∧ b'.volumes = b.volumes ++ [] := by
    rw [List.append_nil]
    exact (h.toAgrees.draw (stage_ok hs).1).2
  cases declaration with
  | service service =>
      simp only [attempt] at ha
      split at ha
      next => cases ha
      next =>
        split at ha
        next => cases ha
        next => exact hstage ha
  | services batch => exact hstage ha
  | volume volume owner =>
      simp only [attempt] at ha
      split at ha
      next => cases ha
      next =>
        split at ha
        next => cases ha
        next =>
          split at ha
          next => cases ha
          next =>
            obtain rfl := Except.ok.inj ha
            exact ⟨(List.append_nil _).symm, rfl⟩

/-- **The services and volumes are those of the accepted declarations**, in their order. -/
theorem takeAll_services_eq (h : b.Represents) (declarations : List Declaration) :
    (b.takeAll declarations).1.services
      = b.services ++ (b.accepted declarations).flatMap Declaration.newServices ∧
    (b.takeAll declarations).1.volumes
      = b.volumes ++ (b.accepted declarations).flatMap Declaration.newVolumes := by
  induction declarations generalizing b with
  | nil => exact ⟨(List.append_nil _).symm, (List.append_nil _).symm⟩
  | cons declaration rest ih =>
      have hnext := h.take declaration
      rw [takeAll, accepted]
      cases ha : b.attempt declaration with
      | ok next =>
          rw [(take_ok ha).1] at hnext ⊢
          obtain ⟨hservices, hvolumes⟩ := ih hnext
          obtain ⟨hs, hv⟩ := attempt_ok h ha
          simp only [List.flatMap_cons, ← List.append_assoc]
          exact ⟨hs ▸ hservices, hv ▸ hvolumes⟩
      | error error =>
          rw [take_error ha] at hnext ⊢
          exact ih hnext

/-! ## What a builder holds -/

/-- Graph and host ports say just what the services say, and services and volumes are acceptable. -/
structure Faithful (b : Builder) : Prop where
  /-- A node carries the name of the service at its position. -/
  node : ∀ n, b.graph.name? n = (b.services[n]?).map Service.id
  /-- The index has a declared name at the position of its service, and no other name. -/
  position : ∀ id n, b.position? id = some n ↔ (b.services[n]?).map Service.id = some id
  edge : ∀ n m, b.graph.Edge n m ↔ ∃ d s, b.services[n]? = some d ∧ b.services[m]? = some s ∧
    d.id ∈ s.dependsOn
  edges_once : b.graph.edges.Nodup
  /-- Services depend on declared ones only. -/
  known : ∀ s ∈ b.services, ∀ id ∈ s.dependsOn.ids, ∃ d ∈ b.services, d.id = id
  acyclic : b.graph.Acyclic
  exposer : ∀ port id, b.exposer? port = some id ↔
    ∃ s ∈ b.services, s.id = id ∧ ∃ p ∈ s.ports, p.host = port
  ports_once : (b.services.flatMap fun s => s.ports.map PortMapping.host).Nodup
  volumes_once : (b.volumes.map fun decl => decl.volume.id).Nodup
  owners : ∀ decl ∈ b.volumes, ∃ s ∈ b.services, s.id = decl.owner
  absolute : ∀ decl ∈ b.volumes, decl.volume.mountPath.toList.head? = some '/'

theorem nodup_ids (set : ServiceSet) : set.ids.Nodup := by
  refine List.Pairwise.imp (fun {id id'} hlt he => ?_) set.ordered
  exact String.lt_irrefl id.name (he ▸ hlt)

/-- A port in use is exposed by the service that is looked up. -/
theorem Registered.exposer (h : b.Registered) {port : UInt16} {id : ServiceId} :
    b.exposer? port = some id ↔ ∃ s ∈ b.services, s.id = id ∧ ∃ p ∈ s.ports, p.host = port := by
  rw [exposer?_eq_some h.once, h.ports, List.mem_reverse]
  simp only [exposed, List.mem_flatMap, List.mem_map, Prod.mk.injEq]
  constructor
  · rintro ⟨s, hs, p, hp, hport, hid⟩
    exact ⟨s, hs, hid, p, hp, hport⟩
  · rintro ⟨s, hs, hid, p, hp, hport⟩
    exact ⟨s, hs, p, hp, hport, hid⟩

namespace Agrees

variable (h : b.Agrees)

include h

omit h in
/-- A dependency of a service is one of the links from which the edges come. -/
theorem mem_links {dependency id : ServiceId} : (dependency, id) ∈ b.services.flatMap links ↔
    ∃ s ∈ b.services, s.id = id ∧ dependency ∈ s.dependsOn := by
  simp only [links, List.mem_flatMap, List.mem_map, Prod.mk.injEq]
  constructor
  · rintro ⟨s, hs, d, hd, rfl, rfl⟩
    exact ⟨s, hs, rfl, hd⟩
  · rintro ⟨s, hs, rfl, hd⟩
    exact ⟨s, hs, dependency, hd, rfl, rfl⟩

theorem nodup_links : (b.services.flatMap links).Nodup := by
  rw [List.nodup_flatMap]
  refine ⟨fun s _ => (nodup_ids s.dependsOn).map fun _ _ he => (Prod.mk.inj he).1, ?_⟩
  refine (List.pairwise_map.1 h.ids).imp fun hne link hl hl' => ?_
  obtain ⟨d, -, rfl⟩ := List.mem_map.1 hl
  obtain ⟨d', -, he⟩ := List.mem_map.1 hl'
  exact hne (Prod.mk.inj he).2.symm

/-- Every link has its edge. -/
theorem edge_of_link {link : ServiceId × ServiceId} (hl : link ∈ b.services.flatMap links) :
    ∃ n m, b.graph.Edge n m ∧ b.edge? link = some (n, m) := by
  have hmem : b.edge? link ∈ b.graph.edges.map some := by
    rw [h.linked, List.mem_reverse]
    exact List.mem_map_of_mem hl
  obtain ⟨⟨n, m⟩, he, heq⟩ := List.mem_map.1 hmem
  exact ⟨n, m, he, heq.symm⟩

theorem edge_iff {n m : Nat} : b.graph.Edge n m ↔
    ∃ d s, b.services[n]? = some d ∧ b.services[m]? = some s ∧ d.id ∈ s.dependsOn := by
  have hedge : b.graph.Edge n m ↔
      ∃ link ∈ b.services.flatMap links, b.edge? link = some (n, m) := by
    rw [Digraph.Edge, ← List.mem_map_of_injective (Option.some_injective _), h.linked,
      List.mem_reverse, List.mem_map]
  rw [hedge]
  constructor
  · rintro ⟨⟨dependency, id⟩, hl, he⟩
    obtain ⟨hn, hm⟩ := edge?_eq_some.1 he
    obtain ⟨d, hd, hdid⟩ := Option.map_eq_some_iff.1 (h.position?_eq_some.1 hn)
    obtain ⟨s, hs, hsid⟩ := Option.map_eq_some_iff.1 (h.position?_eq_some.1 hm)
    obtain ⟨s', hs', hid, hdep⟩ := mem_links.1 hl
    -- The service of the link is the one at its position.
    obtain ⟨m', hm'⟩ := List.getElem?_of_mem hs'
    have hpos : b.position? id = some m' := h.position?_eq_some.2 (by rw [hm', ← hid]; rfl)
    obtain rfl := Option.some.inj (hm.symm.trans hpos)
    obtain rfl := Option.some.inj (hs.symm.trans hm')
    exact ⟨d, s, hd, hs, hdid ▸ hdep⟩
  · rintro ⟨d, s, hd, hs, hdep⟩
    refine ⟨(d.id, s.id), mem_links.2 ⟨s, List.mem_of_getElem? hs, rfl, hdep⟩, ?_⟩
    rw [edge?_eq_some, h.position?_eq_some, h.position?_eq_some, hd, hs]
    exact ⟨rfl, rfl⟩

theorem nodup_edges : b.graph.edges.Nodup := by
  have hinj : ((b.services.flatMap links).map b.edge?).Nodup := by
    refine List.Nodup.map_on (fun link hl link' hl' he => ?_) h.nodup_links
    obtain ⟨n, m, -, heq⟩ := h.edge_of_link hl
    obtain ⟨hn, hm⟩ := edge?_eq_some.1 heq
    obtain ⟨hn', hm'⟩ := edge?_eq_some.1 (he ▸ heq)
    have hsame {id id' : ServiceId} {n : Nat} (h₁ : b.position? id = some n)
        (h₂ : b.position? id' = some n) : id = id' :=
      Option.some.inj ((h.position?_eq_some.1 h₁).symm.trans (h.position?_eq_some.1 h₂))
    exact Prod.ext (hsame hn hn') (hsame hm hm')
  have := List.nodup_reverse.2 hinj
  rw [← h.linked] at this
  exact List.Nodup.of_map _ this

theorem known {s : Service} (hs : s ∈ b.services) {id : ServiceId} (hd : id ∈ s.dependsOn) :
    ∃ d ∈ b.services, d.id = id := by
  obtain ⟨n, m, -, he⟩ := h.edge_of_link (mem_links.2 ⟨s, hs, rfl, hd⟩)
  obtain ⟨d, hd, hid⟩ := Option.map_eq_some_iff.1 (h.position?_eq_some.1 (edge?_eq_some.1 he).1)
  exact ⟨d, List.mem_of_getElem? hd, hid⟩

theorem exposer {port : UInt16} {id : ServiceId} : b.exposer? port = some id ↔
    ∃ s ∈ b.services, s.id = id ∧ ∃ p ∈ s.ports, p.host = port := h.registered.exposer

theorem nodup_ports : (b.services.flatMap fun s => s.ports.map PortMapping.host).Nodup := by
  have honce := h.registered.once
  rw [h.registered.ports, List.map_reverse, List.nodup_reverse, List.map_flatMap] at honce
  simpa [exposed, Function.comp_def] using honce

end Agrees

namespace Represents

variable (h : b.Represents)

include h

/-- **What a builder holds is what was declared.** -/
theorem faithful : b.Faithful where
  node n := by rw [Digraph.name?, h.nodes, List.getElem?_map]
  position _ _ := h.position?_eq_some
  edge _ _ := h.edge_iff
  edges_once := h.nodup_edges
  known s hs _ hd := h.known hs hd
  acyclic := h.acyclic
  exposer _ _ := h.exposer
  ports_once := h.nodup_ports
  volumes_once := h.volumes
  owners decl hd := by simpa using h.owners decl hd
  absolute := h.absolute

/-! ## The topology -/

/-- **A topology is handed out** unless a declaration was refused. -/
theorem build_eq : b.build = match b.refused with
    | some error => .error error
    | none => .ok b.declared := by
  obtain ⟨order, ho⟩ := Digraph.exists_startOrder h.closed h.acyclic
  have hgraph : b.declared.graph.startOrder = .ok order := ho
  rw [build, startOrder, Topology.startOrder, hgraph]
  rfl

/-- A service is found by its name. -/
theorem service?_eq_some {id : ServiceId} {service : Service} :
    b.declared.service? id = some service ↔ service ∈ b.services ∧ service.id = id := by
  have hposition : b.declared.position? id = (b.position? id).bind fun n =>
      if h : n < b.declared.size then some ⟨n, h⟩ else none := rfl
  rw [service?, Option.map_eq_some_iff]
  constructor
  · rintro ⟨s, hs, rfl⟩
    rw [hposition] at hs
    obtain ⟨n, hn, hs⟩ := Option.bind_eq_some_iff.1 hs
    split at hs
    next hlt =>
      obtain rfl := Option.some.inj hs
      obtain ⟨service, hservice, hid⟩ := Option.map_eq_some_iff.1 (h.position?_eq_some.1 hn)
      have hget : b.declared.service ⟨n, hlt⟩ = service :=
        Option.some.inj ((List.getElem?_eq_getElem hlt).symm.trans hservice)
      rw [hget]
      exact ⟨List.mem_of_getElem? hservice, hid⟩
    next => cases hs
  · rintro ⟨hm, rfl⟩
    obtain ⟨n, hlt, rfl⟩ := List.mem_iff_getElem.1 hm
    have hn : b.position? (b.services[n]).id = some n :=
      h.position?_eq_some.2 (by rw [List.getElem?_eq_getElem hlt]; rfl)
    exact ⟨⟨n, hlt⟩, by rw [hposition, hn]; exact dif_pos hlt, rfl⟩

theorem mem_dependencies_iff {s d : Fin b.declared.size} :
    d ∈ b.declared.dependencies s ↔ b.declared.id d ∈ (b.declared.service s).dependsOn := by
  have hedge : b.declared.graph.Edge d s ↔ _ := h.edge_iff
  rw [mem_dependencies, hedge]
  have hget (s : Fin b.declared.size) : b.services[(s : Nat)]? = some (b.declared.service s) :=
    List.getElem?_eq_getElem s.2
  simp only [hget, Option.some.injEq]
  constructor
  · rintro ⟨d', s', rfl, rfl, hm⟩
    exact hm
  · exact fun hm => ⟨_, _, rfl, rfl, hm⟩

end Represents

/-- The node at a position has the name of the service there. -/
theorem Represents.names_eq (h : b.Represents) (ns : List Nat) :
    b.declared.names ns = (b.declared.positions ns.mergeSort).map b.declared.id := by
  rw [names, positions, List.map_filterMap]
  congr 1
  funext n
  have hnode : b.declared.graph.name? n = (b.services[n]?).map Service.id := h.faithful.node n
  rw [hnode]
  split
  next hlt => exact congrArg (Option.map Service.id) (List.getElem?_eq_getElem hlt)
  next hge => exact congrArg (Option.map Service.id) (List.getElem?_eq_none (Nat.not_lt.1 hge))

/-- By name the same services are listed. -/
theorem Represents.neighbours (h : b.Represents) (s : Fin b.declared.size) :
    b.declared.dependencyIds (b.declared.id s) = (b.declared.dependencies s).map b.declared.id ∧
      b.declared.dependentIds (b.declared.id s) = (b.declared.dependents s).map b.declared.id := by
  have hn : b.declared.index.lookup (b.declared.id s) = some (s : Nat) :=
    h.position?_eq_some.2 (congrArg (Option.map Service.id) (List.getElem?_eq_getElem s.2))
  rw [dependencyIds, dependentIds, hn]
  exact ⟨h.names_eq _, h.names_eq _⟩

/-- Sorted positions come in the order of declaration, each once. -/
theorem sorted_positions {t : Topology} {ns : List Nat} (h : ns.Nodup) :
    (t.positions ns.mergeSort).Pairwise (· < ·) := by
  have hsorted : ns.mergeSort.Pairwise (· < ·) := by
    have hle : ns.mergeSort.Pairwise fun a b => decide (a ≤ b) :=
      List.pairwise_mergeSort
        (fun a b c hab hbc => by simp only [decide_eq_true_iff] at *; omega)
        (fun a b => by simp only [Bool.or_eq_true, decide_eq_true_iff]; omega) ns
    have hnodup : ns.mergeSort.Nodup := (List.mergeSort_perm ns _).nodup_iff.2 h
    refine (hle.and hnodup).imp fun ⟨hle, hne⟩ => ?_
    exact Nat.lt_of_le_of_ne (of_decide_eq_true hle) hne
  refine List.Pairwise.filterMap _ (fun n m hlt s hs s' hs' => ?_) hsorted
  split at hs
  next =>
    split at hs'
    next =>
      obtain rfl := Option.some.inj hs
      obtain rfl := Option.some.inj hs'
      exact hlt
    next => cases hs'
  next => cases hs

/-- Services that depend on a service, or on which it depends, are listed as they were declared. -/
theorem Represents.sorted (h : b.Represents) (s : Fin b.declared.size) :
    (b.declared.dependencies s).Pairwise (· < ·) ∧ (b.declared.dependents s).Pairwise (· < ·) := by
  have hnodup {f : Nat × Nat → Option Nat}
      (hf : ∀ edge edge' n, f edge = some n → f edge' = some n → edge = edge') :
      (b.graph.edges.filterMap f).Nodup := by
    refine List.Pairwise.filterMap f (fun edge edge' hne n hn n' hn' he => ?_) h.nodup_edges
    exact hne (hf edge edge' n hn (he ▸ hn'))
  refine ⟨sorted_positions (hnodup ?_), sorted_positions (hnodup ?_)⟩ <;>
  · rintro ⟨source, target⟩ ⟨source', target'⟩ n hn hn'
    dsimp only at hn hn'
    split at hn <;> split at hn' <;> simp_all

/-! ## The theorem -/

/-- **A builder keeps to what it accepted.** Let an empty builder be asked to declare services, batches
of services and volumes, in any order, and let it refuse any of them. It holds what the accepted
declarations alone make of an empty builder, all of which are accepted then too, and remembers the first
error. Its services and volumes are those of the accepted declarations, in their order, and its other parts
say what these say (`Faithful`). It hands out a topology unless a declaration was refused, and else the
first error. On the topology the accepted declaration of a service is found by its name, and the services on
which one depends and those that depend on it are listed as the services say, in the order of declaration
and each once, by position as well as by name. -/
theorem declarations_kept (declarations : List Declaration) :
    let b := (takeAll {} declarations).1
    let results := (takeAll {} declarations).2
    let kept := accepted {} declarations
    takeAll {} kept = ({ b with refused := none }, kept.map fun _ => .ok ()) ∧
    b.refused = firstRefusal results ∧
    b.services = kept.flatMap Declaration.newServices ∧
    b.volumes = kept.flatMap Declaration.newVolumes ∧ b.Faithful ∧
    (b.build = match firstRefusal results with
      | some error => .error error
      | none => .ok b.declared) ∧
    (∀ id service, b.declared.service? id = some service ↔
      service ∈ kept.flatMap Declaration.newServices ∧ service.id = id) ∧
    ∀ s : Fin b.declared.size,
      (∀ d, (d ∈ b.declared.dependencies s ↔ s ∈ b.declared.dependents d) ∧
        (d ∈ b.declared.dependencies s ↔ b.declared.id d ∈ (b.declared.service s).dependsOn)) ∧
      (b.declared.dependencies s).Pairwise (· < ·) ∧
      (b.declared.dependents s).Pairwise (· < ·) ∧
      b.declared.dependencyIds (b.declared.id s) = (b.declared.dependencies s).map b.declared.id ∧
      b.declared.dependentIds (b.declared.id s) = (b.declared.dependents s).map b.declared.id := by
  intro b results kept
  obtain ⟨hsame, hfirst⟩ := takeAll_accepted (b := {}) declarations
  have hrefused : b.refused = firstRefusal results := hfirst
  have h : b.Represents := (Declared.empty.takeAll declarations).represents
  obtain ⟨hservices, hvolumes⟩ := takeAll_services_eq represents_empty declarations
  refine ⟨hsame, hrefused, hservices, hvolumes, h.faithful, hrefused ▸ h.build_eq, fun id service => ?_,
    fun s => ⟨fun d => ⟨mem_dependents.symm, h.mem_dependencies_iff⟩, (h.sorted s).1, (h.sorted s).2,
      h.neighbours s⟩⟩
  have hkept : b.services = kept.flatMap Declaration.newServices := hservices
  rw [← hkept]
  exact h.service?_eq_some

end Builder

end Bringup.Topology
