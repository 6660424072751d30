import Bringup.Proofs.Graph.StartOrder
import Bringup.Topology.Builder

/-!
# Topologies as they are built

What a builder has declared is in order at any time (`Builder.Sound`): the nodes of the graph are the
names of the services, the index has the position of each name, no name comes twice, all edges lead
between nodes, and no two volumes share a name. So a topology that was built has a start order with every
service once, each behind what it depends on (`Built.startOrder`), and its services are told apart by
their names (`Built.id_injective`).
-/

namespace Bringup.Topology

namespace Builder

/-- What is declared by declaring one thing after another, whether accepted or not. -/
inductive Declared : Builder → Prop where
  | empty : Declared {}
  | services {b : Builder} (h : Declared b) (batch : List Service) :
    Declared (b.addServices batch).1
  | service {b : Builder} (h : Declared b) (service : Service) : Declared (b.addService service).1
  | volume {b : Builder} (h : Declared b) (volume : Volume) (owner : ServiceId) :
    Declared (b.addVolume volume owner).1

/-- What is declared is in order. -/
structure Sound (b : Builder) : Prop where
  nodes : b.graph.nodes = b.services.map Service.id
  /-- The newest service comes first. -/
  index : b.index = (b.services.map Service.id).zipIdx.reverse
  ids : (b.services.map Service.id).Nodup
  closed : b.graph.Closed
  volumes : (b.volumes.map fun decl => decl.volume.id).Nodup
  owners : ∀ decl ∈ b.volumes, decl.owner ∈ b.services.map Service.id

theorem sound_empty : Sound {} where
  nodes := rfl
  index := rfl
  ids := List.nodup_nil
  closed h := by simp [Digraph.Edge] at h
  volumes := List.nodup_nil
  owners := by simp

/-- What every accepted step keeps, some steps keep. -/
theorem foldlM_keeps {β : Type} {P : Builder → Prop}
    {f : Builder → β → Except TopologyError Builder} (hf : ∀ {b x b'}, P b → f b x = .ok b' → P b')
    {b b' : Builder} (xs : List β) (hb : P b) (h : xs.foldlM f b = .ok b') : P b' := by
  induction xs generalizing b with
  | nil =>
      rw [List.foldlM_nil] at h
      exact Except.ok.inj h ▸ hb
  | cons x rest ih =>
      rw [List.foldlM_cons] at h
      cases hx : f b x with
      | error error => rw [hx] at h; cases h
      | ok next =>
          rw [hx] at h
          exact ih (hf hb hx) h

theorem exposePorts_eq {b b' : Builder} {id : ServiceId} {ports : List PortMapping}
    (h : b.exposePorts id ports = .ok b') :
    b'.services = b.services ∧ b'.index = b.index ∧ b'.graph = b.graph ∧ b'.volumes = b.volumes := by
  induction ports generalizing b with
  | nil =>
      rw [exposePorts, Except.ok.injEq] at h
      subst h
      exact ⟨rfl, rfl, rfl, rfl⟩
  | cons port rest ih =>
      rw [exposePorts] at h
      split at h
      next => cases h
      next =>
        have := ih h
        exact this

variable {b b' : Builder}

namespace Sound

variable (h : Sound b) {id : ServiceId}

include h

theorem graph_size : b.graph.size = b.services.length := by
  rw [Digraph.size, h.nodes, List.length_map]

/-- **The index has the position of each declared name**, and no other name. -/
theorem position?_eq_some {n : Nat} :
    b.position? id = some n ↔ (b.services[n]?).map Service.id = some id := by
  have honce : (b.index.map Prod.fst).Nodup := by
    rw [h.index, List.map_reverse, List.zipIdx_map_fst, List.nodup_reverse]
    exact h.ids
  rw [position?, Keyed.lookup_eq_some honce, h.index, List.mem_reverse, List.mk_mem_zipIdx_iff_getElem?,
    List.getElem?_map]

/-- A name has no position where no service has it. -/
theorem position?_eq_none : b.position? id = none ↔ id ∉ b.services.map Service.id := by
  rw [Option.eq_none_iff_forall_ne_some, List.mem_iff_getElem?, not_exists]
  exact forall_congr' fun n => by rw [Ne, h.position?_eq_some, List.getElem?_map]

theorem lt_of_position? {n : Nat} (hn : b.position? id = some n) : n < b.graph.size := by
  obtain ⟨service, hs, -⟩ := Option.map_eq_some_iff.1 (h.position?_eq_some.1 hn)
  exact h.graph_size ▸ (List.getElem?_eq_some_iff.1 hs).1

end Sound

theorem Sound.declare (hb : Sound b) {service : Service} (h : b.declare service = .ok b') :
    Sound b' := by
  unfold Builder.declare at h
  split at h
  next => cases h
  next hnew =>
    split at h
    next => cases h
    next =>
      cases he : b.exposePorts service.id service.ports with
      | error error => rw [he] at h; cases h
      | ok next =>
          rw [he] at h
          obtain ⟨hs, hi, hg, hv⟩ := exposePorts_eq he
          obtain rfl := Except.ok.inj h
          have hfresh : service.id ∉ b.services.map Service.id :=
            hb.position?_eq_none.1 (Option.not_isSome_iff_eq_none.1 hnew)
          refine ⟨?_, ?_, ?_, fun {n m} he => ?_, by rw [hv]; exact hb.volumes, fun decl hd => ?_⟩
          · simp [hs, hg, Digraph.addNode, hb.nodes]
          · simp [hs, hg, hi, hb.index, hb.graph_size, List.zipIdx_append]
          · rw [hs, List.map_append]
            refine List.nodup_append.2 ⟨hb.ids, by simp, ?_⟩
            intro a ha c hc
            rintro rfl
            exact hfresh (List.mem_singleton.1 hc ▸ ha)
          · rw [hg, Digraph.edge_addNode] at he
            have := hb.closed he
            simp only [hg, Digraph.addNode, Digraph.size, List.length_append, List.length_singleton]
            exact ⟨Nat.lt_succ_of_lt this.1, Nat.lt_succ_of_lt this.2⟩
          · rw [hs, List.map_append]
            exact List.mem_append_left _ (hb.owners decl (hv ▸ hd))

theorem Sound.connect (hb : Sound b) {id : ServiceId} {dependencies : List ServiceId}
    (h : b.connect id dependencies = .ok b') : Sound b' := by
  induction dependencies generalizing b with
  | nil =>
      rw [Builder.connect, Except.ok.injEq] at h
      exact h ▸ hb
  | cons dependency rest ih =>
      rw [Builder.connect] at h
      split at h
      next source target hs ht =>
        have hnext : Sound { b with graph := b.graph.addEdge source target } := by
          refine ⟨hb.nodes, hb.index, hb.ids, fun {n m} he => ?_, hb.volumes, hb.owners⟩
          rcases (Digraph.edge_addEdge _).1 he with ⟨rfl, rfl⟩ | he
          · exact ⟨hb.lt_of_position? hs, hb.lt_of_position? ht⟩
          · exact hb.closed he
        have := ih hnext h
        exact this
      next => cases h

theorem Sound.stage (hb : Sound b) {batch : List Service} (h : b.stage batch = .ok b') :
    Sound b' := by
  unfold Builder.stage at h
  cases hd : batch.foldlM Builder.declare b with
  | error error => rw [hd] at h; cases h
  | ok declared =>
      rw [hd] at h
      have hdeclared := foldlM_keeps (fun hb h => Sound.declare hb h) batch hb hd
      cases hc : batch.foldlM (fun b service => b.connect service.id service.dependsOn.ids) declared with
      | error error =>
          simp only [bind, Except.bind, hc] at h
          cases h
      | ok connected =>
          simp only [bind, Except.bind, hc] at h
          have hconnected := foldlM_keeps (fun hb h => Sound.connect hb h) batch hdeclared hc
          split at h
          next => cases h
          next => exact Except.ok.inj h ▸ hconnected

theorem Sound.settle (hb : Sound b) {result : Except TopologyError Builder}
    (h : ∀ b', result = .ok b' → Sound b') : Sound (b.settle result).1 := by
  cases result with
  | ok next => exact h next rfl
  | error error => exact ⟨hb.nodes, hb.index, hb.ids, hb.closed, hb.volumes, hb.owners⟩

theorem Sound.addServices (hb : Sound b) (batch : List Service) : Sound (b.addServices batch).1 :=
  hb.settle fun _ h => hb.stage h

theorem Sound.addService (hb : Sound b) (service : Service) : Sound (b.addService service).1 := by
  unfold Builder.addService
  split
  next => exact hb.settle fun _ h => by cases h
  next =>
    split
    next => exact hb.settle fun _ h => by cases h
    next => exact hb.addServices [service]

theorem Sound.addVolume (hb : Sound b) (volume : Volume) (owner : ServiceId) :
    Sound (b.addVolume volume owner).1 := by
  apply hb.settle
  intro b' h
  split at h
  next => cases h
  next hknown =>
    split at h
    next => cases h
    next hnew =>
      split at h
      next => cases h
      next =>
        obtain rfl := Except.ok.inj h
        refine ⟨hb.nodes, hb.index, hb.ids, hb.closed, ?_, ?_⟩
        · rw [List.map_append]
          refine List.nodup_append.2 ⟨hb.volumes, by simp, ?_⟩
          intro a ha c hc
          rintro rfl
          obtain ⟨decl, hd, rfl⟩ := List.mem_map.1 ha
          exact hnew (List.any_eq_true.2 ⟨decl, hd, by simpa using hc⟩)
        · intro decl hd
          rcases List.mem_append.1 hd with hd | hd
          · exact hb.owners decl hd
          · obtain rfl := List.mem_singleton.1 hd
            rw [Option.isNone_iff_eq_none, hb.position?_eq_none, not_not] at hknown
            exact hknown

theorem Declared.sound (h : Declared b) : Sound b := by
  induction h with
  | empty => exact sound_empty
  | services _ batch ih => exact ih.addServices batch
  | service _ service ih => exact ih.addService service
  | volume _ volume owner ih => exact ih.addVolume volume owner

end Builder

/-- The topology was built from declarations. -/
def Built (t : Topology) : Prop := ∃ b : Builder, b.Declared ∧ b.build = .ok t

variable {t : Topology}

/-! ## Positions and edges -/

theorem mem_positions {ns : List Nat} {s : Fin t.size} : s ∈ t.positions ns ↔ (s : Nat) ∈ ns := by
  rw [positions, List.mem_filterMap]
  constructor
  · rintro ⟨n, hn, h⟩
    split at h
    next hlt =>
      rw [Option.some.injEq] at h
      exact h ▸ hn
    next => cases h
  · exact fun h => ⟨s, h, by simp⟩

theorem map_positions {ns : List Nat} (h : ∀ n ∈ ns, n < t.size) :
    (t.positions ns).map Fin.val = ns := by
  induction ns with
  | nil => rfl
  | cons n rest ih =>
      have hrest := ih fun m hm => h m (List.mem_cons_of_mem _ hm)
      have hn := h n List.mem_cons_self
      rw [positions, List.filterMap_cons_some (by rw [dif_pos hn]), List.map_cons]
      exact congrArg (n :: ·) hrest

theorem nodup_positions {ns : List Nat} (h : ns.Nodup) : (t.positions ns).Nodup := by
  refine List.Pairwise.filterMap _ (?_) h
  intro n m hne s hs s' hs' he
  subst he
  split at hs
  next =>
    split at hs'
    next => exact hne (by rw [← Option.some.inj hs'] at hs; simpa using hs)
    next => cases hs'
  next => cases hs

theorem mem_dependencies {s d : Fin t.size} : d ∈ t.dependencies s ↔ t.graph.Edge d s := by
  rw [dependencies, mem_positions, List.mem_mergeSort, Digraph.mem_predecessors]

namespace Built

theorem eq_declared (h : Built t) : ∃ b : Builder, b.Sound ∧ t = b.declared ∧
    ∃ order, t.graph.startOrder = .ok order := by
  obtain ⟨b, hb, h⟩ := h
  refine ⟨b, hb.sound, ?_⟩
  unfold Builder.build at h
  split at h
  next => cases h
  next =>
    cases ho : b.startOrder with
    | error error => rw [ho] at h; cases h
    | ok order =>
        rw [ho] at h
        obtain rfl := Except.ok.inj h
        refine ⟨rfl, ?_⟩
        rw [Builder.startOrder, Topology.startOrder] at ho
        split at ho
        next order' ho' => exact ⟨order', ho'⟩
        next => cases ho

theorem closed (h : Built t) : t.graph.Closed ∧ t.graph.size = t.size := by
  obtain ⟨b, hb, rfl, -⟩ := h.eq_declared
  refine ⟨hb.closed, ?_⟩
  have := congrArg List.length hb.nodes
  simpa [Builder.declared, Digraph.size, Topology.size] using this

/-- **The services of a built topology have an order of their start**, which has every service once
and each behind what it depends on. -/
theorem startOrder (h : Built t) : ∃ order, t.startOrder = .ok order ∧ order.Nodup ∧
    (∀ s, s ∈ order) ∧ ∀ {before behind : List (Fin t.size)} {s : Fin t.size},
      order = before ++ s :: behind → ∀ d ∈ t.dependencies s, d ∈ before := by
  obtain ⟨hclosed, hsize⟩ := h.closed
  obtain ⟨-, -, -, order, ho⟩ := h.eq_declared
  obtain ⟨hnodup, hmem⟩ := Digraph.mem_startOrder hclosed ho
  have hval : (t.positions order).map Fin.val = order :=
    map_positions fun n hn => hsize ▸ (hmem n).1 hn
  refine ⟨t.positions order, by rw [Topology.startOrder, ho], ?_, fun s => ?_,
    fun {before behind s} he d hd => ?_⟩
  · exact nodup_positions hnodup
  · exact mem_positions.2 ((hmem s).2 (Nat.lt_of_lt_of_eq s.2 hsize.symm))
  · -- The dependencies are the predecessors in the graph, whose order this is.
    have horder : order = before.map Fin.val ++ (s : Nat) :: behind.map Fin.val := by
      rw [← hval, he]
      simp
    have := Digraph.startOrder_after hclosed ho horder (mem_dependencies.1 hd)
    obtain ⟨d', hd', he⟩ := List.mem_map.1 this
    rwa [← Fin.ext he]

/-- Services are told apart by their names. -/
theorem id_injective (h : Built t) {s s' : Fin t.size} (he : t.id s = t.id s') : s = s' := by
  obtain ⟨b, hb, rfl, -⟩ := h.eq_declared
  have hlength : (b.services.map Service.id).length = b.declared.size := List.length_map _
  have hs : s.1 < (b.services.map Service.id).length := Nat.lt_of_lt_of_eq s.2 hlength.symm
  have hs' : s'.1 < (b.services.map Service.id).length := Nat.lt_of_lt_of_eq s'.2 hlength.symm
  have hget : (b.services.map Service.id)[s.1] = (b.services.map Service.id)[s'.1] := by
    rw [List.getElem_map, List.getElem_map]
    exact he
  exact Fin.ext ((List.getElem_inj hb.ids).1 hget)

/-- Volumes are told apart by their names. -/
theorem volumes_nodup (h : Built t) : (t.volumes.map fun decl => decl.volume.id).Nodup := by
  obtain ⟨b, hb, rfl, -⟩ := h.eq_declared
  exact hb.volumes

/-- Each volume belongs to a service. -/
theorem mem_volumesOf (h : Built t) {decl : VolumeDecl} (hd : decl ∈ t.volumes) :
    ∃ s, decl.volume ∈ t.volumesOf s := by
  obtain ⟨b, hb, rfl, -⟩ := h.eq_declared
  obtain ⟨service, hs, he⟩ := List.mem_map.1 (hb.owners decl hd)
  obtain ⟨i, hi, rfl⟩ := List.mem_iff_getElem.1 hs
  refine ⟨⟨i, hi⟩, List.mem_map_of_mem (List.mem_filter.2 ⟨hd, ?_⟩)⟩
  exact decide_eq_true he.symm

/-- A volume and its owner are known by the name of the volume. -/
theorem volume_unique (h : Built t) {s s' : Fin t.size} {volume volume' : Volume}
    (hv : volume ∈ t.volumesOf s) (hv' : volume' ∈ t.volumesOf s') (he : volume.id = volume'.id) :
    s = s' ∧ volume = volume' := by
  have hdecl {s : Fin t.size} {volume : Volume} (hv : volume ∈ t.volumesOf s) :
      ∃ decl ∈ t.volumes, decl.owner = t.id s ∧ decl.volume = volume := by
    obtain ⟨decl, hd, rfl⟩ := List.mem_map.1 hv
    obtain ⟨hd, ho⟩ := List.mem_filter.1 hd
    exact ⟨decl, hd, by simpa using ho, rfl⟩
  obtain ⟨decl, hd, ho, rfl⟩ := hdecl hv
  obtain ⟨decl', hd', ho', rfl⟩ := hdecl hv'
  obtain ⟨i, hi, rfl⟩ := List.mem_iff_getElem.1 hd
  obtain ⟨j, hj, rfl⟩ := List.mem_iff_getElem.1 hd'
  have hi' : i < (t.volumes.map fun decl => decl.volume.id).length := by simpa using hi
  have hj' : j < (t.volumes.map fun decl => decl.volume.id).length := by simpa using hj
  have hget : (t.volumes.map fun decl => decl.volume.id)[i]
      = (t.volumes.map fun decl => decl.volume.id)[j] := by simpa using he
  obtain rfl := (List.getElem_inj h.volumes_nodup).1 hget
  exact ⟨h.id_injective (ho.symm.trans ho'), rfl⟩

/-- A volume has one owner, known by the name of the volume. -/
theorem owner_unique (h : Built t) {s s' : Fin t.size} {volume volume' : Volume}
    (hv : volume ∈ t.volumesOf s) (hv' : volume' ∈ t.volumesOf s') (he : volume.id = volume'.id) :
    s = s' := (h.volume_unique hv hv' he).1

end Built

end Bringup.Topology
