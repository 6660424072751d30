import Bringup.Proofs.Graph.CyclicNode
import Bringup.Proofs.Topology.Declarations

/-!
# Which batches are accepted

Whether a batch is accepted is said without the builder's maps and passes (`Acceptable`): names are new
and differ, required variables are set, host ports differ, dependencies are known, and none of all the
services depends on itself through others. An error that refuses a batch says something true of it
(`Justified`), which an acceptable batch does not allow (`Justified.not_acceptable`), and a batch that is
not refused is acceptable (`acceptable_of_stage`). So just the acceptable batches are accepted
(`accepted_iff`).

Both passes over a batch stop at its first bad member (`foldlM_error`); what the members before it have
left behind is known from `declared_ports` and `connected_links`.
-/

namespace Bringup.Topology

open Relation (TransGen)

/-- Of some services the second directly depends on the first. -/
def Precedes (services : List Service) (d s : ServiceId) : Prop :=
  (∃ service ∈ services, service.id = d) ∧
    ∃ service ∈ services, service.id = s ∧ d ∈ service.dependsOn

/-- The host ports that a service exposes. -/
def hosts (service : Service) : List UInt16 := service.ports.map PortMapping.host

namespace Builder

variable {b b' : Builder} {batch : List Service} {error : TopologyError}

/-! ## Conditions and errors -/

/-- Names, variables, ports and dependencies of a batch are in order. -/
structure WellFormed (b : Builder) (batch : List Service) : Prop where
  distinct : (batch.map Service.id).Nodup
  fresh : ∀ s ∈ batch, ∀ d ∈ b.services, d.id ≠ s.id
  environment : ∀ s ∈ batch, ∀ key ∈ s.requiredEnv, s.environment.get? key ≠ none
  ports : ((b.services ++ batch).flatMap hosts).Nodup
  known : ∀ s ∈ batch, ∀ id ∈ s.dependsOn.ids, ∃ d ∈ b.services ++ batch, d.id = id

/-- The batch can be declared: besides, no service depends on itself, directly or through others. -/
structure Acceptable (b : Builder) (batch : List Service) : Prop extends WellFormed b batch where
  acyclic : ∀ id, ¬ TransGen (Precedes (b.services ++ batch)) id id

/-- What the error says is so. -/
def Justified (b : Builder) (batch : List Service) : TopologyError → Prop
  | .duplicateService id => ∃ before s behind, batch = before ++ s :: behind ∧ s.id = id ∧
      ∃ d ∈ b.services ++ before, d.id = id
  | .missingEnvironment id key =>
    ∃ s ∈ batch, s.id = id ∧ key ∈ s.requiredEnv ∧ s.environment.get? key = none
  | .portConflict port first second => ∃ before s behind, batch = before ++ s :: behind ∧
      s.id = second ∧ port ∈ hosts s ∧
      ((∃ d ∈ b.services ++ before, d.id = first ∧ port ∈ hosts d) ∨
        first = second ∧ 1 < (hosts s).count port)
  | .unknownDependency id dependency => ∃ s ∈ batch, s.id = id ∧ dependency ∈ s.dependsOn ∧
      ∀ d ∈ b.services ++ batch, d.id ≠ dependency
  | .cyclicDependency id => TransGen (Precedes (b.services ++ batch)) id id
  | _ => False

/-- A well-formed batch can only be blamed for a cycle. -/
theorem Justified.cyclic (h : b.Justified batch error) (hw : b.WellFormed batch) :
    ∃ id, error = .cyclicDependency id := by
  cases error with
  | duplicateService id =>
      obtain ⟨before, s, behind, rfl, rfl, d, hd, hid⟩ := h
      rcases List.mem_append.1 hd with hd | hd
      · exact absurd hid (hw.fresh s (by simp) d hd)
      · have hdistinct := hw.distinct
        rw [List.map_append, List.map_cons, List.nodup_append] at hdistinct
        exact absurd hid (hdistinct.2.2 _ (List.mem_map_of_mem hd) _ List.mem_cons_self)
  | missingEnvironment id key =>
      obtain ⟨s, hs, -, hkey, hnone⟩ := h
      exact absurd hnone (hw.environment s hs key hkey)
  | portConflict port first second =>
      obtain ⟨before, s, behind, rfl, -, hport, hother⟩ := h
      have hports := hw.ports
      rw [← List.append_assoc, List.flatMap_append, List.flatMap_cons, List.nodup_append,
        List.nodup_append] at hports
      obtain ⟨-, ⟨hself, -⟩, hdisjoint⟩ := hports
      rcases hother with ⟨d, hd, -, hp⟩ | ⟨-, hcount⟩
      · exact absurd rfl (hdisjoint port (List.mem_flatMap.2 ⟨d, hd, hp⟩) port
          (List.mem_append_left _ hport))
      · exact absurd hcount (Nat.not_lt.2 (List.nodup_iff_count_le_one.1 hself port))
  | unknownDependency id dependency =>
      obtain ⟨s, hs, -, hdep, hnone⟩ := h
      obtain ⟨d, hd, hid⟩ := hw.known s hs dependency hdep
      exact absurd hid (hnone d hd)
  | cyclicDependency id => exact ⟨id, rfl⟩
  | _ => exact h.elim

theorem Justified.not_acceptable (h : b.Justified batch error) : ¬ b.Acceptable batch := by
  intro ha
  obtain ⟨id, rfl⟩ := h.cyclic ha.toWellFormed
  exact ha.acyclic id h

/-! ## The first bad member -/

/-- Steps one after another fail at one of them. -/
theorem foldlM_error {β : Type} {f : Builder → β → Except TopologyError Builder} {xs : List β}
    (h : xs.foldlM f b = .error error) : ∃ before x behind mid, xs = before ++ x :: behind ∧
      before.foldlM f b = .ok mid ∧ f mid x = .error error := by
  induction xs generalizing b with
  | nil =>
      rw [List.foldlM_nil] at h
      cases h
  | cons x rest ih =>
      rw [List.foldlM_cons] at h
      cases hx : f b x with
      | error error' =>
          rw [hx] at h
          obtain rfl := Except.error.inj h
          exact ⟨[], x, rest, b, rfl, rfl, hx⟩
      | ok next =>
          rw [hx] at h
          obtain ⟨before, x', behind, mid, rfl, hmid, hx'⟩ := ih h
          refine ⟨x :: before, x', behind, mid, rfl, ?_, hx'⟩
          rw [List.foldlM_cons, hx]
          exact hmid

/-- A port is refused that is exposed already, or stands twice in the list. -/
theorem exposePorts_error {id : ServiceId} {ports : List PortMapping}
    (h : b.exposePorts id ports = .error error) : ∃ before port behind first,
      ports = before ++ port :: behind ∧ error = .portConflict port.host first id ∧
      (b.exposer? port.host = some first ∨
        first = id ∧ port.host ∈ before.map PortMapping.host) := by
  induction ports generalizing b with
  | nil => cases h
  | cons port rest ih =>
      rw [exposePorts] at h
      split at h
      next first hfirst =>
        obtain rfl := Except.error.inj h
        exact ⟨[], port, rest, first, rfl, rfl, .inl hfirst⟩
      next =>
        obtain ⟨before, port', behind, first, rfl, rfl, hport⟩ := ih h
        refine ⟨port :: before, port', behind, first, rfl, rfl, ?_⟩
        rcases hport with hport | ⟨rfl, hport⟩
        · rw [exposer?, List.lookup_cons] at hport
          split at hport
          next heq =>
            refine .inr ⟨(Option.some.inj hport).symm, ?_⟩
            rw [eq_of_beq heq]
            exact List.mem_cons_self
          next => exact .inl hport
        · exact .inr ⟨rfl, List.mem_cons_of_mem _ hport⟩

/-- The members of a batch before the one that cannot be declared justify the error. -/
theorem declare_error (hb : b.Sound) (hr : b.Registered) {before behind : List Service}
    {s : Service} {mid : Builder} (hmid : before.foldlM declare b = .ok mid)
    (h : mid.declare s = .error error) :
    b.Justified (before ++ s :: behind) error ∧ ∀ id, error ≠ .cyclicDependency id := by
  have hsound := foldlM_keeps (fun hb h => Sound.declare hb h) before hb hmid
  obtain ⟨⟨index, hostPorts, rfl⟩, hregistered⟩ := declared_ports hmid hr
  unfold declare at h
  split at h
  next hsome =>
    obtain rfl := Except.error.inj h
    have hm : s.id ∈ (b.services ++ before).map Service.id := by
      by_contra hnot
      rw [hsound.position?_eq_none.2 hnot] at hsome
      cases hsome
    obtain ⟨d, hd, hid⟩ := List.mem_map.1 hm
    exact ⟨⟨before, s, behind, rfl, rfl, d, hd, hid⟩, by simp⟩
  next =>
    split at h
    next key hkey =>
      obtain rfl := Except.error.inj h
      obtain ⟨hm, hnot⟩ := List.mem_filter.1 (List.mem_of_head? hkey)
      refine ⟨⟨s, by simp, rfl, hm, ?_⟩, by simp⟩
      simpa [Environment.contains] using hnot
    next =>
      cases he : exposePorts _ s.id s.ports with
      | ok next =>
          rw [he] at h
          cases h
      | error error' =>
          rw [he] at h
          obtain rfl := Except.error.inj h
          obtain ⟨others, port, later, first, hports, rfl, hport⟩ := exposePorts_error he
          have hhosts : hosts s = others.map PortMapping.host ++
              port.host :: later.map PortMapping.host := by
            rw [hosts, hports, List.map_append, List.map_cons]
          refine ⟨⟨before, s, behind, rfl, rfl, hhosts ▸ by simp, hport.imp (fun hport => ?_) ?_⟩, by simp⟩
          · obtain ⟨d, hd, hid, p, hp, hhost⟩ := hregistered.exposer.1 hport
            exact ⟨d, hd, hid, List.mem_map.2 ⟨p, hp, hhost⟩⟩
          · rintro ⟨rfl, hm⟩
            refine ⟨rfl, ?_⟩
            have hpos := List.count_pos_iff.2 hm
            rw [hhosts, List.count_append, List.count_cons_self]
            omega

/-- A dependency is refused that has no position, where the service has one. -/
theorem connect_error {id : ServiceId} {dependencies : List ServiceId}
    (h : b.connect id dependencies = .error error) (hid : b.position? id ≠ none) :
    ∃ dependency ∈ dependencies, error = .unknownDependency id dependency ∧
      b.position? dependency = none := by
  induction dependencies generalizing b with
  | nil => cases h
  | cons dependency rest ih =>
      rw [connect] at h
      split at h
      next source target _ _ =>
        obtain ⟨dependency', hm, he, hnot⟩ :=
          ih (b := { b with graph := b.graph.addEdge source target }) h hid
        exact ⟨dependency', List.mem_cons_of_mem _ hm, he, hnot⟩
      next hnone =>
        refine ⟨dependency, List.mem_cons_self, (Except.error.inj h).symm, ?_⟩
        obtain ⟨k, hk⟩ := Option.ne_none_iff_exists'.1 hid
        exact Option.eq_none_iff_forall_ne_some.2 fun n hn => hnone n k hn hk

/-- **A batch that cannot be drawn** is blamed for something true, and not for a cycle. -/
theorem draw_error (h : b.Agrees) (hd : b.draw batch = .error error) :
    b.Justified batch error ∧ ∀ id, error ≠ .cyclicDependency id := by
  unfold draw at hd
  cases hdeclare : batch.foldlM declare b with
  | error error' =>
      rw [hdeclare] at hd
      obtain rfl := Except.error.inj hd
      obtain ⟨before, s, behind, mid, rfl, hmid, hs⟩ := foldlM_error hdeclare
      exact declare_error h.toSound h.registered hmid hs
  | ok next =>
      rw [hdeclare] at hd
      have hsound := foldlM_keeps (fun hb h => Sound.declare hb h) batch h.toSound hdeclare
      obtain ⟨⟨index, hostPorts, rfl⟩, -⟩ := declared_ports hdeclare h.registered
      obtain ⟨before, s, behind, mid, rfl, hmid, hs⟩ := foldlM_error hd
      obtain ⟨⟨edges, rfl⟩, -⟩ :=
        connected_links hmid (h.linked.append rfl (h.position?_append hsound rfl))
      have hmem : s ∈ b.services ++ (before ++ s :: behind) := by simp
      have hdeclared := hsound.position?_eq_none.not.2 (not_not.2 (List.mem_map_of_mem hmem))
      obtain ⟨dependency, hdep, rfl, hnot⟩ := connect_error hs hdeclared
      refine ⟨⟨s, by simp, rfl, hdep, fun d hm hid => ?_⟩, by simp⟩
      exact hsound.position?_eq_none.1 hnot (hid ▸ List.mem_map_of_mem hm)

/-! ## Cycles of names and of nodes -/

namespace Agrees

variable (h : b.Agrees) {n m : Nat} {d s : ServiceId}

include h

/-- The name of a node is known at its position. -/
theorem position_of_name? (hn : b.graph.name? n = some s) : b.position? s = some n := by
  rw [Digraph.name?, h.nodes, List.getElem?_map] at hn
  exact h.position?_eq_some.2 hn

theorem precedes_of_edge (he : b.graph.Edge n m) : ∃ d s, b.graph.name? n = some d ∧
    b.graph.name? m = some s ∧ Precedes b.services d s := by
  obtain ⟨d, s, hd, hs, hdep⟩ := h.edge_iff.1 he
  refine ⟨d.id, s.id, ?_, ?_, ⟨d, List.mem_of_getElem? hd, rfl⟩, s, List.mem_of_getElem? hs, rfl, hdep⟩
  · rw [Digraph.name?, h.nodes, List.getElem?_map, hd]
    rfl
  · rw [Digraph.name?, h.nodes, List.getElem?_map, hs]
    rfl

theorem edge_of_precedes (hp : Precedes b.services d s) : ∃ n m, b.graph.name? n = some d ∧
    b.graph.name? m = some s ∧ b.graph.Edge n m := by
  obtain ⟨⟨x, hx, rfl⟩, y, hy, rfl, hdep⟩ := hp
  obtain ⟨n, hn⟩ := List.getElem?_of_mem hx
  obtain ⟨m, hm⟩ := List.getElem?_of_mem hy
  refine ⟨n, m, ?_, ?_, h.edge_iff.2 ⟨x, y, hn, hm, hdep⟩⟩
  · rw [Digraph.name?, h.nodes, List.getElem?_map, hn]
    rfl
  · rw [Digraph.name?, h.nodes, List.getElem?_map, hm]
    rfl

theorem transGen_precedes (hr : TransGen b.graph.Edge n m) : ∃ d s, b.graph.name? n = some d ∧
    b.graph.name? m = some s ∧ TransGen (Precedes b.services) d s := by
  induction hr with
  | single he =>
      obtain ⟨d, s, hd, hs, hp⟩ := h.precedes_of_edge he
      exact ⟨d, s, hd, hs, .single hp⟩
  | tail _ he ih =>
      obtain ⟨d, k, hd, hk, hr⟩ := ih
      obtain ⟨k', s, hk', hs, hp⟩ := h.precedes_of_edge he
      obtain rfl := Option.some.inj (hk.symm.trans hk')
      exact ⟨d, s, hd, hs, hr.tail hp⟩

theorem transGen_edge (hr : TransGen (Precedes b.services) d s) : ∃ n m,
    b.graph.name? n = some d ∧ b.graph.name? m = some s ∧ TransGen b.graph.Edge n m := by
  induction hr with
  | single hp =>
      obtain ⟨n, m, hn, hm, he⟩ := h.edge_of_precedes hp
      exact ⟨n, m, hn, hm, .single he⟩
  | tail _ hp ih =>
      obtain ⟨n, k, hn, hk, hr⟩ := ih
      obtain ⟨k', m, hk', hm, he⟩ := h.edge_of_precedes hp
      have hsame := (h.position_of_name? hk).symm.trans (h.position_of_name? hk')
      obtain rfl := Option.some.inj hsame
      exact ⟨n, m, hn, hm, hr.tail he⟩

/-- **The graph has no cycles just if no service depends on itself.** -/
theorem acyclic_iff : b.graph.Acyclic ↔ ∀ id, ¬ TransGen (Precedes b.services) id id := by
  constructor
  · intro ha id hr
    obtain ⟨n, m, hn, hm, hr⟩ := h.transGen_edge hr
    obtain rfl := Option.some.inj ((h.position_of_name? hn).symm.trans (h.position_of_name? hm))
    exact ha n hr
  · intro ha n hr
    obtain ⟨d, s, hd, hs, hr⟩ := h.transGen_precedes hr
    obtain rfl := Option.some.inj (hd.symm.trans hs)
    exact ha d hr

/-- The node that is found when a graph is searched for a cycle has the name of a service on one. -/
theorem cyclic_of_cyclicNode? (hn : b.graph.cyclicNode? = some n) :
    TransGen (Precedes b.services) ((b.graph.name? n).getD default)
      ((b.graph.name? n).getD default) := by
  obtain ⟨d, s, hd, hs, hr⟩ := h.transGen_precedes (Digraph.cyclicNode?_cyclic h.closed hn)
  obtain rfl := Option.some.inj (hd.symm.trans hs)
  rwa [hd]

end Agrees

/-! ## Acceptance -/

/-- **A batch that is refused** is blamed for something true. -/
theorem stage_error (h : b.Agrees) (hs : b.stage batch = .error error) :
    b.Justified batch error := by
  rw [stage_eq] at hs
  cases hd : b.draw batch with
  | error error' =>
      rw [hd] at hs
      obtain rfl := Except.error.inj hs
      exact (draw_error h hd).1
  | ok next =>
      rw [hd, Except.bind] at hs
      split at hs
      next n hn =>
        obtain rfl := Except.error.inj hs
        obtain ⟨hagrees, hservices, -⟩ := h.draw hd
        have hcyclic := hagrees.cyclic_of_cyclicNode? hn
        rwa [hservices] at hcyclic
      next => cases hs

/-- A declared service sets the variables that it requires. -/
theorem missingEnv_of_declare {s : Service} (h : b.declare s = .ok b') : s.missingEnv = [] := by
  unfold declare at h
  split at h
  next => cases h
  next =>
    split at h
    next => cases h
    next hnone => exact List.head?_eq_none_iff.1 hnone

theorem missingEnv_of_foldlM (h : batch.foldlM declare b = .ok b') :
    ∀ s ∈ batch, s.missingEnv = [] := by
  induction batch generalizing b with
  | nil => simp
  | cons s rest ih =>
      rw [List.foldlM_cons] at h
      cases hs : b.declare s with
      | error error =>
          rw [hs] at h
          cases h
      | ok next =>
          rw [hs] at h
          intro s' hs'
          rcases List.mem_cons.1 hs' with rfl | hs'
          · exact missingEnv_of_declare hs
          · exact ih h s' hs'

/-- A batch that is drawn is well-formed. -/
theorem wellFormed_of_draw (h : b.Agrees) (hd : b.draw batch = .ok b') : b.WellFormed batch := by
  obtain ⟨hagrees, hservices, -⟩ := h.draw hd
  have hids := hagrees.ids
  have hports := hagrees.nodup_ports
  rw [hservices] at hids hports
  rw [List.map_append, List.nodup_append] at hids
  obtain ⟨next, hdeclare, -⟩ := draw_ok hd
  refine ⟨hids.2.1, fun s hs d hd hid => ?_, fun s hs key hkey hnone => ?_, hports,
    fun s hs id hid => ?_⟩
  · exact hids.2.2 d.id (List.mem_map_of_mem hd) s.id (List.mem_map_of_mem hs) hid
  · have hmissing := missingEnv_of_foldlM hdeclare s hs
    rw [Service.missingEnv, List.filter_eq_nil_iff] at hmissing
    simpa [Environment.contains, hnone] using hmissing key hkey
  · have hs' : s ∈ b'.services := hservices ▸ List.mem_append_right _ hs
    exact hservices ▸ hagrees.known hs' hid

/-- **A batch that is not refused is acceptable.** -/
theorem acceptable_of_stage (h : b.Agrees) (hs : b.stage batch = .ok b') : b.Acceptable batch := by
  obtain ⟨hd, hnone⟩ := stage_ok hs
  obtain ⟨hagrees, hservices, -⟩ := h.draw hd
  have ha := hagrees.acyclic_iff.1 (Digraph.acyclic_of_cyclicNode? hagrees.closed hnone)
  exact ⟨wellFormed_of_draw h hd, hservices ▸ ha⟩

theorem addServices_ok_iff (h : b.Agrees) :
    (b.addServices batch).2 = .ok () ↔ b.Acceptable batch := by
  unfold addServices
  cases hs : b.stage batch with
  | ok next => exact ⟨fun _ => acceptable_of_stage h hs, fun _ => rfl⟩
  | error error =>
      refine ⟨fun he => ?_, fun ha => absurd ha (stage_error h hs).not_acceptable⟩
      cases he

theorem addServices_error (h : b.Agrees) (he : (b.addServices batch).2 = .error error) :
    b.Justified batch error := by
  unfold addServices at he
  cases hs : b.stage batch with
  | ok next =>
      rw [hs] at he
      cases he
  | error error' =>
      rw [hs] at he
      obtain rfl := Except.error.inj he
      exact stage_error h hs

/-- A name is not known where no service has it. -/
theorem Sound.position?_isNone (h : b.Sound) {id : ServiceId} :
    (b.position? id).isNone = true ↔ ∀ d ∈ b.services, d.id ≠ id := by
  rw [Option.isNone_iff_eq_none, h.position?_eq_none, List.mem_map, not_exists]
  exact forall_congr' fun d => not_and

/-- What comes of a single service: those on which it depends must be declared before. -/
theorem addService_cases (h : b.Agrees) (s : Service) :
    ((b.addService s).2 = .error (.cyclicDependency s.id) ∧ s.id ∈ s.dependsOn) ∨
    (∃ dependency ∈ s.dependsOn.ids, (b.addService s).2 = .error (.unknownDependency s.id dependency) ∧
      dependency ≠ s.id ∧ ∀ d ∈ b.services, d.id ≠ dependency) ∨
    ((b.addService s).2 = (b.addServices [s]).2 ∧
      ∀ id ∈ s.dependsOn.ids, ∃ d ∈ b.services, d.id = id) := by
  unfold addService
  split
  next hself => exact .inl ⟨rfl, hself⟩
  next hself =>
    refine .inr ?_
    split
    next dependency hfind =>
      have hm := List.mem_of_find?_eq_some hfind
      have hnone := List.find?_some hfind
      have hunknown := h.position?_isNone.1 hnone
      exact .inl ⟨dependency, hm, rfl, fun he => hself (he ▸ hm), hunknown⟩
    next hnone =>
      refine .inr ⟨rfl, fun id hid => ?_⟩
      by_contra hunknown
      refine List.find?_eq_none.1 hnone id hid (h.position?_isNone.2 fun d hd he => hunknown ⟨d, hd, he⟩)

/-! ## The theorem -/

/-- **Just the acceptable batches are accepted.** Whatever was declared before: a batch of services is
accepted just if names are new and differ, required variables are set, all host ports differ,
dependencies are declared or in the batch, and no service depends on itself, directly or through others.
An error that refuses a batch says something true of it. A single service is accepted just if the same
holds of it and all on which it depends is declared before, and is refused for something true as well. -/
theorem accepted_iff (h : b.Declared) (batch : List Service) (s : Service) :
    ((b.addServices batch).2 = .ok () ↔ b.Acceptable batch) ∧
    (∀ error, (b.addServices batch).2 = .error error → b.Justified batch error) ∧
    ((b.addService s).2 = .ok () ↔
      b.Acceptable [s] ∧ ∀ id ∈ s.dependsOn.ids, ∃ d ∈ b.services, d.id = id) ∧
    ∀ error, (b.addService s).2 = .error error → b.Justified [s] error := by
  have hagrees := h.represents.toAgrees
  refine ⟨addServices_ok_iff hagrees, fun _ => addServices_error hagrees, ?_⟩
  have hmem : s ∈ b.services ++ [s] := List.mem_append_right _ (List.mem_singleton.2 rfl)
  rcases addService_cases hagrees s with ⟨he, hself⟩ | ⟨dependency, hm, he, hne, hunknown⟩ | ⟨he, hknown⟩
  · have hcycle : b.Justified [s] (.cyclicDependency s.id) :=
      .single ⟨⟨s, hmem, rfl⟩, s, hmem, rfl, hself⟩
    rw [he]
    constructor
    · exact ⟨fun h => (by cases h), fun h => absurd h.1 hcycle.not_acceptable⟩
    · intro error heq
      exact Except.error.inj heq ▸ hcycle
  · have hnone : b.Justified [s] (.unknownDependency s.id dependency) := by
      refine ⟨s, List.mem_singleton.2 rfl, rfl, hm, fun d hd => ?_⟩
      rcases List.mem_append.1 hd with hd | hd
      · exact hunknown d hd
      · exact List.mem_singleton.1 hd ▸ hne.symm
    rw [he]
    constructor
    · exact ⟨fun h => (by cases h), fun h => absurd h.1 hnone.not_acceptable⟩
    · intro error heq
      exact Except.error.inj heq ▸ hnone
  · rw [he, addServices_ok_iff hagrees]
    exact ⟨(and_iff_left hknown).symm, fun _ => addServices_error hagrees⟩

/-- A builder with a database. -/
def withDatabase : Builder :=
  (addServices {} [{ id := ⟨"db"⟩, image := "db", ports := [⟨5432, 5432⟩] }]).1

/-- Two services of which the first depends on the second, and that on the database. -/
def frontAndBot : List Service :=
  [{ id := ⟨"front"⟩, image := "front", dependsOn := .ofList [⟨"bot"⟩] },
    { id := ⟨"bot"⟩, image := "bot", dependsOn := .ofList [⟨"db"⟩] }]

/-- A service that exposes the port of the database. -/
def proxy : Service := { id := ⟨"proxy"⟩, image := "proxy", ports := [⟨8080, 80⟩, ⟨5432, 1⟩] }

/-- A batch may depend forward and on what was declared before; a host port is exposed only once. -/
theorem accepted_iff_database : withDatabase.Declared ∧ withDatabase.Acceptable frontAndBot ∧
    withDatabase.Justified [proxy] (.portConflict 5432 ⟨"db"⟩ ⟨"proxy"⟩) := by
  have hdeclared : withDatabase.Declared := .services .empty _
  have hok : (withDatabase.addServices frontAndBot).2 = .ok () := by decide
  have hconflict : (withDatabase.addService proxy).2 = .error (.portConflict 5432 ⟨"db"⟩ ⟨"proxy"⟩) := by
    decide
  obtain ⟨hiff, -, -, herror⟩ := accepted_iff hdeclared frontAndBot proxy
  exact ⟨hdeclared, hiff.1 hok, herror _ hconflict⟩

end Builder

end Bringup.Topology
