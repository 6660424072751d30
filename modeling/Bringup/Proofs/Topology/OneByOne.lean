import Bringup.Proofs.Topology.CycleChecks

/-!
# Services one by one

Where each of some services comes behind what it depends on, they can be declared one by one as well as
in one batch, and both come to the same (`one_by_one`): the batch is its first service and then the rest
(`stage_cons`). A single service is declared and connected at once, while a batch first declares all its
services. But no declaration looks at the edges (`declare_withEdges`), no service of such a batch can fail
to be connected (`exists_connected`), and a builder whose parts agree is known from its services
(`Agrees.ext`), in whatever order its edges were added.
-/

namespace Bringup.Topology

open Relation (TransGen)

namespace Builder

variable {b b' : Builder} {s : Service} {rest batch : List Service}

/-- Each of some services comes behind what it depends on, which some others may be as well, and none
depends on itself. -/
def InOrder (known : List Service) : List Service → Prop
  | [] => True
  | s :: rest => s.id ∉ s.dependsOn ∧ (∀ id ∈ s.dependsOn.ids, ∃ d ∈ known, d.id = id) ∧
    InOrder (known ++ [s]) rest

theorem InOrder.known {known : List Service} (h : InOrder known batch) :
    ∀ s ∈ batch, ∀ id ∈ s.dependsOn.ids, ∃ d ∈ known ++ batch, d.id = id := by
  induction batch generalizing known with
  | nil => simp
  | cons first rest ih =>
      obtain ⟨-, hfirst, hrest⟩ := h
      intro s hs id hid
      rcases List.mem_cons.1 hs with rfl | hs
      · obtain ⟨d, hd, he⟩ := hfirst id hid
        exact ⟨d, List.mem_append_left _ hd, he⟩
      · obtain ⟨d, hd, he⟩ := ih hrest s hs id hid
        exact ⟨d, by simpa using hd, he⟩

/-! ## A builder is known from its services -/

/-- **What a builder holds is known from its services and volumes**, if its parts agree. -/
theorem Agrees.ext (h : b.Agrees) (h' : b'.Agrees) (hs : b.services = b'.services)
    (hv : b.volumes = b'.volumes) (hr : b.refused = b'.refused) : b = b' := by
  have hnodes : b.graph.nodes = b'.graph.nodes := by rw [h.nodes, h'.nodes, hs]
  have hindex : b.index = b'.index := by rw [h.index, h'.index, hs]
  have hedge : b.edge? = b'.edge? :=
    funext fun link => by rw [edge?, edge?, position?, position?, position?, position?, hindex]
  have hedges : b.graph.edges = b'.graph.edges := by
    refine List.map_injective_iff.2 (Option.some_injective _) ?_
    rw [h.linked, h'.linked, hs, hedge]
  have hports : b.hostPorts = b'.hostPorts := by rw [h.registered.ports, h'.registered.ports, hs]
  obtain ⟨services, index, ⟨nodes, edges⟩, hostPorts, volumes, refused⟩ := b
  obtain rfl := hs
  obtain rfl := hindex
  obtain rfl := hnodes
  obtain rfl := hedges
  obtain rfl := hports
  obtain rfl := hv
  obtain rfl := hr
  rfl

/-! ## Declared first and connected later -/

/-- The builder with other edges. -/
def withEdges (edges : List (Nat × Nat)) (b : Builder) : Builder :=
  { b with graph := { b.graph with edges } }

theorem exposePorts_withEdges (edges : List (Nat × Nat)) (id : ServiceId) (ports : List PortMapping) :
    (b.withEdges edges).exposePorts id ports = (b.exposePorts id ports).map (withEdges edges) := by
  induction ports generalizing b with
  | nil => rfl
  | cons port rest ih =>
      rw [exposePorts, exposePorts]
      have he : (b.withEdges edges).exposer? port.host = b.exposer? port.host := rfl
      rw [he]
      cases b.exposer? port.host with
      | some first => rfl
      | none => exact ih (b := { b with hostPorts := (port.host, id) :: b.hostPorts })

/-- **A service is declared without a look at the edges.** -/
theorem declare_withEdges (edges : List (Nat × Nat)) (s : Service) :
    (b.withEdges edges).declare s = (b.declare s).map (withEdges edges) := by
  unfold declare
  have hp (id : ServiceId) : (b.withEdges edges).position? id = b.position? id := rfl
  rw [hp]
  split
  next => rfl
  next =>
    split
    next => rfl
    next =>
      rw [exposePorts_withEdges]
      cases b.exposePorts s.id s.ports <;> rfl

/-- Services that are declared can be connected, if what they depend on is declared too. -/
theorem exists_connected {links : List (ServiceId × ServiceId)} (hs : b.Sound) (hl : b.Linked links)
    (hin : ∀ s ∈ batch, s ∈ b.services)
    (hknown : ∀ s ∈ batch, ∀ id ∈ s.dependsOn.ids, ∃ d ∈ b.services, d.id = id) :
    ∃ edges, batch.foldlM (fun b s => b.connect s.id s.dependsOn.ids) b = .ok (b.withEdges edges) := by
  cases hc : batch.foldlM (fun b s => b.connect s.id s.dependsOn.ids) b with
  | ok next =>
      obtain ⟨⟨edges, rfl⟩, -⟩ := connected_links hc hl
      exact ⟨edges, rfl⟩
  | error error =>
      obtain ⟨before, s, behind, mid, rfl, hmid, hs'⟩ := foldlM_error hc
      obtain ⟨⟨edges, rfl⟩, -⟩ := connected_links hmid hl
      have hmem : s ∈ before ++ s :: behind := by simp
      have hposition : b.position? s.id ≠ none :=
        hs.position?_eq_none.not.2 (not_not.2 (List.mem_map_of_mem (hin s hmem)))
      obtain ⟨dependency, hdep, -, hnot⟩ := connect_error hs' hposition
      obtain ⟨d, hd, rfl⟩ := hknown s hmem dependency hdep
      exact absurd (List.mem_map_of_mem hd) (hs.position?_eq_none.1 hnot)

/-- Declared services that come behind what they depend on are drawn. -/
theorem draw_of_declared {next : Builder} (h : b.Agrees)
    (hknown : ∀ s ∈ batch, ∀ id ∈ s.dependsOn.ids, ∃ d ∈ b.services ++ batch, d.id = id)
    (hd : batch.foldlM declare b = .ok next) :
    ∃ edges, b.draw batch = .ok (next.withEdges edges) := by
  have hsound := foldlM_keeps (fun hb h => Sound.declare hb h) batch h.toSound hd
  obtain ⟨⟨index, hostPorts, hnext⟩, -⟩ := declared_ports hd h.registered
  have hservices : next.services = b.services ++ batch := congrArg Builder.services hnext
  have hedges : next.graph.edges = b.graph.edges := congrArg (fun b => b.graph.edges) hnext
  have hlinked : next.Linked (b.services.flatMap links) :=
    h.linked.append hedges (h.position?_append hsound hservices)
  obtain ⟨edges, hc⟩ := exists_connected hsound hlinked
    (fun s hs => hservices ▸ List.mem_append_right _ hs) (hservices ▸ hknown)
  refine ⟨edges, ?_⟩
  rw [draw, hd]
  exact hc

/-- A service that does not depend on itself lies on no cycle where it is drawn. -/
theorem stage_of_draw (h : b.Represents) (hself : s.id ∉ s.dependsOn) (hd : b.draw [s] = .ok b') :
    b.stage [s] = .ok b' := by
  obtain ⟨hagrees, hservices, -⟩ := h.toAgrees.draw hd
  rw [stage_eq, hd, Except.bind]
  cases hn : b'.graph.cyclicNode? with
  | none => rfl
  | some n =>
      have hcycle := hagrees.cyclic_of_cyclicNode? hn
      rw [hservices] at hcycle
      have hbatch := transGen_batch h (wellFormed_of_draw h.toAgrees hd) hcycle
      -- The first step of the cycle leads from the service to itself.
      obtain ⟨k, ⟨⟨d, hd', hid⟩, s', hs', -, hdep⟩, -⟩ := Relation.TransGen.head'_iff.1 hbatch
      obtain rfl := List.mem_singleton.1 hd'
      obtain rfl := List.mem_singleton.1 hs'
      exact absurd (hid ▸ hdep) hself

theorem stage_nil (h : b.Represents) : b.stage [] = .ok b := by
  have hnone : b.graph.cyclicNode? = none := by
    cases hn : b.graph.cyclicNode? with
    | none => rfl
    | some n => exact absurd (Digraph.cyclicNode?_cyclic h.closed hn) (h.acyclic n)
  have hd : b.draw [] = .ok b := rfl
  rw [stage_eq, hd, Except.bind, hnone]

/-- **A batch in order is its first service and then the rest.** -/
theorem stage_cons (h : b.Represents) (ho : InOrder b.services (s :: rest)) :
    b.stage (s :: rest) = (b.stage [s]).bind fun next => next.stage rest := by
  have ⟨hself, hknown, hrest⟩ := ho
  have hsingle : [s].foldlM declare b = b.declare s := by simp
  have hcons : (s :: rest).foldlM declare b = (b.declare s).bind fun next => rest.foldlM declare next := by
    rw [List.foldlM_cons]
    rfl
  cases hs : b.declare s with
  | error error =>
      rw [hs] at hsingle hcons
      rw [stage, stage, hsingle, hcons]
      rfl
  | ok next =>
      rw [hs] at hsingle hcons
      have hfirst : InOrder b.services [s] := ⟨hself, hknown, trivial⟩
      obtain ⟨edges, hdraw⟩ := draw_of_declared h.toAgrees hfirst.known hsingle
      have hnext := h.stage (stage_of_draw h hself hdraw)
      obtain ⟨-, hservices, hvolumes⟩ := h.toAgrees.draw hdraw
      rw [stage_of_draw h hself hdraw, Except.bind]
      have hdeclared : rest.foldlM declare (next.withEdges edges)
          = (rest.foldlM declare next).map (withEdges edges) :=
        foldlM_change (fun b s => declare_withEdges edges s) rest
      cases hr : rest.foldlM declare next with
      | error error =>
          rw [hr] at hdeclared
          rw [Except.bind, hr] at hcons
          rw [stage, stage, hdeclared, hcons]
          rfl
      | ok last =>
          rw [hr] at hdeclared
          rw [Except.bind, hr] at hcons
          obtain ⟨edges', hall⟩ := draw_of_declared h.toAgrees ho.known hcons
          obtain ⟨edges'', hlater⟩ := draw_of_declared hnext.toAgrees
            (InOrder.known (hservices ▸ hrest)) hdeclared
          obtain ⟨hagrees, hs', hv'⟩ := h.toAgrees.draw hall
          obtain ⟨hagrees', hs'', hv''⟩ := hnext.toAgrees.draw hlater
          have hsame := hagrees.ext hagrees' (by rw [hs', hs'', hservices, List.append_assoc]; rfl)
            (by rw [hv', hv'', hvolumes]) rfl
          rw [stage_eq, stage_eq, hall, hlater, hsame]

/-! ## The theorem -/

/-- A service that comes behind what it depends on is declared as a batch of its own. -/
theorem attempt_service (h : b.Sound) (hself : s.id ∉ s.dependsOn)
    (hknown : ∀ id ∈ s.dependsOn.ids, ∃ d ∈ b.services, d.id = id) :
    b.attempt (.service s) = b.stage [s] := by
  have hnone : s.dependsOn.ids.find? (fun dependency => (b.position? dependency).isNone) = none := by
    rw [List.find?_eq_none]
    intro id hid hn
    obtain ⟨d, hd, he⟩ := hknown id hid
    exact h.position?_isNone.1 hn d hd he
  rw [attempt, if_neg hself, hnone]

/-- **One by one** the services are all accepted where the batch is, and make the same builder; else the
first that is refused is refused with the error of the batch. -/
theorem takeAll_services (h : b.Represents) (ho : InOrder b.services batch) :
    match b.stage batch with
    | .ok next => b.takeAll (batch.map .service) = (next, batch.map fun _ => .ok ())
    | .error error => firstRefusal (b.takeAll (batch.map .service)).2 = some error := by
  induction batch generalizing b with
  | nil =>
      have hstage : b.stage [] = .ok b := stage_nil h
      rw [hstage]
      rfl
  | cons s rest ih =>
      have ⟨hself, hknown, hrest⟩ := ho
      have hattempt := attempt_service h.toSound hself hknown
      rw [stage_cons h ho, List.map_cons, takeAll]
      cases hs : b.stage [s] with
      | error error =>
          rw [take_error (hattempt.trans hs), Except.bind]
          rfl
      | ok next =>
          have hnext := h.stage hs
          obtain ⟨-, hservices, -⟩ := h.toAgrees.draw (stage_ok hs).1
          have hrest := ih hnext (hservices ▸ hrest)
          rw [(take_ok (hattempt.trans hs)).1, Except.bind]
          cases hstage : next.stage rest with
          | ok last =>
              rw [hstage] at hrest
              simp only [hrest, List.map_cons]
          | error error =>
              rw [hstage] at hrest
              exact hrest

/-- **Services one by one are the same as a batch.** Let nothing have been refused before, and let each of
some services come behind what it depends on, which may be declared already, and none depend on itself.
One declared after another, however many of them are refused, they build what one batch of them builds:
the same topology, with all services, if none is refused, and else the same error, which is that of the
first one that is refused. In the first case not only what is built but all that the builder holds is the
same, so that nothing declared later tells the two apart. -/
theorem one_by_one (h : b.Declared) (hr : b.refused = none) (ho : InOrder b.services batch) :
    let singly := b.takeAll (batch.map .service)
    let whole := b.addServices batch
    singly.1.build = whole.1.build ∧
    (whole.2 = .ok () → singly = (whole.1, batch.map fun _ => .ok ()) ∧
      whole.1.build = .ok whole.1.declared ∧ whole.1.services = b.services ++ batch) ∧
    ∀ error, whole.2 = .error error →
      firstRefusal singly.2 = some error ∧ whole.1.build = .error error := by
  intro singly whole
  have hb := h.represents
  have hsingly := takeAll_services hb ho
  have hbuild := (h.takeAll (batch.map .service)).represents.build_eq
  have hrefused : singly.1.refused = b.refused.or (firstRefusal singly.2) := (takeAll_accepted _).2
  have hwhole : whole = b.settle (b.stage batch) := rfl
  cases hs : b.stage batch with
  | ok next =>
      rw [hs] at hsingly hwhole
      have hattempt : b.attempt (.services batch) = .ok next := hs
      have hrefused' : next.refused = none := (take_ok hattempt).2.trans hr
      have hnext : next.build = .ok next.declared := by rw [(hb.stage hs).build_eq, hrefused']
      obtain ⟨-, hservices, -⟩ := hb.toAgrees.draw (stage_ok hs).1
      have hsame : singly = (next, batch.map fun _ => .ok ()) := hsingly
      rw [hwhole, hsame]
      exact ⟨rfl, fun _ => ⟨rfl, hnext, hservices⟩, fun error he => (by cases he)⟩
  | error error =>
      rw [hs] at hsingly hwhole
      have hfirst : firstRefusal singly.2 = some error := hsingly
      have hfails : whole.1.build = .error error := by
        rw [hwhole, build, settle, refuse, hr]
        rfl
      rw [hr, hfirst, Option.none_or] at hrefused
      have hbuild : singly.1.build = .error error := by rw [hbuild, hrefused]
      refine ⟨hbuild.trans hfails.symm, fun he => ?_, fun error' he => ?_⟩
      · rw [hwhole] at he
        cases he
      · rw [hwhole] at he
        obtain rfl := Except.error.inj he
        exact ⟨hfirst, hfails⟩

/-- Behind the database come a service that depends on it and one that depends on that and is a proxy of
the database's port: both ways blame the port, and the last service is still declared one by one. -/
theorem one_by_one_proxy :
    let bot : Service := { id := ⟨"bot"⟩, image := "bot", dependsOn := .ofList [⟨"db"⟩] }
    let front : Service := { proxy with id := ⟨"front"⟩, dependsOn := .ofList [⟨"bot"⟩] }
    let log : Service := { id := ⟨"log"⟩, image := "log", dependsOn := .ofList [⟨"bot"⟩] }
    withDatabase.Declared ∧ withDatabase.refused = none ∧
    InOrder withDatabase.services [bot, front, log] ∧
    (withDatabase.takeAll [.service bot, .service front, .service log]).1.build
      = .error (.portConflict 5432 ⟨"db"⟩ ⟨"front"⟩) ∧
    (withDatabase.addServices [bot, front, log]).1.build
      = .error (.portConflict 5432 ⟨"db"⟩ ⟨"front"⟩) := by
  intro bot front log
  have hdeclared : withDatabase.Declared := .services .empty _
  have horder : InOrder withDatabase.services [bot, front, log] :=
    ⟨by decide, by decide, by decide, by decide, by decide, by decide, trivial⟩
  obtain ⟨hsame, -, herror⟩ := one_by_one hdeclared (by decide) horder
  obtain ⟨-, hbuild⟩ := herror (.portConflict 5432 ⟨"db"⟩ ⟨"front"⟩) (by decide)
  exact ⟨hdeclared, by decide, horder, hsame.trans hbuild, hbuild⟩

end Builder

end Bringup.Topology
