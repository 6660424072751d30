import Bringup.Lifecycle.Controller
import Bringup.Proofs.Topology.Validation

/-!
# The checks for cycles agree

A batch is searched for a cycle when it is declared, and the services are placed when an order of their
start is needed. Both come to the same (`cycle_checks_agree`). A service that is blamed for a cycle lies on
one, and all of that cycle was declared in the batch (`transGen_batch`): what was declared before depends
only on what was declared before, where there is no cycle. So a topology that was built always has its
orders, and nothing that is done where there is none is ever done.
-/

namespace Bringup.Topology

open Relation (TransGen)

namespace Builder

variable {b : Builder} {batch : List Service} {d s : ServiceId}

/-- A well-formed batch is drawn. -/
theorem exists_draw (h : b.Agrees) (hw : b.WellFormed batch) : ∃ next, b.draw batch = .ok next := by
  cases hd : b.draw batch with
  | ok next => exact ⟨next, rfl⟩
  | error error =>
      obtain ⟨hjustified, hne⟩ := draw_error h hd
      obtain ⟨id, he⟩ := hjustified.cyclic hw
      exact absurd he (hne id)

/-- A service declared before depends only on services declared before. -/
theorem precedes_before (h : b.Represents) (hw : b.WellFormed batch)
    (hp : Precedes (b.services ++ batch) d s) (hs : ∃ x ∈ b.services, x.id = s) :
    Precedes b.services d s := by
  obtain ⟨x, hx, rfl⟩ := hs
  obtain ⟨-, y, hy, hid, hdep⟩ := hp
  have hy : y ∈ b.services :=
    (List.mem_append.1 hy).resolve_right fun hbatch => hw.fresh y hbatch x hx hid.symm
  exact ⟨h.known hy hdep, y, hy, hid, hdep⟩

theorem transGen_before (h : b.Represents) (hw : b.WellFormed batch)
    (hr : TransGen (Precedes (b.services ++ batch)) d s) (hs : ∃ x ∈ b.services, x.id = s) :
    TransGen (Precedes b.services) d s := by
  induction hr with
  | single hp => exact .single (precedes_before h hw hp hs)
  | tail _ hp ih =>
      have hp := precedes_before h hw hp hs
      exact (ih hp.1).tail hp

/-- **A cycle lies within the batch.** -/
theorem transGen_batch (h : b.Represents) (hw : b.WellFormed batch)
    (hr : TransGen (Precedes (b.services ++ batch)) s s) : TransGen (Precedes batch) s s := by
  have hnew {d s : ServiceId} (hr : TransGen (Precedes (b.services ++ batch)) d s)
      (hd : ¬ ∃ x ∈ b.services, x.id = d) : ¬ ∃ x ∈ b.services, x.id = s := fun hs => by
    obtain ⟨k, hp, -⟩ := Relation.TransGen.head'_iff.1 (transGen_before h hw hr hs)
    exact hd hp.1
  have hself : ¬ ∃ x ∈ b.services, x.id = s := fun hs =>
    h.toAgrees.acyclic_iff.1 h.acyclic s (transGen_before h hw hr hs)
  -- What is reached from a new service is new, and so are all on the way.
  have hbatch {d s : ServiceId} (hp : Precedes (b.services ++ batch) d s)
      (hd : ¬ ∃ x ∈ b.services, x.id = d) : Precedes batch d s := by
    have hs := hnew (.single hp) hd
    obtain ⟨⟨x, hx, rfl⟩, y, hy, rfl, hdep⟩ := hp
    refine ⟨⟨x, ?_, rfl⟩, y, ?_, rfl, hdep⟩
    · exact (List.mem_append.1 hx).resolve_left fun hx => hd ⟨x, hx, rfl⟩
    · exact (List.mem_append.1 hy).resolve_left fun hy => hs ⟨y, hy, rfl⟩
  suffices hall : ∀ k, TransGen (Precedes (b.services ++ batch)) s k → TransGen (Precedes batch) s k
    from hall s hr
  intro k hk
  induction hk with
  | single hp => exact .single (hbatch hp hself)
  | tail hr hp ih => exact ih.tail (hbatch hp (hnew hr hself))

/-- The drawn services have an order of their start just if their nodes can be placed. -/
theorem startOrder_error_iff : (∃ error, b.startOrder = .error error) ↔
    ∃ n, b.graph.startOrder = .error n := by
  have hgraph : b.declared.graph.startOrder = b.graph.startOrder := rfl
  rw [startOrder, Topology.startOrder, hgraph]
  cases b.graph.startOrder <;> simp

/-- **The two checks for cycles agree, and the service that is blamed lies on a cycle.** Let a batch be
well-formed but for cycles. It is drawn, and the search finds a node of the graph just if the services have
no order of their start, however its second pass is read. It then refuses the batch and names a service of
it that depends on itself, directly or through others of the batch; else it accepts the batch. So a
topology is handed out unless a declaration was refused, and it has the orders that starts, stops and
reports ask for. -/
theorem cycle_checks_agree (h : b.Declared) (hw : b.WellFormed batch) :
    (∃ next, b.draw batch = .ok next ∧ next.services = b.services ++ batch ∧
      next.graph.cyclicNode? = next.graph.retracedNode? ∧
      ((∃ n, next.graph.cyclicNode? = some n) ↔ ∃ error, next.startOrder = .error error) ∧
      (∀ n, next.graph.cyclicNode? = some n → ∃ s ∈ batch, next.graph.name? n = some s.id ∧
        (b.addServices batch).2 = .error (.cyclicDependency s.id) ∧
        TransGen (Precedes batch) s.id s.id) ∧
      (next.graph.cyclicNode? = none → b.addServices batch = (next, .ok ()))) ∧
    (b.build = match b.refused with
      | some error => .error error
      | none => .ok b.declared) ∧
    ∀ t, b.build = .ok t → ∃ order, t.startOrder = .ok order ∧ t.stopOrder = .ok order.reverse ∧
      Lifecycle.Controller.reportOrder t = order := by
  have hb := h.represents
  obtain ⟨next, hd⟩ := exists_draw hb.toAgrees hw
  obtain ⟨hagrees, hservices, -⟩ := hb.toAgrees.draw hd
  have hrefuses (n : Nat) (hn : next.graph.cyclicNode? = some n) :
      b.stage batch = .error (.cyclicDependency ((next.graph.name? n).getD default)) := by
    simp only [stage_eq, hd, Except.bind, hn]
  have hstages (hn : next.graph.cyclicNode? = none) : b.stage batch = .ok next := by
    simp only [stage_eq, hd, Except.bind, hn]
  refine ⟨⟨next, hd, hservices, Digraph.cyclicNode?_eq_retracedNode? hagrees.closed, ?_,
    fun n hn => ?_, fun hnone => ?_⟩, hb.build_eq, fun t ht => ?_⟩
  · rw [Digraph.cyclicNode?_isSome_iff hagrees.closed, startOrder_error_iff]
  · obtain ⟨id, id', hid, hid', hr⟩ :=
      hagrees.transGen_precedes (Digraph.cyclicNode?_cyclic hagrees.closed hn)
    obtain rfl := Option.some.inj (hid.symm.trans hid')
    have hcycle := transGen_batch hb hw (hservices ▸ hr)
    obtain ⟨k, ⟨⟨s, hs, rfl⟩, -⟩, -⟩ := Relation.TransGen.head'_iff.1 hcycle
    refine ⟨s, hs, hid, ?_, hcycle⟩
    rw [addServices, hrefuses n hn, hid]
    rfl
  · rw [addServices, hstages hnone]
    rfl
  · obtain ⟨order, ho, -⟩ := Built.startOrder ⟨b, h, ht⟩
    refine ⟨order, ho, by rw [stopOrder, ho]; rfl, ?_⟩
    rw [Lifecycle.Controller.reportOrder, ho]

/-- Two services that depend on each other, and before them one that depends on them. -/
def ring : List Service :=
  [{ id := ⟨"front"⟩, image := "front", dependsOn := .ofList [⟨"api"⟩, ⟨"db"⟩] },
    { id := ⟨"api"⟩, image := "api", dependsOn := .ofList [⟨"bot"⟩] },
    { id := ⟨"bot"⟩, image := "bot", dependsOn := .ofList [⟨"api"⟩] }]

/-- A service that only depends on a cycle is left over when the services are placed, and is not the one
that is blamed. -/
theorem cycle_checks_agree_ring : withDatabase.Declared ∧ withDatabase.WellFormed ring ∧
    ∃ s ∈ ring, (withDatabase.addServices ring).2 = .error (.cyclicDependency s.id) ∧
      TransGen (Precedes ring) s.id s.id := by
  have hdeclared : withDatabase.Declared := .services .empty _
  have hw : withDatabase.WellFormed ring := by
    refine ⟨by decide, by decide, by decide, by decide, by decide⟩
  obtain ⟨⟨next, hd, -, -, -, hfound, hnone⟩, -⟩ := cycle_checks_agree hdeclared hw
  refine ⟨hdeclared, hw, ?_⟩
  cases hn : next.graph.cyclicNode? with
  | none =>
      have hok : (withDatabase.addServices ring).2 = .ok () := by rw [hnone hn]
      exact absurd hok (by decide)
  | some n =>
      obtain ⟨s, hs, -, herror, hr⟩ := hfound n hn
      exact ⟨s, hs, herror, hr⟩

end Builder

end Bringup.Topology
