import Bringup.Proofs.Graph.LeastOrder
import Bringup.Proofs.Topology.Dependencies

/-!
# The start order is the least one

Of all orders in which every service comes once and behind what it depends on (`InOrder`), the services
start in the one that is least by their positions (`startOrder_least`). At each place it has the service
declared first of those that could come there, so another order that differs from it has a later one
where the two part (`le_of_earliest`). Where there is no such order the answer is the first service that
lies on a cycle of dependencies or depends on one (`Stuck`). This holds of any graph between services,
whether it was built from declarations or not.
-/

namespace Bringup.Topology

open Relation (ReflTransGen TransGen)

variable {t : Topology}

/-- The graph has the services as its nodes, and its edges lead between them. -/
structure Drawn (t : Topology) : Prop where
  nodes : t.graph.nodes = t.services.map Service.id
  closed : t.graph.Closed

/-- All services, each once and behind what it depends on. -/
structure InOrder (t : Topology) (order : List (Fin t.size)) : Prop where
  once : order.Nodup
  all : ∀ s, s ∈ order
  after : ∀ {before behind : List (Fin t.size)} {s : Fin t.size}, order = before ++ s :: behind →
    ∀ d ∈ t.dependencies s, d ∈ before

/-- A service directly depends on another one. -/
def Supports (t : Topology) (d s : Fin t.size) : Prop := d ∈ t.dependencies s

/-- The service depends on itself, directly or through others. -/
def Cyclic (t : Topology) (s : Fin t.size) : Prop := TransGen t.Supports s s

/-- The service lies on a cycle, or depends directly or through others on one that does. -/
def Stuck (t : Topology) (s : Fin t.size) : Prop :=
  ∃ d, t.Cyclic d ∧ ReflTransGen t.Supports d s

/-! ## Services and nodes -/

namespace Drawn

theorem size (h : t.Drawn) : t.graph.size = t.size := by
  rw [Digraph.size, h.nodes, List.length_map]
  rfl

theorem lt (h : t.Drawn) {n m : Nat} (he : t.graph.Edge n m) : n < t.size ∧ m < t.size :=
  h.size ▸ h.closed he

/-- The node of a service carries its name. -/
theorem name? (h : t.Drawn) (s : Fin t.size) : t.graph.name? s = some (t.id s) := by
  have hs : t.services[(s : Nat)]? = some (t.service s) := List.getElem?_eq_getElem s.2
  rw [Digraph.name?, h.nodes, List.getElem?_map, hs]
  rfl

/-- What is reached in the graph is reached along the dependencies. -/
theorem transGen_iff (h : t.Drawn) {d s : Fin t.size} :
    TransGen t.graph.Edge d s ↔ TransGen t.Supports d s := by
  refine ⟨fun hr => ?_, fun hr => hr.lift Fin.val fun _ _ he => mem_dependencies.1 he⟩
  obtain ⟨n, hn⟩ : ∃ n, n = (s : Nat) := ⟨_, rfl⟩
  rw [← hn] at hr
  induction hr generalizing s with
  | single he => exact .single (mem_dependencies.2 (hn ▸ he))
  | @tail k n _ he ih =>
      have hk : k < t.size := (h.lt he).1
      exact (ih (s := ⟨k, hk⟩) rfl).tail (mem_dependencies.2 (hn ▸ he))

theorem stuck_iff (h : t.Drawn) {s : Fin t.size} : t.graph.Stuck s ↔ t.Stuck s := by
  have reflTransGen_iff {d s : Fin t.size} :
      ReflTransGen t.graph.Edge d s ↔ ReflTransGen t.Supports d s := by
    rw [Relation.reflTransGen_iff_eq_or_transGen, Relation.reflTransGen_iff_eq_or_transGen,
      h.transGen_iff, Fin.val_inj]
  constructor
  · rintro ⟨n, hn, hns⟩
    obtain ⟨k, he, -⟩ := Relation.TransGen.head'_iff.1 hn
    refine ⟨⟨n, (h.lt he).1⟩, h.transGen_iff.1 hn, reflTransGen_iff.1 hns⟩
  · rintro ⟨d, hd, hds⟩
    exact ⟨d, h.transGen_iff.2 hd, reflTransGen_iff.2 hds⟩

end Drawn

/-! ## The least order -/

/-- **An order that takes the first service at each step is the least one.** -/
theorem le_of_earliest {order other : List (Fin t.size)} (horder : t.InOrder order)
    (hother : t.InOrder other)
    (earliest : ∀ {before behind s}, order = before ++ s :: behind → ∀ s' ∉ before,
      (∀ d ∈ t.dependencies s', d ∈ before) → s ≤ s') :
    order = other ∨ List.Lex (· < ·) order other := by
  -- Behind a part that they share the two orders are compared by the services that come next.
  suffices hrest : ∀ rest rest' before, order = before ++ rest → other = before ++ rest' →
      rest = rest' ∨ List.Lex (· < ·) rest rest' from hrest order other [] rfl rfl
  intro rest
  induction rest with
  | nil =>
      intro rest' _ _ _
      cases rest' with
      | nil => exact .inl rfl
      | cons s' rest' => exact .inr .nil
  | cons s rest ih =>
      intro rest' before ho ho'
      have hs : s ∉ before := by
        have honce := horder.once
        rw [ho, List.nodup_append] at honce
        exact fun hm => honce.2.2 s hm s List.mem_cons_self rfl
      cases rest' with
      | nil =>
          have hm := hother.all s
          rw [ho', List.append_nil] at hm
          exact absurd hm hs
      | cons s' rest' =>
          have hs' : s' ∉ before := by
            have honce := hother.once
            rw [ho', List.nodup_append] at honce
            exact fun hm => honce.2.2 s' hm s' List.mem_cons_self rfl
          rcases Nat.lt_or_eq_of_le (earliest ho s' hs' (hother.after ho')) with hlt | heq
          · exact .inr (.rel hlt)
          · obtain rfl := Fin.ext heq
            have hrest := ih rest' (before ++ [s]) (by simpa using ho) (by simpa using ho')
            exact hrest.imp (congrArg (s :: ·)) .cons

/-- Where each service comes behind what it depends on, in the reverse it comes before that. -/
theorem InOrder.reverse {order : List (Fin t.size)} (h : t.InOrder order)
    {before behind : List (Fin t.size)} {s : Fin t.size} (ho : order.reverse = before ++ s :: behind)
    {d : Fin t.size} (hd : d ∈ t.dependencies s) : d ∈ behind := by
  have hsplit : order = behind.reverse ++ s :: before.reverse := by
    rw [← List.reverse_reverse order, ho]
    simp
  exact List.mem_reverse.1 (h.after hsplit d hd)

theorem startOrder_eq_ok {order : List (Fin t.size)} (h : t.startOrder = .ok order) :
    ∃ nodes, t.graph.startOrder = .ok nodes ∧ order = t.positions nodes := by
  unfold Topology.startOrder at h
  split at h
  next nodes ho => exact ⟨nodes, ho, (Except.ok.inj h).symm⟩
  next => cases h

namespace Drawn

variable (h : t.Drawn) {order : List (Fin t.size)}

include h

theorem map_val {nodes : List Nat} (ho : t.graph.startOrder = .ok nodes) :
    (t.positions nodes).map Fin.val = nodes :=
  map_positions fun n hn => h.size ▸ ((Digraph.mem_startOrder h.closed ho).2 n).1 hn

/-- The start order has all services, each once and behind what it depends on. -/
theorem inOrder (ho : t.startOrder = .ok order) : t.InOrder order := by
  obtain ⟨nodes, hn, rfl⟩ := startOrder_eq_ok ho
  obtain ⟨honce, hall⟩ := Digraph.mem_startOrder h.closed hn
  refine ⟨nodup_positions honce, fun s => ?_, fun {before behind s} he d hd => ?_⟩
  · exact mem_positions.2 ((hall s).2 (Nat.lt_of_lt_of_eq s.2 h.size.symm))
  · have hnodes : nodes = before.map Fin.val ++ (s : Nat) :: behind.map Fin.val := by
      rw [← h.map_val hn, he]
      simp
    have hm := Digraph.startOrder_after h.closed hn hnodes (mem_dependencies.1 hd)
    exact (List.mem_map_of_injective Fin.val_injective).1 hm

/-- At each place the start order has the first service that could come there. -/
theorem earliest (ho : t.startOrder = .ok order) {before behind : List (Fin t.size)}
    {s s' : Fin t.size} (he : order = before ++ s :: behind) (hs' : s' ∉ before)
    (hdeps : ∀ d ∈ t.dependencies s', d ∈ before) : s ≤ s' := by
  obtain ⟨nodes, hn, rfl⟩ := startOrder_eq_ok ho
  have hnodes : nodes = before.map Fin.val ++ (s : Nat) :: behind.map Fin.val := by
    rw [← h.map_val hn, he]
    simp
  have hlt : (s' : Nat) < t.graph.size := Nat.lt_of_lt_of_eq s'.2 h.size.symm
  refine Digraph.startOrder_earliest h.closed hn hnodes hlt ?_ fun n he => ?_
  · rwa [List.mem_map_of_injective Fin.val_injective]
  · exact List.mem_map_of_mem (hdeps ⟨n, (h.lt he).1⟩ (mem_dependencies.2 he))

/-- Where there is no start order, the first service is named that lies on a cycle or depends on one. -/
theorem startOrder_error {error : TopologyError} (ho : t.startOrder = .error error) :
    ∃ s, error = .cyclicDependency (t.id s) ∧ IsLeast {s | t.Stuck s} s := by
  unfold Topology.startOrder at ho
  split at ho
  next => cases ho
  next n hn =>
    obtain ⟨hstuck, hleast⟩ := (Digraph.startOrder_eq_error h.closed).1 hn
    have hlt : n < t.size := h.size ▸ hstuck.lt h.closed
    refine ⟨⟨n, hlt⟩, ?_, h.stuck_iff.1 hstuck, fun s hs => hleast (h.stuck_iff.2 hs)⟩
    have hname : t.graph.name? n = some (t.id ⟨n, hlt⟩) := h.name? ⟨n, hlt⟩
    rw [← Except.error.inj ho, hname]
    rfl

theorem exists_startOrder_iff : (∃ order, t.startOrder = .ok order) ↔ ∀ s, ¬ t.Cyclic s := by
  have hgraph : (∃ order, t.startOrder = .ok order) ↔ ∃ nodes, t.graph.startOrder = .ok nodes :=
    ⟨fun ⟨_, ho⟩ => (startOrder_eq_ok ho).imp fun _ h => h.1,
      fun ⟨nodes, ho⟩ => ⟨t.positions nodes, by rw [Topology.startOrder, ho]⟩⟩
  rw [hgraph, Digraph.exists_startOrder_iff h.closed]
  refine ⟨fun ha s hs => ha s (h.transGen_iff.2 hs), fun ha n hn => ?_⟩
  obtain ⟨k, he, -⟩ := Relation.TransGen.head'_iff.1 hn
  exact ha ⟨n, (h.lt he).1⟩ (h.transGen_iff.1 hn)

end Drawn

/-! ## The theorem -/

/-- **The services start in the least order.** Of any graph between services: there is a start order just
if no service depends on itself, directly or through others. It has all services, each once and behind
what it depends on; it is the least of these orders, and at each place it has the first service of those
whose dependencies have all come. The order of the stop has the same services, each before what it
depends on. Where there is no start order, the service named is the first that lies on a cycle or depends
on one. No count is ever taken below zero. -/
theorem startOrder_least (h : t.Drawn) :
    ((∃ order, t.startOrder = .ok order) ↔ ∀ s, ¬ t.Cyclic s) ∧
    (∀ order, t.startOrder = .ok order →
      t.InOrder order ∧ (∀ other, t.InOrder other → order = other ∨ List.Lex (· < ·) order other) ∧
      (∀ before s behind, order = before ++ s :: behind → ∀ s' ∉ before,
        (∀ d ∈ t.dependencies s', d ∈ before) → s ≤ s') ∧
      ∃ stops, t.stopOrder = .ok stops ∧ stops.Perm order ∧
        ∀ before s behind, stops = before ++ s :: behind → ∀ d ∈ t.dependencies s, d ∈ behind) ∧
    (∀ error, t.startOrder = .error error →
      ∃ s, error = .cyclicDependency (t.id s) ∧ IsLeast {s | t.Stuck s} s) ∧
    ∀ p n, t.graph.Releases p n → 0 < p.missing.getD n 0 := by
  refine ⟨h.exists_startOrder_iff, fun order ho => ?_, fun _ => h.startOrder_error,
    fun p n hp => hp.pos h.closed⟩
  have horder := h.inOrder ho
  refine ⟨horder, fun other hother => le_of_earliest horder hother
      fun he _ hs' hdeps => h.earliest ho he hs' hdeps,
    fun _ _ _ he _ hs' hdeps => h.earliest ho he hs' hdeps, order.reverse, ?_, List.reverse_perm order,
    fun _ _ _ he d hd => horder.reverse he hd⟩
  rw [stopOrder, ho]
  rfl

/-- Four services of which `api` and `bot` depend on `db`. -/
def forked : Topology where
  services := [{ id := ⟨"api"⟩, image := "api", dependsOn := .ofList [⟨"db"⟩] },
    { id := ⟨"worker"⟩, image := "worker" }, { id := ⟨"db"⟩, image := "db" },
    { id := ⟨"bot"⟩, image := "bot", dependsOn := .ofList [⟨"db"⟩] }]
  index := [(⟨"bot"⟩, 3), (⟨"db"⟩, 2), (⟨"worker"⟩, 1), (⟨"api"⟩, 0)]
  graph := ⟨[⟨"api"⟩, ⟨"worker"⟩, ⟨"db"⟩, ⟨"bot"⟩], [(2, 3), (2, 0)]⟩

/-- First `worker`, then `db`, and then what depends on it. -/
def forkedOrder : List (Fin forked.size) :=
  [⟨1, by decide⟩, ⟨2, by decide⟩, ⟨0, by decide⟩, ⟨3, by decide⟩]

/-- Of `worker` and `db`, which are both free at the start, the one declared first comes first. -/
theorem startOrder_least_forked : forked.Drawn ∧ forked.startOrder = .ok forkedOrder ∧
    ∀ other, forked.InOrder other →
      forkedOrder = other ∨ List.Lex (· < ·) forkedOrder other := by
  have hdrawn : forked.Drawn := ⟨rfl, fun {n m} he => by
    have hmem : (n, m) = (2, 3) ∨ (n, m) = (2, 0) := by simpa [Digraph.Edge, forked] using he
    rcases hmem with he | he <;> cases he <;> decide⟩
  have ho : forked.startOrder = .ok forkedOrder := by decide
  exact ⟨hdrawn, ho, ((startOrder_least hdrawn).2.1 _ ho).2.1⟩

end Bringup.Topology
