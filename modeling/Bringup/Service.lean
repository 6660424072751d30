import Bringup.Environment
import Bringup.PortMapping

/-!
# Services and volumes

A service is a container to run: its image, the ports it exposes, its environment and what it
depends on. A volume is storage that is mounted into the container of its one owner.
-/

namespace Bringup

/-- A set of services, in the order of their names. -/
structure ServiceSet where
  ids : List ServiceId := []
  ordered : Keyed.Ordered ServiceId.name ids := by exact Keyed.ordered_nil

namespace ServiceSet

/-- The set without members. -/
def empty : ServiceSet := { ids := [] }

instance : Inhabited ServiceSet := ⟨empty⟩

theorem ext {a b : ServiceSet} (h : a.ids = b.ids) : a = b := by
  cases a; cases b; cases h; rfl

instance : DecidableEq ServiceSet := fun a b =>
  if h : a.ids = b.ids then isTrue (ext h) else isFalse fun e => h (e ▸ rfl)

instance : Membership ServiceId ServiceSet := ⟨fun set id => id ∈ set.ids⟩

instance (id : ServiceId) (set : ServiceSet) : Decidable (id ∈ set) :=
  inferInstanceAs (Decidable (id ∈ set.ids))

/-- The set with one more member. -/
def insert (set : ServiceSet) (id : ServiceId) : ServiceSet where
  ids := Keyed.insert ServiceId.name id set.ids
  ordered := Keyed.ordered_insert set.ordered

/-- The members of a list. -/
def ofList (ids : List ServiceId) : ServiceSet := ids.foldl insert empty

theorem mem_insert {set : ServiceSet} {id x : ServiceId} :
    x ∈ set.insert id ↔ x = id ∨ x ∈ set := by
  have h := Keyed.mem_insert (a := id) (x := x) set.ordered
  constructor
  · intro hx
    rcases h.1 hx with hx | hx
    · exact .inl hx
    · exact .inr hx.1
  · rintro (hx | hx)
    · exact h.2 (.inl hx)
    · by_cases hk : x.name = id.name
      · exact h.2 (.inl (by cases x; cases id; simp_all))
      · exact h.2 (.inr ⟨hx, hk⟩)

theorem mem_ofList {ids : List ServiceId} {x : ServiceId} : x ∈ ofList ids ↔ x ∈ ids := by
  have h : ∀ (ids : List ServiceId) (set : ServiceSet),
      x ∈ ids.foldl insert set ↔ x ∈ set ∨ x ∈ ids := by
    intro ids
    induction ids with
    | nil => simp
    | cons id ids ih =>
      intro set
      rw [List.foldl_cons, ih, mem_insert, List.mem_cons]
      constructor
      · rintro ((h | h) | h)
        · exact .inr (.inl h)
        · exact .inl h
        · exact .inr (.inr h)
      · rintro (h | h | h)
        · exact .inl (.inr h)
        · exact .inl (.inl h)
        · exact .inr h
  rw [ofList, h]
  constructor
  · rintro (h | h)
    · exact absurd h List.not_mem_nil
    · exact h
  · exact .inr

end ServiceSet

/-- A container to run. -/
structure Service where
  id : ServiceId
  image : String
  /-- The ports it exposes, in the order of their declaration. -/
  ports : List PortMapping := []
  environment : Environment := .empty
  dependsOn : ServiceSet := .empty
  /-- The variables without which it must not be declared. -/
  requiredEnv : List String := []
  deriving DecidableEq, Inhabited

/-- The required variables that the environment of the service does not set. -/
def Service.missingEnv (service : Service) : List String :=
  service.requiredEnv.filter fun key => !service.environment.contains key

/-- Storage and the path at which a container sees it. -/
structure Volume where
  id : VolumeId
  mountPath : String
  deriving DecidableEq, Inhabited, Repr

/-- A volume and the service into whose container it is mounted. -/
structure VolumeDecl where
  volume : Volume
  owner : ServiceId
  deriving DecidableEq, Inhabited, Repr

end Bringup
