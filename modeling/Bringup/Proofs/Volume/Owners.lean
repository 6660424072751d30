import Bringup.Proofs.Volume.Refusals

/-!
# Whom a volume is bound to

What requests do to the owners of volumes (`owner?`). A request to bind a volume touches that volume
alone and takes it from nobody: who owns it before owns it afterwards, and a request that is granted
leaves it to the service that asked. A request to unbind a volume frees it, whatever it is answered.
-/

namespace Bringup.Volume.Bindings

variable {table : Bindings} {volume other : VolumeId} {service owner : ServiceId}
  {binding : Binding}

/-- The service that a volume is bound to. -/
def owner? (table : Bindings) (volume : VolumeId) : Option ServiceId :=
  (table.get? volume).bind Binding.owner

theorem owner?_of_get? (h : table.get? volume = some binding) :
    table.owner? volume = binding.owner := by
  rw [owner?, h, Option.bind_some]

theorem owner?_put_self (table : Bindings) (binding : Binding) :
    (table.put binding).owner? binding.id = binding.owner :=
  owner?_of_get? (get?_put_self table binding)

theorem owner?_put_of_ne (h : volume ≠ binding.id) :
    (table.put binding).owner? volume = table.owner? volume := by
  rw [owner?, get?_put_of_ne h, owner?]

theorem get?_erase_of_ne (h : volume ≠ other) :
    (table.erase other).get? volume = table.get? volume := by
  obtain ⟨entries⟩ := table
  simp only [get?, erase, List.find?_filter]
  refine congrFun (congrArg List.find? (funext fun binding => ?_)) entries
  by_cases hid : binding.id = volume
  · simp [hid, h]
  · simp [hid]

/-! ## Binding a volume -/

theorem owner?_attach_of_ne (h : other ≠ volume) (service : ServiceId) :
    (table.attach volume service).1.owner? other = table.owner? other := by
  rcases table.attach_table volume service with he | ⟨binding, hid, -, -, he⟩
  · rw [he]
  · rw [he, owner?_put_of_ne (hid ▸ h)]

/-- A request that is granted leaves the volume to the service. -/
theorem owner?_attach_of_ok {fresh : Bool} (h : (table.attach volume service).2 = .ok fresh) :
    (table.attach volume service).1.owner? volume = some service := by
  unfold attach at h ⊢
  cases hg : table.get? volume with
  | none =>
      rw [hg] at h
      cases h
  | some binding =>
      rw [hg] at h
      rcases binding with ⟨declared, _ | owner, count⟩
      · obtain rfl : declared.id = volume := id_of_get? hg
        exact owner?_put_self table ⟨declared, some service, count + 1⟩
      · by_cases ho : owner = service
        · subst ho
          simpa using owner?_of_get? hg
        · simp [ho] at h

/-- The binding of a volume that can be bound, after it was asked for. -/
theorem owner_attach_self (hg : table.get? volume = some binding)
    (ho : binding.owner = none ∨ binding.owner = some service) :
    ∃ bound, (table.attach volume service).1.get? volume = some bound ∧
      bound.owner = some service := by
  unfold attach
  rw [hg]
  rcases binding with ⟨declared, _ | owner, count⟩
  · obtain rfl : declared.id = volume := id_of_get? hg
    exact ⟨_, get?_put_self table ⟨declared, some service, count + 1⟩, rfl⟩
  · obtain rfl : owner = service := Option.some.inj (ho.resolve_left (by simp))
    exact ⟨_, by simpa using hg, rfl⟩

/-- Who owns a volume goes on to own it, whoever asks for it. -/
theorem owner?_attach_kept (h : table.owner? other = some owner) (volume : VolumeId)
    (service : ServiceId) : (table.attach volume service).1.owner? other = some owner := by
  by_cases hne : other = volume
  · subst hne
    obtain ⟨binding, hg, ho⟩ := Option.bind_eq_some_iff.1 h
    unfold attach
    rw [hg]
    by_cases he : owner = service <;> simp [ho, he, h]
  · rw [owner?_attach_of_ne hne, h]

/-! ## Unbinding a volume -/

/-- A request to unbind a volume takes the owner out of its binding. -/
theorem get?_detach_self : (table.detach volume).1.get? volume
    = (table.get? volume).map fun binding => { binding with owner := none } := by
  unfold detach
  cases hg : table.get? volume with
  | none => simp [hg]
  | some binding =>
      obtain rfl := id_of_get? hg
      exact get?_put_self table { binding with owner := none }

theorem owner?_detach_self : (table.detach volume).1.owner? volume = none := by
  rw [owner?, get?_detach_self]
  cases table.get? volume <;> rfl

theorem get?_detach_of_ne (h : volume ≠ other) :
    (table.detach other).1.get? volume = table.get? volume := by
  unfold detach
  cases hg : table.get? other with
  | none => rfl
  | some old =>
      have hne : volume ≠ Binding.id { old with owner := none } := id_of_get? hg ▸ h
      exact get?_put_of_ne hne

theorem owner?_detach_of_ne (h : other ≠ volume) :
    (table.detach volume).1.owner? other = table.owner? other := by
  rw [owner?, get?_detach_of_ne h, owner?]

/-- A request to unbind a volume gives no service another one. -/
theorem owner?_detach_ne (h : table.owner? other ≠ some owner) (volume : VolumeId) :
    (table.detach volume).1.owner? other ≠ some owner := by
  by_cases hne : other = volume
  · rw [hne, owner?_detach_self]
    exact Option.some_ne_none owner |>.symm
  · rwa [owner?_detach_of_ne hne]

end Bringup.Volume.Bindings
