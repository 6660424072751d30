import Bringup.Volume.Bindings

/-!
# Why a volume is not bound

Whether a volume can be bound to a service is written in the table of bindings (`refusal?`), and a
request to bind it is answered accordingly (`attach_refusal`). Binding volumes to services does not
change what other volumes are refused for, and not what this one is refused for by its own service.
-/

namespace Bringup.Volume.Bindings

variable {table : Bindings} {volume other : VolumeId} {service : ServiceId} {binding : Binding}

/-- Why a volume cannot be bound to a service: it is not known, or bound to another service. -/
def refusal? (table : Bindings) (volume : VolumeId) (service : ServiceId) : Option BindingError :=
  match table.get? volume with
  | none => some (.unknown volume)
  | some binding =>
    match binding.owner with
    | none => none
    | some owner => if owner = service then none else some (.alreadyBound volume owner)

theorem id_of_get? (h : table.get? volume = some binding) : binding.id = volume := by
  simpa using List.find?_some h

/-! ## Writing to the table -/

theorem get?_put_self (table : Bindings) (binding : Binding) :
    (table.put binding).get? binding.id = some binding := by
  obtain ⟨entries⟩ := table
  unfold put
  split
  next h =>
    simp only [get?] at h ⊢
    induction entries with
    | nil => cases h
    | cons old rest ih =>
        by_cases ho : old.id = binding.id
        · simp [ho]
        · rw [List.find?_cons_of_neg (by simpa using ho)] at h
          rw [List.map_cons, if_neg ho, List.find?_cons_of_neg (by simpa using ho)]
          exact ih h
  next h =>
    simp only [get?] at h ⊢
    rw [Bool.not_eq_true, Option.isSome_eq_false_iff, Option.isNone_iff_eq_none] at h
    rw [List.find?_append, h]
    simp

theorem get?_put_of_ne (h : volume ≠ binding.id) :
    (table.put binding).get? volume = table.get? volume := by
  obtain ⟨entries⟩ := table
  unfold put
  split
  next hs =>
    clear hs
    simp only [get?]
    induction entries with
    | nil => rfl
    | cons old rest ih =>
        by_cases ho : old.id = binding.id
        · have hold : old.id ≠ volume := ho ▸ h.symm
          rw [List.map_cons, if_pos ho, List.find?_cons_of_neg (by simpa using h.symm),
            List.find?_cons_of_neg (by simpa using hold)]
          exact ih
        · rw [List.map_cons, if_neg ho, List.find?_cons, List.find?_cons, ih]
  next =>
    simp only [get?]
    rw [List.find?_append, List.find?_cons_of_neg (by simpa using h.symm)]
    simp

/-! ## Binding a volume -/

/-- What a request to bind a volume comes to. -/
theorem attach_cases (table : Bindings) (volume : VolumeId) (service : ServiceId) :
    (∃ fresh, (table.attach volume service).2 = .ok fresh ∧
      table.refusal? volume service = none) ∨
    ∃ error, (table.attach volume service).2 = .error error ∧
      table.refusal? volume service = some error := by
  unfold attach refusal?
  cases table.get? volume with
  | none => exact .inr ⟨_, rfl, rfl⟩
  | some binding =>
      rcases binding with ⟨declared, _ | owner, count⟩
      · exact .inl ⟨_, rfl, rfl⟩
      · by_cases ho : owner = service
        · exact .inl ⟨false, by simp [ho], by simp [ho]⟩
        · exact .inr ⟨.alreadyBound volume owner, by simp [ho], by simp [ho]⟩

/-- A request to bind a volume leaves the table as it is, or binds the volume. -/
theorem attach_table (table : Bindings) (volume : VolumeId) (service : ServiceId) :
    (table.attach volume service).1 = table ∨
      ∃ binding, binding.id = volume ∧ binding.owner = some service ∧
        table.refusal? volume service = none ∧
        (table.attach volume service).1 = table.put binding := by
  unfold attach refusal?
  cases hg : table.get? volume with
  | none => exact .inl rfl
  | some binding =>
      have hid := id_of_get? hg
      rcases binding with ⟨declared, _ | owner, count⟩
      · exact .inr ⟨⟨declared, some service, count + 1⟩, hid, rfl, rfl, rfl⟩
      · by_cases ho : owner = service <;> exact .inl (by simp [ho])

/-- What is refused to a service stays so, whatever volumes are bound to it. -/
theorem refusal?_attach_self :
    (table.attach volume service).1.refusal? volume service = table.refusal? volume service := by
  rcases table.attach_table volume service with he | ⟨binding, hid, ho, hr, he⟩
  · rw [he]
  · rw [he, hr, refusal?, ← hid, get?_put_self]
    simp [ho]

theorem refusal?_attach_of_ne (h : other ≠ volume) (service' : ServiceId) :
    (table.attach volume service).1.refusal? other service' = table.refusal? other service' := by
  rcases table.attach_table volume service with he | ⟨binding, hid, -, -, he⟩
  · rw [he]
  · rw [he, refusal?, refusal?, get?_put_of_ne (hid ▸ h)]

end Bringup.Volume.Bindings
