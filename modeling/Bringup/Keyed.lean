/-!
# Lists in the order of a text key

A list whose entries stand in ascending order of a key, each key once, is a finite map or set with
one canonical form. `Keyed.insert` puts an entry in its place and takes the place of an entry with
the same key; `Keyed.find?` looks an entry up. In a list of pairs that has each key once, but in any
order, `List.lookup` finds just the entries (`lookup_eq_some`). Texts are compared by code points,
which is also the order of their UTF-8 bytes.
-/

namespace Bringup.Keyed

variable {α : Type} (key : α → String)

/-- The entries stand in strictly ascending order of their keys. -/
def Ordered (entries : List α) : Prop := entries.Pairwise fun a b => key a < key b

/-- Puts an entry in its place, which is that of an earlier entry with the same key. -/
def insert (a : α) : List α → List α
  | [] => [a]
  | b :: rest =>
    if key a < key b then a :: b :: rest
    else if key b < key a then b :: insert a rest
    else a :: rest

/-- The entry with the given key. -/
def find? (k : String) (entries : List α) : Option α := entries.find? fun a => key a == k

/-! ### Laws -/

variable {key}

private theorem eq_of_not_lt {x y : String} (h : ¬ x < y) (h' : ¬ y < x) : x = y := by
  rcases Std.lt_trichotomy x y with h₁ | h₁ | h₁
  · exact absurd h₁ h
  · exact h₁
  · exact absurd h₁ h'

theorem mem_insert {a x : α} {entries : List α} (ho : Ordered key entries) :
    x ∈ insert key a entries ↔ x = a ∨ (x ∈ entries ∧ key x ≠ key a) := by
  induction entries with
  | nil => simp [insert]
  | cons b rest ih =>
    obtain ⟨hb, hr⟩ := List.pairwise_cons.1 ho
    rw [insert]
    split
    next hab =>
      have habove : ∀ y ∈ b :: rest, key y ≠ key a := by
        intro y hy he
        rcases List.mem_cons.1 hy with rfl | hy
        · exact String.lt_irrefl _ (he ▸ hab)
        · exact String.lt_asymm hab (he ▸ hb y hy)
      constructor
      · intro hx
        rcases List.mem_cons.1 hx with rfl | hx
        · exact .inl rfl
        · exact .inr ⟨hx, habove x hx⟩
      · rintro (rfl | ⟨hx, -⟩)
        · exact List.mem_cons_self
        · exact List.mem_cons_of_mem _ hx
    next hab =>
      split
      next hba =>
        rw [List.mem_cons, ih hr, List.mem_cons]
        have : key b ≠ key a := fun he => String.lt_irrefl _ (he ▸ hba)
        constructor
        · rintro (rfl | rfl | ⟨hx, hk⟩)
          · exact .inr ⟨.inl rfl, this⟩
          · exact .inl rfl
          · exact .inr ⟨.inr hx, hk⟩
        · rintro (rfl | ⟨rfl | hx, hk⟩)
          · exact .inr (.inl rfl)
          · exact .inl rfl
          · exact .inr (.inr ⟨hx, hk⟩)
      next hba =>
        have hk := eq_of_not_lt hab hba
        have hother : ∀ y ∈ rest, key y ≠ key a := fun y hy he =>
          String.lt_irrefl _ (hk ▸ he ▸ hb y hy)
        rw [List.mem_cons, List.mem_cons]
        constructor
        · rintro (rfl | hx)
          · exact .inl rfl
          · exact .inr ⟨.inr hx, hother x hx⟩
        · rintro (rfl | ⟨rfl | hx, hn⟩)
          · exact .inl rfl
          · exact absurd hk.symm hn
          · exact .inr hx

theorem ordered_nil : Ordered key ([] : List α) := List.Pairwise.nil

theorem ordered_insert {a : α} {entries : List α} (ho : Ordered key entries) :
    Ordered key (insert key a entries) := by
  induction entries with
  | nil => simp [insert, Ordered]
  | cons b rest ih =>
    obtain ⟨hb, hr⟩ := List.pairwise_cons.1 ho
    rw [insert]
    split
    next hab =>
      refine List.pairwise_cons.2 ⟨fun y hy => ?_, ho⟩
      rcases List.mem_cons.1 hy with rfl | hy
      · exact hab
      · exact String.lt_trans hab (hb y hy)
    next hab =>
      split
      next hba =>
        refine List.pairwise_cons.2 ⟨fun y hy => ?_, ih hr⟩
        rcases (mem_insert hr).1 hy with rfl | ⟨hy, -⟩
        · exact hba
        · exact hb y hy
      next hba =>
        exact List.pairwise_cons.2 ⟨fun y hy => eq_of_not_lt hab hba ▸ hb y hy, hr⟩

/-- Where each key comes once, what is looked up is what stands in the list. -/
theorem lookup_eq_some {κ β : Type} [BEq κ] [LawfulBEq κ] {entries : List (κ × β)}
    (h : (entries.map Prod.fst).Nodup) {k : κ} {value : β} :
    entries.lookup k = some value ↔ (k, value) ∈ entries := by
  rw [List.lookup_eq_some_iff]
  constructor
  · rintro ⟨before, behind, rfl, -⟩
    exact List.mem_append_right _ List.mem_cons_self
  · intro hm
    obtain ⟨before, behind, rfl⟩ := List.append_of_mem hm
    refine ⟨before, behind, rfl, fun entry hentry => ?_⟩
    rw [List.map_append, List.nodup_append] at h
    exact bne_iff_ne.2 (h.2.2 entry.1 (List.mem_map_of_mem hentry) k List.mem_cons_self).symm

end Bringup.Keyed
