import Bringup.Proofs.Topology.Dependencies
import Mathlib.Data.List.Basic
import Mathlib.Logic.Function.Basic

/-!
# Recursion along an order

What each service comes to may depend on what some others come to. In an order in which those others
come first it is found by going through the services one after another (`along`), and what is found is
the one solution of the equations (`along_eq`). With the order in which the services stop this is
recursion over the dependents, and `Built.induct_dependents` is the induction that belongs to it.

An instant that depends on several others is most often the latest of them (`latest`).
-/

namespace Bringup.Topology

variable {α β : Type}

/-! ## Going through an order -/

section

variable [DecidableEq α]

/-- What all come to, once they have been gone through in an order: each to what `f` makes of those
before it. -/
def along (f : α → (α → β) → β) (order : List α) (value : α → β) : α → β :=
  order.foldl (fun value s => Function.update value s (f s value)) value

variable {f : α → (α → β) → β} {order before behind : List α} {value : α → β} {s : α}

theorem along_append :
    along f (before ++ behind) value = along f behind (along f before value) := List.foldl_append

/-- Who is not gone through stays as it is. -/
theorem along_of_notMem (h : s ∉ order) : along f order value s = value s := by
  induction order generalizing value with
  | nil => rfl
  | cons s' rest ih =>
      obtain ⟨hne, hrest⟩ := not_or.1 (mt List.mem_cons.2 h)
      exact (ih hrest).trans (Function.update_of_ne hne _ _)

/-- **What is found along an order** solves the equations, where each comes behind those that it
depends on. -/
theorem along_eq {needs : α → List α} (hnodup : order.Nodup) (hmem : ∀ s, s ∈ order)
    (hafter : ∀ s, ∀ d ∈ needs s, order.idxOf d < order.idxOf s)
    (hf : ∀ {s v v'}, (∀ d ∈ needs s, v d = v' d) → f s v = f s v') (value : α → β) (s : α) :
    along f order value s = f s (along f order value) := by
  obtain ⟨before, behind, rfl⟩ := List.append_of_mem (hmem s)
  obtain ⟨-, hnodup', hdisjoint⟩ := List.nodup_append.1 hnodup
  have hbehind := (List.nodup_cons.1 hnodup').1
  have hs : s ∉ before := fun hm => hdisjoint s hm s List.mem_cons_self rfl
  have hsplit : along f (before ++ s :: behind) value = along f behind
      (Function.update (along f before value) s (f s (along f before value))) := by
    rw [along_append]
    rfl
  rw [hsplit, along_of_notMem hbehind, Function.update_self]
  refine hf fun d hd => ?_
  -- What the others come to is settled when they are gone through.
  have hdb : d ∈ before := by
    by_contra hn
    have hlt := hafter s d hd
    rw [List.idxOf_append_of_notMem hn, List.idxOf_append_of_notMem hs, List.idxOf_cons_self] at hlt
    omega
  have hne : d ≠ s := fun he => hs (he ▸ hdb)
  have hnot : d ∉ behind := fun hm => hdisjoint d hdb d (List.mem_cons_of_mem _ hm) rfl
  rw [along_of_notMem hnot, Function.update_of_ne hne]

end

/-- **Induction along the dependents**: what holds of a service once it holds of all that depend on it
holds of every service. -/
theorem Built.induct_dependents {t : Topology} (ht : t.Built) {P : Fin t.size → Prop}
    (step : ∀ s, (∀ e ∈ t.dependents s, P e) → P s) (s : Fin t.size) : P s := by
  obtain ⟨order, -, -, -, hbehind⟩ := ht.stopOrder
  have hbelow (n : Nat) : ∀ s : Fin t.size, order.idxOf s < n → P s := by
    induction n with
    | zero => exact fun s hlt => absurd hlt (Nat.not_lt_zero _)
    | succ n ih =>
        intro s hlt
        exact step s fun e he => ih e (Nat.lt_of_lt_of_le (hbehind s e he) (Nat.le_of_lt_succ hlt))
  exact hbelow _ s (Nat.lt_succ_self _)

/-! ## The latest instant -/

/-- The latest of the instants of some, and not before the given one. -/
def latest (earliest : Nat) (instant : α → Nat) (l : List α) : Nat :=
  l.foldr (fun s time => max (instant s) time) earliest

variable {earliest time : Nat} {instant instant' : α → Nat} {l : List α} {s : α}

theorem earliest_le_latest : earliest ≤ latest earliest instant l := by
  induction l with
  | nil => exact Nat.le_refl _
  | cons s rest ih => exact Nat.le_trans ih (Nat.le_max_right _ _)

theorem le_latest (h : s ∈ l) : instant s ≤ latest earliest instant l := by
  induction l with
  | nil => cases h
  | cons s' rest ih =>
      rcases List.mem_cons.1 h with rfl | h
      · exact Nat.le_max_left _ _
      · exact Nat.le_trans (ih h) (Nat.le_max_right _ _)

theorem latest_le (hc : earliest ≤ time) (h : ∀ s ∈ l, instant s ≤ time) :
    latest earliest instant l ≤ time := by
  induction l with
  | nil => exact hc
  | cons s rest ih =>
      exact Nat.max_le.2 ⟨h s List.mem_cons_self, ih fun s hs => h s (List.mem_cons_of_mem _ hs)⟩

theorem latest_congr (h : ∀ s ∈ l, instant s = instant' s) :
    latest earliest instant l = latest earliest instant' l := by
  induction l with
  | nil => rfl
  | cons s rest ih =>
      have hrest := ih fun s hs => h s (List.mem_cons_of_mem _ hs)
      show max _ (latest earliest instant rest) = max _ (latest earliest instant' rest)
      rw [h s List.mem_cons_self, hrest]

end Bringup.Topology
