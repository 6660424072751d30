import Bringup.Proofs.Lifecycle.Reports

/-!
# What a start has to come to

A `Prospect` says what volumes, engine and containers have in store for each service, whenever they
are asked. From it follows what a start of all services comes to, by recursion over the dependencies:
a service gets ready if all its dependencies do and nothing goes wrong with itself (`mem_ready`); else
it stays pending, or fails with the first thing that goes wrong (`Prospect.outcome`).

A start job finds this out bit by bit. `Bound`, `Started` and `Untold` say how far it has come, and
what it finds next settles what goes wrong with its service (`trial_volume`, `trial_start`,
`trial_ready`, `trial_timeout`).
-/

namespace Bringup.Lifecycle

open Container (Handle)

/-- What a service meets when it is started. -/
structure Fate where
  /-- Why a volume cannot be bound to the service. -/
  refuses : Volume → Option Volume.BindingError
  /-- Why its container cannot be started. -/
  fault : Option Container.Error
  /-- What its container answers to the questions whether it is ready, counted from zero. -/
  probe : Nat → Container.Probe

/-- The first thing that goes wrong with a service all of whose dependencies are ready: one of its
volumes, the start of its container, or the answers of the container. -/
def Fate.trial (fate : Fate) (id : ServiceId) (volumes : List Volume) (attempts : UInt32) :
    Option Error :=
  match volumes.findSome? fate.refuses, fate.fault with
  | some error, _ => some (.volume id error)
  | none, some error => some (.startFailed id error)
  | none, none =>
    if (List.range attempts.toNat).any fun i => fate.probe i = .ready then none
    else some (.probeTimeout id attempts)

/-- The start of the container of a service comes back as it has to. -/
def Fate.Starts (fate : Fate) (id : ServiceId) : Except Container.Error Handle → Prop
  | .ok handle => fate.fault = none ∧ handle.service = id
  | .error error => fate.fault = some error

/-- The answer to a request to bind a volume is the one it has to be. -/
def Fate.Binds (fate : Fate) (volume : Volume) : Except Volume.BindingError Volume.Answer → Prop
  | .ok _ => fate.refuses volume = none
  | .error error => fate.refuses volume = some error

/-- What all services meet, and how often a container is asked whether it is ready. -/
structure Prospect (t : Topology) where
  fate : Fin t.size → Fate
  attempts : UInt32

namespace Prospect

variable {t : Topology} (p : Prospect t)

/-- What goes wrong with a service itself. -/
def trial (s : Fin t.size) : Option Error := (p.fate s).trial (t.id s) (t.volumesOf s) p.attempts

/-- The services that get ready when they are gone through in an order. -/
def readyAmong (order : List (Fin t.size)) (ready : List (Fin t.size)) : List (Fin t.size) :=
  order.foldl (fun ready s =>
    if (∀ d ∈ t.dependencies s, d ∈ ready) ∧ p.trial s = none then s :: ready else ready) ready

/-- The services that get ready. -/
def ready : List (Fin t.size) := p.readyAmong (Controller.reportOrder t) []

/-- The first dependency, in the order of declaration, that does not get ready. -/
def blocker? (s : Fin t.size) : Option (Fin t.size) :=
  (t.dependencies s).find? fun d => d ∉ p.ready

/-- The state that a service comes to, and the error that is recorded with it. -/
def outcome (s : Fin t.size) : ServiceState × Option Error :=
  match p.blocker? s, p.trial s with
  | some d, _ => (.pending, some (.dependencyFailed (t.id s) (t.id d)))
  | none, some error => (.failed, some error)
  | none, none => (.ready, none)

variable {p} {s : Fin t.size}

/-! ## The recursion -/

theorem mem_readyAmong_of_mem {order ready : List (Fin t.size)} (h : s ∈ ready) :
    s ∈ p.readyAmong order ready := by
  induction order generalizing ready with
  | nil => exact h
  | cons s' rest ih =>
      rw [readyAmong, List.foldl_cons]
      refine ih ?_
      split
      · exact List.mem_cons_of_mem _ h
      · exact h

theorem mem_of_mem_readyAmong {order ready : List (Fin t.size)}
    (h : s ∈ p.readyAmong order ready) : s ∈ ready ∨ s ∈ order := by
  induction order generalizing ready with
  | nil => exact .inl h
  | cons s' rest ih =>
      rw [readyAmong, List.foldl_cons] at h
      rcases ih h with h | h
      · split at h
        · rcases List.mem_cons.1 h with rfl | h
          · exact .inr List.mem_cons_self
          · exact .inl h
        · exact .inl h
      · exact .inr (List.mem_cons_of_mem _ h)

theorem readyAmong_append (before behind ready : List (Fin t.size)) :
    p.readyAmong (before ++ behind) ready = p.readyAmong behind (p.readyAmong before ready) :=
  List.foldl_append

/-- **The recursion over the dependencies**: a service gets ready just if all its dependencies do and
nothing goes wrong with itself. -/
theorem mem_ready (ht : t.Built) :
    s ∈ p.ready ↔ (∀ d ∈ t.dependencies s, d ∈ p.ready) ∧ p.trial s = none := by
  obtain ⟨order, ho, hnodup, hmem, hafter⟩ := ht.startOrder
  have hready : p.ready = p.readyAmong order [] := by rw [ready, Controller.reportOrder, ho]
  obtain ⟨before, behind, rfl⟩ := List.append_of_mem (hmem s)
  obtain ⟨-, hnodup', hdisjoint⟩ := List.nodup_append.1 hnodup
  have hbehind := (List.nodup_cons.1 hnodup').1
  -- Whether a service gets ready is settled when it is gone through.
  have hbefore {d : Fin t.size} (hd : d ∈ before) :
      d ∈ p.ready ↔ d ∈ p.readyAmong before [] := by
    rw [hready, readyAmong_append]
    refine ⟨?_, mem_readyAmong_of_mem⟩
    intro h
    rcases mem_of_mem_readyAmong h with h | h
    · exact h
    · exact absurd rfl (hdisjoint d hd d h)
  have hdeps : (∀ d ∈ t.dependencies s, d ∈ p.ready) ↔
      ∀ d ∈ t.dependencies s, d ∈ p.readyAmong before [] :=
    forall₂_congr fun d hd => hbefore (hafter rfl d hd)
  rw [hdeps, hready, readyAmong_append, readyAmong, List.foldl_cons]
  constructor
  · intro h
    rcases mem_of_mem_readyAmong h with h | h
    · split at h
      next hs => exact hs
      next =>
        rcases mem_of_mem_readyAmong h with h | h
        · cases h
        · exact absurd rfl (hdisjoint s h s List.mem_cons_self)
    · exact absurd h hbehind
  · intro hs
    rw [if_pos hs]
    exact mem_readyAmong_of_mem List.mem_cons_self

theorem blocker?_eq_none : p.blocker? s = none ↔ ∀ d ∈ t.dependencies s, d ∈ p.ready := by
  simp [blocker?, List.find?_eq_none]

/-- What a service that nothing blocks depends on is not blocked, either. -/
theorem blocker?_of_dependency (ht : t.Built) {d : Fin t.size} (h : p.blocker? s = none)
    (hd : d ∈ t.dependencies s) : p.blocker? d = none :=
  blocker?_eq_none.2 ((mem_ready ht).1 (blocker?_eq_none.1 h d hd)).1

/-- A service is expected to get ready just if it is among those that do. -/
theorem outcome_ready (ht : t.Built) : (p.outcome s).1 = .ready ↔ s ∈ p.ready := by
  rw [mem_ready ht, ← blocker?_eq_none, outcome]
  cases p.blocker? s <;> cases p.trial s <;> simp

theorem outcome_of_blocker {d : Fin t.size} (h : p.blocker? s = some d) :
    p.outcome s = (.pending, some (.dependencyFailed (t.id s) (t.id d))) := by
  rw [outcome, h]

theorem outcome_of_trial (h : p.blocker? s = none) :
    p.outcome s = ((if p.trial s = none then .ready else .failed), p.trial s) := by
  rw [outcome, h]
  cases p.trial s <;> rfl

theorem blocker?_eq_some {seen rest : List (Fin t.size)} {d : Fin t.size}
    (h : t.dependencies s = seen ++ d :: rest) (hseen : ∀ d ∈ seen, d ∈ p.ready)
    (hd : d ∉ p.ready) : p.blocker? s = some d := by
  have hnone : seen.find? (fun d => d ∉ p.ready) = none := by
    rw [List.find?_eq_none]
    intro d hd
    simpa using hseen d hd
  rw [blocker?, h, List.find?_append, hnone, Option.none_or, List.find?_cons_of_pos (by simpa)]

/-- The outcome is a state in which nothing is on its way. -/
theorem outcome_state (p : Prospect t) (s : Fin t.size) :
    (p.outcome s).1 = .ready ∨ (p.outcome s).1 = .failed ∨
      ((p.outcome s).1 = .pending ∧ p.blocker? s ≠ none) := by
  unfold outcome
  split
  next h => exact .inr (.inr ⟨rfl, by rw [h]; simp⟩)
  next => exact .inr (.inl rfl)
  next => exact .inl rfl

/-! ## What is found out on the way -/

section

variable (p s)

/-- All volumes of the service can be bound. -/
def Bound : Prop := ∀ volume ∈ t.volumesOf s, (p.fate s).refuses volume = none

/-- The container of the service has been started. -/
def Started (handle : Handle) : Prop :=
  p.Bound s ∧ (p.fate s).fault = none ∧ handle.service = t.id s

/-- Before the given attempt the container was asked and never ready. -/
def Untold (attempt : UInt32) : Prop :=
  0 < attempt.toNat ∧ attempt.toNat ≤ p.attempts.toNat ∧
    ∀ i, i + 1 < attempt.toNat → (p.fate s).probe i ≠ .ready

end

theorem trial_volume {bound rest : List Volume} {volume : Volume} {error : Volume.BindingError}
    (h : t.volumesOf s = bound ++ volume :: rest)
    (hbound : ∀ volume ∈ bound, (p.fate s).refuses volume = none)
    (hv : (p.fate s).refuses volume = some error) : p.trial s = some (.volume (t.id s) error) := by
  have hnone : bound.findSome? (p.fate s).refuses = none := List.findSome?_eq_none_iff.2 hbound
  have hfirst : (t.volumesOf s).findSome? (p.fate s).refuses = some error := by
    rw [h, List.findSome?_append, hnone, Option.none_or, List.findSome?_cons, hv]
  rw [trial, Fate.trial, hfirst]

theorem Bound.findSome? (h : p.Bound s) : (t.volumesOf s).findSome? (p.fate s).refuses = none :=
  List.findSome?_eq_none_iff.2 h

theorem trial_start {error : Container.Error} (h : p.Bound s)
    (he : (p.fate s).fault = some error) : p.trial s = some (.startFailed (t.id s) error) := by
  rw [trial, Fate.trial, h.findSome?, he]

theorem trial_ready {handle : Handle} {attempt : UInt32} (h : p.Started s handle)
    (hu : p.Untold s attempt) (hr : (p.fate s).probe (attempt.toNat - 1) = .ready) :
    p.trial s = none := by
  obtain ⟨hpos, hle, -⟩ := hu
  have hany : (List.range p.attempts.toNat).any (fun i => (p.fate s).probe i = .ready) = true :=
    List.any_eq_true.2 ⟨attempt.toNat - 1, List.mem_range.2 (by omega), by simpa using hr⟩
  rw [trial, Fate.trial, h.1.findSome?, h.2.1]
  simp only [hany, if_true]

/-- A container that is never ready keeps its service waiting until all attempts are used up. -/
theorem trial_unready (h : p.Bound s) (hf : (p.fate s).fault = none)
    (hn : ∀ i < p.attempts.toNat, (p.fate s).probe i ≠ .ready) :
    p.trial s = some (.probeTimeout (t.id s) p.attempts) := by
  have hany : (List.range p.attempts.toNat).any (fun i => (p.fate s).probe i = .ready) = false :=
    List.any_eq_false.2 fun i hi => by simpa using hn i (List.mem_range.1 hi)
  rw [trial, Fate.trial, h.findSome?, hf]
  simp [hany]

theorem trial_timeout {handle : Handle} {attempt : UInt32} (h : p.Started s handle)
    (hu : p.Untold s attempt) (hlast : ¬ attempt < p.attempts)
    (hn : (p.fate s).probe (attempt.toNat - 1) ≠ .ready) :
    p.trial s = some (.probeTimeout (t.id s) p.attempts) := by
  obtain ⟨hpos, hle, hbefore⟩ := hu
  rw [UInt32.lt_iff_toNat_lt] at hlast
  refine trial_unready h.1 h.2.1 fun i hi => ?_
  rcases Nat.lt_or_ge (i + 1) attempt.toNat with hlt | hge
  · exact hbefore i hlt
  · have he : i = attempt.toNat - 1 := by omega
    exact he ▸ hn

/-- Nothing goes wrong with a service itself just if its volumes can be bound, its container starts,
and one of the first answers of the container is that it is ready. -/
theorem trial_eq_none : p.trial s = none ↔ p.Bound s ∧ (p.fate s).fault = none ∧
    ∃ i < p.attempts.toNat, (p.fate s).probe i = .ready := by
  have hbound : p.Bound s ↔ (t.volumesOf s).findSome? (p.fate s).refuses = none :=
    List.findSome?_eq_none_iff.symm
  have hany : (List.range p.attempts.toNat).any (fun i => (p.fate s).probe i = .ready) = true ↔
      ∃ i < p.attempts.toNat, (p.fate s).probe i = .ready := by
    simp [List.any_eq_true]
  rw [hbound, ← hany, trial, Fate.trial]
  cases (t.volumesOf s).findSome? (p.fate s).refuses with
  | some error => simp
  | none =>
      cases (p.fate s).fault with
      | some error => simp
      | none =>
          simp only [true_and]
          split <;> simp_all

theorem untold_one (h : 0 < p.attempts.toNat) : p.Untold s 1 :=
  ⟨by decide, h, fun i hi => absurd hi (by simp)⟩

theorem toNat_succ {a b : UInt32} (h : a < b) : (a + 1).toNat = a.toNat + 1 := by
  rw [UInt32.lt_iff_toNat_lt] at h
  have hbound := b.toNat_lt
  rw [UInt32.toNat_add]
  exact Nat.mod_eq_of_lt (by simpa using Nat.lt_of_le_of_lt h hbound)

theorem Untold.succ {attempt : UInt32} (h : p.Untold s attempt) (hlt : attempt < p.attempts)
    (hn : (p.fate s).probe (attempt.toNat - 1) ≠ .ready) : p.Untold s (attempt + 1) := by
  obtain ⟨hpos, -, hbefore⟩ := h
  rw [UInt32.lt_iff_toNat_lt] at hlt
  have hsucc := toNat_succ (UInt32.lt_iff_toNat_lt.2 hlt)
  refine ⟨by omega, by omega, ?_⟩
  intro i hi
  rcases Nat.lt_or_ge (i + 1) attempt.toNat with hlt | hge
  · exact hbefore i hlt
  · have he : i = attempt.toNat - 1 := by omega
    exact he ▸ hn

end Prospect

theorem RetryPolicy.maxAttempts_pos (policy : RetryPolicy) : 0 < policy.maxAttempts.toNat := by
  unfold maxAttempts
  split
  next h =>
    have hone : (1 : UInt32).toNat = 1 := rfl
    rw [UInt32.toNat_add, hone, Nat.mod_eq_of_lt h]
    exact Nat.succ_pos _
  next h =>
    have := policy.maxRetries.toNat_lt
    have hsize : UInt32.size = 2 ^ 32 := rfl
    omega

end Bringup.Lifecycle
