import Bringup.Proofs.Lifecycle.Reference
import Mathlib.Logic.Function.Basic

/-!
# The critical path of a start

What the services meet when they are started, and how long everything takes, tells when each of them
enters the state of starting and when it leaves it (`Pace.enter`, `Pace.leave`), by recursion over the
dependencies: a service enters when the last of its dependencies has left, and leaves after as long as
its own container takes (`Pace.leave_eq`). Services that do not depend on one another take no time from
one another.

How long a service is starting depends on how often its container is asked whether it is ready
(`Pace.asked?`). A start job finds this out as it finds out what goes wrong with its service, question
by question.
-/

namespace Bringup.Lifecycle

open Container (Handle)

/-- What the services meet when they are started, and how long everything takes. -/
structure Pace (t : Topology) extends Prospect t where
  /-- When the start is called. -/
  called : Nat
  /-- How long the container of a service takes to start, or to fail to. -/
  startDelay : Fin t.size → Nat
  /-- How long the controller waits before the retry with the given index, counted from zero. -/
  pause : Nat → Nat

namespace Pace

variable {t : Topology} (p : Pace t) (s : Fin t.size)

/-- How long the controller waits between the first question whether a container is ready and the
question with the given index, counted from zero. -/
def waited : Nat → Nat
  | 0 => 0
  | n + 1 => waited n + p.pause n

/-- How often the container of a service is asked whether it is ready, if it gets as far as being
started: until it says so, or as often as there are attempts. -/
def asked? : Option Nat :=
  match (t.volumesOf s).findSome? (p.fate s).refuses, (p.fate s).fault with
  | some _, _ => none
  | none, some _ => some 0
  | none, none =>
    match (List.range p.attempts.toNat).find? fun i => (p.fate s).probe i = .ready with
    | some i => some (i + 1)
    | none => some p.attempts.toNat

/-- How long a service is starting. -/
def span : Nat := (p.asked? s).elim 0 fun n => p.startDelay s + p.waited (n - 1)

/-- The latest of the instants of some services, and not before the call. -/
def latest (instant : Fin t.size → Nat) (services : List (Fin t.size)) : Nat :=
  services.foldr (fun s time => max (instant s) time) p.called

/-- When services leave the state of starting, once some have been gone through in their order. -/
def leaveAmong (order : List (Fin t.size)) (leave : Fin t.size → Nat) : Fin t.size → Nat :=
  order.foldl (fun leave s =>
    Function.update leave s (p.latest leave (t.dependencies s) + p.span s)) leave

/-- When a service leaves the state of starting. -/
def leave : Fin t.size → Nat := p.leaveAmong (Controller.reportOrder t) fun _ => p.called

/-- When a service enters the state of starting. -/
def enter : Nat := p.latest p.leave (t.dependencies s)

/-- When the container of a service is asked the question with the given index, counted from zero. -/
def probed (n : Nat) : Nat := p.enter s + p.startDelay s + p.waited n

/-- The services that are started: those all of whose dependencies get ready. -/
def started : List (Fin t.size) := (List.finRange t.size).filter fun s => p.blocker? s = none

/-- When the start returns. -/
def returns : Nat := p.latest p.leave p.started

/-- The moves of a service that is starting. -/
def entered : List Transition := [⟨.pending, .starting, p.enter s⟩]

/-- The moves of a service once its start is over. -/
def history : List Transition :=
  if p.blocker? s = none then p.entered s ++ [⟨.starting, (p.outcome s).1, p.leave s⟩] else []

variable {p s}

/-! ## The latest instant -/

section

variable {instant : Fin t.size → Nat} {services : List (Fin t.size)}

theorem called_le_latest : p.called ≤ p.latest instant services := by
  induction services with
  | nil => exact Nat.le_refl _
  | cons s rest ih => exact Nat.le_trans ih (Nat.le_max_right _ _)

theorem le_latest (h : s ∈ services) : instant s ≤ p.latest instant services := by
  induction services with
  | nil => cases h
  | cons s' rest ih =>
      rcases List.mem_cons.1 h with rfl | h
      · exact Nat.le_max_left _ _
      · exact Nat.le_trans (ih h) (Nat.le_max_right _ _)

theorem latest_le {time : Nat} (hc : p.called ≤ time) (h : ∀ s ∈ services, instant s ≤ time) :
    p.latest instant services ≤ time := by
  induction services with
  | nil => exact hc
  | cons s rest ih =>
      exact Nat.max_le.2 ⟨h s List.mem_cons_self, ih fun s hs => h s (List.mem_cons_of_mem _ hs)⟩

theorem latest_congr {instant' : Fin t.size → Nat} (h : ∀ s ∈ services, instant s = instant' s) :
    p.latest instant services = p.latest instant' services := by
  induction services with
  | nil => rfl
  | cons s rest ih =>
      have hrest := ih fun s hs => h s (List.mem_cons_of_mem _ hs)
      show max _ (p.latest instant rest) = max _ (p.latest instant' rest)
      rw [h s List.mem_cons_self, hrest]

end

/-! ## The recursion -/

theorem leaveAmong_of_notMem {order : List (Fin t.size)} {leave : Fin t.size → Nat}
    (h : s ∉ order) : p.leaveAmong order leave s = leave s := by
  induction order generalizing leave with
  | nil => rfl
  | cons s' rest ih =>
      obtain ⟨hne, hrest⟩ := not_or.1 (mt List.mem_cons.2 h)
      exact (ih hrest).trans (Function.update_of_ne hne _ _)

theorem leaveAmong_append (before behind : List (Fin t.size)) (leave : Fin t.size → Nat) :
    p.leaveAmong (before ++ behind) leave = p.leaveAmong behind (p.leaveAmong before leave) :=
  List.foldl_append

/-- **The recursion over the dependencies**: a service leaves the state of starting after as long as it
takes itself, and it has entered when the last of its dependencies had left. -/
theorem leave_eq (ht : t.Built) : p.leave s = p.enter s + p.span s := by
  obtain ⟨order, ho, hnodup, hmem, hafter⟩ := ht.startOrder
  have hleave : p.leave = p.leaveAmong order fun _ => p.called := by
    rw [leave, Controller.reportOrder, ho]
  obtain ⟨before, behind, rfl⟩ := List.append_of_mem (hmem s)
  obtain ⟨-, hnodup', hdisjoint⟩ := List.nodup_append.1 hnodup
  have hbehind := (List.nodup_cons.1 hnodup').1
  have hsplit : p.leave = p.leaveAmong behind (Function.update
      (p.leaveAmong before fun _ => p.called) s
      (p.latest (p.leaveAmong before fun _ => p.called) (t.dependencies s) + p.span s)) := by
    rw [hleave, leaveAmong_append]
    rfl
  -- When a service leaves is settled when it is gone through.
  have hbefore (d : Fin t.size) (hd : d ∈ t.dependencies s) :
      p.leaveAmong before (fun _ => p.called) d = p.leave d := by
    have hdb := hafter rfl d hd
    have hne : d ≠ s := hdisjoint d hdb s List.mem_cons_self
    have hnot : d ∉ behind := fun hm => hdisjoint d hdb d (List.mem_cons_of_mem _ hm) rfl
    rw [hsplit, leaveAmong_of_notMem hnot, Function.update_of_ne hne]
  rw [enter, ← latest_congr hbefore, hsplit, leaveAmong_of_notMem hbehind, Function.update_self]

theorem called_le_enter : p.called ≤ p.enter s := called_le_latest

theorem leave_le_enter {d : Fin t.size} (h : d ∈ t.dependencies s) : p.leave d ≤ p.enter s :=
  le_latest h

theorem enter_le_leave (ht : t.Built) : p.enter s ≤ p.leave s := by
  rw [leave_eq ht]
  exact Nat.le_add_right _ _

theorem mem_started : s ∈ p.started ↔ p.blocker? s = none := by simp [started]

theorem leave_le_returns (h : p.blocker? s = none) : p.leave s ≤ p.returns :=
  le_latest (mem_started.2 h)

theorem called_le_returns (p : Pace t) : p.called ≤ p.returns := called_le_latest

/-! ## Questions -/

theorem waited_succ (n : Nat) : p.waited (n + 1) = p.waited n + p.pause n := rfl

theorem waited_mono {m n : Nat} (h : m ≤ n) : p.waited m ≤ p.waited n := by
  induction h with
  | refl => exact Nat.le_refl _
  | step _ ih =>
      rw [waited_succ]
      exact Nat.le_trans ih (Nat.le_add_right _ _)

/-- A volume that cannot be bound keeps the container from being started. -/
theorem asked?_of_refused {bound rest : List Volume} {volume : Volume} {error : Volume.BindingError}
    (h : t.volumesOf s = bound ++ volume :: rest)
    (hbound : ∀ volume ∈ bound, (p.fate s).refuses volume = none)
    (hv : (p.fate s).refuses volume = some error) : p.asked? s = none := by
  have hnone : bound.findSome? (p.fate s).refuses = none := List.findSome?_eq_none_iff.2 hbound
  rw [asked?, h, List.findSome?_append, hnone, Option.none_or, List.findSome?_cons, hv]

/-- A container that cannot be started is not asked. -/
theorem asked?_of_fault {error : Container.Error} (h : p.Bound s)
    (hf : (p.fate s).fault = some error) : p.asked? s = some 0 := by
  rw [asked?, h.findSome?, hf]

/-- **How often a container is asked** that has been started: as often as there are attempts, or less
often if it says before that it is ready, and never again after that. -/
theorem asked?_of_started (h : p.Bound s) (hf : (p.fate s).fault = none)
    (hpos : 0 < p.attempts.toNat) : ∃ n, p.asked? s = some n ∧ 0 < n ∧ n ≤ p.attempts.toNat ∧
      (∀ i, i + 1 < n → (p.fate s).probe i ≠ .ready) ∧
      (n = p.attempts.toNat ∨ (p.fate s).probe (n - 1) = .ready) := by
  rw [asked?, h.findSome?, hf]
  cases hfind : (List.range p.attempts.toNat).find? fun i => (p.fate s).probe i = .ready with
  | none =>
      refine ⟨p.attempts.toNat, rfl, hpos, Nat.le_refl _, fun i hi => ?_, .inl rfl⟩
      have hnone := List.find?_eq_none.1 hfind i (List.mem_range.2 (by omega))
      simpa using hnone
  | some i =>
      obtain ⟨hready, hi, hbefore⟩ := List.find?_range_eq_some.1 hfind
      refine ⟨i + 1, rfl, Nat.succ_pos i, List.mem_range.1 hi, fun j hj => ?_,
        .inr (by simpa using hready)⟩
      simpa using hbefore j (by omega)

/-- **How often the container of a service is asked**: never and not even started if a volume cannot be
bound, not at all if it cannot be started, and else as `asked?_of_started` says. -/
theorem asked?_cases (hpos : 0 < p.attempts.toNat) :
    (¬ p.Bound s ∧ p.asked? s = none) ∨
    (p.Bound s ∧ (p.fate s).fault ≠ none ∧ p.asked? s = some 0) ∨
    (p.Bound s ∧ (p.fate s).fault = none ∧ ∃ n, p.asked? s = some n ∧ 0 < n ∧
      n ≤ p.attempts.toNat ∧ (∀ i, i + 1 < n → (p.fate s).probe i ≠ .ready) ∧
      (n = p.attempts.toNat ∨ (p.fate s).probe (n - 1) = .ready)) := by
  by_cases hb : p.Bound s
  · cases hf : (p.fate s).fault with
    | none => exact .inr (.inr ⟨hb, rfl, asked?_of_started hb hf hpos⟩)
    | some error => exact .inr (.inl ⟨hb, by simp, asked?_of_fault hb hf⟩)
  · refine .inl ⟨hb, ?_⟩
    have hsome : (t.volumesOf s).findSome? (p.fate s).refuses ≠ none :=
      mt List.findSome?_eq_none_iff.1 hb
    obtain ⟨error, he⟩ := Option.ne_none_iff_exists'.1 hsome
    rw [asked?, he]

section

variable {handle : Handle} {attempt : UInt32}

/-- No attempt comes after the last one. -/
theorem le_asked (h : p.Started s handle) (hu : p.Untold s attempt) : ∃ n, p.asked? s = some n ∧
    attempt.toNat ≤ n ∧ n ≤ p.attempts.toNat ∧ ∀ i, i + 1 < n → (p.fate s).probe i ≠ .ready := by
  obtain ⟨hpos, hle, hbefore⟩ := hu
  obtain ⟨n, hn, hn', hmost, hearlier, hlast⟩ :=
    asked?_of_started h.1 h.2.1 (Nat.lt_of_lt_of_le hpos hle)
  refine ⟨n, hn, ?_, hmost, hearlier⟩
  rcases hlast with rfl | hready
  · exact hle
  · exact Nat.le_of_not_lt fun hlt => hbefore (n - 1) (by omega) hready

/-- An attempt at which the container is ready is the last one. -/
theorem asked?_of_ready (h : p.Started s handle) (hu : p.Untold s attempt)
    (hr : (p.fate s).probe (attempt.toNat - 1) = .ready) : p.asked? s = some attempt.toNat := by
  obtain ⟨n, hn, hle, -, hbefore⟩ := le_asked h hu
  have hpos := hu.1
  have hlast : n ≤ attempt.toNat :=
    Nat.le_of_not_lt fun hlt => hbefore (attempt.toNat - 1) (by omega) hr
  rw [hn, Nat.le_antisymm hlast hle]

/-- There is no attempt after as many as allowed. -/
theorem asked?_of_timeout (h : p.Started s handle) (hu : p.Untold s attempt)
    (hlast : ¬ attempt < p.attempts) : p.asked? s = some attempt.toNat := by
  obtain ⟨n, hn, hle, hmost, -⟩ := le_asked h hu
  rw [UInt32.lt_iff_toNat_lt] at hlast
  rw [hn, Nat.le_antisymm (Nat.le_trans hmost (Nat.le_of_not_lt hlast)) hle]

end

/-! ## When a service leaves -/

theorem probed_zero : p.probed s 0 = p.enter s + p.startDelay s := rfl

theorem probed_succ (n : Nat) : p.probed s (n + 1) = p.probed s n + p.pause n := by
  rw [probed, waited_succ, ← Nat.add_assoc]
  rfl

theorem probed_mono {m n : Nat} (h : m ≤ n) : p.probed s m ≤ p.probed s n :=
  Nat.add_le_add_left (waited_mono h) _

/-- A service leaves at the instant at which it entered if its container is not started. -/
theorem leave_of_refused (ht : t.Built) (h : p.asked? s = none) : p.leave s = p.enter s := by
  rw [leave_eq ht, span, h]
  rfl

/-- A service leaves at the instant of the last question. -/
theorem leave_of_asked (ht : t.Built) {n : Nat} (h : p.asked? s = some n) :
    p.leave s = p.probed s (n - 1) := by
  rw [leave_eq ht, span, h, probed, Nat.add_assoc]
  rfl

/-- A service does not leave before its container has been started, or has failed to. -/
theorem probed_zero_le_leave (ht : t.Built) (h : p.Bound s) (hpos : 0 < p.attempts.toNat) :
    p.probed s 0 ≤ p.leave s := by
  obtain ⟨n, hn⟩ : ∃ n, p.asked? s = some n := by
    rcases asked?_cases hpos with ⟨hb, -⟩ | ⟨-, -, hn⟩ | ⟨-, -, n, hn, -⟩
    · exact absurd h hb
    · exact ⟨0, hn⟩
    · exact ⟨n, hn⟩
  rw [leave_of_asked ht hn]
  exact probed_mono (Nat.zero_le _)

theorem history_of_started (h : p.blocker? s = none) :
    p.history s = p.entered s ++ [⟨.starting, (p.outcome s).1, p.leave s⟩] := if_pos h

theorem history_of_blocked (h : p.blocker? s ≠ none) : p.history s = [] := if_neg h

end Pace

/-! ## Policies of whole milliseconds -/

/-- The waits of a policy are whole milliseconds if its bounds are. -/
theorem RetryPolicy.delayFor_whole {policy : RetryPolicy} (hb : 1_000_000 ∣ policy.baseDelay.nanos)
    (hm : 1_000_000 ∣ policy.maxDelay.nanos) (n : UInt32) :
    (policy.delayFor n).ceilMillis * 1_000_000 = (policy.delayFor n).nanos := by
  have hwhole : 1_000_000 ∣ (policy.delayFor n).nanos := by
    unfold delayFor
    split
    next delay h =>
      obtain ⟨factor, -, hscale⟩ := Option.bind_eq_some_iff.1 h
      unfold Duration.scale? Duration.ofNanos? at hscale
      split at hscale
      next =>
        obtain rfl := Option.some.inj hscale
        unfold Duration.min
        split
        · exact Nat.dvd_trans hb (Nat.dvd_mul_right _ _)
        · exact hm
      next => cases hscale
    next => exact hm
  obtain ⟨millis, he⟩ := hwhole
  rw [Duration.ceilMillis, he]
  omega

end Bringup.Lifecycle
