import Bringup.Proofs.Lifecycle.Pace
import Bringup.Proofs.Topology.Dependencies

/-!
# What a start has settled by an instant

A service whose dependencies all get ready is settled once it has left the state of starting. One that
is refused is settled once the dependencies before the first that does not get ready have left it, and
that one is settled itself (`Pace.Settled`). Nobody waits for the dependencies after that one.

Two paces that agree on services which need none but each other agree on all that becomes of them and on
when it does (`Pace.Agrees`).
-/

namespace Bringup.Lifecycle

namespace Pace

variable {t : Topology} {p q : Pace t} {s : Fin t.size} {time time' : Nat}

/-- By this instant it has shown what the service comes to. -/
inductive Settled (p : Pace t) (time : Nat) : Fin t.size → Prop where
  | left {s : Fin t.size} (hb : p.blocker? s = none) (hl : p.leave s ≤ time) : Settled p time s
  /-- The service is refused for the first dependency that does not get ready. -/
  | refused {s d : Fin t.size} {seen rest : List (Fin t.size)}
    (he : t.dependencies s = seen ++ d :: rest)
    (hseen : ∀ d ∈ seen, d ∈ p.ready ∧ p.leave d ≤ time) (hd : d ∉ p.ready)
    (hs : Settled p time d) : Settled p time s

theorem Settled.mono (h : p.Settled time s) (hle : time ≤ time') : p.Settled time' s := by
  induction h with
  | left hb hl => exact .left hb (Nat.le_trans hl hle)
  | refused he hseen hd _ ih =>
      exact .refused he (fun d hm => (hseen d hm).imp_right fun hl => Nat.le_trans hl hle) hd ih

/-- A service that is started is settled when it leaves the state of starting. -/
theorem settled_iff_of_started (hb : p.blocker? s = none) :
    p.Settled time s ↔ p.leave s ≤ time := by
  refine ⟨fun h => ?_, .left hb⟩
  cases h with
  | left _ hl => exact hl
  | refused he _ hd =>
      exact absurd (Prospect.blocker?_eq_none.1 hb _ (by rw [he]; simp)) hd

/-- What gets ready has nothing in its way. -/
theorem blocker?_of_ready (ht : t.Built) (h : s ∈ p.ready) : p.blocker? s = none :=
  Prospect.blocker?_eq_none.2 ((Prospect.mem_ready ht).1 h).1

/-- **Nobody is settled before the first dependency that it has not seen ready.** -/
theorem Settled.first (h : p.Settled time s) (ht : t.Built) {d : Fin t.size}
    {seen rest : List (Fin t.size)} (he : t.dependencies s = seen ++ d :: rest)
    (hseen : ∀ d ∈ seen, d ∈ p.ready) : p.Settled time d := by
  cases h with
  | left hb hl =>
      have hd : d ∈ t.dependencies s := by rw [he]; simp
      have hready := Prospect.blocker?_eq_none.1 hb d hd
      exact .left (blocker?_of_ready ht hready)
        (Nat.le_trans (Nat.le_trans (leave_le_enter hd) (enter_le_leave ht)) hl)
  | @refused _ d' seen' rest' he' hseen' hd' hs' =>
      rcases List.append_eq_append_iff.1 (he.symm.trans he') with
        ⟨between, rfl, hb⟩ | ⟨between, rfl, hb⟩
      · cases between with
        | nil =>
            obtain ⟨rfl, -⟩ := List.cons.inj hb
            exact hs'
        | cons d'' between =>
            obtain ⟨rfl, -⟩ := List.cons.inj hb
            obtain ⟨hready, hl⟩ := hseen' d (by simp)
            exact .left (blocker?_of_ready ht hready) hl
      · cases between with
        | nil =>
            obtain ⟨rfl, -⟩ := List.cons.inj hb
            exact hs'
        | cons d'' between =>
            obtain ⟨rfl, -⟩ := List.cons.inj hb
            exact absurd (hseen d' (by simp)) hd'

/-! ## Paces that agree -/

/-- The two paces agree on services that need none but each other. -/
structure Agrees (p q : Pace t) (among : Fin t.size → Prop) : Prop where
  closed : ∀ {s}, among s → ∀ d ∈ t.dependencies s, among d
  attempts : p.attempts = q.attempts
  called : p.called = q.called
  pause : p.pause = q.pause
  fate : ∀ {s}, among s → p.fate s = q.fate s
  startDelay : ∀ {s}, among s → p.startDelay s = q.startDelay s

section

variable {among : Fin t.size → Prop} (h : p.Agrees q among)

include h

theorem Agrees.symm : q.Agrees p among where
  closed := h.closed
  attempts := h.attempts.symm
  called := h.called.symm
  pause := h.pause.symm
  fate hs := (h.fate hs).symm
  startDelay hs := (h.startDelay hs).symm

theorem Agrees.trial (hs : among s) : p.trial s = q.trial s := by
  rw [Prospect.trial, Prospect.trial, h.fate hs, h.attempts]

theorem Agrees.ready (ht : t.Built) (hs : among s) : s ∈ p.ready ↔ s ∈ q.ready := by
  refine ht.induct (P := fun s => among s → (s ∈ p.ready ↔ s ∈ q.ready)) ?_ s hs
  intro s ih hs
  rw [Prospect.mem_ready ht, Prospect.mem_ready ht, h.trial hs]
  exact and_congr_left' (forall₂_congr fun d hd => ih d hd (h.closed hs d hd))

theorem Agrees.blocker? (ht : t.Built) (hs : among s) : p.blocker? s = q.blocker? s := by
  have hready (d : Fin t.size) (hd : d ∈ t.dependencies s) :
      (decide (d ∉ p.ready)) = decide (d ∉ q.ready) := by
    simp only [h.ready ht (h.closed hs d hd)]
  rw [Prospect.blocker?, Prospect.blocker?, ← List.head?_filter, ← List.head?_filter,
    List.filter_congr hready]

theorem Agrees.outcome (ht : t.Built) (hs : among s) : p.outcome s = q.outcome s := by
  rw [Prospect.outcome, Prospect.outcome, h.blocker? ht hs, h.trial hs]

theorem Agrees.asked? (hs : among s) : p.asked? s = q.asked? s := by
  rw [Pace.asked?, Pace.asked?, h.fate hs, h.attempts]

theorem Agrees.waited (n : Nat) : p.waited n = q.waited n := by
  induction n with
  | zero => rfl
  | succ n ih => rw [waited_succ, waited_succ, ih, h.pause]

theorem Agrees.span (hs : among s) : p.span s = q.span s := by
  rw [Pace.span, Pace.span, h.asked? hs, h.startDelay hs]
  simp only [h.waited]

theorem Agrees.latest (instant : Fin t.size → Nat) (services : List (Fin t.size)) :
    p.latest instant services = q.latest instant services := by
  rw [Pace.latest, Pace.latest, h.called]

theorem Agrees.leave (ht : t.Built) (hs : among s) : p.leave s = q.leave s := by
  refine ht.induct (P := fun s => among s → p.leave s = q.leave s) ?_ s hs
  intro s ih hs
  rw [leave_eq ht, leave_eq ht, Pace.enter, Pace.enter, h.span hs, ← h.latest]
  rw [latest_congr fun d hd => ih d hd (h.closed hs d hd)]

theorem Agrees.enter (ht : t.Built) (hs : among s) : p.enter s = q.enter s := by
  rw [Pace.enter, Pace.enter, ← h.latest]
  exact latest_congr fun d hd => h.leave ht (h.closed hs d hd)

theorem Agrees.probed (ht : t.Built) (hs : among s) (n : Nat) : p.probed s n = q.probed s n := by
  rw [Pace.probed, Pace.probed, h.enter ht hs, h.startDelay hs, h.waited]

theorem Agrees.history (ht : t.Built) (hs : among s) : p.history s = q.history s := by
  rw [Pace.history, Pace.history, Pace.entered, Pace.entered, h.blocker? ht hs, h.enter ht hs,
    h.outcome ht hs, h.leave ht hs]

theorem Agrees.settled_of (ht : t.Built) (hs : among s) (hp : p.Settled time s) :
    q.Settled time s := by
  induction hp with
  | left hb hl => exact .left (h.blocker? ht hs ▸ hb) (h.leave ht hs ▸ hl)
  | @refused s d seen rest he hseen hd _ ih =>
      have hfirst : among d := h.closed hs d (by rw [he]; simp)
      refine .refused he (fun d' hm => ?_) (mt (h.ready ht hfirst).2 hd) (ih hfirst)
      have hamong : among d' := h.closed hs d' (by
        rw [he]
        exact List.mem_append_left _ hm)
      exact ⟨(h.ready ht hamong).1 (hseen d' hm).1, h.leave ht hamong ▸ (hseen d' hm).2⟩

theorem Agrees.settled (ht : t.Built) (hs : among s) : p.Settled time s ↔ q.Settled time s :=
  ⟨h.settled_of ht hs, h.symm.settled_of ht hs⟩

end

end Pace

end Bringup.Lifecycle
