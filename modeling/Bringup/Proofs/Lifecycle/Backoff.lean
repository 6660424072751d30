import Mathlib.Algebra.Group.Nat.Defs
import Bringup.Lifecycle.Retry

/-!
# The waits of a policy

The wait before the retry with the index `n` is meant to be the first wait, doubled `n` times, or the
longest wait where that is shorter. This is what it is for as long as the power of two fits 32 bits, also
where the product is longer than any duration (`nanos_delayFor_of_lt`). From the thirty-third retry on it
is the longest wait, whatever the first one is (`delayFor_of_le`), and a first wait that is short enough
has not been doubled up to the longest by then. So the rule holds just where the power fits or the doubled
wait has come up to the longest one (`delayFor_eq_doubled_iff`). The waits never go down.
-/

namespace Bringup

/-! ## Products of durations -/

section Durations

variable {d e : Duration} {factor : UInt32}

theorem Duration.nanos_min (a b : Duration) : (a.min b).nanos = Min.min a.nanos b.nanos := by
  unfold Duration.min
  split
  next h => exact (Nat.min_eq_left h).symm
  next h => exact (Nat.min_eq_right (Nat.le_of_not_le h)).symm

theorem Duration.nanos_of_scale? (h : d.scale? factor = some e) :
    e.nanos = d.nanos * factor.toNat := by
  unfold Duration.scale? Duration.ofNanos? at h
  split at h
  next => exact (congrArg Duration.nanos (Option.some.inj h)).symm
  next => cases h

/-- A product that is no duration is longer than every duration. -/
theorem Duration.lt_of_scale? (h : d.scale? factor = none) (e : Duration) :
    e.nanos < d.nanos * factor.toNat := by
  unfold Duration.scale? Duration.ofNanos? at h
  split at h
  next => cases h
  next hlimit => exact Nat.lt_of_lt_of_le e.lt_limit (Nat.le_of_not_lt hlimit)

end Durations

/-! ## Policies -/

namespace Lifecycle.RetryPolicy

variable {policy : RetryPolicy} {retry : UInt32}

theorem twoPow?_of_lt (h : retry < 32) :
    ∃ factor, twoPow? retry = some factor ∧ factor.toNat = 2 ^ retry.toNat := by
  have hlt : retry.toNat < 32 := UInt32.lt_iff_toNat_lt.1 h
  have hfits : 2 ^ retry.toNat < 2 ^ 32 := Nat.pow_lt_pow_right (by decide) hlt
  refine ⟨1 <<< retry, if_pos h, ?_⟩
  rw [UInt32.toNat_shiftLeft, Nat.mod_eq_of_lt hlt, Nat.shiftLeft_eq, UInt32.toNat_one, Nat.one_mul,
    Nat.mod_eq_of_lt hfits]

theorem twoPow?_of_le (h : 32 ≤ retry) : twoPow? retry = none := if_neg (UInt32.not_lt.2 h)

/-- The first wait, doubled once for each retry before, in nanoseconds and however long that is. -/
def doubled (policy : RetryPolicy) (retry : UInt32) : Nat :=
  policy.baseDelay.nanos * 2 ^ retry.toNat

/-- **The wait doubles up to the longest one** for as long as the power of two fits 32 bits. -/
theorem nanos_delayFor_of_lt (h : retry < 32) :
    (policy.delayFor retry).nanos = min (policy.doubled retry) policy.maxDelay.nanos := by
  obtain ⟨factor, htwo, hfactor⟩ := twoPow?_of_lt h
  rw [delayFor, htwo, Option.bind_some, doubled, ← hfactor]
  cases hscale : policy.baseDelay.scale? factor with
  | some delay =>
      show (delay.min policy.maxDelay).nanos = _
      rw [Duration.nanos_min, Duration.nanos_of_scale? hscale]
  | none => exact (Nat.min_eq_right (Nat.le_of_lt (Duration.lt_of_scale? hscale _))).symm

/-- **The wait is the longest one** where the power of two does not fit 32 bits. -/
theorem delayFor_of_le (h : 32 ≤ retry) : policy.delayFor retry = policy.maxDelay := by
  rw [delayFor, twoPow?_of_le h]
  rfl

theorem delayFor_le (policy : RetryPolicy) (retry : UInt32) :
    (policy.delayFor retry).nanos ≤ policy.maxDelay.nanos := by
  rcases UInt32.lt_or_le retry 32 with h | h
  · exact nanos_delayFor_of_lt h ▸ Nat.min_le_right _ _
  · exact Nat.le_of_eq (congrArg Duration.nanos (delayFor_of_le h))

theorem doubled_mono (policy : RetryPolicy) {retry later : UInt32} (h : retry ≤ later) :
    policy.doubled retry ≤ policy.doubled later :=
  Nat.mul_le_mul_left _ (Nat.pow_le_pow_right (by decide) (UInt32.le_iff_toNat_le.1 h))

/-- **No wait is shorter than the one before.** -/
theorem delayFor_mono (policy : RetryPolicy) {retry later : UInt32} (h : retry ≤ later) :
    (policy.delayFor retry).nanos ≤ (policy.delayFor later).nanos := by
  rcases UInt32.lt_or_le later 32 with hlater | hlater
  · rw [nanos_delayFor_of_lt hlater, nanos_delayFor_of_lt (UInt32.lt_of_le_of_lt h hlater)]
    have hdoubled := policy.doubled_mono h
    omega
  · rw [delayFor_of_le hlater]
    exact policy.delayFor_le retry

/-- **The waits of a policy.** The wait before a retry is the doubled wait, or the longest one where that
is shorter, just if the power of two fits 32 bits or the doubled wait has come up to the longest one; a
product that is too long for a duration makes no difference. Where the power does not fit, the wait is the
longest one. -/
theorem delayFor_eq_doubled_iff (policy : RetryPolicy) (retry : UInt32) :
    ((policy.delayFor retry).nanos = min (policy.doubled retry) policy.maxDelay.nanos ↔
      retry < 32 ∨ policy.maxDelay.nanos ≤ policy.doubled retry) ∧
    (policy.delayFor retry).nanos =
      if retry < 32 then min (policy.doubled retry) policy.maxDelay.nanos
      else policy.maxDelay.nanos := by
  by_cases h : retry < 32
  · rw [if_pos h, nanos_delayFor_of_lt h]
    exact ⟨iff_of_true rfl (.inl h), rfl⟩
  · rw [if_neg h, delayFor_of_le (UInt32.not_lt.1 h)]
    refine ⟨?_, rfl⟩
    constructor
    · intro he
      exact .inr (he ▸ Nat.min_le_left _ _)
    · intro hreached
      exact (Nat.min_eq_right (hreached.resolve_left h)).symm

/-- A policy that is meant to ask again at once, up to 33 times. -/
def atOnce : RetryPolicy where
  maxRetries := 33
  baseDelay := .ofMillis 0
  maxDelay := .ofMillis 5000

/-- The wait before the last retry is the longest one, although the doubled wait is none. -/
theorem atOnce_waits :
    atOnce.doubled 32 = 0 ∧ (atOnce.delayFor 31).nanos = 0 ∧
      (atOnce.delayFor 32).nanos = 5_000_000_000 ∧
      (atOnce.delayFor 32).nanos ≠ min (atOnce.doubled 32) atOnce.maxDelay.nanos := by
  decide

end Lifecycle.RetryPolicy

end Bringup
