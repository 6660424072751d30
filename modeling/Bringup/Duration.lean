/-!
# Durations

A duration is a number of nanoseconds that takes at most 2 ^ 64 - 1 whole seconds. `scale?` is the
product with a 32-bit number, where there is one.
-/

namespace Bringup

/-- One more than the nanoseconds of the longest duration. -/
def Duration.limit : Nat := UInt64.size * 1_000_000_000

/-- A length of time. -/
structure Duration where
  nanos : Nat
  lt_limit : nanos < Duration.limit := by decide
  deriving Repr

namespace Duration

theorem ext {a b : Duration} (h : a.nanos = b.nanos) : a = b := by
  cases a; cases b; cases h; rfl

instance : DecidableEq Duration := fun a b =>
  if h : a.nanos = b.nanos then isTrue (ext h) else isFalse fun e => h (e ▸ rfl)

/-- No time at all. -/
def zero : Duration := { nanos := 0 }

instance : Inhabited Duration := ⟨zero⟩

/-- The duration of so many nanoseconds, unless it is too long. -/
def ofNanos? (nanos : Nat) : Option Duration :=
  if h : nanos < limit then some ⟨nanos, h⟩ else none

/-- The duration of a 64-bit number of milliseconds. -/
def ofMillis (millis : UInt64) : Duration where
  nanos := millis.toNat * 1_000_000
  lt_limit := by have := millis.toNat_lt; simp only [limit, UInt64.size]; omega

/-- A plain number counts milliseconds. -/
instance : Coe Nat Duration := ⟨fun millis => ofMillis millis.toUInt64⟩

/-- The milliseconds after which a duration is over. -/
def ceilMillis (d : Duration) : Nat := (d.nanos + 999_999) / 1_000_000

/-- The whole seconds of a duration. -/
def wholeSeconds (d : Duration) : Nat := d.nanos / 1_000_000_000

/-- The duration `factor` times as long, unless it is too long. -/
def scale? (d : Duration) (factor : UInt32) : Option Duration := ofNanos? (d.nanos * factor.toNat)

/-- The shorter of two durations. -/
def min (a b : Duration) : Duration := if a.nanos ≤ b.nanos then a else b

end Duration

end Bringup
