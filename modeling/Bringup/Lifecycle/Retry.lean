import Bringup.Duration

/-!
# Retries

After a container has been started it is asked whether it is ready, once and then up to
`maxRetries` more times. The wait before a retry doubles each time and is capped.
-/

namespace Bringup.Lifecycle

/-- How often and after which waits a container is asked whether it is ready. -/
structure RetryPolicy where
  maxRetries : UInt32 := 5
  /-- The wait before the first retry. -/
  baseDelay : Duration := { nanos := 250_000_000 }
  /-- The longest wait. -/
  maxDelay : Duration := { nanos := 5_000_000_000 }
  deriving DecidableEq, Inhabited

namespace RetryPolicy

/-- How many times a container is asked at most. -/
def maxAttempts (policy : RetryPolicy) : UInt32 :=
  if policy.maxRetries.toNat + 1 < UInt32.size then policy.maxRetries + 1 else policy.maxRetries

/-- The power of two with the given exponent, if it fits 32 bits. -/
def twoPow? (n : UInt32) : Option UInt32 := if n < 32 then some (1 <<< n) else none

/-- The wait before the retry with the given index, counted from zero. -/
def delayFor (policy : RetryPolicy) (retry : UInt32) : Duration :=
  match (twoPow? retry).bind policy.baseDelay.scale? with
  | some delay => delay.min policy.maxDelay
  | none => policy.maxDelay

end RetryPolicy

/-- The settings of a controller. -/
structure Config where
  retry : RetryPolicy := {}
  /-- How long a container may take to stop before it is killed. -/
  stopTimeout : Duration := { nanos := 10_000_000_000 }
  deriving DecidableEq, Inhabited

end Bringup.Lifecycle
