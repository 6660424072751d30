import Bringup.Container

/-!
# Engines

An engine runs containers. It takes a call, works on it for some time, and answers. Between the call
and the answer it may have several things to do, with waits in between; a caller that gives up keeps
it from doing those that are left.
-/

namespace Bringup

/-- What a call that was taken up comes to next: the answer, or more work after some milliseconds. -/
inductive Engine.Next (Work : Type) where
  | answer (reply : Container.Reply)
  | wait (millis : Nat) (work : Work)

/-- Something that runs containers. -/
structure Engine where
  /-- What the engine keeps between calls. -/
  State : Type
  /-- What is left to do of a call. -/
  Work : Type
  /-- Takes up a call at a time: what is left to do of it, and after how many milliseconds. -/
  take : State → Nat → Container.Call → State × Nat × Work
  /-- Does what is left of a call, up to the next wait. -/
  resume : State → Work → State × Engine.Next Work

end Bringup
