import Bringup.Lifecycle.Job

/-!
# Volume stores

A volume store serves the requests about a table of volume bindings one at a time, in the order in
which they arrive. It may take some time over each; it may also have gone away, or take every
request and never answer, which its clients learn at once.
-/

namespace Bringup.Simulation

/-- Who waits for an answer of a store. -/
inductive Client where
  /-- A job of the stack with the given number. -/
  | job (stack : Nat) (job : Lifecycle.JobId)
  /-- Somebody outside of all stacks. -/
  | visitor
  deriving DecidableEq, Inhabited, Repr

/-- How a store treats requests. -/
inductive Store.Mode where
  /-- Each is served after so many milliseconds. -/
  | serving (delay : Nat)
  | closed
  | dropping
  deriving DecidableEq, Inhabited, Repr

/-- The answer to a request. -/
abbrev Store.Result := Except Volume.BindingError Volume.Answer

/-- A table of volume bindings and the requests about it. -/
structure Store where
  mode : Store.Mode := .serving 0
  table : Volume.Bindings := {}
  /-- The requests that are not served yet, the oldest first. -/
  queue : List (Client × Volume.Request) := []
  /-- When the oldest request is served. -/
  due : Nat := 0
  /-- The answers that have not reached their clients yet, the oldest first. -/
  answers : List (Client × Store.Result) := []

namespace Store

/-- Takes a request in. -/
def request (s : Store) (now : Nat) (client : Client) (request : Volume.Request) : Store :=
  match s.mode with
  | .closed => { s with answers := s.answers ++ [(client, .error .closed)] }
  | .dropping => { s with answers := s.answers ++ [(client, .error .dropped)] }
  | .serving delay =>
    { s with
      queue := s.queue ++ [(client, request)]
      due := if s.queue = [] then now + delay else s.due }

/-- Serves the oldest request, once it is due. -/
def serve? (s : Store) (now : Nat) : Option Store :=
  match s.mode, s.queue with
  | .serving delay, (client, request) :: queue =>
    if s.due ≤ now then
      let (table, result) := s.table.serve request
      some { s with table, queue, due := now + delay, answers := s.answers ++ [(client, result)] }
    else none
  | _, _ => none

/-- When the store does something by itself. -/
def deadline? (s : Store) : Option Nat := if s.queue = [] then none else some s.due

end Store

end Bringup.Simulation
