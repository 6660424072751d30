import Bringup.Docker.Script
import Bringup.Engine.Basic

/-!
# Engines of commands

An engine that does what it is asked by running commands. What a command comes to, and how long it
takes, is up to the machine it runs on. A command takes effect when it is called; whoever gives up
waiting for it keeps the commands behind it from being called.
-/

namespace Bringup.Docker

/-- Something that runs commands. -/
structure Machine where
  /-- What commands can change. -/
  State : Type
  /-- Calls a command: how many milliseconds it takes, and what comes of it. -/
  call : State → Command → State × Nat × Outcome

/-- The program that runs containers, and the name under which a project keeps them. -/
structure Client where
  project : String
  program : String := "docker"
  deriving DecidableEq, Inhabited, Repr

/-- Whether a text can be handed to a program; the character that ends such texts cannot be in it. -/
def isSendable (text : String) : Bool := '\x00' ∉ text.toList

namespace Client

variable (client : Client) (machine : Machine)

/-- Calls a command. -/
def call (s : machine.State) (arguments : List String) : machine.State × Nat × Outcome :=
  if (client.program :: arguments).all isSendable then machine.call s ⟨client.program, arguments⟩
  else (s, 0, .refused "nul byte found in provided data")

/-- Calls the next command of a script: what is left of the script when it has ended. -/
def advance {α : Type} (s : machine.State) : Script α → machine.State × Nat × Script α
  | .done a => (s, 0, .done a)
  | .run arguments next =>
    let (s, millis, outcome) := client.call machine s arguments
    (s, millis, next (outcome.result ⟨client.program, arguments⟩))

/-- Runs a whole script: how long it takes, and the value it ends with. -/
def run {α : Type} (s : machine.State) : Script α → machine.State × Nat × α
  | .done a => (s, 0, a)
  | .run arguments next =>
    let (s, millis, outcome) := client.call machine s arguments
    let (s, more, a) := run s (next (outcome.result ⟨client.program, arguments⟩))
    (s, millis + more, a)

/-- The engine that runs the commands of a client. -/
def engine : Engine where
  State := machine.State
  Work := Script Container.Reply
  take s _ call := client.advance machine s (perform client.project call)
  resume s work :=
    match work with
    | .done reply => (s, .answer reply)
    | work =>
      let (s, millis, work) := client.advance machine s work
      (s, .wait millis work)

end Client

end Bringup.Docker
