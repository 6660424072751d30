import Bringup.Docker.Engine
import Bringup.Files.Tree

/-!
# Scripted machines

A machine on which only `docker` can be called, and where a table of rules says what comes of it. The
first rule that the arguments start with gives the outcome: its replies in order, one for each call
that starts so, and the last one from then on. All calls are written to a log and end at once.
-/

namespace Bringup.Docker.Scripted

/-- What a call prints and the code it exits with. -/
structure Reply where
  code : UInt8 := 0
  stdout : List UInt8 := []
  stderr : List UInt8 := []
  deriving DecidableEq, Inhabited, Repr

/-- The replies to calls whose arguments start in one way. -/
structure Rule where
  leading : List String
  replies : List Reply
  deriving DecidableEq, Inhabited, Repr

/-- Whether a rule is about a call. -/
def Rule.covers (rule : Rule) (arguments : List String) : Bool :=
  rule.leading.isPrefixOf arguments

/-- The state of the machine. -/
structure State where
  rules : List Rule := []
  files : Files.Tree := {}
  /-- The arguments of the calls so far, the last one first. -/
  log : List (List String) := []
  deriving Inhabited

namespace State

/-- The arguments of the calls so far in their order. -/
def calls (s : State) : List (List String) := s.log.reverse

/-- The reply to the last of some calls. -/
def reply (s : State) : List (List String) → Reply
  | [] => {}
  | log@(arguments :: _) =>
    match s.rules.find? fun rule => rule.covers arguments with
    | none => {}
    | some rule =>
      let uses := log.countP rule.covers
      (rule.replies[uses - 1]?).getD (rule.replies.getLast?.getD {})

/-- Why a program other than `docker` cannot be called. A program named by a path is looked for where
it says, and others only where programs are; no file here may be called. -/
def failure (s : State) (program : String) : Outcome :=
  if '/' ∈ program.toList then
    match s.files.find program with
    | .error .notFound => .notFound
    | .error fault => .refused fault.message
    | .ok _ => .refused Files.Fault.permissionDenied.message
  else if program ∈ [".", ".."] then .refused Files.Fault.permissionDenied.message
  else .notFound

/-- Calls a command. -/
def call (s : State) (command : Command) : State × Nat × Outcome :=
  if command.program = "docker" then
    let s := { s with log := command.arguments :: s.log }
    let reply := s.reply s.log
    (s, 0, .exited reply.code reply.stdout reply.stderr)
  else (s, 0, s.failure command.program)

end State

/-- The machine that answers from a table. -/
def machine : Machine where
  State := State
  call := State.call

end Bringup.Docker.Scripted
