import Bringup.CommandLine.Failure
import Bringup.CommandLine.Plan
import Bringup.Deployment.Basic
import Bringup.Docker.Engine
import Bringup.Simulation.Schedule

/-!
# Sessions

A session is one use of the program on a machine that runs its commands: it reads the arguments, loads
the deployment, and prints the plan or brings the services up until it is interrupted. Whoever looks
after the session may interrupt it when nothing else can happen before time passes.
-/

namespace Bringup.CommandLine

open Docker (Client Machine)
open Simulation (World)

/-- The one who looks after a session on a machine. -/
structure Attendant (machine : Machine) where
  /-- Whether to interrupt while services start. -/
  interruptsStart : machine.State → Bool
  /-- Whether to interrupt once all services are ready and so many lines are printed. -/
  interruptsRest : machine.State → (lines : Nat) → Bool
  /-- Whether to leave, because the machine does not answer. -/
  leaves : machine.State → Bool := fun _ => false

/-- How a session stands at its end. -/
inductive Ending where
  | exited (failure : Option Failure)
  /-- It still waits, for an interrupt or for the machine. -/
  | waiting
  deriving DecidableEq, Repr

/-- What is left of a session. -/
structure Session (machine : Machine) where
  /-- The state of the machine. -/
  state : machine.State
  /-- How many milliseconds have passed. -/
  now : Nat := 0
  /-- What the session has printed. -/
  printed : String := ""
  ending : Ending

namespace Session

variable {machine : Machine}

/-- The number of lines of a text. -/
def lineCount (text : String) : Nat := text.toList.count '\n'

/-- Ends a session. -/
def exit (state : machine.State) (now : Nat) (printed : String) (failure : Option Failure) :
    Session machine :=
  { state, now, printed, ending := .exited failure }

/-! ### Bringing up -/

variable (attendant : Attendant machine) (client : Client)

/-- The state of the machine in a world of one stack. -/
def machineState (w : World (client.engine machine)) (default : machine.State) : machine.State :=
  match w.members[0]? with
  | some stack => stack.engine
  | none => default

/-- A deployment with a store for its volumes, on a machine at a time. -/
def worldOf (deployment : Deployment) (s : machine.State) (now : Nat) :
    World (client.engine machine) where
  now
  members := #[{
    topology := deployment.topology
    controller := { config := deployment.config }
    engine := s
    store := 0 }]
  stores := #[{ table := .ofVolumes (deployment.topology.volumes.map VolumeDecl.volume) }]

/-- Lets time pass until a call has answered, or something else is reason to look up. -/
def await (w : World (client.engine machine)) (call : Lifecycle.CallId)
    (lookUp : machine.State → Bool) (s : machine.State) : World (client.engine machine) :=
  w.advance (fun w => (w.answer? 0 call).isSome || lookUp (machineState client w s)) none

/-- The report that an answer carries. -/
def reportOf : Lifecycle.Answer → Lifecycle.Report
  | .report report | .finished report | .interrupted report => report
  | .restarted _ | .cancelled => {}

/-- Shuts down, prints the report and ends the session. -/
def shutDown (w : World (client.engine machine)) (s : machine.State) (printed : String)
    (failure : Option Failure) : Session machine :=
  let (w, call) := w.invoke 0 .shutDown
  let w := await client w call attendant.leaves s
  let s := machineState client w s
  match w.answer? 0 call with
  | some (answer, _) => exit s w.now (printed ++ (reportOf answer).display) failure
  | none => { state := s, now := w.now, printed, ending := .waiting }

/-- Goes on when everything was started, or could not be. -/
def afterStart (w : World (client.engine machine)) (s : machine.State)
    (report : Lifecycle.Report) : Session machine :=
  let printed := report.display
  if ¬ report.allReady then
    shutDown attendant client w s printed (some (.notReady report.failures.length))
  else if attendant.interruptsRest s (lineCount printed) then
    shutDown attendant client w s printed none
  else { state := s, now := w.now, printed, ending := .waiting }

/-- Starts a deployment, and stops it when interrupted. -/
def start (deployment : Deployment) (s : machine.State) (now : Nat) : Session machine :=
  let (w, call) := (worldOf client deployment s now).invoke 0 .upUntil
  let w := await client w call (fun s => attendant.leaves s || attendant.interruptsStart s) s
  let isOver := (w.answer? 0 call).isSome || attendant.leaves (machineState client w s)
  let w :=
    if isOver then w
    else if attendant.interruptsStart (machineState client w s) then
      await client ((w.control 0 (.interrupt call)).getD w) call attendant.leaves s
    else w
  let s := machineState client w s
  match w.answer? 0 call with
  | some (.interrupted report, _) => exit s w.now report.display none
  | some (answer, _) => afterStart attendant client w s (reportOf answer)
  | none => { state := s, now := w.now, ending := .waiting }

/-- Brings a deployment up. -/
def up (deployment : Deployment) (s : machine.State) : Session machine :=
  let (s, now, network) := client.run machine s (Docker.ensureNetwork client.project)
  if attendant.leaves s then { state := s, now, ending := .waiting }
  else
    match network with
    | .error error => exit s now "" (some (.network error))
    | .ok _ => start attendant client deployment s now

/-! ### The program -/

/-- Uses the program with some arguments. -/
def run (s : machine.State) (read : Files.Reader) (words : List String) : Session machine :=
  match Arguments.read words with
  | .error error => exit s 0 "" (some (.usage error))
  | .ok arguments =>
    match Deployment.load read arguments.file with
    | .error error => exit s 0 "" (some (.load arguments.file error))
    | .ok deployment =>
      match arguments.action with
      | .up => up attendant { project := arguments.project } deployment s
      | .plan =>
        match plan deployment.topology with
        | .error error => exit s 0 "" (some (.load arguments.file (.topology error)))
        | .ok text => exit s 0 text none

end Session

end Bringup.CommandLine
