import Bringup.Duration
import Bringup.Engine.Basic

/-!
# Scripted engines

An engine that runs nothing and answers from a script. Each service has its own script: the answers
to the questions whether its container is ready, in order, and one for all questions after those;
whether its start fails; and how long its calls take. Every call is written to a log at the moment
it is made. `leftovers` are the scripted answers that nobody has asked for.
-/

namespace Bringup.Engine.Scripted

/-- What the engine answers about one service. -/
structure Script where
  /-- The answers to the next questions whether the container is ready. -/
  probes : List Container.Probe := []
  /-- The answer to every question after those. -/
  fallback : Container.Probe := .ready
  startError : Option Container.Error := none
  /-- How long a start takes. -/
  startTime : Duration := .zero
  /-- How long a stop takes. -/
  stopTime : Duration := .zero
  probeDelay : Nat := 0
  /-- What a start that worked is reported as nevertheless. -/
  startFault : Option Container.Error := none
  stopFault : Option Container.Error := none
  killFault : Option Container.Error := none
  deriving DecidableEq, Inhabited, Repr

/-- The milliseconds after which a start is over. -/
def Script.startDelay (script : Script) : Nat := script.startTime.ceilMillis

/-- The milliseconds after which a stop is over. -/
def Script.stopDelay (script : Script) : Nat := script.stopTime.ceilMillis

/-- One kind of call in the log. -/
inductive Verb where
  | start | probe | stop | kill
  deriving DecidableEq, Inhabited, Repr

/-- A call in the log; a question whether a container is ready is written down with its answer. -/
structure Entry where
  time : Nat
  verb : Verb
  service : ServiceId
  answer : Option Container.Probe := none
  deriving DecidableEq, Inhabited, Repr

/-- The scripts and the log. -/
structure State where
  scripts : List (ServiceId × Script) := []
  /-- The calls so far, the last one first. -/
  log : List Entry := []
  /-- How many containers were started. -/
  started : Nat := 0
  deriving DecidableEq, Inhabited, Repr

/-- What is left to do of a call. -/
inductive Work where
  | start (service : ServiceId)
  | answer (reply : Container.Reply)

namespace State

/-- The script of a service. -/
def script (s : State) (service : ServiceId) : Script := (s.scripts.lookup service).getD {}

/-- Replaces the script of a service in a list of scripts. -/
def putScript (service : ServiceId) (script : Script) :
    List (ServiceId × Script) → List (ServiceId × Script)
  | [] => [(service, script)]
  | (other, old) :: rest =>
    if other = service then (service, script) :: rest
    else (other, old) :: putScript service script rest

/-- Changes the script of a service. -/
def edit (s : State) (service : ServiceId) (change : Script → Script) : State :=
  { s with scripts := putScript service (change (s.script service)) s.scripts }

/-! ### Writing scripts -/

/-- Adds answers to the questions whether the container of a service is ready. -/
def expectProbes (s : State) (service : ServiceId) (probes : List Container.Probe) : State :=
  s.edit service fun script => { script with probes := script.probes ++ probes }

/-- Answers that the container is ready, once the answers scripted so far are used up. -/
def thenReady (s : State) (service : ServiceId) : State :=
  s.edit service fun script =>
    { script with probes := script.probes ++ [.ready], fallback := .ready }

/-- Answers that the container is not ready, once the scripted answers are used up. -/
def neverReady (s : State) (service : ServiceId) : State :=
  s.edit service fun script => { script with fallback := .notReady }

/-- Lets every start of a service fail. -/
def failStart (s : State) (service : ServiceId) (message : String) : State :=
  s.edit service fun script => { script with startError := some (.start message) }

/-- Lets every start of a service take so long. -/
def slowStart (s : State) (service : ServiceId) (time : Duration) : State :=
  s.edit service fun script => { script with startTime := time }

/-- Lets every stop of a service take so long. -/
def slowStop (s : State) (service : ServiceId) (time : Duration) : State :=
  s.edit service fun script => { script with stopTime := time }

/-! ### Reading the log -/

/-- The calls so far in their order. -/
def calls (s : State) : List Entry := s.log.reverse

/-- How often a call was made for a service. -/
def count (s : State) (verb : Verb) (service : ServiceId) : Nat :=
  s.calls.countP fun entry => entry.verb = verb && entry.service = service

/-- The position of the first such call in the log. -/
def position? (s : State) (verb : Verb) (service : ServiceId) : Option Nat :=
  s.calls.findIdx? fun entry => entry.verb = verb && entry.service = service

/-- The services with scripted answers that nobody has asked for, and how many. -/
def leftovers (s : State) : List (ServiceId × Nat) :=
  (s.scripts.filter fun (_, script) => script.probes ≠ []).map fun (service, script) =>
    (service, script.probes.length)

/-- Checks that every scripted answer was asked for. -/
def verify (s : State) : Except String Unit :=
  match s.leftovers with
  | [] => .ok ()
  | leftovers =>
    let texts := leftovers.map fun (service, n) => s!"{service}: {n} probe(s)"
    let list := ", ".intercalate (texts.mergeSort fun a b => a ≤ b)
    .error s!"Not all probe expectations were met: {list}"

/-! ### Answering calls -/

/-- Writes a call to the log. -/
def write (s : State) (entry : Entry) : State := { s with log := entry :: s.log }

/-- The answer to the next question whether the container of a service is ready. -/
def nextProbe (s : State) (service : ServiceId) : State × Container.Probe :=
  let script := s.script service
  match script.probes with
  | [] => (s, script.fallback)
  | probe :: probes => (s.edit service fun script => { script with probes }, probe)

/-- Success, or the scripted fault. -/
def outcome (fault : Option Container.Error) : Except Container.Error Unit :=
  match fault with
  | some error => .error error
  | none => .ok ()

/-- Takes up a call: writes it down, and tells how long it takes and what comes then. -/
def take (s : State) (now : Nat) : Container.Call → State × Nat × Work
  | .start service _ =>
    let script := s.script service.id
    let work := match script.startError with
      | some error => .answer (.start (.error error))
      | none => .start service.id
    (s.write ⟨now, .start, service.id, none⟩, script.startDelay, work)
  | .stop handle _ =>
    let script := s.script handle.service
    (s.write ⟨now, .stop, handle.service, none⟩, script.stopDelay,
      .answer (.stop (outcome script.stopFault)))
  | .kill handle =>
    let script := s.script handle.service
    (s.write ⟨now, .kill, handle.service, none⟩, 0, .answer (.kill (outcome script.killFault)))
  | .probe handle =>
    let (s, probe) := s.nextProbe handle.service
    (s.write ⟨now, .probe, handle.service, some probe⟩, (s.script handle.service).probeDelay,
      .answer (.probe probe))

/-- Ends a call; a container that starts gets the next number. -/
def finish (s : State) : Work → State × Container.Reply
  | .answer reply => (s, reply)
  | .start service =>
    let number := s.started + 1
    let reply := match (s.script service).startFault with
      | some error => .error error
      | none => .ok ⟨service, s!"mock-{number}"⟩
    ({ s with started := number }, .start reply)

end State

/-- The engine that answers from scripts. -/
def engine : Engine where
  State := State
  Work := Work
  take := State.take
  resume s work :=
    let (s, reply) := s.finish work
    (s, .answer reply)

end Bringup.Engine.Scripted
