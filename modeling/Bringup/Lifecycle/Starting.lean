import Bringup.Lifecycle.Halting

/-!
# Start jobs

The start of a service waits for its dependencies, moves the service to starting, binds its volumes,
launches its container and asks the container until it is ready or the attempts are used up. Of
several starts of one service only one moves it to starting; the others follow it. Whoever ends the
service's time in starting writes the outcome, and every later attempt to write one does nothing.
-/

namespace Bringup.Lifecycle.Controller

variable {t : Topology} (c : Controller t) (now : Nat) (id : JobId) (job : StartJob t.size)

/-- Moves the job on. -/
def startPhase (phase : StartPhase t.size) : Controller t :=
  c.setJob id (.start { job with phase })

/-- Ends the job, and gives up its claim. -/
def finishStart : Controller t :=
  let c := c.setJob id (.start { job with claimed := false, phase := .finished })
  if job.claimed then c.modifySlot job.service Slot.release else c

/-- Gives up the claim and waits for whoever starts the service. -/
def followStart : Controller t :=
  let c := c.setJob id (.start { job with claimed := false, phase := .following })
  if job.claimed then c.modifySlot job.service Slot.release else c

/-- Records an error with a service that can be started. -/
def recordIfStartable (error : Error) : Controller t :=
  if (c.slot job.service).state.isStartable then c.modifySlot job.service (·.record error) else c

/-- Waits for the dependencies that are left. -/
def awaitDependencies (dependencies : List (Fin t.size)) : Controller t :=
  c.startPhase id job (if dependencies = [] then .entering else .awaiting dependencies)

/-- Binds the volumes that are left, and launches the container when none is. -/
def attachNext : List Volume → Controller t × List Effect
  | [] =>
    let c := c.startPhase id job (.launching c.jobs.size)
    (c.spawn [.launch { service := job.service }], [])
  | volume :: rest =>
    (c.startPhase id job (.attaching (volume :: rest)),
      [.asks id (.volume (.attach volume.id (t.id job.service)))])

/-- Gives up a launch whose container nobody takes any more. -/
def orphan (launch : JobId) : Controller t :=
  match c.jobs[launch]? with
  | some (.launch value) => c.setJob launch (.launch { value with orphaned := true })
  | _ => c

/-- Takes what a launch returned, if it has. -/
def takeLaunch? (launch : JobId) :
    Option (Controller t × Except Container.Error Container.Handle) :=
  match c.jobs[launch]? with
  | some (.launch value) =>
    match value.phase with
    | .returned result => some (c.setJob launch (.launch { value with phase := .finished }), result)
    | _ => none
  | _ => none

/-- Moves the service to starting if its run and its state still allow it. -/
def enter : Controller t × List Effect :=
  let s := job.service
  if c.isCancelled job.run then
    ((c.recordIfStartable job (.cancelled (t.id s))).finishStart id job, [])
  else if (c.slot s).state.isStartable then
    let (c, moved) := c.move now s .starting
    let c := c.modifySlot s fun slot => { slot with lastError := none }
    let (c, asked) := c.attachNext id job (t.volumesOf s)
    (c, moved ++ asked)
  else (c.followStart id job, [])

/-- Writes down what the start came to. -/
def conclude (verdict : Verdict) : Controller t × List Effect :=
  let s := job.service
  match verdict with
  | .ready =>
    let (c, effects) := c.moveFromStarting now s .ready none
    (c.finishStart id job, effects)
  | .failed error =>
    let (c, effects) := c.moveFromStarting now s .failed (some error)
    (c.finishStart id job, effects)
  | .cancelled launch =>
    let (c, effects) := c.moveFromStarting now s .stopping (some (.cancelled (t.id s)))
    let c := match launch with
      | some launch => c.orphan launch
      | none => c
    (c.finishStart id job, effects)

/-- The job's own next step, where it has one. -/
def runStart : Option (Controller t × List Effect) :=
  let s := job.service
  match job.phase with
  | .arriving =>
    if (c.slot s).state.isStartable then some (c.awaitDependencies id job (t.dependencies s), [])
    else some (c.followStart id job, [])
  | .following =>
    if c.isCancelled job.run || (c.slot s).progress.settled then some (c.finishStart id job, [])
    else none
  | .awaiting [] => some (c.startPhase id job .entering, [])
  | .awaiting (dependency :: rest) =>
    if c.isCancelled job.run then some (c.startPhase id job (.refusing (.cancelled (t.id s))), [])
    else if (c.slot dependency).progress.settled then
      if (c.slot dependency).progress.state = .ready then some (c.awaitDependencies id job rest, [])
      else
        some (c.startPhase id job (.refusing (.dependencyFailed (t.id s) (t.id dependency))), [])
    else none
  | .refusing error => some ((c.recordIfStartable job error).finishStart id job, [])
  | .entering => some (c.enter now id job)
  | .launching launch =>
    if c.isCancelled job.run then
      some (c.startPhase id job (.concluding (.cancelled (some launch))), [])
    else
      match c.takeLaunch? launch with
      | none => none
      | some (c, .ok handle) => some (c.startPhase id job (.recording handle), [])
      | some (c, .error error) =>
        some (c.startPhase id job (.concluding (.failed (.startFailed (t.id s) error))), [])
  | .recording handle =>
    if (c.slot s).state = .starting then
      let c := c.modifySlot s fun slot => { slot with handle := some handle }
      some (c.startPhase id job (.asking handle 1), [])
    else
      some (c.startPhase id job (.discarding handle (c.beginHalt now)), [c.askStop id handle])
  | .asking handle attempt =>
    some (c.startPhase id job (.probing handle attempt), [.asks id (.container (.probe handle))])
  | .concluding verdict => some (c.conclude now id job verdict)
  | _ => none

/-- The job leaves a wait because its run is cancelled. -/
def heedStart : Option (Controller t × List Effect) :=
  if c.isCancelled job.run then
    let c := c.startPhase id job (.concluding (.cancelled none))
    match job.phase with
    | .pausing .. | .asking .. => some (c, [])
    | .probing .. => some (c, [.withdraws id])
    | _ => none
  else none

/-- The moment for which the job waits is there. -/
def timeoutStart : Option (Controller t × List Effect) :=
  match job.phase with
  | .pausing handle attempt deadline =>
    if deadline ≤ now then some (c.startPhase id job (.asking handle attempt), []) else none
  | .discarding handle halt =>
    if halt.timedOut now then
      some (c.startPhase id job (.discarding handle .killing), [.withdraws id, askKill id handle])
    else none
  | _ => none

/-- The job goes on after an attempt at which the container was not ready. -/
def retry (handle : Container.Handle) (attempt : UInt32) : Controller t :=
  let policy := c.config.retry
  if attempt < policy.maxAttempts then
    let deadline := now + (policy.delayFor (attempt - 1)).ceilMillis
    c.startPhase id job (.pausing handle (attempt + 1) deadline)
  else
    let error := .probeTimeout (t.id job.service) policy.maxAttempts
    c.startPhase id job (.concluding (.failed error))

/-- The job goes on after an answer, if it is one to what it asked. -/
def answerStart (reply : Reply) : Option (Controller t × List Effect) :=
  match job.phase, reply with
  | .attaching (_ :: rest), .volume (.ok _) => some (c.attachNext id job rest)
  | .attaching (_ :: _), .volume (.error error) =>
    some (c.startPhase id job (.concluding (.failed (.volume (t.id job.service) error))), [])
  | .probing handle attempt, .container (.probe status) =>
    match status with
    | .ready => some (c.startPhase id job (.concluding .ready), [])
    | _ => some (c.retry now id job handle attempt, [])
  | .discarding handle halt, reply =>
    match halt.answered reply with
    | some .over => some (c.finishStart id job, [])
    | some .kill =>
      some (c.startPhase id job (.discarding handle .killing), [askKill id handle])
    | none => none
  | _, _ => none

end Bringup.Lifecycle.Controller
