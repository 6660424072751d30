import Bringup.Lifecycle.Controller

/-!
# Making calls

How a call sets jobs to work, waits for them and answers. A start claims every service before any of
its jobs looks at a dependency; a stop gives each service a job that waits for the jobs of those that
depend on it; a restart is a stop and then a start of one service.
-/

namespace Bringup.Lifecycle.Controller

variable {t : Topology} (c : Controller t) (now : Nat)

/-- Makes a call that stands in the given phase, and tells its number. -/
def openCall (operation : Operation) (jobs : List JobId) (phase : CallPhase t.size) :
    Controller t × CallId :=
  ({ c with calls := c.calls.push { operation, jobs, phase } }, c.calls.size)

/-- Makes a call that reports on every service. -/
def openReport (operation : Operation) : Controller t × CallId :=
  c.openCall operation [] (.reporting (reportOrder t) [])

/-- Claims services for the current run and gives each a start job. -/
def spawnStarts (services : List (Fin t.size)) : Controller t :=
  let c := services.foldl (fun c s => c.modifySlot s Slot.claim) c
  c.spawn (services.map fun service => .start { service, run := c.currentRun })

/-- Gives each service of a stop order a job that waits for the jobs of those that depend on it. -/
def spawnStops (order : List (Fin t.size)) : Controller t :=
  let first := c.jobs.size
  c.spawn (order.map fun service =>
    .stop { service, phase := .awaiting ((t.dependents service).map fun d => first + order.idxOf d) })

/-- Starts every service that can be started. -/
def startAll : Controller t × CallId :=
  match t.startOrder with
  | .error _ => c.openReport .startAll
  | .ok order =>
    let jobs := (List.range order.length).map (c.jobs.size + ·)
    (c.arm.spawnStarts order).openCall .startAll jobs .joining

/-- Stops every service. -/
def stopAll : Controller t × CallId :=
  let c := c.cancelRuns
  match t.stopOrder with
  | .error _ => c.openReport .stopAll
  | .ok order =>
    let jobs := (List.range order.length).map (c.jobs.size + ·)
    (c.spawnStops order).openCall .stopAll jobs .joining

/-- Cancels the starts under way. -/
def cancel : Controller t × CallId :=
  c.cancelRuns.openCall .cancel [] (.sweeping (List.finRange t.size))

/-- Restarts a service. -/
def restart (id : ServiceId) : Controller t × CallId :=
  match t.position? id with
  | some service => c.openCall (.restart id) [] (.checking service)
  | none =>
    c.openCall (.restart id) [] (.answered (.restarted (.error (.unknownService id))) now)

/-- Makes a call, and tells its number. -/
def invoke : Operation → Controller t × CallId
  | .startAll => c.startAll
  | .stopAll => c.stopAll
  | .restart id => c.restart now id
  | .cancel => c.cancel
  | .status => c.openReport .status
  | .shutDown =>
    let (c, cancel) := c.cancel
    c.openCall .shutDown [] (.following cancel .stopAll)
  | .upUntil => c.openCall .upUntil [] .beginning

/-- What a restart came to, read off its service. -/
def restartResult (s : Fin t.size) : Except Error Status :=
  let status := c.status s
  match status.lastError with
  | some error => if status.state = .ready then .ok status else .error error
  | none => .ok status

/-- The answer of a call. -/
def answerCall (id : CallId) (answer : Answer) : Controller t :=
  c.setCallPhase id (.answered answer now)

/-- Goes on with a call after the one it waited for has answered. -/
def follow (id : CallId) (sequel : Sequel) (answer : Answer) : Controller t :=
  let report := match answer with
    | .report report | .finished report | .interrupted report => report
    | _ => {}
  match sequel with
  | .startAll =>
    let (c, up) := c.startAll
    c.setCallPhase id (.following up .shutDown)
  | .stopAll =>
    let (c, stop) := c.stopAll
    c.setCallPhase id (.following stop .report)
  | .report => c.answerCall now id (.report report)
  | .finish => c.answerCall now id (.finished report)
  | .drain up => c.setCallPhase id (.following up .shutDown)
  | .shutDown =>
    let (c, shutDown) := c.invoke now .shutDown
    c.setCallPhase id (.following shutDown .interrupt)
  | .interrupt => c.answerCall now id (.interrupted report)

/-- The call's own next step, where it has one. -/
def proceed (id : CallId) (call : Call t.size) : Option (Controller t × List Effect) :=
  match call.phase with
  | .joining =>
    if call.jobs.all c.isFinished then
      some (c.setCallPhase id (.reporting (reportOrder t) []), [])
    else none
  | .reporting [] taken => some (c.answerCall now id (.report ⟨taken.reverse⟩), [])
  | .reporting (s :: rest) taken =>
    some (c.setCallPhase id (.reporting rest (c.status s :: taken)), [])
  | .checking s =>
    let state := (c.slot s).state
    if state = .ready ∨ state = .stopped then
      let job := c.jobs.size
      some ((c.spawn [.stop { service := s }]).setCallPhase id (.stopping s job), [])
    else
      some (c.answerCall now id (.restarted (.error (.notRestartable (t.id s) state))), [])
  | .stopping s job =>
    if c.isFinished job then
      let job := c.jobs.size
      some ((c.arm.spawnStarts [s]).setCallPhase id (.starting s job), [])
    else none
  | .starting s job =>
    if c.isFinished job then some (c.setCallPhase id (.reading s), []) else none
  | .reading s => some (c.answerCall now id (.restarted (c.restartResult s)), [])
  | .sweeping [] => some (c.answerCall now id .cancelled, [])
  | .sweeping (s :: rest) =>
    let (c, effects) := c.moveFromStarting now s .stopping (some (.cancelled (t.id s)))
    some (c.setCallPhase id (.sweeping rest), effects)
  | .beginning =>
    let (c, up) := c.startAll
    some (c.setCallPhase id (.following up .finish), [])
  | .following other sequel =>
    match c.answer? other with
    | some (answer, _) => some (c.follow now id sequel answer, [])
    | none => none
  | .answered .. => none

/-- Interrupts a call that starts every service until it is interrupted. A start that has not begun yet
begins all the same, after the cancellation. -/
def interrupt (id : CallId) (call : Call t.size) : Option (Controller t × List Effect) :=
  match call.phase with
  | .beginning =>
    let (c, cancel) := c.cancel
    some (c.setCallPhase id (.following cancel .startAll), [])
  | .following up .finish =>
    let (c, cancel) := c.cancel
    some (c.setCallPhase id (.following cancel (.drain up)), [])
  | _ => none

end Bringup.Lifecycle.Controller
