import Mathlib.Data.List.Nodup
import Bringup.Proofs.Engine.Scripts

/-!
# The account of a scripted engine

A session with a scripted engine is any sequence of commands that write scripts and of calls, which may
overlap. What the engine answers in it is told by what the caller did before, without a look at the
engine: a question takes the first of the answers that were pushed and not given yet, and the last
fallback if there is none (`answerOf`).

The account is kept by one invariant for each service. Its script holds the pushed answers from the
first one on that was not given, and each setting as the last command for it left it (`scripted`). A
command changes it as it changes the script (`Command.change`), a question takes one answer off
(`Script.after`), and nothing else touches it. So what is done for one service is answered as if no other
service were there (`Session.alone`), up to the numbers of containers, which are counted over all of them.
-/

namespace Bringup

namespace Container.Call

/-- The service that a call is about. -/
def service : Call → ServiceId
  | .start service _ => service.id
  | .stop handle _ | .kill handle | .probe handle => handle.service

end Container.Call

namespace Engine.Scripted

open Container (Call Probe Reply)

/-! ## Sessions -/

/-- What can be scripted for a service. -/
inductive Command where
  | expectProbes (probes : List Probe)
  | thenReady
  | neverReady
  | failStart (message : String)
  | slowStart (time : Duration)
  | slowStop (time : Duration)

namespace Command

/-- Writes the script of a service. -/
def run (service : ServiceId) (s : State) : Command → State
  | .expectProbes probes => s.expectProbes service probes
  | .thenReady => s.thenReady service
  | .neverReady => s.neverReady service
  | .failStart message => s.failStart service message
  | .slowStart time => s.slowStart service time
  | .slowStop time => s.slowStop service time

/-- The answers that a command adds to the script. -/
def pushes : Command → List Probe
  | .expectProbes probes => probes
  | .thenReady => [.ready]
  | _ => []

def fallback? : Command → Option Probe
  | .thenReady => some .ready
  | .neverReady => some .notReady
  | _ => none

def failure? : Command → Option String
  | .failStart message => some message
  | _ => none

def startTime? : Command → Option Duration
  | .slowStart time => some time
  | _ => none

def stopTime? : Command → Option Duration
  | .slowStop time => some time
  | _ => none

/-- The script after a command. -/
def change (command : Command) (script : Script) : Script :=
  { script with
    probes := script.probes ++ command.pushes
    fallback := command.fallback?.getD script.fallback
    startError := (command.failure?.map .start).or script.startError
    startTime := command.startTime?.getD script.startTime
    stopTime := command.stopTime?.getD script.stopTime }

end Command

/-- What a caller does: it writes scripts, makes calls, which it numbers, and waits for their end. -/
inductive Deed where
  | commands (service : ServiceId) (command : Command)
  | takes (id now : Nat) (call : Call)
  | ends (id : Nat) (call : Call)

/-- What a caller does, and what the engine makes of it. -/
inductive Event where
  | commands (service : ServiceId) (command : Command)
  | takes (id now : Nat) (call : Call) (delay : Nat) (work : Work)
  | ends (id : Nat) (call : Call) (reply : Reply)

namespace Event

/-- The caller's part. -/
def deed : Event → Deed
  | .commands service command => .commands service command
  | .takes id now call .. => .takes id now call
  | .ends id call _ => .ends id call

/-- The service that the event is about. -/
def service : Event → ServiceId
  | .commands service _ => service
  | .takes _ _ call .. | .ends _ call _ => call.service

/-- The number of a call that is taken up. -/
def taken? : Event → Option Nat
  | .takes id .. => some id
  | _ => none

/-- The number of a call that ends. -/
def ended? : Event → Option Nat
  | .ends id .. => some id
  | _ => none

/-- The container that a start ends with. -/
def handle? : Event → Option Container.Handle
  | .ends _ _ (.start (.ok handle)) => some handle
  | _ => none

/-- The event without the name of a container. -/
def masked : Event → Event
  | .ends id call (.start (.ok handle)) => .ends id call (.start (.ok { handle with id := "" }))
  | e => e

end Event

/-- A session with the engine, the last event first. The calls have different numbers, and each ends
once at most, at any time after it was taken up. -/
inductive Session : List Event → State → Prop where
  | begin : Session [] {}
  | command {past : List Event} {s : State} (session : Session past s) (service : ServiceId)
    (command : Command) : Session (.commands service command :: past) (command.run service s)
  | take {past : List Event} {s : State} (session : Session past s) (id now : Nat) (call : Call)
    (new : id ∉ past.filterMap Event.taken?) :
    Session (.takes id now call (s.take now call).2.1 (s.take now call).2.2 :: past)
      (s.take now call).1
  | finish {past : List Event} {s : State} (session : Session past s) {id now : Nat} {call : Call}
    {delay : Nat} {work : Work} (taken : .takes id now call delay work ∈ past)
    (ongoing : id ∉ past.filterMap Event.ended?) :
    Session (.ends id call (s.finish work).2 :: past) (s.finish work).1

/-! ## What the caller's deeds say -/

section Specification

variable (service : ServiceId)

/-- The answers pushed for a service, in their order. -/
def pushed : List Event → List Probe
  | [] => []
  | .commands other command :: past =>
    if other = service then pushed past ++ command.pushes else pushed past
  | _ :: past => pushed past

/-- What the last command for a service that makes a setting sets it to. -/
def last? {α : Type} (setting : Command → Option α) : List Event → Option α
  | [] => none
  | .commands other command :: past =>
    if other = service then (setting command).or (last? setting past) else last? setting past
  | _ :: past => last? setting past

/-- The answers that questions for a service were given while pushed ones were left. -/
def given : List Event → List Probe
  | [] => []
  | .takes _ _ (.probe handle) _ (.answer (.probe probe)) :: past =>
    if handle.service = service ∧ (given past).length < (pushed service past).length then
      given past ++ [probe]
    else given past
  | _ :: past => given past

/-- The answer to the next question: the first pushed one that was not given, or the last fallback. -/
def answerOf (past : List Event) : Probe :=
  ((pushed service past)[(given service past).length]?).getD
    ((last? service Command.fallback? past).getD .ready)

/-- How long a call takes, and what comes then. -/
def expected (past : List Event) : Call → Nat × Work
  | .start declared _ =>
    (((last? declared.id Command.startTime? past).getD .zero).ceilMillis,
      match last? declared.id Command.failure? past with
      | some message => .answer (.start (.error (.start message)))
      | none => .start declared.id)
  | .stop handle _ =>
    (((last? handle.service Command.stopTime? past).getD .zero).ceilMillis,
      .answer (.stop (.ok ())))
  | .kill _ => (0, .answer (.kill (.ok ())))
  | .probe handle => (0, .answer (.probe (answerOf handle.service past)))

/-- The script of a service after a session. -/
def scripted (past : List Event) : Script where
  probes := (pushed service past).drop (given service past).length
  fallback := (last? service Command.fallback? past).getD .ready
  startError := (last? service Command.failure? past).map .start
  startTime := (last? service Command.startTime? past).getD .zero
  stopTime := (last? service Command.stopTime? past).getD .zero

end Specification

/-- What a call that was taken up may be answered. -/
inductive Work.Gives : Work → Reply → Prop where
  | answer (reply : Reply) : Gives (.answer reply) reply
  | start (service : ServiceId) (n : Nat) : Gives (.start service) (.start (.ok ⟨service, s!"mock-{n}"⟩))

def Work.probe? : Work → Option Probe
  | .answer (.probe probe) => some probe
  | _ => none

/-- How a call is written to the log. -/
def verb : Call → Verb
  | .start .. => .start
  | .stop .. => .stop
  | .kill _ => .kill
  | .probe _ => .probe

/-- What an event leaves in the log: a call that is taken up, and the answer if it is a question. -/
def Event.entry? : Event → Option Entry
  | .takes _ now call _ work => some ⟨now, verb call, call.service, work.probe?⟩
  | _ => none

/-- The events that are about a service. -/
def own (service : ServiceId) (past : List Event) : List Event := past.filter (·.service = service)

/-! ## One deed and the script of a service -/

variable {past past' : List Event} {s s' : State} {service other : ServiceId}

theorem Command.run_eq (command : Command) : command.run service s = s.edit service command.change := by
  cases command <;> simp [run, State.expectProbes, State.thenReady, State.neverReady, State.failStart,
    State.slowStart, State.slowStop, State.edit, change, pushes, fallback?, failure?, startTime?,
    stopTime?]

theorem Command.script_run (command : Command) : (command.run service s).script other =
    if service = other then command.change (s.script other) else s.script other := by
  rw [run_eq]
  split
  next h => rw [← h, State.script_edit_self]
  next h => exact State.script_edit_of_ne (Ne.symm h) _

/-- The service that a call asks about, if it is a question. -/
def asked? : Call → Option ServiceId
  | .probe handle => some handle.service
  | _ => none

namespace Script

/-- How long a call takes, and what comes then, as a script has it. -/
def respond (script : Script) : Call → Nat × Work
  | .start declared _ => (script.startDelay,
      match script.startError with
      | some error => .answer (.start (.error error))
      | none => .start declared.id)
  | .stop .. => (script.stopDelay, .answer (.stop (State.outcome script.stopFault)))
  | .kill _ => (0, .answer (.kill (State.outcome script.killFault)))
  | .probe _ => (script.probeDelay, .answer (.probe (script.answer 0)))

end Script

namespace State

theorem script_take (now : Nat) (call : Call) : (s.take now call).1.script service =
    if asked? call = some service then (s.script service).after 1 else s.script service := by
  cases call with
  | probe handle =>
      change (s.nextProbe handle.service).1.script service = _
      split
      next h =>
        obtain rfl : handle.service = service := Option.some.inj h
        exact (nextProbe_of_after (Script.after_zero _).symm).2
      next h => exact script_nextProbe_of_ne fun he => h (congrArg some he.symm)
  | start | stop | kill => rfl

/-- A call is answered as the script of its service has it. -/
theorem take_eq (now : Nat) (call : Call) :
    (s.take now call).2 = (s.script call.service).respond call := by
  cases call with
  | probe handle =>
      obtain ⟨hanswer, hscript⟩ := nextProbe_of_after (Script.after_zero (s.script handle.service)).symm
      simp only [take, Script.respond, Call.service, hanswer, hscript]
      rfl
  | start | stop | kill => rfl

theorem nextProbe_eq : (s.nextProbe service).1.log = s.log ∧
    (s.nextProbe service).1.started = s.started := by
  unfold nextProbe
  dsimp only
  split <;> exact ⟨rfl, rfl⟩

theorem started_take (now : Nat) (call : Call) : (s.take now call).1.started = s.started := by
  cases call with
  | probe handle => exact nextProbe_eq.2
  | start | stop | kill => rfl

theorem log_take (now : Nat) (call : Call) : (s.take now call).1.log =
    ⟨now, verb call, call.service, (s.take now call).2.2.probe?⟩ :: s.log := by
  cases call with
  | probe handle =>
      simp only [take, write, nextProbe_eq.1]
      rfl
  | start declared volumes =>
      simp only [take, write]
      split <;> rfl
  | stop | kill => rfl

end State

/-! ## What a question takes from the script -/

theorem answer_scripted : (scripted service past).answer 0 = answerOf service past := by
  simp [Script.answer, scripted, answerOf]

theorem respond_scripted (call : Call) :
    (scripted call.service past).respond call = expected past call := by
  cases call with
  | start declared volumes =>
      simp only [Script.respond, scripted, expected, Call.service]
      cases last? declared.id Command.failure? past <;> rfl
  | stop | kill => rfl
  | probe handle => exact congrArg (fun probe => (0, Work.answer (.probe probe))) answer_scripted

/-- **A question is given the next of the pushed answers**, if one is left. -/
theorem given_takes (h : given service past <+: pushed service past) (id now : Nat) (call : Call) :
    given service (.takes id now call (expected past call).1 (expected past call).2 :: past) =
      if asked? call = some service then (pushed service past).take ((given service past).length + 1)
      else given service past := by
  cases call with
  | start | stop | kill => rfl
  | probe handle =>
      simp only [given, expected, asked?, Option.some.injEq]
      by_cases he : handle.service = service
      · subst he
        rw [if_pos rfl]
        by_cases hlt : (given handle.service past).length < (pushed handle.service past).length
        · rw [if_pos ⟨rfl, hlt⟩, List.take_add_one, ← List.prefix_iff_eq_take.1 h, answerOf,
            List.getElem?_eq_getElem hlt]
          rfl
        · rw [if_neg (fun hboth => hlt hboth.2), List.take_of_length_le (by omega)]
          exact h.eq_of_length_le (Nat.not_lt.1 hlt)
      · rw [if_neg he, if_neg (fun hboth => he hboth.1)]

theorem given_commands (command : Command) :
    given service (.commands other command :: past) = given service past := rfl

theorem pushed_takes (id now : Nat) (call : Call) (delay : Nat) (work : Work) :
    pushed service (.takes id now call delay work :: past) = pushed service past := rfl

theorem scripted_takes (h : given service past <+: pushed service past) (id now : Nat) (call : Call) :
    scripted service (.takes id now call (expected past call).1 (expected past call).2 :: past) =
      if asked? call = some service then (scripted service past).after 1
      else scripted service past := by
  simp only [scripted, given_takes h, pushed, last?, Script.after]
  split
  · rw [List.length_take, List.drop_drop, ← List.drop_eq_drop_min]
  · rfl

theorem scripted_commands (h : given service past <+: pushed service past) (command : Command) :
    scripted service (.commands other command :: past) =
      if other = service then command.change (scripted service past) else scripted service past := by
  simp only [scripted, given_commands, pushed, last?]
  split
  next =>
    simp only [Command.change, Script.mk.injEq, and_true]
    rw [List.drop_append_of_le_length h.length_le]
    cases command <;> simp [Command.fallback?, Command.failure?, Command.startTime?, Command.stopTime?]
  next => rfl

/-! ## Which services have answers left -/

namespace State

/-- Each service has one script. -/
def OneEach (s : State) : Prop := (s.scripts.map Prod.fst).Nodup

theorem keys_putScript (script : Script) (scripts : List (ServiceId × Script)) :
    (putScript service script scripts).map Prod.fst =
      if service ∈ scripts.map Prod.fst then scripts.map Prod.fst
      else scripts.map Prod.fst ++ [service] := by
  induction scripts with
  | nil => simp [putScript]
  | cons entry rest ih =>
      obtain ⟨name, old⟩ := entry
      rw [putScript]
      by_cases he : name = service
      · simp [he]
      · rw [if_neg he, List.map_cons, ih]
        simp only [List.map_cons, List.mem_cons, Ne.symm he, false_or]
        split <;> rfl

theorem OneEach.edit (h : s.OneEach) (change : Script → Script) : (s.edit service change).OneEach := by
  rw [OneEach, State.edit, keys_putScript]
  split
  next => exact h
  next hn => exact List.concat_eq_append ▸ List.Nodup.concat hn h

/-- The services with answers left, and how many. -/
theorem OneEach.mem_leftovers (h : s.OneEach) {n : Nat} :
    (service, n) ∈ s.leftovers ↔ (s.script service).probes.length = n ∧ n ≠ 0 := by
  simp only [leftovers, List.mem_map, List.mem_filter, Prod.exists, Prod.mk.injEq,
    ← Keyed.lookup_eq_some h]
  constructor
  · rintro ⟨other, script, ⟨hl, hn⟩, rfl, rfl⟩
    rw [State.script, hl]
    exact ⟨rfl, by simpa using hn⟩
  · rintro ⟨hlength, hn⟩
    cases hl : s.scripts.lookup service with
    | none => simp [State.script, hl, hn.symm] at hlength
    | some script =>
        rw [State.script, hl] at hlength
        refine ⟨service, script, ⟨hl, ?_⟩, rfl, hlength⟩
        simpa [← List.length_eq_zero_iff, show script.probes.length = n from hlength] using hn

theorem OneEach.nodup_leftovers (h : s.OneEach) : (s.leftovers.map Prod.fst).Nodup := by
  rw [leftovers, List.map_map]
  exact h.sublist (List.filter_sublist.map _)

theorem OneEach.take (h : s.OneEach) (now : Nat) (call : Call) : (s.take now call).1.OneEach := by
  cases call with
  | probe handle =>
      change (s.nextProbe handle.service).1.OneEach
      unfold nextProbe
      dsimp only
      split
      next => exact h
      next => exact h.edit _
  | start | stop | kill => exact h

/-- The text that says what is left of a service's answers. -/
def leftoverText (service : ServiceId) (n : Nat) : String := s!"{service}: {n} probe(s)"

/-- **The check passes if nothing is left**, and otherwise names what is. -/
theorem verify_cases : s.leftovers = [] ∧ s.verify = .ok () ∨
    s.leftovers ≠ [] ∧ ∃ entries : List (ServiceId × Nat), entries.Perm s.leftovers ∧ s.verify = .error
      ("Not all probe expectations were met: " ++
        ", ".intercalate (entries.map fun (service, n) => leftoverText service n)) := by
  rw [verify]
  cases hl : s.leftovers with
  | nil => exact .inl ⟨rfl, rfl⟩
  | cons entry rest =>
      refine .inr ⟨List.cons_ne_nil _ _, (entry :: rest).mergeSort fun a b =>
        leftoverText a.1 a.2 ≤ leftoverText b.1 b.2, List.mergeSort_perm _ _, ?_⟩
      rw [List.map_mergeSort (s := fun a b => decide (a ≤ b)) (fun _ _ _ _ => rfl)]
      rfl

end State

/-! ## The account at every instant -/

namespace Session

/-- **The script of each service** holds what the deeds for it left there, and what its questions were
given are the first of the pushed answers. -/
theorem kept (session : Session past s) : ∀ service,
    given service past <+: pushed service past ∧ s.script service = scripted service past := by
  induction session with
  | begin => exact fun service => ⟨List.prefix_rfl, rfl⟩
  | @command past s session other command ih =>
      intro service
      obtain ⟨hgiven, hscript⟩ := ih service
      refine ⟨?_, by rw [Command.script_run, scripted_commands hgiven, hscript]⟩
      rw [given_commands, pushed]
      split
      next => exact hgiven.trans (List.prefix_append _ _)
      next => exact hgiven
  | @take past s session id now call new ih =>
      intro service
      obtain ⟨hgiven, hscript⟩ := ih service
      have htake : (s.take now call).2 = expected past call := by
        rw [State.take_eq, (ih call.service).2, respond_scripted]
      rw [htake]
      refine ⟨?_, by rw [State.script_take, scripted_takes hgiven, hscript]⟩
      rw [given_takes hgiven, pushed_takes]
      split
      next => exact List.take_prefix _ _
      next => exact hgiven
  | @finish past s session id now call delay work taken ongoing ih =>
      intro service
      exact ⟨(ih service).1, (State.script_finish work).trans (ih service).2⟩

variable (session : Session past s)

include session

theorem given_pushed (service : ServiceId) : given service past <+: pushed service past :=
  (session.kept service).1

theorem script_eq (service : ServiceId) : s.script service = scripted service past :=
  (session.kept service).2

/-- **Pushed answers are either given or left**, and what is left comes after what was given. -/
theorem pushed_eq (service : ServiceId) :
    pushed service past = given service past ++ (s.script service).probes := by
  rw [session.script_eq, scripted]
  conv_lhs => rw [← List.take_append_drop (given service past).length (pushed service past),
    ← List.prefix_iff_eq_take.1 (session.given_pushed service)]

theorem take_expected (now : Nat) (call : Call) : (s.take now call).2 = expected past call := by
  rw [State.take_eq, session.script_eq, respond_scripted]

omit session

/-! ## Events of a session -/

/-- A session is a session up to each of its events. -/
theorem upTo {later earlier : List Event} (session : Session (later ++ earlier) s) :
    ∃ s', Session earlier s' := by
  induction later generalizing s with
  | nil => exact ⟨s, session⟩
  | cons e later ih => cases session with
    | command session | take session | finish session => exact ih session

/-- Each call is answered as the deeds before it have it. -/
theorem answered {later earlier : List Event} {id now : Nat} {call : Call} {delay : Nat} {work : Work}
    (session : Session (later ++ .takes id now call delay work :: earlier) s) :
    (delay, work) = expected earlier call := by
  obtain ⟨s', session⟩ := session.upTo
  cases session with
  | take session => exact session.take_expected now call

theorem log_eq (session : Session past s) : s.log = past.filterMap Event.entry? := by
  induction session with
  | begin => rfl
  | @command past s session service command ih => rw [Command.run_eq]; exact ih
  | @take past s session id now call new ih => rw [State.log_take, ih]; rfl
  | @finish past s session id now call delay work taken ongoing ih => cases work <;> exact ih

/-- Each call is taken up once. -/
theorem taken_once (session : Session past s) : (past.filterMap Event.taken?).Nodup := by
  induction session with
  | begin => exact List.nodup_nil
  | command session service command ih => exact ih
  | take session id now call new ih => exact List.nodup_cons.2 ⟨new, ih⟩
  | finish session taken ongoing ih => exact ih

theorem eq_of_taken {id : Nat} {e e' : Event} (h : (past.filterMap Event.taken?).Nodup)
    (he : e ∈ past) (he' : e' ∈ past) (hid : e.taken? = some id) (hid' : e'.taken? = some id) :
    e = e' := by
  induction past with
  | nil => cases he
  | cons first past ih =>
      have hfirst {x : Event} (hx : x.taken? = some id) (hf : first.taken? = some id) : x ∉ past := by
        rw [List.filterMap_cons_some hf, List.nodup_cons] at h
        exact fun hmem => h.1 (List.mem_filterMap.2 ⟨x, hmem, hx⟩)
      have hrest : (past.filterMap Event.taken?).Nodup :=
        h.sublist ((List.sublist_cons_self _ _).filterMap _)
      rcases List.mem_cons.1 he with rfl | hr <;> rcases List.mem_cons.1 he' with rfl | hr'
      · rfl
      · exact absurd hr' (hfirst hid' hid)
      · exact absurd hr (hfirst hid hid')
      · exact ih hrest hr hr'

/-- A start that ends without an error hands over the next container. -/
theorem finish_start (session : Session past s) : (s.finish (.start service)).2 =
    .start (.ok ⟨service, s!"mock-{s.started + 1}"⟩) := by
  simp only [State.finish, session.script_eq, scripted]

/-- What comes of a call that was taken up is told then, but for the number of a container. -/
theorem answers (session : Session past s) {id : Nat} {call : Call} {reply : Reply}
    (he : .ends id call reply ∈ past) :
    ∃ now delay work, .takes id now call delay work ∈ past ∧ work.Gives reply := by
  induction session with
  | begin => cases he
  | command session service command ih | take session id now call new ih =>
      obtain ⟨now, delay, work, ht, hg⟩ := ih (by simpa using he)
      exact ⟨now, delay, work, List.mem_cons_of_mem _ ht, hg⟩
  | @finish past s session id' now call' delay work taken ongoing ih =>
      rcases List.mem_cons.1 he with he | he
      · obtain ⟨rfl, rfl, rfl⟩ := by simpa using he
        refine ⟨now, delay, work, List.mem_cons_of_mem _ taken, ?_⟩
        cases work with
        | answer reply => exact .answer reply
        | start service => rw [session.finish_start]; exact .start _ _
      · obtain ⟨now, delay, work, ht, hg⟩ := ih he
        exact ⟨now, delay, work, List.mem_cons_of_mem _ ht, hg⟩

/-- A call whose answer is told when it is taken up starts no container. -/
theorem handle?_of_taken (session : Session past s) {id now : Nat} {call : Call} {delay : Nat}
    {reply : Reply} (ht : .takes id now call delay (.answer reply) ∈ past) :
    (Event.ends id call reply).handle? = none := by
  obtain ⟨later, earlier, rfl⟩ := List.append_of_mem ht
  have hexpected := congrArg Prod.snd session.answered
  cases call with
  | start declared volumes =>
      simp only [expected] at hexpected
      split at hexpected <;> simp_all [Event.handle?]
  | stop | kill | probe =>
      obtain rfl := by simpa [expected] using hexpected
      rfl

/-- **The containers are numbered** in the order in which their starts end. -/
theorem numbered (session : Session past s) : (past.filterMap Event.handle?).reverse.map (·.id) =
    (List.range s.started).map fun n => s!"mock-{n + 1}" := by
  induction session with
  | begin => rfl
  | command session service command ih => rw [Command.run_eq]; exact ih
  | @take past s session id now call new ih =>
      rw [State.started_take]
      exact ih
  | @finish past s session id now call delay work taken ongoing ih =>
      cases work with
      | answer reply =>
          simp only [State.finish, List.filterMap_cons_none (session.handle?_of_taken taken)]
          exact ih
      | start service =>
          rw [session.finish_start, List.filterMap_cons_some (f := Event.handle?) rfl,
            List.reverse_cons, List.map_append, ih]
          simp [State.finish, List.range_succ]

theorem oneEach (session : Session past s) : s.OneEach := by
  induction session with
  | begin => exact List.nodup_nil
  | command session service command ih => rw [Command.run_eq]; exact ih.edit _
  | take session id now call new ih => exact ih.take now call
  | @finish past s session id now call delay work taken ongoing ih => cases work with
    | answer reply | start service => exact ih

/-! ## One service by itself -/

theorem mem_own_iff {e : Event} : e ∈ own service past ↔ e ∈ past ∧ e.service = service := by
  simp [own]

/-- What is done is done the same way again: the same deeds are answered the same. -/
theorem determined (session : Session past s) (session' : Session past' s')
    (h : past.map Event.deed = past'.map Event.deed) : past = past' ∧ s = s' := by
  induction session generalizing past' s' with
  | begin =>
      cases session' with
      | begin => exact ⟨rfl, rfl⟩
      | _ => simp at h
  | command session service command ih =>
      cases session' with
      | command session' =>
          simp only [List.map_cons, Event.deed, List.cons.injEq, Deed.commands.injEq] at h
          obtain ⟨⟨rfl, rfl⟩, h⟩ := h
          obtain ⟨rfl, rfl⟩ := ih session' h
          exact ⟨rfl, rfl⟩
      | _ => simp [Event.deed] at h
  | take session id now call new ih =>
      cases session' with
      | take session' =>
          simp only [List.map_cons, Event.deed, List.cons.injEq, Deed.takes.injEq] at h
          obtain ⟨⟨rfl, rfl, rfl⟩, h⟩ := h
          obtain ⟨rfl, rfl⟩ := ih session' h
          exact ⟨rfl, rfl⟩
      | _ => simp [Event.deed] at h
  | finish session taken ongoing ih =>
      cases session' with
      | finish session' taken' ongoing' =>
          simp only [List.map_cons, Event.deed, List.cons.injEq, Deed.ends.injEq] at h
          obtain ⟨⟨rfl, rfl⟩, h⟩ := h
          obtain ⟨rfl, rfl⟩ := ih session' h
          obtain ⟨rfl, rfl, rfl⟩ := by simpa using eq_of_taken session.taken_once taken taken' rfl rfl
          exact ⟨rfl, rfl⟩
      | _ => simp [Event.deed] at h

theorem masked_takes_iff {e : Event} {id now : Nat} {call : Call} {delay : Nat} {work : Work} :
    e.masked = .takes id now call delay work ↔ e = .takes id now call delay work := by
  unfold Event.masked
  split <;> simp

/-- What is read off events without a look at the name of a container is the same where they are alike. -/
theorem filterMap_masked {α : Type} {f : Event → Option α} (hf : ∀ e, f e.masked = f e)
    (past : List Event) : (past.map Event.masked).filterMap f = past.filterMap f := by
  rw [List.filterMap_map]
  exact List.filterMap_congr fun e _ => hf e

theorem filterMap_of_alike {α : Type} {f : Event → Option α} (hf : ∀ e, f e.masked = f e)
    {alone : List Event} (h : alone.map Event.masked = (own service past).map Event.masked) :
    alone.filterMap f = (own service past).filterMap f := by
  rw [← filterMap_masked hf alone, h, filterMap_masked hf]

theorem taken?_masked (e : Event) : e.masked.taken? = e.taken? := by
  unfold Event.masked
  split <;> rfl

theorem ended?_masked (e : Event) : e.masked.ended? = e.ended? := by
  unfold Event.masked
  split <;> rfl

theorem entry?_masked (e : Event) : e.masked.entry? = e.entry? := by
  unfold Event.masked
  split <;> rfl

theorem deed_masked (e : Event) : e.masked.deed = e.deed := by
  unfold Event.masked
  split <;> rfl

theorem own_cons_self {e : Event} (h : e.service = service) :
    own service (e :: past) = e :: own service past := List.filter_cons_of_pos (by simpa using h)

theorem own_cons_of_ne {e : Event} (h : e.service ≠ service) :
    own service (e :: past) = own service past := List.filter_cons_of_neg (by simpa using h)

/-- **A service by itself**: what was done for it, done with an engine that was asked for nothing else,
is answered the same, up to the names of the containers. -/
theorem alone (session : Session past s) (service : ServiceId) : ∃ alone s', Session alone s' ∧
    alone.map Event.masked = (own service past).map Event.masked ∧
    s'.script service = s.script service := by
  induction session with
  | begin => exact ⟨[], {}, .begin, rfl, rfl⟩
  | @command past s session other command ih =>
      obtain ⟨alone, s', session', halike, hscript⟩ := ih
      by_cases he : other = service
      · refine ⟨_, _, session'.command other command, ?_, ?_⟩
        · rw [own_cons_self (e := .commands other command) he, List.map_cons, List.map_cons, halike]
        · rw [command.script_run, command.script_run, hscript]
      · refine ⟨alone, s', session', ?_, ?_⟩
        · rw [own_cons_of_ne (e := .commands other command) he, halike]
        · rw [command.script_run, if_neg he, hscript]
  | @take past s session id now call new ih =>
      obtain ⟨alone, s', session', halike, hscript⟩ := ih
      by_cases he : call.service = service
      · have hnew : id ∉ alone.filterMap Event.taken? := by
          rw [filterMap_of_alike taken?_masked halike]
          exact fun hmem => new ((List.filter_sublist.filterMap _).subset hmem)
        have hsame : (s'.take now call).2 = (s.take now call).2 := by
          rw [State.take_eq, State.take_eq, he, hscript]
        refine ⟨_, _, session'.take id now call hnew, ?_, ?_⟩
        · rw [own_cons_self (e := .takes id now call _ _) he, List.map_cons, List.map_cons, halike, hsame]
        · rw [State.script_take, State.script_take, hscript]
      · refine ⟨alone, s', session', ?_, ?_⟩
        · rw [own_cons_of_ne (e := .takes id now call _ _) he, halike]
        · rw [State.script_take, if_neg, hscript]
          intro hasked
          cases call <;> simp_all [asked?, Call.service]
  | @finish past s session id now call delay work taken ongoing ih =>
      obtain ⟨alone, s', session', halike, hscript⟩ := ih
      by_cases he : call.service = service
      · have htaken : .takes id now call delay work ∈ alone := by
          have hmem : Event.takes id now call delay work ∈ (own service past).map Event.masked :=
            List.mem_map.2 ⟨_, mem_own_iff.2 ⟨taken, he⟩, rfl⟩
          rw [← halike] at hmem
          obtain ⟨e, hmem, hmasked⟩ := List.mem_map.1 hmem
          exact masked_takes_iff.1 hmasked ▸ hmem
        have hongoing : id ∉ alone.filterMap Event.ended? := by
          rw [filterMap_of_alike ended?_masked halike]
          exact fun hmem => ongoing ((List.filter_sublist.filterMap _).subset hmem)
        refine ⟨_, _, session'.finish htaken hongoing, ?_, ?_⟩
        · rw [own_cons_self (e := .ends id call _) he, List.map_cons, List.map_cons, halike]
          congr 1
          cases work with
          | answer reply => rfl
          | start other => rw [session.finish_start, session'.finish_start]; rfl
        · rw [State.script_finish, State.script_finish, hscript]
      · refine ⟨alone, s', session', ?_, ?_⟩
        · rw [own_cons_of_ne (e := .ends id call _) he, halike]
        · rw [State.script_finish, hscript]

theorem log_own (session : Session past s) (service : ServiceId) :
    s.log.filter (·.service = service) = (own service past).filterMap Event.entry? := by
  rw [session.log_eq, own, List.filter_filterMap, List.filterMap_filter]
  refine List.filterMap_congr fun e _ => ?_
  cases e with
  | takes id now call delay work =>
      by_cases he : call.service = service <;> simp [Event.entry?, Event.service, he]
  | commands | ends => simp [Event.entry?]

/-- Two sessions in which the same is done for a service come to the same for it. -/
theorem same_of_deeds (session : Session past s) (session' : Session past' s') (service : ServiceId)
    (h : (own service past).map Event.deed = (own service past').map Event.deed) :
    (own service past).map Event.masked = (own service past').map Event.masked ∧
      s.script service = s'.script service ∧
      s.log.filter (·.service = service) = s'.log.filter (·.service = service) := by
  obtain ⟨alone, a, halone, halike, hscript⟩ := session.alone service
  obtain ⟨alone', a', halone', halike', hscript'⟩ := session'.alone service
  have hdeeds {past alone : List Event} (hl : alone.map Event.masked = past.map Event.masked) :
      alone.map Event.deed = past.map Event.deed := by
    have hmasked : Event.deed ∘ Event.masked = Event.deed := funext deed_masked
    rw [← hmasked, ← List.map_map, ← List.map_map, hl]
  obtain ⟨rfl, rfl⟩ := halone.determined halone' (by rw [hdeeds halike, hdeeds halike', h])
  refine ⟨halike.symm.trans halike', hscript.symm.trans hscript', ?_⟩
  rw [session.log_own, session'.log_own, ← filterMap_of_alike entry?_masked halike,
    ← filterMap_of_alike entry?_masked halike']

end Session

/-! ## The whole account -/

/-- How a session stands, told from what the caller did. -/
structure Accounted (past : List Event) (s : State) : Prop where
  /-- Each call is answered as the deeds before it have it, -/
  answered : ∀ later id now call delay work earlier,
    past = later ++ .takes id now call delay work :: earlier → (delay, work) = expected earlier call
  /-- and this is what the caller is told in the end. -/
  replied : ∀ id call reply, .ends id call reply ∈ past →
    ∃ now delay work, .takes id now call delay work ∈ past ∧ work.Gives reply
  /-- The pushed answers were given one after another, up to those that are left. -/
  scripted : ∀ service, pushed service past = given service past ++ (s.script service).probes
  /-- There is one entry for each call, in their order. -/
  logged : s.calls = past.reverse.filterMap Event.entry?
  left : ∀ service n, (service, n) ∈ s.leftovers ↔
    n + (given service past).length = (pushed service past).length ∧ n ≠ 0
  /-- The check passes if nothing is left, or names each service that has answers left, and how many. -/
  verified : (∀ service, given service past = pushed service past) ∧ s.verify = .ok () ∨
    (∃ service, given service past ≠ pushed service past) ∧ ∃ services : List ServiceId,
      services.Nodup ∧ (∀ service, service ∈ services ↔ given service past ≠ pushed service past) ∧
      s.verify = .error ("Not all probe expectations were met: " ++
        ", ".intercalate (services.map fun service =>
          let left := (pushed service past).length - (given service past).length
          s!"{service}: {left} probe(s)"))
  numbered : (past.reverse.filterMap Event.handle?).map (·.id) =
    (List.range s.started).map fun n => s!"mock-{n + 1}"
  /-- What is done for a service is answered the same, whatever is done for the others. -/
  separate : ∀ past' s', Session past' s' → ∀ service,
    (own service past).map Event.deed = (own service past').map Event.deed →
    (own service past).map Event.masked = (own service past').map Event.masked ∧
      s.script service = s'.script service ∧
      s.log.filter (·.service = service) = s'.log.filter (·.service = service)

namespace Session

theorem mem_leftovers (session : Session past s) {n : Nat} : (service, n) ∈ s.leftovers ↔
    n + (given service past).length = (pushed service past).length ∧ n ≠ 0 := by
  have hlength := congrArg List.length (session.pushed_eq service)
  rw [List.length_append] at hlength
  rw [session.oneEach.mem_leftovers]
  omega

/-- A service has answers left if not all that were pushed were given. -/
theorem left_iff (session : Session past s) :
    service ∈ s.leftovers.map Prod.fst ↔ given service past ≠ pushed service past := by
  have hpushed := session.pushed_eq service
  simp only [List.mem_map, Prod.exists, exists_and_right, exists_eq_right,
    session.oneEach.mem_leftovers, exists_eq_left', ne_eq, List.length_eq_zero_iff]
  rw [not_iff_not, hpushed]
  simp

theorem verified (session : Session past s) :
    (∀ service, given service past = pushed service past) ∧ s.verify = .ok () ∨
    (∃ service, given service past ≠ pushed service past) ∧ ∃ services : List ServiceId,
      services.Nodup ∧ (∀ service, service ∈ services ↔ given service past ≠ pushed service past) ∧
      s.verify = .error ("Not all probe expectations were met: " ++
        ", ".intercalate (services.map fun service =>
          let left := (pushed service past).length - (given service past).length
          s!"{service}: {left} probe(s)")) := by
  rcases State.verify_cases (s := s) with ⟨hnil, hok⟩ | ⟨hne, entries, hperm, herror⟩
  · refine .inl ⟨fun service => ?_, hok⟩
    by_contra hne
    have hmem := session.left_iff.2 hne
    rw [hnil] at hmem
    cases hmem
  · have hkeys := hperm.map Prod.fst
    obtain ⟨entry, hentry⟩ := List.exists_mem_of_ne_nil _ hne
    refine .inr ⟨⟨entry.1, session.left_iff.1 (List.mem_map_of_mem hentry)⟩, entries.map Prod.fst,
      hkeys.nodup_iff.2 session.oneEach.nodup_leftovers, fun service => ?_, ?_⟩
    · rw [hkeys.mem_iff, session.left_iff]
    · rw [herror, List.map_map]
      congr 3
      refine List.map_congr_left fun entry hentry => ?_
      have hleft := (session.mem_leftovers.1 (hperm.mem_iff.1 hentry)).1
      simp only [State.leftoverText, Function.comp_apply, ← hleft, Nat.add_sub_cancel]

/-- **Every scripted answer is given once, in order, and accounted for**, in every session. -/
theorem accounted_for (session : Session past s) : Accounted past s where
  answered later id now call delay work earlier h := by
    subst h
    exact session.answered
  replied id call reply he := session.answers he
  scripted := session.pushed_eq
  logged := by rw [State.calls, session.log_eq, List.filterMap_reverse]
  left service n := session.mem_leftovers
  verified := session.verified
  numbered := by rw [List.filterMap_reverse]; exact session.numbered
  separate past' s' session' service := session.same_of_deeds session' service

/-- A question is answered by the fallback before two answers are pushed, of which the next question takes
one. Meanwhile the start of another service fails, and the container of the first gets the number one. -/
theorem accounted_for_interleaved : ∃ past s, Session past s ∧ Accounted past s ∧
    pushed ⟨"db"⟩ past = [.errored "refused", .ready] ∧ given ⟨"db"⟩ past = [.errored "refused"] ∧
    s.leftovers = [(⟨"db"⟩, 1)] ∧ s.calls.map (·.answer) =
      [some .notReady, none, some (.errored "refused"), none] ∧
    past.filterMap Event.handle? = [⟨⟨"db"⟩, "mock-1"⟩] := by
  have session := Session.begin
    |>.command ⟨"db"⟩ .neverReady
    |>.take 0 0 (.probe ⟨⟨"db"⟩, "earlier"⟩) (by simp [Event.taken?])
    |>.command ⟨"db"⟩ (.expectProbes [.errored "refused"])
    |>.command ⟨"cache"⟩ (.failStart "no image")
    |>.take 1 5 (.start { id := ⟨"cache"⟩, image := "cache" } []) (by simp [Event.taken?])
    |>.command ⟨"db"⟩ .thenReady
    |>.take 2 5 (.probe ⟨⟨"db"⟩, "earlier"⟩) (by simp [Event.taken?])
    |>.take 3 7 (.start { id := ⟨"db"⟩, image := "db" } []) (by simp [Event.taken?])
    |>.finish (.tail _ (.tail _ (.tail _ (.head _)))) (by simp [Event.ended?])
    |>.finish (.tail _ (.head _)) (by simp [Event.ended?])
  exact ⟨_, _, session, session.accounted_for, rfl, rfl, rfl, rfl, rfl⟩

end Session

end Engine.Scripted

end Bringup
