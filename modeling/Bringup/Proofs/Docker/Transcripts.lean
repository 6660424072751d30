import Bringup.Proofs.Engine.Answering

/-!
# Transcripts of scripts

What a client issues for a call are the commands of a script, one after another, and what comes of them
says how the script goes on: a transcript leads from what was to do to what is left (`Unfolds`). Whatever
comes of the commands, and however far the client got, the transcript of a call has one of few forms.

* A stop is a `stop`, and an `rm` if the container has stopped (`unfolds_stop`). It is answered with success
  just if both were issued and succeeded (`unfolds_stopped`).
* A kill that is answered is a `kill` and an `rm -f` (`unfolds_killed`).
* A start that is answered is an `rm -f` of what had the name before, whatever came of that, and a `run`
  that decides the answer alone (`unfolds_started`).
-/

namespace Bringup.Docker

open Container (Handle)

/-- A command that was issued, and what came of it. -/
structure Issued where
  arguments : List String
  outcome : Outcome
  deriving DecidableEq, Repr

/-- The command did what it was to do. -/
def Outcome.Succeeds (outcome : Outcome) : Prop :=
  ∃ stdout stderr, outcome = .exited 0 stdout stderr

/-- The name that a `run` prints for the container that it runs. -/
def Issued.ran? : Issued → Option String
  | ⟨"run" :: _, .exited 0 stdout _⟩ => some (printed stdout)
  | _ => none

/-- The script, from where it is, goes through these commands to what is left of it. -/
inductive Unfolds {α : Type} (program : String) : Script α → List Issued → Script α → Prop where
  | refl (script : Script α) : Unfolds program script [] script
  | step {arguments : List String} {next : Except Container.Error String → Script α}
    {outcome : Outcome} {issued : List Issued} {rest : Script α}
    (h : Unfolds program (next (outcome.result ⟨program, arguments⟩)) issued rest) :
    Unfolds program (.run arguments next) (⟨arguments, outcome⟩ :: issued) rest

/-- What a client issues at once for a script: its first command, if it has one. -/
def Client.issue (client : Client) (machine : Machine) (s : machine.State) {α : Type} :
    Script α → List Issued
  | .done _ => []
  | .run arguments _ => [⟨arguments, (client.call machine s arguments).2.2⟩]

/-! ## What comes of a command -/

namespace Outcome

variable {command : Command} {outcome : Outcome}

theorem result_eq_ok {text : String} : outcome.result command = .ok text ↔
    ∃ stdout stderr, outcome = .exited 0 stdout stderr ∧ text = printed stdout := by
  unfold result
  split <;> simp_all [eq_comm]

/-- A command that did not do what it was to do failed, or there is no such program. -/
theorem result_eq_error {error : Container.Error} (h : outcome.result command = .error error) :
    ¬ outcome.Succeeds ∧ ((∃ message, error = .command message) ∧ outcome ≠ .notFound ∨
      (∃ message, error = .unavailable message) ∧ outcome = .notFound) := by
  unfold result at h
  unfold Succeeds
  split at h <;> simp_all [eq_comm]

theorem succeeds_of_result {text : String} (h : outcome.result command = .ok text) :
    outcome.Succeeds := by
  obtain ⟨stdout, stderr, rfl, -⟩ := result_eq_ok.1 h
  exact ⟨stdout, stderr, rfl⟩

end Outcome

/-! ## Transcripts -/

section

variable {α : Type} {program : String} {script middle rest : Script α} {issued more : List Issued}

theorem unfolds_done {a : α} (h : Unfolds program (.done a) issued rest) :
    issued = [] ∧ rest = .done a := by
  cases h
  exact ⟨rfl, rfl⟩

theorem unfolds_run {arguments : List String} {next : Except Container.Error String → Script α}
    (h : Unfolds program (.run arguments next) issued rest) :
    (issued = [] ∧ rest = .run arguments next) ∨
      ∃ outcome more, issued = ⟨arguments, outcome⟩ :: more ∧
        Unfolds program (next (outcome.result ⟨program, arguments⟩)) more rest := by
  cases h with
  | refl => exact .inl ⟨rfl, rfl⟩
  | step h => exact .inr ⟨_, _, rfl, h⟩

theorem Unfolds.trans (h : Unfolds program script issued middle) (h' : Unfolds program middle more rest) :
    Unfolds program script (issued ++ more) rest := by
  induction h with
  | refl => exact h'
  | step _ ih => exact .step (ih h')

/-- What is left of a script that ends ends in the same way. -/
theorem Unfolds.ends {P : α → Prop} {n : Nat} (h : Unfolds program script issued rest)
    (hn : script.Ends P n) : ∃ n, rest.Ends P n := by
  induction h generalizing n with
  | refl => exact ⟨n, hn⟩
  | step _ ih =>
      cases n with
      | zero => exact hn.elim
      | succ n => exact ih (hn _)

/-- What a client issues leads to what is left then. -/
theorem Client.unfolds_advance (client : Client) (machine : Machine) (s : machine.State)
    (script : Script α) : Unfolds client.program script (client.issue machine s script)
      (client.advance machine s script).2.2 := by
  cases script with
  | done a => exact .refl _
  | run arguments next => exact .step (.refl _)

end

/-! ## The scripts of an engine -/

variable {program project : String} {handle : Handle} {timeout : Duration} {service : Service}
  {volumes : List Volume} {issued : List Issued} {rest : Script Container.Reply}

theorem perform_stop : perform project (.stop handle timeout) =
    .run (stopArguments handle timeout) fun
      | .error error => .done (.stop (.error (.stop error.message)))
      | .ok _ => .run ["rm", handle.id] fun removed => .done (.stop (removed.map fun _ => ())) := by
  show Script.run _ _ = Script.run _ _
  congr
  funext stopped
  cases stopped <;> rfl

theorem perform_kill : perform project (.kill handle) =
    .run ["kill", handle.id] fun _ =>
      .run ["rm", "-f", handle.id] fun removed => .done (.kill (removed.map fun _ => ())) := rfl

/-- The error of a `run` as the error of the start. -/
def startError : Container.Error → Container.Error
  | .command message => .start message
  | error => error

theorem perform_start : perform project (.start service volumes) =
    .run ["rm", "-f", containerName project service.id] fun _ =>
      .run (runArguments project service volumes) fun
        | .ok id => .done (.start (.ok ⟨service.id, id⟩))
        | .error error => .done (.start (.error (startError error))) := by
  show Script.run _ _ = Script.run _ _
  congr
  funext stale
  show Script.run _ _ = Script.run _ _
  congr
  funext result
  rcases result with (_ | _ | _ | _) | _ <;> rfl

/-- Every call takes a command at least. -/
theorem issue_ne_nil (client : Client) (machine : Machine) (s : machine.State) (call : Container.Call) :
    client.issue machine s (perform client.project call) ≠ [] := by
  cases call <;> exact List.cons_ne_nil _ _

/-- What a call comes to is an answer of its kind. -/
theorem takes_of_unfolds {call : Container.Call} {reply : Container.Reply}
    (h : Unfolds program (perform project call) issued (.done reply)) : call.Takes reply := by
  obtain ⟨n, hn⟩ := h.ends (perform_ends project call)
  cases n <;> exact hn

/-! ## Halts -/

/-- However far a stop got, it issued a `stop`, and an `rm` if the container had stopped. -/
theorem unfolds_stop (h : Unfolds program (perform project (.stop handle timeout)) issued rest)
    (hissued : issued ≠ []) : ∃ o : Outcome, issued = [⟨stopArguments handle timeout, o⟩] ∨
      ∃ o' : Outcome, o.Succeeds ∧
        issued = [⟨stopArguments handle timeout, o⟩, ⟨["rm", handle.id], o'⟩] := by
  rw [perform_stop] at h
  obtain ⟨rfl, -⟩ | ⟨o, more, rfl, hstop⟩ := unfolds_run h
  · exact absurd rfl hissued
  refine ⟨o, ?_⟩
  split at hstop
  next =>
    obtain ⟨rfl, -⟩ := unfolds_done hstop
    exact .inl rfl
  next hstopped =>
    obtain ⟨rfl, -⟩ | ⟨o', more, rfl, hremove⟩ := unfolds_run hstop
    · exact .inl rfl
    · obtain ⟨rfl, -⟩ := unfolds_done hremove
      exact .inr ⟨o', Outcome.succeeds_of_result hstopped, rfl⟩

/-- **A stop that is answered** comes to what its commands came to. -/
theorem unfolds_stopped {result : Except Container.Error Unit}
    (h : Unfolds program (perform project (.stop handle timeout)) issued (.done (.stop result))) :
    ∃ o : Outcome, (¬ o.Succeeds ∧ (∃ error, result = .error error) ∧
        issued = [⟨stopArguments handle timeout, o⟩]) ∨
      ∃ o' : Outcome, o.Succeeds ∧ (o'.Succeeds ↔ result = .ok ()) ∧
        issued = [⟨stopArguments handle timeout, o⟩, ⟨["rm", handle.id], o'⟩] := by
  rw [perform_stop] at h
  obtain ⟨-, hno⟩ | ⟨o, more, rfl, hstop⟩ := unfolds_run h
  · cases hno
  refine ⟨o, ?_⟩
  split at hstop
  next hstopped =>
    obtain ⟨rfl, hdone⟩ := unfolds_done hstop
    cases hdone
    exact .inl ⟨(Outcome.result_eq_error hstopped).1, ⟨_, rfl⟩, rfl⟩
  next hstopped =>
    obtain ⟨-, hno⟩ | ⟨o', more, rfl, hremove⟩ := unfolds_run hstop
    · cases hno
    obtain ⟨rfl, hdone⟩ := unfolds_done hremove
    cases hdone
    refine .inr ⟨o', Outcome.succeeds_of_result hstopped, ?_, rfl⟩
    cases hremoved : o'.result ⟨program, ["rm", handle.id]⟩ with
    | ok text => exact iff_of_true (Outcome.succeeds_of_result hremoved) rfl
    | error error => exact iff_of_false (Outcome.result_eq_error hremoved).1 (by simp [Except.map])

/-- **A kill that is answered** has killed the container and removed it, as far as it could. -/
theorem unfolds_killed {reply : Container.Reply}
    (h : Unfolds program (perform project (.kill handle)) issued (.done reply)) :
    ∃ o o' : Outcome, issued = [⟨["kill", handle.id], o⟩, ⟨["rm", "-f", handle.id], o'⟩] := by
  rw [perform_kill] at h
  obtain ⟨-, hno⟩ | ⟨o, more, rfl, hkill⟩ := unfolds_run h
  · cases hno
  obtain ⟨-, hno⟩ | ⟨o', last, rfl, hremove⟩ := unfolds_run hkill
  · cases hno
  obtain ⟨rfl, -⟩ := unfolds_done hremove
  exact ⟨o, o', rfl⟩

/-! ## Starts -/

/-- What a start is answered is decided by what came of its `run`. -/
structure Decides (service : Service) (run : Outcome) (result : Except Container.Error Handle) :
    Prop where
  /-- The container is named by what was printed. -/
  runs : ∀ handle, result = .ok handle ↔
    ∃ stdout stderr, run = .exited 0 stdout stderr ∧ handle = ⟨service.id, printed stdout⟩
  unavailable : (∃ message, result = .error (.unavailable message)) ↔ run = .notFound
  fails : (∃ message, result = .error (.start message)) ↔ ¬ run.Succeeds ∧ run ≠ .notFound
  never : ∀ message, result ≠ .error (.command message) ∧ result ≠ .error (.stop message)

theorem decides_ok {run : Outcome} {id : String} (arguments : List String)
    (h : run.result ⟨program, arguments⟩ = .ok id) :
    Decides service run (.ok ⟨service.id, id⟩) := by
  obtain ⟨stdout, stderr, rfl, rfl⟩ := Outcome.result_eq_ok.1 h
  refine ⟨fun handle => ?_, by simp, ?_, by simp⟩
  · simp [eq_comm]
  · simp [Outcome.Succeeds]

theorem decides_error {run : Outcome} {error : Container.Error} (arguments : List String)
    (h : run.result ⟨program, arguments⟩ = .error error) :
    Decides service run (.error (startError error)) := by
  obtain ⟨hfails, ⟨⟨message, rfl⟩, hfound⟩ | ⟨⟨message, rfl⟩, rfl⟩⟩ := Outcome.result_eq_error h
  all_goals
    refine ⟨fun handle => iff_of_false (by simp) ?_, ?_, ?_, by simp [startError]⟩
    · exact fun ⟨stdout, stderr, he, _⟩ => hfails ⟨stdout, stderr, he⟩
  · simp [startError, hfound]
  · simp [startError, hfails, hfound]
  · simp [startError]
  · simp [startError]

/-- **A start that is answered** removed what had the name before, whatever came of that, and its answer
is decided by what came of its `run`. -/
theorem unfolds_started {reply : Container.Reply}
    (h : Unfolds program (perform project (.start service volumes)) issued (.done reply)) :
    ∃ (stale run : Outcome) (result : Except Container.Error Handle), reply = .start result ∧
      issued = [⟨["rm", "-f", containerName project service.id], stale⟩,
        ⟨runArguments project service volumes, run⟩] ∧ Decides service run result := by
  rw [perform_start] at h
  obtain ⟨-, hno⟩ | ⟨stale, more, rfl, hstale⟩ := unfolds_run h
  · cases hno
  obtain ⟨-, hno⟩ | ⟨run, last, rfl, hrun⟩ := unfolds_run hstale
  · cases hno
  split at hrun
  next hran =>
    obtain ⟨rfl, hdone⟩ := unfolds_done hrun
    cases hdone
    exact ⟨stale, run, _, rfl, rfl, decides_ok _ hran⟩
  next hran =>
    obtain ⟨rfl, hdone⟩ := unfolds_done hrun
    cases hdone
    exact ⟨stale, run, _, rfl, rfl, decides_error _ hran⟩

/-! ## Who runs containers -/

/-- All commands that a script can come to are of a kind. -/
def Script.Keeps {α : Type} (P : List String → Prop) : Script α → Prop
  | .done _ => True
  | .run arguments next => P arguments ∧ ∀ result, (next result).Keeps P

theorem Unfolds.keeps {α : Type} {P : List String → Prop} {script rest : Script α}
    (h : Unfolds program script issued rest) (hkeeps : script.Keeps P) :
    ∀ command ∈ issued, P command.arguments := by
  induction h with
  | refl => simp
  | step _ ih => exact List.forall_mem_cons.2 ⟨hkeeps.1, ih (hkeeps.2 _)⟩

/-- Nothing but a start issues a `run`. -/
theorem perform_keeps {call : Container.Call} (h : ∀ service volumes, call ≠ .start service volumes) :
    (perform project call).Keeps fun arguments => arguments.head? ≠ some "run" := by
  cases call with
  | start service volumes => exact absurd rfl (h service volumes)
  | stop handle timeout =>
      rw [perform_stop]
      refine ⟨by simp [stopArguments], fun stopped => ?_⟩
      cases stopped with
      | error => exact trivial
      | ok => exact ⟨by simp, fun _ => trivial⟩
  | kill handle => exact ⟨by simp, fun _ => ⟨by simp, fun _ => trivial⟩⟩
  | probe handle =>
      refine ⟨by simp [inspectArguments], fun status => ?_⟩
      cases status <;> exact trivial

theorem Issued.head?_of_ran {command : Issued} {id : String} (h : command.ran? = some id) :
    command.arguments.head? = some "run" ∧
      ∃ stdout stderr, command.outcome = .exited 0 stdout stderr ∧ id = printed stdout := by
  unfold ran? at h
  split at h
  next => exact ⟨rfl, _, _, rfl, (Option.some.inj h).symm⟩
  next => cases h

/-- **Only a start runs a container.** -/
theorem exists_start {call : Container.Call} (h : Unfolds program (perform project call) issued rest)
    {command : Issued} (hm : command ∈ issued) {id : String} (hran : command.ran? = some id) :
    ∃ service volumes, call = .start service volumes := by
  by_contra hno
  have hkeeps := h.keeps (perform_keeps fun service volumes he => hno ⟨service, volumes, he⟩)
  exact hkeeps command hm (Issued.head?_of_ran hran).1

end Bringup.Docker
