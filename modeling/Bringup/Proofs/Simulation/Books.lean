import Mathlib.Data.List.Forall2
import Bringup.Proofs.Docker.Transcripts
import Bringup.Proofs.Simulation.Termination

/-!
# Books of calls

Beside a run of a controller whose engine runs commands, a book is kept: of the calls that the engine
works on, of those that have ended and how, and of all commands in the order in which they were issued.
The book is kept by what can be seen: an effect of the controller opens a task or ends it, an answer ends
it, and whenever the engine goes on the next command is written down (`Book.after`).
-/

namespace Bringup.Simulation

open Lifecycle
open Docker (Issued Machine Script Unfolds perform)

variable {t : Topology} {client : Docker.Client} {machine : Machine}

/-- What an engine of commands has left to do of a call. -/
abbrev Pending := Ongoing (Script Container.Reply)

/-- A call that a job has made, and the commands issued for it so far. -/
structure Task where
  job : JobId
  call : Container.Call
  issued : List Issued

/-- How a call ends. -/
inductive Ending where
  | answered (reply : Container.Reply)
  /-- The job left it. -/
  | withdrawn

/-- A call that has ended. -/
structure Ended where
  task : Task
  ending : Ending

/-- A command with the call that it was issued for. -/
structure Line where
  call : Container.Call
  command : Issued

/-- The commands of a task. -/
def Task.lines (task : Task) : List Line := task.issued.map fun command => ⟨task.call, command⟩

/-- What is written down of a run, the oldest first. -/
structure Book where
  /-- The calls that the engine works on. -/
  tasks : List Task := []
  ended : List Ended := []
  log : List Line := []

/-! ## Keeping a book -/

/-- What the engine works on. -/
def Setting.scripts (x : Setting (client.engine machine) t) : List Pending :=
  x.ongoing

/-- What the engine calls commands on. -/
def Setting.host (x : Setting (client.engine machine) t) : machine.State := x.engine

namespace Book

variable (b : Book) (job : JobId)

/-- What is done for a job. -/
def own : List Task := b.tasks.filter fun task => task.job = job

/-- What is done for other jobs. -/
def others : List Task := b.tasks.filter fun task => task.job ≠ job

/-- What is done for a job ends. -/
def close (ending : Ending) : Book :=
  { b with
    tasks := b.others job
    ended := b.ended ++ (b.own job).map fun task => ⟨task, ending⟩ }

/-- A job makes a call, for which commands are issued at once. It leaves what it called before. -/
def take (call : Container.Call) (issued : List Issued) : Book :=
  let b := b.close job .withdrawn
  { b with
    tasks := b.tasks ++ [⟨job, call, issued⟩]
    log := b.log ++ (Task.lines ⟨job, call, issued⟩) }

/-- More commands are issued for a job. -/
def issue (issued : List Issued) : Book :=
  { b with
    tasks := b.others job ++ (b.own job).map fun task => { task with issued := task.issued ++ issued }
    log := b.log ++ (b.own job).flatMap fun task => Task.lines { task with issued } }

/-- The controller takes an answer. -/
def answer : Action → Book
  | .answer job (.container reply) => b.close job (.answered reply)
  | _ => b

/-- The engine hears what the controller shows. -/
def hear (client : Docker.Client) (machine : Machine) (s : machine.State) (b : Book) : List Effect → Book
  | [] => b
  | .asks job (.container call) :: effects =>
    let script := perform client.project call
    hear client machine (client.advance machine s script).1
      (b.take job call (client.issue machine s script)) effects
  | .withdraws job :: effects => hear client machine s (b.close job .withdrawn) effects
  | _ :: effects => hear client machine s b effects

/-- The book after something that happened. -/
def after (x : Setting (client.engine machine) t) : Event → List (Moment t) → Book
  | .resume _ job, [] =>
    match x.scripts.find? fun call => call.job = job with
    | some call => b.issue job (client.issue machine x.host call.work)
    | none => b
  | _, [m] => (b.answer m.action).hear client machine x.host m.effects
  | _, _ => b

end Book

/-- A run between two settings with the book kept of it. -/
inductive Setting.Recorded (start : Setting (client.engine machine) t) :
    List (Moment t) → Book → Setting (client.engine machine) t → Prop where
  | begin : Recorded start [] {} start
  | next {past moments : List (Moment t)} {b : Book} {x y : Setting (client.engine machine) t}
    {event : Event} (record : Recorded start past b x) (h : Setting.Moves x event moments y) :
    Recorded start (moments ++ past) (b.after x event moments) y

/-! ## The book and the engine -/

/-- The engine has issued the commands of the task and has the rest of its script left to do. -/
structure Task.Stands (client : Docker.Client) (task : Task) (call : Pending) :
    Prop where
  job : task.job = call.job
  issued : task.issued ≠ []
  unfolds : Unfolds client.program (perform client.project task.call) task.issued call.work

/-- The task ended with the commands that it had issued, or at the end of its script. -/
structure Ended.Sound (client : Docker.Client) (e : Ended) : Prop where
  issued : e.task.issued ≠ []
  unfolds : ∃ rest, Unfolds client.program (perform client.project e.task.call) e.task.issued rest ∧
    ∀ reply, e.ending = .answered reply → rest = .done reply

/-- The book tells of just what the engine works on and has worked on. -/
structure Book.Faithful (client : Docker.Client) (b : Book) (ongoing : List Pending) :
    Prop where
  /-- Nothing is done for a job but its last call. -/
  sole : (b.tasks.map Task.job).Nodup
  tasks : List.Forall₂ (Task.Stands client) b.tasks ongoing
  ended : ∀ e ∈ b.ended, e.Sound client
  log : b.log.Perm (b.ended.flatMap (fun e => e.task.lines) ++ b.tasks.flatMap Task.lines)

namespace Book

variable {b : Book} {ongoing : List Pending} {job : JobId} {n : Nat}

theorem own_append_others (b : Book) (job : JobId) : (b.own job ++ b.others job).Perm b.tasks := by
  simpa [own, others] using List.filter_append_perm (fun task : Task => task.job = job) b.tasks

theorem mem_own {task : Task} : task ∈ b.own job ↔ task ∈ b.tasks ∧ task.job = job := by
  simp [own]

theorem mem_others {task : Task} : task ∈ b.others job ↔ task ∈ b.tasks ∧ task.job ≠ job := by
  simp [others]

namespace Faithful

/-- **What the engine works on for a job** is the one task that the book has for it. -/
theorem own (h : b.Faithful client ongoing) {call : Pending}
    (hcall : ongoing.find? (fun call => call.job = job) = some call) :
    ∃ task, b.own job = [task] ∧ task.Stands client call := by
  have hstands : List.Forall₂ (Task.Stands client) (b.own job)
      (ongoing.filter fun call => call.job = job) :=
    List.rel_filter (fun _ _ hstands => by simp [hstands.job]) h.tasks
  rw [← List.head?_filter] at hcall
  obtain ⟨rest, hrest⟩ := List.head?_eq_some_iff.1 hcall
  rw [hrest] at hstands
  obtain ⟨task, tasks, htask, -, hown⟩ := List.forall₂_cons_right_iff.1 hstands
  refine ⟨task, ?_, htask⟩
  -- A second task would be one for the same job.
  have hsole : ((b.own job).map Task.job).Nodup := h.sole.sublist (List.filter_sublist.map _)
  rw [hown] at hsole ⊢
  cases tasks with
  | nil => rfl
  | cons other tasks =>
      have hjob (task : Task) (hm : task ∈ b.own job) : task.job = job := (mem_own.1 hm).2
      refine absurd ?_ (List.nodup_cons.1 hsole).1
      rw [hjob task (by simp [hown])]
      exact List.mem_map.2 ⟨other, List.mem_cons_self, hjob other (by simp [hown])⟩

theorem others (h : b.Faithful client ongoing) (job : JobId) : List.Forall₂ (Task.Stands client)
    (b.others job) (ongoing.filter fun call => call.job ≠ job) :=
  List.rel_filter (fun _ _ hstands => by simp [hstands.job]) h.tasks

theorem sole_others (h : b.Faithful client ongoing) (job : JobId) :
    ((b.others job).map Task.job).Nodup := h.sole.sublist (List.filter_sublist.map _)

theorem sole_append (h : b.Faithful client ongoing) {task : Task} (hjob : task.job = job) :
    ((b.others job ++ [task]).map Task.job).Nodup := by
  rw [List.map_append, List.map_singleton]
  refine List.nodup_append'.2 ⟨h.sole_others job, List.nodup_singleton _, ?_⟩
  rw [List.disjoint_singleton, List.mem_map]
  rintro ⟨other, hm, he⟩
  exact (mem_others.1 hm).2 (he.trans hjob)

/-- What ends leaves the book as faithful as it was, if it ends as the engine has it. -/
theorem close (h : b.Faithful client ongoing) {ending : Ending}
    (hsound : ∀ task ∈ b.own job, (⟨task, ending⟩ : Ended).Sound client) :
    (b.close job ending).Faithful client (ongoing.filter fun call => call.job ≠ job) where
  sole := h.sole_others job
  tasks := h.others job
  ended e hm := by
    rcases List.mem_append.1 hm with hm | hm
    · exact h.ended e hm
    · obtain ⟨task, htask, rfl⟩ := List.mem_map.1 hm
      exact hsound task htask
  log := by
    refine h.log.trans ?_
    simp only [Book.close, List.flatMap_append, List.flatMap_map, List.append_assoc]
    refine .append_left _ ?_
    rw [← List.flatMap_append]
    exact (b.own_append_others job).symm.flatMap_right _

/-- A job leaves what it called. -/
theorem withdraw (h : b.Faithful client ongoing) (job : JobId) :
    (b.close job .withdrawn).Faithful client (ongoing.filter fun call => call.job ≠ job) := by
  have hsound : ∀ task ∈ b.tasks, (⟨task, .withdrawn⟩ : Ended).Sound client :=
    ((List.forall₂_and_left _ _).1 (h.tasks.imp fun _ call hstands =>
      ⟨⟨hstands.issued, call.work, hstands.unfolds, fun _ he => by cases he⟩, hstands⟩)).1
  exact h.close fun task hm => hsound task (mem_own.1 hm).1

/-- The engine answers what has come to its end. -/
theorem answer (h : b.Faithful client ongoing) {call : Pending}
    (hcall : ongoing.find? (fun call => call.job = job) = some call) {reply : Container.Reply}
    (hdone : call.work = .done reply) :
    (b.close job (.answered reply)).Faithful client (ongoing.filter fun call => call.job ≠ job) := by
  obtain ⟨task, hown, hstands⟩ := h.own hcall
  refine h.close fun other hm => ?_
  obtain rfl : other = task := by simpa [hown] using hm
  refine ⟨hstands.issued, call.work, hstands.unfolds, fun reply' he => ?_⟩
  obtain rfl := Ending.answered.inj he
  exact hdone

/-- The engine takes up a call. -/
theorem take (h : b.Faithful client ongoing) (job : JobId) (call : Container.Call)
    (s : machine.State) (due : Nat) :
    (b.take job call (client.issue machine s (perform client.project call))).Faithful client
      (ongoing.filter (fun call => call.job ≠ job) ++
        [⟨job, due, (client.advance machine s (perform client.project call)).2.2⟩]) := by
  have hclose := h.withdraw job
  refine ⟨h.sole_append rfl, ?_, hclose.ended, ?_⟩
  · exact List.rel_append hclose.tasks (.cons
      ⟨rfl, Docker.issue_ne_nil _ _ _ _, client.unfolds_advance machine s _⟩ .nil)
  · simp only [Book.take, List.flatMap_append, List.flatMap_singleton, ← List.append_assoc]
    exact hclose.log.append_right _

/-- The engine goes on with a call. -/
theorem issue (h : b.Faithful client ongoing) {call : Pending}
    (hcall : ongoing.find? (fun call => call.job = job) = some call) (s : machine.State) (due : Nat) :
    (b.issue job (client.issue machine s call.work)).Faithful client
      (ongoing.filter (fun call => call.job ≠ job) ++
        [⟨job, due, (client.advance machine s call.work).2.2⟩]) := by
  obtain ⟨task, hown, hstands⟩ := h.own hcall
  have hjob : task.job = job := (mem_own.1 (hown ▸ List.mem_singleton_self task)).2
  refine ⟨?_, ?_, h.ended, ?_⟩
  · rw [Book.issue, hown]
    exact h.sole_append hjob
  · rw [Book.issue, hown]
    refine List.rel_append (h.others job) (.cons ⟨hjob, ?_, ?_⟩ .nil)
    · exact List.append_ne_nil_of_left_ne_nil hstands.issued _
    · exact hstands.unfolds.trans (client.unfolds_advance machine s call.work)
  · have htasks : (b.tasks.flatMap Task.lines).Perm ((b.others job).flatMap Task.lines ++ task.lines) := by
      have hperm := (b.own_append_others job).symm.flatMap_right Task.lines
      rw [hown, List.singleton_append, List.flatMap_cons] at hperm
      exact hperm.trans List.perm_append_comm
    have hlog := (h.log.trans (htasks.append_left _)).append_right
      (Task.lines { task with issued := client.issue machine s call.work })
    simpa only [Book.issue, hown, List.flatMap_append, List.map_singleton, List.flatMap_singleton,
      Task.lines, List.map_append, List.append_assoc] using hlog

end Faithful

/-! ## The book and the moves -/

theorem others_close (b : Book) (job : JobId) (ending : Ending) :
    (b.close job ending).others job = b.others job := by
  simp [close, others]

theorem own_close (b : Book) (job : JobId) (ending : Ending) : (b.close job ending).own job = [] := by
  simp [close, own, others]

/-- A job that has left what it called leaves nothing more. -/
theorem close_close (b : Book) (job : JobId) (ending ending' : Ending) :
    (b.close job ending).close job ending' = b.close job ending := by
  rw [close, own_close, others_close]
  simp [close]

theorem answer_of_ne {action : Action} (h : ∀ job reply, action ≠ .answer job (.container reply)) :
    b.answer action = b := by
  unfold answer
  split
  next job reply => exact absurd rfl (h job reply)
  next => rfl

theorem hear_asks (s : machine.State) {before : List Effect} (call : Container.Call)
    (hb : before = [] ∨ before = [.withdraws job]) :
    b.hear client machine s (before ++ [.asks job (.container call)]) =
      b.take job call (client.issue machine s (perform client.project call)) := by
  rcases hb with rfl | rfl
  · rfl
  · show (b.close job .withdrawn).take job call _ = _
    rw [take, take, close_close]

theorem hear_leaves (s : machine.State) {effects : List Effect}
    (ha : ∀ asker call, .asks asker (.container call) ∉ effects)
    (hw : ∀ asker, .withdraws asker ∉ effects) : b.hear client machine s effects = b := by
  induction effects with
  | nil => rfl
  | cons effect rest ih =>
      have hrest := ih (fun asker call hm => ha asker call (.tail _ hm))
        fun asker hm => hw asker (.tail _ hm)
      cases effect with
      | asks job request =>
          cases request with
          | container call => exact absurd List.mem_cons_self (ha job call)
          | volume => exact hrest
      | withdraws job => exact absurd List.mem_cons_self (hw job)
      | refusedMove => exact hrest

/-- What the controller takes is the end of a task, or nothing that the book is about. -/
inductive Answers (b : Book) (ongoing : List Pending) (action : Action) :
    Book → List Pending → Prop where
  | nothing (h : ∀ job reply, action ≠ .answer job (.container reply)) :
    Answers b ongoing action b ongoing
  | reply {job : JobId} {reply : Container.Reply} {call : Pending}
    (ha : action = .answer job (.container reply))
    (hcall : ongoing.find? (fun call => call.job = job) = some call) (hdone : call.work = .done reply) :
    Answers b ongoing action (b.close job (.answered reply))
      (ongoing.filter fun call => call.job ≠ job)

/-- What a job makes of the book and of what the engine works on, with the effects of its turn. -/
inductive Hears (client : Docker.Client) (machine : Machine) (id : JobId) (action : Action)
    (old new : Job n) (effects : List Effect) (b : Book)
    (ongoing : List Pending) :
    Book → List Pending → Prop where
  | takes {call : Container.Call} {before : List Effect} (s : machine.State) (due : Nat)
    (hb : before = [] ∨ before = [.withdraws id])
    (he : effects = before ++ [.asks id (.container call)]) (hn : new.Expects call) :
    Hears client machine id action old new effects b ongoing
      (b.take id call (client.issue machine s (perform client.project call)))
      (ongoing.filter (fun call => call.job ≠ id) ++
        [⟨id, due, (client.advance machine s (perform client.project call)).2.2⟩])
  | withdraws (he : effects = [.withdraws id]) (hn : ∀ call, ¬ new.Expects call) :
    Hears client machine id action old new effects b ongoing (b.close id .withdrawn)
      (ongoing.filter fun call => call.job ≠ id)
  | leaves (ha : ∀ asker call, .asks asker (.container call) ∉ effects)
    (hn : ∀ call, ¬ new.Expects call)
    (ho : (∀ call, ¬ old.Expects call) ∨ ∃ reply, action = .answer id (.container reply)) :
    Hears client machine id action old new effects b ongoing b ongoing

/-- **What a move makes of the book**, beside what it makes of the controller. -/
inductive Change (x : Setting (client.engine machine) t) (b : Book)
    (y : Setting (client.engine machine) t) : List (Moment t) → Book → Prop where
  /-- No job has a turn. -/
  | rests {moments : List (Moment t)} (hm : ∀ m ∈ moments, m.action.job? = none ∧ m.effects = [])
    (hkept : ∀ {id : Nat} {job : Job t.size},
      x.controller.jobs[id]? = some job → y.controller.jobs[id]? = some job)
    (hnew : ∀ {id : Nat} {job : Job t.size},
      y.controller.jobs[id]? = some job → x.controller.jobs[id]? = some job ∨ Idles job)
    (ho : y.scripts = x.scripts) : Change x b y moments b
  /-- The engine goes on with a call. -/
  | works {job : JobId} {call : Pending} {due : Nat}
    (hcall : x.scripts.find? (fun call => call.job = job) = some call)
    (hc : y.controller = x.controller)
    (ho : y.scripts = x.scripts.filter (fun call => call.job ≠ job) ++
      [⟨job, due, (client.advance machine x.host call.work).2.2⟩]) :
    Change x b y [] (b.issue job (client.issue machine x.host call.work))
  /-- A job has a turn. -/
  | turns {id : JobId} {old new : Job t.size} {action : Action} {slot : Slot} {aside : Aside}
    {effects : List Effect} {b₀ b' : Book} {ongoing : List Pending}
    (ha : action.job? = some id) (hj : x.controller.jobs[id]? = some old)
    (turn : Turn x.controller x.now id old action new slot aside effects)
    (hc : y.controller = x.controller.after id new old.service slot aside)
    (hanswers : Answers b x.scripts action b₀ ongoing)
    (hhears : Hears client machine id action old new effects b₀ ongoing b' y.scripts) :
    Change x b y [x.moment action effects y.controller] b'

variable {x y : Setting (client.engine machine) t} {b₀ b' : Book} {moments : List (Moment t)}
  {event : Event} {action : Action} {effects : List Effect} {c : Controller t}

/-- What the turn of a job makes of a book. -/
theorem hears_of_turn {now : Nat} {id : JobId} {old new : Job t.size} {slot : Slot} {aside : Aside}
    (turn : Turn c now id old action new slot aside effects) (b : Book)
    (x : Setting (client.engine machine) t) (d : Controller t) :
    Hears client machine id action old new effects b x.scripts
      (b.hear client machine x.host effects) (x.after d effects).scripts := by
  cases turn.asking with
  | @asks call before hb he hn =>
      subst he
      have hscripts : (x.after d (before ++ [.asks id (.container call)])).scripts = _ :=
        x.ongoing_after_asks d hb
      rw [hear_asks _ _ hb, hscripts]
      exact .takes x.host _ hb rfl hn
  | withdraws he hn =>
      subst he
      exact .withdraws rfl hn
  | leaves ha hw hn ho =>
      have hscripts : (x.after d effects).scripts = x.scripts := (x.ongoing_after_leaves d ha hw).1
      rw [hear_leaves _ ha hw, hscripts]
      exact .leaves ha hn ho

/-- A step of the controller, with what it takes, and what the engine works on besides. -/
theorem change_of_step (x₀ : Setting (client.engine machine) t) (b₀ : Book)
    (hs : x.controller.step x.now action = some (c, effects)) (hhost : x₀.host = x.host)
    (hanswers : Answers b x.scripts action b₀ x₀.scripts) :
    Change x b (x₀.after c effects) [x.moment action effects c]
      (b₀.hear client machine x.host effects) := by
  cases ha : action.job? with
  | none =>
      obtain ⟨changes, rfl⟩ := Controller.changesTo_of_step ha hs
      have hkept {id : Nat} {job : Job t.size} (hj : x.controller.jobs[id]? = some job) :
          c.jobs[id]? = some job :=
        changes.induct (P := fun c => c.jobs[id]? = some job)
          (fun hc change => change.sets.jobs_kept hc) hj
      have hnew : ∀ {id : Nat} {job : Job t.size}, c.jobs[id]? = some job →
          x.controller.jobs[id]? = some job ∨ Idles job :=
        changes.induct (P := fun c => ∀ {id : Nat} {job : Job t.size}, c.jobs[id]? = some job →
            x.controller.jobs[id]? = some job ∨ Idles job)
          (fun hc change _ _ hj => (idles_of_sets change.sets hj).elim hc .inr) .inl
      generalize hscripts : x₀.scripts = scripts at hanswers
      cases hanswers with
      | nothing => exact .rests (by simpa using ⟨ha, rfl⟩) hkept hnew hscripts
      | reply he => subst he; cases ha
  | some id =>
      obtain ⟨old, new, slot, aside, hj, turn, rfl⟩ := Controller.turnsTo_of_step ha hs
      have hhears := hears_of_turn turn b₀ x₀ (x.controller.after id new old.service slot aside)
      rw [hhost] at hhears
      have hchange := Change.turns ha hj turn (Setting.controller_after _ _) hanswers hhears
      rwa [Setting.controller_after] at hchange

/-- The engine goes on with a script, or it is at its end. -/
theorem resume_cases {s s' : machine.State} {script : Script Container.Reply}
    {next : Engine.Next (Script Container.Reply)}
    (h : (client.engine machine).resume s script = (s', next)) :
    (∃ reply, script = .done reply ∧ s' = s ∧ next = .answer reply) ∨
      ∃ millis, next = .wait millis (client.advance machine s script).2.2 := by
  cases script with
  | done reply =>
      obtain ⟨rfl, rfl⟩ := Prod.mk.inj h
      exact .inl ⟨reply, rfl, rfl, rfl⟩
  | run arguments rest =>
      obtain ⟨rfl, rfl⟩ := Prod.mk.inj h
      exact .inr ⟨_, rfl⟩

/-- **What a move makes of the book** is told by `Change`. -/
theorem change_of_moves (h : Setting.Moves x event moments y) (b : Book) :
    Change x b y moments (b.after x event moments) := by
  cases h with
  | @act action c effects hs ha =>
      have hne : ∀ job reply, action ≠ .answer job (.container reply) := fun job reply => ha job _
      exact change_of_step x (b.answer action) hs rfl
        (answer_of_ne hne ▸ .nothing hne)
  | @ring alarm c effects hm hd hk hs =>
      exact change_of_step { x with alarms := x.alarms.erase alarm } b hs rfl
        (.nothing (by simp))
  | @reply job call engine reply c effects hm hd he hs =>
      obtain ⟨reply', hdone, rfl, hnext⟩ | ⟨millis, hnext⟩ := resume_cases he
      · obtain rfl := Engine.Next.answer.inj hnext
        exact change_of_step { x with ongoing := x.others job } (b.close job (.answered reply)) hs rfl
          (.reply rfl hm hdone)
      · cases hnext
  | @work job call engine millis work hm hd he =>
      obtain ⟨reply, hdone, rfl, hnext⟩ | ⟨millis', hnext⟩ := resume_cases he
      · cases hnext
      · obtain ⟨-, rfl⟩ := Engine.Next.wait.inj hnext
        have hbook : b.after x (.resume 0 job) [] =
            b.issue job (client.issue machine x.host call.work) := by
          have hfind : x.scripts.find? (fun call => call.job = job) = some call := hm
          simp only [after, hfind]
        rw [hbook]
        exact .works hm rfl rfl
  | serve hs => exact .rests (by simp) id .inl rfl
  | @deliver place job result c effects ha hs =>
      exact change_of_step
        { x with store := { x.store with answers := x.store.answers.eraseIdx place } } b hs rfl
        (.nothing (by simp))
  | hand ha => exact .rests (by simp) id .inl rfl
  | pass h => exact .rests (by simp) id .inl rfl

end Book

/-! ## The book and the controller -/

/-- The answer of the engine that the controller takes, and the job that waits for it. -/
def reply? : Action → Option (JobId × Container.Reply)
  | .answer job (.container reply) => some (job, reply)
  | _ => none

/-- What the task was answered, if it was. -/
def Ended.reply? (e : Ended) : Option (JobId × Container.Reply) :=
  match e.ending with
  | .answered reply => some (e.task.job, reply)
  | .withdrawn => none

/-- Whoever waits for a container does nothing until it is there. -/
theorem effects_of_starting {c : Controller t} {now : Nat} {id : JobId} {old new : Job t.size}
    {action : Action} {slot : Slot} {aside : Aside} {effects : List Effect}
    (turn : Turn c now id old action new slot aside effects) {service : Service}
    {volumes : List Volume} (h : old.Expects (.start service volumes)) : effects = [] := by
  cases turn with
  | @start job _ _ _ _ _ turn =>
      obtain ⟨s, run, claimed, phase⟩ := job
      rcases phase with _ | _ | _ | _ | _ | _ | _ | _ | ⟨handle, halt⟩ | _ | _ | _ | _ | _
      case discarding => cases halt <;> exact h.elim
      case probing => cases h
      all_goals exact h.elim
  | @stop job _ _ _ _ turn =>
      obtain ⟨s, phase⟩ := job
      rcases phase with _ | _ | ⟨handle, halt⟩ | _ | _ | _
      case halting => cases halt <;> exact h.elim
      all_goals exact h.elim
  | @launch l _ _ _ turn =>
      obtain ⟨s, orphaned, phase⟩ := l
      rcases phase with _ | _ | _ | ⟨handle, halt⟩ | _
      case running => cases turn <;> first | rfl | contradiction
      case halting => cases halt <;> exact h.elim
      all_goals exact h.elim

/-- **What the book has to do with the run.** -/
structure Book.Tells (past : List (Moment t)) (b : Book) (x : Setting (client.engine machine) t) :
    Prop where
  faithful : b.Faithful client x.scripts
  /-- The tasks are what the jobs wait for. -/
  expected : ∀ task ∈ b.tasks, ∃ job, x.controller.jobs[task.job]? = some job ∧ job.Expects task.call
  engaged : ∀ {id : Nat} {job : Job t.size} {call : Container.Call},
    x.controller.jobs[id]? = some job → job.Expects call → ∃ task ∈ b.tasks, task.job = id
  /-- They are what was asked for. -/
  asked : ∀ task, task ∈ b.tasks ∨ task ∈ b.ended.map Ended.task →
    ∃ m ∈ past, .asks task.job (.container task.call) ∈ m.effects
  /-- What they were answered is what the controller took, in this order. -/
  replies : b.ended.filterMap Ended.reply? = (past.filterMap fun m => reply? m.action).reverse
  /-- Nobody leaves a container that is on its way. -/
  starts : ∀ e ∈ b.ended, e.ending = .withdrawn →
    ∀ service volumes, e.task.call ≠ .start service volumes

namespace Book

section

variable {b b₀ b' : Book} {ongoing ongoing' : List Pending} {id : JobId}
  {n : Nat} {old new : Job n} {action : Action} {effects : List Effect} {task : Task}

theorem Answers.faithful (h : Answers b ongoing action b₀ ongoing') (hb : b.Faithful client ongoing) :
    b₀.Faithful client ongoing' := by
  cases h with
  | nothing => exact hb
  | reply _ hcall hdone => exact hb.answer hcall hdone

/-- The tasks that are left are those of jobs that are not answered. -/
theorem Answers.mem_tasks (h : Answers b ongoing action b₀ ongoing') : task ∈ b₀.tasks ↔
    task ∈ b.tasks ∧ ∀ reply, action ≠ .answer task.job (.container reply) := by
  cases h with
  | nothing h => exact (and_iff_left (h task.job)).symm
  | reply ha =>
      subst ha
      refine mem_others.trans (and_congr_right fun _ => ?_)
      simp [eq_comm]

/-- What is answered was a task, and is answered what the controller takes. -/
theorem Answers.ended (h : Answers b ongoing action b₀ ongoing') (hb : b.Faithful client ongoing) :
    ∃ more, b₀.ended = b.ended ++ more ∧ more.filterMap Ended.reply? = (reply? action).toList ∧
      ∀ e ∈ more, e.task ∈ b.tasks ∧ e.ending ≠ .withdrawn := by
  cases h with
  | nothing h =>
      refine ⟨[], (List.append_nil _).symm, ?_, by simp⟩
      unfold Simulation.reply?
      split
      next job reply => exact absurd rfl (h job reply)
      next => rfl
  | @reply job reply call ha hcall hdone =>
      obtain ⟨task, hown, -⟩ := hb.own hcall
      obtain ⟨hm, hjob⟩ := mem_own.1 (hown ▸ List.mem_singleton_self task)
      refine ⟨_, rfl, ?_, ?_⟩
      · simp [hown, ha, Ended.reply?, Simulation.reply?, hjob]
      · simp [hown, hm]

theorem Hears.faithful (h : Hears client machine id action old new effects b ongoing b' ongoing')
    (hb : b.Faithful client ongoing) : b'.Faithful client ongoing' := by
  cases h with
  | takes s due => exact hb.take id _ s due
  | withdraws => exact hb.withdraw id
  | leaves => exact hb

/-- What is done for other jobs goes on. -/
theorem Hears.mem_others (h : Hears client machine id action old new effects b ongoing b' ongoing')
    (hne : task.job ≠ id) : task ∈ b'.tasks ↔ task ∈ b.tasks := by
  have hothers : task ∈ b.others id ↔ task ∈ b.tasks := Book.mem_others.trans (and_iff_left hne)
  cases h with
  | takes =>
      refine List.mem_append.trans ((or_iff_left ?_).trans hothers)
      rintro hm
      exact hne (List.mem_singleton.1 hm ▸ rfl)
  | withdraws => exact hothers
  | leaves => exact Iff.rfl

/-- What is done for the job is what it asks for, unless it has nothing to leave. -/
theorem Hears.own (h : Hears client machine id action old new effects b ongoing b' ongoing')
    (hm : task ∈ b'.tasks) (hjob : task.job = id) :
    (new.Expects task.call ∧ .asks id (.container task.call) ∈ effects) ∨
      task ∈ b.tasks ∧
        ((∀ call, ¬ old.Expects call) ∨ ∃ reply, action = .answer id (.container reply)) := by
  cases h with
  | takes _ _ _ he hn =>
      rcases List.mem_append.1 hm with hm | hm
      · exact absurd hjob (Book.mem_others.1 hm).2
      · obtain rfl := List.mem_singleton.1 hm
        exact .inl ⟨hn, he ▸ List.mem_append_right _ (List.mem_singleton_self _)⟩
  | withdraws => exact absurd hjob (Book.mem_others.1 hm).2
  | leaves _ _ ho => exact .inr ⟨hm, ho⟩

theorem Hears.engaged (h : Hears client machine id action old new effects b ongoing b' ongoing')
    {call : Container.Call} (hexpects : new.Expects call) : ∃ task ∈ b'.tasks, task.job = id := by
  cases h with
  | takes => exact ⟨_, List.mem_append_right _ (List.mem_singleton_self _), rfl⟩
  | withdraws _ hn | leaves _ hn => exact absurd hexpects (hn call)

/-- What ends without an answer the job leaves, and says so. -/
theorem Hears.ended (h : Hears client machine id action old new effects b ongoing b' ongoing') :
    ∃ more, b'.ended = b.ended ++ more ∧
      ∀ e ∈ more, e.task ∈ b.own id ∧ e.ending = .withdrawn ∧ effects ≠ [] := by
  cases h with
  | takes _ _ _ he => exact ⟨_, rfl, by simp [he]⟩
  | withdraws he => exact ⟨_, rfl, by simp [he]⟩
  | leaves => exact ⟨[], (List.append_nil _).symm, by simp⟩

end

section

variable {past moments : List (Moment t)} {b b' : Book} {x y : Setting (client.engine machine) t}

/-- Where no job has a turn, the book has to do with the run what it had to do with it before. -/
theorem Tells.rests (h : b.Tells past x) (hm : ∀ m ∈ moments, m.action.job? = none ∧ m.effects = [])
    (hkept : ∀ {id : Nat} {job : Job t.size},
      x.controller.jobs[id]? = some job → y.controller.jobs[id]? = some job)
    (hnew : ∀ {id : Nat} {job : Job t.size},
      y.controller.jobs[id]? = some job → x.controller.jobs[id]? = some job ∨ Idles job)
    (ho : y.scripts = x.scripts) : b.Tells (moments ++ past) y where
  faithful := ho ▸ h.faithful
  expected task hm := by
    obtain ⟨job, hj, hexpects⟩ := h.expected task hm
    exact ⟨job, hkept hj, hexpects⟩
  engaged hj hexpects := by
    rcases hnew hj with hj | hidles
    · exact h.engaged hj hexpects
    · exact absurd hexpects (hidles.expects _)
  asked task hm := by
    obtain ⟨m, hm, hasks⟩ := h.asked task hm
    exact ⟨m, List.mem_append_right _ hm, hasks⟩
  replies := by
    have hnone : moments.filterMap (fun m => reply? m.action) = [] := by
      refine List.filterMap_eq_nil_iff.2 fun m hmem => ?_
      have hjob := (hm m hmem).1
      unfold reply?
      split
      next he => rw [he] at hjob; cases hjob
      next => rfl
    rw [List.filterMap_append, hnone, List.nil_append, h.replies]
  starts := h.starts

/-- The engine goes on with a call. -/
theorem Tells.works (h : b.Tells past x) {job : JobId} {call : Pending}
    {due : Nat} (hcall : x.scripts.find? (fun call => call.job = job) = some call)
    (hc : y.controller = x.controller)
    (ho : y.scripts = x.scripts.filter (fun call => call.job ≠ job) ++
      [⟨job, due, (client.advance machine x.host call.work).2.2⟩]) :
    (b.issue job (client.issue machine x.host call.work)).Tells past y := by
  have hsame {task : Task} (hm : task ∈ (b.issue job (client.issue machine x.host call.work)).tasks) :
      ∃ before ∈ b.tasks, before.job = task.job ∧ before.call = task.call := by
    rcases List.mem_append.1 hm with hm | hm
    · exact ⟨task, (mem_others.1 hm).1, rfl, rfl⟩
    · obtain ⟨before, hbefore, rfl⟩ := List.mem_map.1 hm
      exact ⟨before, (mem_own.1 hbefore).1, rfl, rfl⟩
  refine ⟨ho ▸ h.faithful.issue hcall x.host due, ?_, ?_, ?_, h.replies, h.starts⟩
  · intro task hm
    obtain ⟨before, hm, hjob, hcall⟩ := hsame hm
    rw [hc, ← hjob, ← hcall]
    exact h.expected before hm
  · intro id value asked hj hexpects
    obtain ⟨task, hm, hid⟩ := h.engaged (hc ▸ hj) hexpects
    by_cases hjob : task.job = job
    · exact ⟨_, List.mem_append_right _ (List.mem_map_of_mem (mem_own.2 ⟨hm, hjob⟩)), hid⟩
    · exact ⟨task, List.mem_append_left _ (mem_others.2 ⟨hm, hjob⟩), hid⟩
  · rintro task (hm | hm)
    · obtain ⟨before, hm, hjob, hcall⟩ := hsame hm
      rw [← hjob, ← hcall]
      exact h.asked before (.inl hm)
    · exact h.asked task (.inr hm)

/-- What is done for a job is what it waits for. -/
theorem Tells.expects (h : b.Tells past x) {id : JobId} {job : Job t.size} {task : Task}
    (hj : x.controller.jobs[id]? = some job) (hm : task ∈ b.tasks) (hjob : task.job = id) :
    job.Expects task.call := by
  obtain ⟨job', hj', hexpects⟩ := h.expected task hm
  rw [hjob, hj] at hj'
  obtain rfl := Option.some.inj hj'
  exact hexpects

/-- Nothing is done for a job that is answered, or has nothing to wait for. -/
theorem Tells.no_own (h : b.Tells past x) {id : JobId} {old : Job t.size} {action : Action} {b₀ : Book}
    {ongoing : List Pending} (hj : x.controller.jobs[id]? = some old)
    (hanswers : Answers b x.scripts action b₀ ongoing)
    (ho : (∀ call, ¬ old.Expects call) ∨ ∃ reply, action = .answer id (.container reply)) :
    ∀ task ∈ b₀.tasks, task.job ≠ id := by
  intro task hm hjob
  rcases ho with hno | ⟨reply, he⟩
  · exact hno _ (h.expects hj (hanswers.mem_tasks.1 hm).1 hjob)
  · exact (hanswers.mem_tasks.1 hm).2 reply (hjob ▸ he)

/-- **The turn of a job** leaves the book with as much to do with the run as it had. -/
theorem Tells.turns (h : b.Tells past x) {id : JobId} {old new : Job t.size} {action : Action}
    {slot : Slot} {aside : Aside} {effects : List Effect} {b₀ : Book}
    {ongoing : List Pending} (ha : action.job? = some id)
    (hj : x.controller.jobs[id]? = some old)
    (turn : Turn x.controller x.now id old action new slot aside effects)
    (hc : y.controller = x.controller.after id new old.service slot aside)
    (hanswers : Answers b x.scripts action b₀ ongoing)
    (hhears : Hears client machine id action old new effects b₀ ongoing b' y.scripts) :
    b'.Tells (x.moment action effects y.controller :: past) y := by
  have hself : y.controller.jobs[id]? = some new :=
    hc ▸ Controller.jobs_after_self (Controller.lt_size_of_job hj)
  have hanswered {job : JobId} {reply : Container.Reply}
      (he : action = .answer job (.container reply)) : job = id := by
    subst he
    exact Option.some.inj ha
  -- What was done for other jobs is done, and what is done for this one is what it waits for.
  have hother {task : Task} (hne : task.job ≠ id) : task ∈ b'.tasks ↔ task ∈ b.tasks :=
    (hhears.mem_others hne).trans (hanswers.mem_tasks.trans
      (and_iff_left fun _ he => hne (hanswered he)))
  have hown {task : Task} (hm : task ∈ b'.tasks) (hjob : task.job = id) :
      new.Expects task.call ∧ .asks id (.container task.call) ∈ effects :=
    (hhears.own hm hjob).resolve_right fun ⟨hm, ho⟩ => h.no_own hj hanswers ho task hm hjob
  obtain ⟨answered, hended₀, hreplies, hanswered'⟩ := hanswers.ended h.faithful
  obtain ⟨left, hended, hleft⟩ := hhears.ended
  constructor
  case faithful => exact hhears.faithful (hanswers.faithful h.faithful)
  case expected =>
    intro task hm
    by_cases hjob : task.job = id
    · exact ⟨new, hjob ▸ hself, (hown hm hjob).1⟩
    · obtain ⟨job, hi, hexpects⟩ := h.expected task ((hother hjob).1 hm)
      obtain ⟨later, hl, halike⟩ := alike_after hj turn hi hjob
      exact ⟨later, hc ▸ hl, (halike.expects _).2 hexpects⟩
  case engaged =>
    intro i job call hi hexpects
    by_cases hid : i = id
    · subst hid
      obtain rfl := Option.some.inj (hself.symm.trans hi)
      exact hhears.engaged hexpects
    · rcases alike_before hj turn (hc ▸ hi) hid with ⟨before, hb, halike⟩ | hidle
      · obtain ⟨task, hm, rfl⟩ := h.engaged hb ((halike.expects call).1 hexpects)
        exact ⟨task, (hother hid).2 hm, rfl⟩
      · exact absurd hexpects (hidle.expects call)
  case asked =>
    have hbefore {task : Task} (hm : task ∈ b.tasks ∨ task ∈ b.ended.map Ended.task) :
        ∃ m ∈ x.moment action effects y.controller :: past,
          .asks task.job (.container task.call) ∈ m.effects := by
      obtain ⟨m, hm, hasks⟩ := h.asked task hm
      exact ⟨m, List.mem_cons_of_mem _ hm, hasks⟩
    rintro task (hm | hm)
    · by_cases hjob : task.job = id
      · exact ⟨_, List.mem_cons_self, hjob ▸ (hown hm hjob).2⟩
      · exact hbefore (.inl ((hother hjob).1 hm))
    · rw [hended, hended₀, List.map_append, List.map_append, List.mem_append, List.mem_append] at hm
      rcases hm with (hm | hm) | hm
      · exact hbefore (.inr hm)
      · obtain ⟨e, he, rfl⟩ := List.mem_map.1 hm
        exact hbefore (.inl (hanswered' e he).1)
      · obtain ⟨e, he, rfl⟩ := List.mem_map.1 hm
        exact hbefore (.inl (hanswers.mem_tasks.1 (mem_own.1 (hleft e he).1).1).1)
  case replies =>
    have hnone : left.filterMap Ended.reply? = [] :=
      List.filterMap_eq_nil_iff.2 fun e he => by simp [Ended.reply?, (hleft e he).2.1]
    rw [hended, hended₀, List.filterMap_append, List.filterMap_append, hnone, hreplies, h.replies,
      List.append_nil, List.filterMap_cons, Setting.action_moment]
    cases reply? action with
    | none => exact List.append_nil _
    | some reply => exact List.reverse_cons.symm
  case starts =>
    intro e he hending service volumes hstart
    rw [hended, hended₀, List.mem_append, List.mem_append] at he
    rcases he with (he | he) | he
    · exact h.starts e he hending service volumes hstart
    · exact (hanswered' e he).2 hending
    · -- The job left a container that it waited for.
      obtain ⟨hm, hjob⟩ := mem_own.1 (hleft e he).1
      have hexpects := h.expects hj (hanswers.mem_tasks.1 hm).1 hjob
      exact (hleft e he).2.2 (effects_of_starting turn (hstart ▸ hexpects))

theorem Tells.change (h : b.Tells past x) (hchange : Change x b y moments b') :
    b'.Tells (moments ++ past) y := by
  cases hchange with
  | rests hm hkept hnew ho => exact h.rests hm hkept hnew ho
  | works hcall hc ho => exact h.works hcall hc ho
  | turns ha hj turn hc hanswers hhears => exact h.turns ha hj turn hc hanswers hhears

end

end Book

/-! ## Runs -/

namespace Setting

variable {start x : Setting (client.engine machine) t} {past : List (Moment t)} {b : Book}

/-- A book can be kept of every run. -/
theorem Run.recorded (run : Run start past x) : ∃ b, Recorded start past b x := by
  induction run with
  | refl => exact ⟨{}, .begin⟩
  | tail _ h ih =>
      obtain ⟨b, record⟩ := ih
      exact ⟨_, record.next h⟩

namespace Recorded

theorem run (record : Recorded start past b x) : Run start past x := by
  induction record with
  | begin => exact .refl
  | next _ h ih => exact ih.tail h

theorem controller {config : Config} (hstart : start.controller = Controller.fresh t config)
    (record : Recorded start past b x) : Controller.Run (Controller.fresh t config) past x.controller :=
  hstart ▸ record.run.controller

/-- **The book of a run** tells what the engine was asked, what it did, and what it answered. -/
theorem tells {config : Config} (hstart : start.controller = Controller.fresh t config)
    (hongoing : start.ongoing = []) (record : Recorded start past b x) : b.Tells past x := by
  induction record with
  | begin =>
      have hscripts : start.scripts = [] := hongoing
      refine ⟨⟨.nil, hscripts ▸ .nil, by simp, .refl _⟩, by simp, ?_, by simp, rfl, by simp⟩
      intro id job call hj
      simp [hstart, Controller.fresh] at hj
  | next _ h ih => exact ih.change (Book.change_of_moves h _)

end Recorded

/-! ## Playing with a book -/

section

variable {e : Engine} {x y z : Setting e t} {event : Event} {moments : List (Moment t)}

/-- A step of the controller, if it can take it, of which engine and store of the other setting hear. -/
def step? (x y : Setting e t) (action : Action) : Option (List (Moment t) × Setting e t) :=
  (x.controller.step x.now action).map fun (c, effects) =>
    ([x.moment action effects c], y.after c effects)

/-- What an event makes of a setting, if it can happen: one at the controller, the engine or the clock. -/
def move? (x : Setting e t) : Event → Option (List (Moment t) × Setting e t)
  | .control 0 (.answer ..) => none
  | .control 0 action => x.step? x action
  | .resume 0 job =>
    match x.ongoing.find? fun call => call.job = job with
    | none => none
    | some call =>
      if call.due ≤ x.now then
        match e.resume x.engine call.work with
        | (engine, .answer reply) =>
          x.step? { x with engine, ongoing := x.others job } (.answer job (.container reply))
        | (engine, .wait millis work) =>
          some ([], { x with engine, ongoing := x.others job ++ [⟨job, x.now + millis, work⟩] })
      else none
  | .pass time => if x.now < time then some ([], { x with now := time }) else none
  | _ => none

theorem step?_eq_some {action : Action} (h : x.step? y action = some (moments, z)) :
    ∃ c effects, x.controller.step x.now action = some (c, effects) ∧
      moments = [x.moment action effects c] ∧ z = y.after c effects := by
  obtain ⟨⟨c, effects⟩, hs, he⟩ := Option.map_eq_some_iff.1 h
  obtain ⟨rfl, rfl⟩ := Prod.mk.inj he
  exact ⟨c, effects, hs, rfl, rfl⟩

theorem moves_of_move? (h : x.move? event = some (moments, y)) : Moves x event moments y := by
  unfold move? at h
  split at h
  next => cases h
  next action ha =>
    obtain ⟨c, effects, hs, rfl, rfl⟩ := step?_eq_some h
    exact .act hs ha
  next job =>
    split at h
    next => cases h
    next call hcall =>
      split at h
      next hdue =>
        split at h
        next he =>
          obtain ⟨c, effects, hs, rfl, rfl⟩ := step?_eq_some h
          exact .reply hcall hdue he hs
        next he =>
          obtain ⟨rfl, rfl⟩ := Prod.mk.inj (Option.some.inj h)
          exact .work hcall hdue he
      next => cases h
  next time =>
    split at h
    next hlt =>
      obtain ⟨rfl, rfl⟩ := Prod.mk.inj (Option.some.inj h)
      exact .pass hlt
    next => cases h
  next => cases h

end

/-- Lets events happen one after another, as long as they can happen, and keeps the book. -/
def play (past : List (Moment t)) (b : Book) (x : Setting (client.engine machine) t) :
    List Event → Option (List (Moment t) × Book × Setting (client.engine machine) t)
  | [] => some (past, b, x)
  | event :: rest =>
    match x.move? event with
    | some (moments, y) => play (moments ++ past) (b.after x event moments) y rest
    | none => none

namespace Recorded

/-- What was played is a run with its book. -/
theorem of_play {events : List Event} {past' : List (Moment t)} {b' : Book}
    {y : Setting (client.engine machine) t} (record : Recorded start past b x)
    (h : play past b x events = some (past', b', y)) : Recorded start past' b' y := by
  induction events generalizing past b x with
  | nil =>
      cases h
      exact record
  | cons event rest ih =>
      rw [play] at h
      split at h
      next hmove => exact ih (record.next (moves_of_move? hmove)) h
      next => cases h

end Recorded

/-- A run that shows something, with its book, that was looked up by playing it. -/
theorem exists_recorded (start : Setting (client.engine machine) t) (events : List Event)
    (shows : List (Moment t) → Book → Setting (client.engine machine) t → Bool)
    (h : (play [] {} start events).any fun (past, b, x) => shows past b x) :
    ∃ past b x, Recorded start past b x ∧ shows past b x := by
  obtain ⟨⟨past, b, x⟩, hplay, hshows⟩ := (Option.any_eq_true _ _).1 h
  exact ⟨past, b, x, Recorded.begin.of_play hplay, hshows⟩

end Setting

end Bringup.Simulation
