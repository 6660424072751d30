import Bringup.Proofs.Lifecycle.HaltingDiscipline
import Bringup.Proofs.Lifecycle.StopWins
import Bringup.Proofs.Simulation.Books

/-!
# The course of a halt

A container is halted by one job, at most once: it is stopped, and if the stop fails or takes too long it
is killed. In the book of a run this is a course with four stations (`Book.Course`), told by the tasks
about the container that have ended and by the one that is under way. A turn of any other job leaves it
where it is, or begins it (`Course.turn_of_ne`); a turn of the job that halts the container takes it on
(`Course.turn_of_eq`). As there is one task about the container at a time, the commands that were issued to
halt it are those of its tasks, one task after the other (`Book.InOrder`).
-/

namespace Bringup.Simulation

open Lifecycle
open Container (Handle)
open Docker (Issued Machine Outcome Script Unfolds perform)

variable {t : Topology} {client : Docker.Client} {machine : Machine}

/-! ## What jobs that halt a container wait for -/

/-- The call is to stop or to kill the container. -/
def halts (h : Handle) : Container.Call → Bool
  | .stop handle _ | .kill handle => handle = h
  | _ => false

section

variable {n : Nat} {job : Job n} {h handle : Handle} {halt : Halt} {call : Container.Call}

theorem halts_of_halt (hexpects : halt.Expects handle call) : halts h call ↔ handle = h := by
  cases halt <;> cases call <;>
    first
    | exact hexpects.elim
    | (obtain rfl : _ = handle := hexpects; exact decide_eq_true_iff)

/-- What a job that halts a container waits for. -/
theorem expects_of_halt (hh : job.halt? = some (handle, halt)) :
    job.Expects call ↔ halt.Expects handle call := by
  cases job with
  | start job =>
      obtain ⟨service, run, claimed, phase⟩ := job
      cases phase <;> cases hh
      exact Iff.rfl
  | stop job =>
      obtain ⟨service, phase⟩ := job
      cases phase <;> cases hh
      exact Iff.rfl
  | launch l =>
      obtain ⟨service, orphaned, phase⟩ := l
      cases phase <;> cases hh
      exact Iff.rfl

/-- A job that waits for a container to stop halts it. -/
theorem halt_of_expects (hexpects : job.Expects call) (hhalts : halts h call) :
    ∃ halt, job.halt? = some (h, halt) ∧ halt.Expects h call := by
  have hhalt {handle : Handle} {halt : Halt} (hexpects : halt.Expects handle call) :
      some (handle, halt) = some (h, halt) ∧ halt.Expects h call := by
    obtain rfl := (halts_of_halt hexpects).1 hhalts
    exact ⟨rfl, hexpects⟩
  cases job with
  | start job =>
      obtain ⟨service, run, claimed, phase⟩ := job
      cases phase with
      | probing handle attempt =>
          obtain rfl : call = .probe handle := hexpects
          cases hhalts
      | discarding handle halt => exact ⟨halt, hhalt hexpects⟩
      | _ => exact hexpects.elim
  | stop job =>
      obtain ⟨service, phase⟩ := job
      cases phase with
      | halting handle halt => exact ⟨halt, hhalt hexpects⟩
      | _ => exact hexpects.elim
  | launch l =>
      obtain ⟨service, orphaned, phase⟩ := l
      cases phase with
      | running =>
          obtain ⟨service, volumes, rfl⟩ := hexpects
          cases hhalts
      | halting handle halt => exact ⟨halt, hhalt hexpects⟩
      | _ => exact hexpects.elim

end

/-! ## What the book has of a container -/

namespace Book

variable (b : Book) (h : Handle) (job : JobId)

/-- The halts of the container that the engine works on. -/
def halting : List Task := b.tasks.filter fun task => halts h task.call

/-- Its halts that have ended. -/
def halted : List Ended := b.ended.filter fun e => halts h e.task.call

/-- What was issued to halt it. -/
def haltLog : List Line := b.log.filter fun line => halts h line.call

variable {b h job}

theorem halting_close (ending : Ending) : (b.close job ending).halting h =
    (b.halting h).filter fun task => task.job ≠ job := by
  simp only [halting, close, others, List.filter_filter, Bool.and_comm]

theorem halted_close (ending : Ending) : (b.close job ending).halted h =
    b.halted h ++ ((b.halting h).filter fun task => task.job = job).map fun task => ⟨task, ending⟩ := by
  simp only [halted, halting, close, own, List.filter_append, List.filter_map, List.filter_filter,
    Bool.and_comm, Function.comp_def]

/-- Where nothing is halted for a job, the end of what is done for it is not about the container. -/
theorem close_of_ne (hne : ∀ task ∈ b.halting h, task.job ≠ job) (ending : Ending) :
    (b.close job ending).halting h = b.halting h ∧ (b.close job ending).halted h = b.halted h := by
  constructor
  · rw [halting_close]
    exact List.filter_eq_self.2 fun task hm => decide_eq_true (hne task hm)
  · have hnone : ((b.halting h).filter fun task => task.job = job) = [] :=
      List.filter_eq_nil_iff.2 fun task hm => by simpa using hne task hm
    rw [halted_close, hnone, List.map_nil, List.append_nil]

/-- The one halt of the container ends. -/
theorem close_of_eq {task : Task} (htask : b.halting h = [task]) (hjob : task.job = job)
    (ending : Ending) : (b.close job ending).halting h = [] ∧
      (b.close job ending).halted h = b.halted h ++ [⟨task, ending⟩] := by
  rw [halting_close, halted_close, htask]
  simp [hjob]

theorem halting_take (call : Container.Call) (issued : List Issued) :
    (b.take job call issued).halting h = (b.close job .withdrawn).halting h ++
      if halts h call then [⟨job, call, issued⟩] else [] := by
  simp only [halting, take, List.filter_append, List.filter_cons, List.filter_nil]

theorem halted_take (call : Container.Call) (issued : List Issued) :
    (b.take job call issued).halted h = (b.close job .withdrawn).halted h := rfl

/-- **What a turn does with the halts of a container**: it may begin one, and does nothing else but to
leave what the job waited for. -/
theorem Hears.halt_cases {id : JobId} {n : Nat} {old new : Job n} {action : Action} {effects : List Effect}
    {b' : Book} {ongoing ongoing' : List Pending}
    (hhears : Hears client machine id action old new effects b ongoing b' ongoing')
    (hown : (∀ call, ¬ old.Expects call) ∨ (∃ reply, action = .answer id (.container reply)) →
      ∀ task ∈ b.tasks, task.job ≠ id) (h : Handle) :
    b'.halted h = (b.close id .withdrawn).halted h ∧
    ((b'.halting h = (b.close id .withdrawn).halting h ∧
        ∀ call, halts h call → .asks id (.container call) ∉ effects) ∨
      ∃ (call : Container.Call) (before : List Effect) (issued : List Issued), halts h call ∧
        new.Expects call ∧ effects = before ++ [.asks id (.container call)] ∧
        b'.halting h = (b.close id .withdrawn).halting h ++ [⟨id, call, issued⟩]) := by
  cases hhears with
  | @takes call before s due hb he hn =>
      refine ⟨halted_take _ _, ?_⟩
      by_cases hhalts : halts h call
      · exact .inr ⟨call, before, _, hhalts, hn, he, by rw [halting_take, if_pos hhalts]⟩
      · refine .inl ⟨by rw [halting_take, if_neg hhalts, List.append_nil], ?_⟩
        rintro other hother hm
        rw [he] at hm
        obtain rfl : other = call := by rcases hb with rfl | rfl <;> simpa using hm
        exact hhalts hother
  | withdraws he => exact ⟨rfl, .inl ⟨rfl, by simp [he]⟩⟩
  | leaves ha _ ho =>
      have hclose := close_of_ne (h := h) (fun task hm => hown ho task (List.mem_filter.1 hm).1)
        .withdrawn
      exact ⟨hclose.2.symm, .inl ⟨hclose.1.symm, fun call _ => ha id call⟩⟩

theorem halting_issue (issued : List Issued) : (b.issue job issued).halting h =
    ((b.halting h).filter fun task => task.job ≠ job) ++
      ((b.halting h).filter fun task => task.job = job).map
        fun task => { task with issued := task.issued ++ issued } := by
  simp only [halting, issue, others, own, List.filter_append, List.filter_map, List.filter_filter,
    Bool.and_comm, Function.comp_def]

/-- Where the engine goes on, the one halt of the container stays one. -/
theorem issue_of_halting {task : Task} (htask : b.halting h = [task]) (job : JobId)
    (issued : List Issued) : ∃ task', (b.issue job issued).halting h = [task'] ∧
      task'.call = task.call := by
  by_cases hjob : task.job = job
  · exact ⟨{ task with issued := task.issued ++ issued }, by simp [halting_issue, htask, hjob], rfl⟩
  · exact ⟨task, by simp [halting_issue, htask, hjob], rfl⟩

/-! ## The course of a halt -/

/-- How often the engine was asked to stop the container. -/
def stopRequests (past : List (Moment t)) (h : Handle) : Nat :=
  weigh (fun m => m.effects.countP (Effect.stops h)) past

/-- A job has given up the stop of the container, whose time was over, and kills it. -/
def CutShort (past : List (Moment t)) (h : Handle) : Prop :=
  ∃ m ∈ past, ∃ id, m.action = .timeout id ∧ .asks id (.container (.kill h)) ∈ m.effects

/-- The stop of the container ended without success. -/
def Failed (past : List (Moment t)) (h : Handle) : Ending → Prop
  | .answered reply => ∃ error, reply = .stop (.error error)
  | .withdrawn => CutShort past h

/-- **How far the halt of a container has come**: what has ended of it, and what is under way. -/
inductive Course (timeout : Duration) (past : List (Moment t)) (h : Handle) :
    List Ended → List Task → Prop where
  | unasked (ha : stopRequests past h = 0) : Course timeout past h [] []
  | stopping (ha : 0 < stopRequests past h) {s : Task} (hs : s.call = .stop h timeout) :
    Course timeout past h [] [s]
  | stopped (ha : 0 < stopRequests past h) {s : Task} (hs : s.call = .stop h timeout) :
    Course timeout past h [⟨s, .answered (.stop (.ok ()))⟩] []
  | killing (ha : 0 < stopRequests past h) {s k : Task} {ending : Ending}
    (hs : s.call = .stop h timeout) (hfailed : Failed past h ending) (hk : k.call = .kill h) :
    Course timeout past h [⟨s, ending⟩] [k]
  | killed (ha : 0 < stopRequests past h) {s k : Task} {ending : Ending} {reply : Container.Reply}
    (hs : s.call = .stop h timeout) (hfailed : Failed past h ending) (hk : k.call = .kill h) :
    Course timeout past h [⟨s, ending⟩, ⟨k, .answered reply⟩] []

section

variable {timeout : Duration} {past : List (Moment t)} {m : Moment t} {ended : List Ended}
  {tasks : List Task}

theorem stopRequests_cons : stopRequests (m :: past) h =
    m.effects.countP (Effect.stops h) + stopRequests past h := weigh_cons _ _

theorem Failed.cons {ending : Ending} (hfailed : Failed past h ending) (m : Moment t) :
    Failed (m :: past) h ending := by
  cases ending with
  | answered reply => exact hfailed
  | withdrawn =>
      obtain ⟨m', hm, hcut⟩ := hfailed
      exact ⟨m', List.mem_cons_of_mem _ hm, hcut⟩

namespace Course

/-- Nothing happens to the container. -/
theorem rests (hcourse : Course timeout past h ended tasks)
    (hm : m.effects.countP (Effect.stops h) = 0) : Course timeout (m :: past) h ended tasks := by
  have hasked : stopRequests (m :: past) h = stopRequests past h := by
    rw [stopRequests_cons, hm, Nat.zero_add]
  cases hcourse with
  | unasked ha => exact .unasked (hasked.trans ha)
  | stopping ha hs => exact .stopping (hasked ▸ ha) hs
  | stopped ha hs => exact .stopped (hasked ▸ ha) hs
  | killing ha hs hfailed hk => exact .killing (hasked ▸ ha) hs (hfailed.cons m) hk
  | killed ha hs hfailed hk => exact .killed (hasked ▸ ha) hs (hfailed.cons m) hk

/-- The engine goes on with what it works on. -/
theorem works (hcourse : Course timeout past h (b.halted h) (b.halting h)) (job : JobId)
    (issued : List Issued) :
    Course timeout past h ((b.issue job issued).halted h) ((b.issue job issued).halting h) := by
  show Course timeout past h (b.halted h) ((b.issue job issued).halting h)
  generalize hended : b.halted h = ended at hcourse
  generalize htasks : b.halting h = tasks at hcourse
  have hnil (hnil : tasks = []) : (b.issue job issued).halting h = [] := by
    simp [halting_issue, htasks, hnil]
  cases hcourse with
  | unasked ha => exact hnil rfl ▸ .unasked ha
  | stopping ha hs =>
      obtain ⟨s', hs', hcall⟩ := issue_of_halting htasks job issued
      exact hs' ▸ .stopping ha (hcall.trans hs)
  | stopped ha hs => exact hnil rfl ▸ .stopped ha hs
  | killing ha hs hfailed hk =>
      obtain ⟨k', hk', hcall⟩ := issue_of_halting htasks job issued
      exact hk' ▸ .killing ha hs hfailed (hcall.trans hk)
  | killed ha hs hfailed hk => exact hnil rfl ▸ .killed ha hs hfailed hk

/-- What is under way is the stop of the container, or, after that has failed, the kill. -/
theorem under_way {task : Task} (hcourse : Course timeout past h ended tasks) (hm : task ∈ tasks) :
    tasks = [task] ∧ 0 < stopRequests past h ∧ (ended = [] ∧ task.call = .stop h timeout ∨
      ∃ s ending, ended = [⟨s, ending⟩] ∧ s.call = .stop h timeout ∧ Failed past h ending ∧
        task.call = .kill h) := by
  cases hcourse with
  | unasked | stopped | killed => cases hm
  | stopping ha hs =>
      obtain rfl := List.mem_singleton.1 hm
      exact ⟨rfl, ha, .inl ⟨rfl, hs⟩⟩
  | killing ha hs hfailed hk =>
      obtain rfl := List.mem_singleton.1 hm
      exact ⟨rfl, ha, .inr ⟨_, _, rfl, hs, hfailed, hk⟩⟩

end Course

end

/-! ### Turns -/

section Turns

variable {timeout : Duration} {past : List (Moment t)} {x y : Setting (client.engine machine) t}
  {id : JobId} {old new : Job t.size} {action : Action} {slot : Slot} {aside : Aside}
  {effects : List Effect} {b₀ b' : Book} {ongoing ongoing' : List Pending}

/-- Where nothing is halted for a job, an answer to it is not about the container. -/
theorem Answers.of_ne (hanswers : Answers b ongoing action b₀ ongoing') (ha : action.job? = some id)
    (hown : ∀ task ∈ b.halting h, task.job ≠ id) :
    b₀.halting h = b.halting h ∧ b₀.halted h = b.halted h := by
  cases hanswers with
  | nothing => exact ⟨rfl, rfl⟩
  | reply he =>
      subst he
      obtain rfl := Option.some.inj ha
      exact close_of_ne hown _

theorem countP_stops_eq_zero (turn : Turn c now id old action new slot aside effects)
    (hno : ∀ call, halts h call → .asks id (.container call) ∉ effects) :
    effects.countP (Effect.stops h) = 0 := by
  refine List.countP_eq_zero.2 fun effect hm hstops => ?_
  unfold Effect.stops at hstops
  split at hstops
  next asker handle timeout =>
    obtain rfl := turn.asker_eq hm
    exact hno (.stop handle timeout) hstops hm
  next => cases hstops

/-- A job for which nothing was halted begins a halt. -/
theorem begins_of_expects {c : Controller t} {now : Nat}
    (turn : Turn c now id old action new slot aside effects) {call : Container.Call}
    {before : List Effect} (hold : ∀ call, old.Expects call → ¬ halts h call)
    (hhalts : halts h call) (hexpects : new.Expects call)
    (he : effects = before ++ [.asks id (.container call)]) :
    call = .stop h c.config.stopTimeout ∧ effects.countP (Effect.stops h) = 1 := by
  obtain ⟨halt, hnew, hhalt⟩ := halt_of_expects hexpects hhalts
  cases turn.haltMove with
  | rests _ hh' | ends _ hh' =>
      rw [hh'] at hnew
      cases hnew
  | @begins handle hh hh' he' =>
      rw [hh', Option.some.injEq, Prod.mk.injEq] at hnew
      obtain ⟨rfl, rfl⟩ := hnew
      refine ⟨?_, by simp [he', Controller.askStop, Effect.stops]⟩
      simpa [Controller.askStop] using congrArg List.getLast? (he.symm.trans he')
  | refused hh hh' | overran hh hh' =>
      rw [hh', Option.some.injEq, Prod.mk.injEq] at hnew
      obtain ⟨rfl, rfl⟩ := hnew
      obtain ⟨call', hcall'⟩ := Halt.exists_expects _ (Halt.stopping _)
      exact absurd ((halts_of_halt hcall').2 rfl) (hold call' ((expects_of_halt hh).2 hcall'))

/-- A job that waits for nothing that halts the container has nothing to do with its halt. -/
theorem Tells.not_expects (htells : b.Tells past x) (hj : x.controller.jobs[id]? = some old)
    (hown : ∀ task ∈ b.halting h, task.job ≠ id) {call : Container.Call} (hexpects : old.Expects call) :
    ¬ halts h call := by
  intro hhalts
  obtain ⟨task, hm, hjob⟩ := htells.engaged hj hexpects
  have htask := htells.expects hj hm hjob
  obtain ⟨halt, hhalt, -⟩ := halt_of_expects hexpects hhalts
  have hhalts' := (halts_of_halt ((expects_of_halt hhalt).1 htask)).2 rfl
  exact hown task (List.mem_filter.2 ⟨hm, hhalts'⟩) hjob

/-- **A turn of a job that does not halt the container** may begin to halt it, if nobody did before. -/
theorem Course.turn_of_ne (hcourse : Course timeout past h (b.halted h) (b.halting h))
    (htells : b.Tells past x) (ha : action.job? = some id) (hj : x.controller.jobs[id]? = some old)
    (turn : Turn x.controller x.now id old action new slot aside effects)
    (hanswers : Answers b x.scripts action b₀ ongoing)
    (hhears : Hears client machine id action old new effects b₀ ongoing b' y.scripts)
    (htimeout : x.controller.config.stopTimeout = timeout)
    (hone : stopRequests (x.moment action effects y.controller :: past) h ≤ 1)
    (hown : ∀ task ∈ b.halting h, task.job ≠ id) :
    Course timeout (x.moment action effects y.controller :: past) h (b'.halted h) (b'.halting h) := by
  obtain ⟨hhalting₀, hhalted₀⟩ := hanswers.of_ne ha hown
  obtain ⟨hhalting₁, hhalted₁⟩ := close_of_ne (hhalting₀ ▸ hown) .withdrawn
  obtain ⟨hhalted, hcases⟩ := hhears.halt_cases (htells.no_own hj hanswers) h
  rw [hhalted₁, hhalted₀] at hhalted
  rw [hhalting₁, hhalting₀] at hcases
  rw [hhalted]
  rcases hcases with ⟨hhalting, hno⟩ | ⟨call, before, issued, hhalts, hexpects, he, hhalting⟩
  · rw [hhalting]
    exact hcourse.rests (countP_stops_eq_zero turn hno)
  · obtain ⟨rfl, hcount⟩ := begins_of_expects turn (fun _ => htells.not_expects hj hown) hhalts hexpects he
    rw [stopRequests_cons] at hone
    have hunasked : stopRequests past h = 0 := by
      have : effects.countP (Effect.stops h) + stopRequests past h ≤ 1 := hone
      omega
    rw [hhalting]
    generalize b.halted h = ended at hcourse
    generalize b.halting h = tasks at hcourse
    cases hcourse with
    | unasked =>
        refine .stopping ?_ (htimeout ▸ rfl)
        rw [stopRequests_cons]
        show 0 < effects.countP (Effect.stops h) + _
        omega
    | stopping ha | stopped ha | killing ha | killed ha => omega

theorem Answers.eq_close (hanswers : Answers b ongoing action b₀ ongoing')
    {reply : Container.Reply} (ha : action = .answer id (.container reply)) :
    b₀ = b.close id (.answered reply) := by
  cases hanswers with
  | nothing h => exact absurd ha (h id reply)
  | reply he =>
      obtain ⟨rfl, hreply⟩ := Action.answer.inj (he.symm.trans ha)
      obtain rfl := Reply.container.inj hreply
      rfl

theorem Answers.eq_self (hanswers : Answers b ongoing action b₀ ongoing')
    (ha : action = .timeout id) : b₀ = b := by
  cases hanswers with
  | nothing => rfl
  | reply he => cases he.symm.trans ha

/-- What ends a halt is the success of the stop, or whatever the kill comes to. -/
theorem answered_over {halt : Halt} {reply : Reply} (hr : halt.answered reply = some .over) :
    (∃ deadline, halt = .stopping deadline ∧ reply = .container (.stop (.ok ()))) ∨
      ∃ result, halt = .killing ∧ reply = .container (.kill result) := by
  unfold Halt.answered at hr
  split at hr
  next => exact .inl ⟨_, rfl, rfl⟩
  next => cases hr
  next => exact .inr ⟨_, rfl, rfl⟩
  next => cases hr

/-- A job that gives up the stop of a container kills it. -/
theorem Hears.kills {ended : List Ended}
    (hhears : Hears client machine id action old new effects b₀ ongoing b' ongoing')
    (hown : (∀ call, ¬ old.Expects call) ∨ (∃ reply, action = .answer id (.container reply)) →
      ∀ task ∈ b₀.tasks, task.job ≠ id)
    (hclosed : (b₀.close id .withdrawn).halting h = [] ∧ (b₀.close id .withdrawn).halted h = ended)
    (before : List Effect) (he : effects = before ++ [.asks id (.container (.kill h))]) :
    b'.halted h = ended ∧ ∃ k, b'.halting h = [k] ∧ k.call = .kill h := by
  obtain ⟨hhalted, hcases⟩ := hhears.halt_cases hown h
  refine ⟨hhalted.trans hclosed.2, ?_⟩
  rcases hcases with ⟨-, hno⟩ | ⟨call, before', issued, -, -, he', hhalting⟩
  · exact absurd (he ▸ List.mem_append_right _ (List.mem_singleton_self _))
      (hno (.kill h) (by simp [Simulation.halts]))
  · obtain rfl : call = .kill h := by simpa using congrArg List.getLast? (he'.symm.trans he)
    exact ⟨_, hhalting.trans (by rw [hclosed.1, List.nil_append]), rfl⟩

/-- A job that halts the container no more leaves nothing under way. -/
theorem Hears.over {ended : List Ended}
    (hhears : Hears client machine id action old new effects b₀ ongoing b' ongoing')
    (hown : (∀ call, ¬ old.Expects call) ∨ (∃ reply, action = .answer id (.container reply)) →
      ∀ task ∈ b₀.tasks, task.job ≠ id)
    (hclosed : (b₀.close id .withdrawn).halting h = [] ∧ (b₀.close id .withdrawn).halted h = ended)
    (hnew : ∀ {call : Container.Call}, new.Expects call → ¬ halts h call) :
    b'.halted h = ended ∧ b'.halting h = [] := by
  obtain ⟨hhalted, hcases⟩ := hhears.halt_cases hown h
  refine ⟨hhalted.trans hclosed.2, ?_⟩
  rcases hcases with ⟨hhalting, -⟩ | ⟨call, before, issued, hhalts, hexpects, -⟩
  · exact hhalting.trans hclosed.1
  · exact absurd hhalts (hnew hexpects)

/-- **A turn of the job that halts the container**: the stop fails and the container is killed, or it
ends. -/
theorem Course.turn_of_eq (hcourse : Course timeout past h (b.halted h) (b.halting h))
    (htells : b.Tells past x) (hj : x.controller.jobs[id]? = some old)
    (turn : Turn x.controller x.now id old action new slot aside effects)
    (hanswers : Answers b x.scripts action b₀ ongoing)
    (hhears : Hears client machine id action old new effects b₀ ongoing b' y.scripts)
    {task : Task} (hm : task ∈ b.halting h) (hjob : task.job = id) :
    Course timeout (x.moment action effects y.controller :: past) h (b'.halted h) (b'.halting h) := by
  obtain ⟨hmem, hhalts⟩ := List.mem_filter.1 hm
  obtain ⟨halt, hold, hhalt⟩ := halt_of_expects (htells.expects hj hmem hjob) hhalts
  obtain ⟨hsole, hasked, hcall⟩ := hcourse.under_way hm
  have hasked' : 0 < stopRequests (x.moment action effects y.controller :: past) h := by
    rw [stopRequests_cons]
    exact Nat.add_pos_right _ hasked
  have hown := htells.no_own hj hanswers
  -- The task ends in whatever way the move has it.
  have hclose := close_of_eq hsole hjob
  cases turn.haltMove with
  | rests hh | begins hh =>
      rw [hold] at hh
      cases hh
  | @refused handle deadline error hh hh' ha he =>
      rw [hold, Option.some.injEq, Prod.mk.injEq] at hh
      obtain ⟨rfl, rfl⟩ := hh
      obtain rfl := hanswers.eq_close ha
      obtain ⟨hended, hstop⟩ | ⟨s, ending, -, -, -, hkill⟩ := hcall
      · obtain ⟨hhalted, k, hk, hkcall⟩ :=
          hhears.kills hown (close_close b id _ _ ▸ hclose _) [] he
        rw [hhalted, hk, hended]
        exact .killing hasked' hstop ⟨error, rfl⟩ hkcall
      · rw [hkill] at hhalt
        exact hhalt.elim
  | @overran handle deadline hh hh' ha hd he =>
      rw [hold, Option.some.injEq, Prod.mk.injEq] at hh
      obtain ⟨rfl, rfl⟩ := hh
      obtain rfl := hanswers.eq_self ha
      obtain ⟨hended, hstop⟩ | ⟨s, ending, -, -, -, hkill⟩ := hcall
      · obtain ⟨hhalted, k, hk, hkcall⟩ := hhears.kills hown (hclose _) [.withdraws id] he
        rw [hhalted, hk, hended]
        refine .killing hasked' hstop ⟨_, List.mem_cons_self, id, ha, ?_⟩ hkcall
        exact he ▸ List.mem_cons_of_mem _ (List.mem_singleton_self _)
      · rw [hkill] at hhalt
        exact hhalt.elim
  | @ends handle halt' reply hh hh' ha hr hk =>
      rw [hold, Option.some.injEq, Prod.mk.injEq] at hh
      obtain ⟨rfl, rfl⟩ := hh
      -- The job waits for nothing that halts the container any more.
      have hnew {call : Container.Call} (hexpects : new.Expects call) : ¬ halts h call := by
        intro hhalts
        obtain ⟨halt', hnew, -⟩ := halt_of_expects hexpects hhalts
        rw [hh'] at hnew
        cases hnew
      have hends {reply : Container.Reply} (ha : action = .answer id (.container reply)) :
          b'.halted h = b.halted h ++ [⟨task, .answered reply⟩] ∧ b'.halting h = [] := by
        obtain rfl := hanswers.eq_close ha
        exact hhears.over hown (by rw [close_close]; exact hclose _) hnew
      obtain ⟨deadline, rfl, rfl⟩ | ⟨result, rfl, rfl⟩ := answered_over hr
      · obtain ⟨hended, hstop⟩ | ⟨s, ending, -, -, -, hkill⟩ := hcall
        · rw [(hends ha).1, (hends ha).2, hended]
          exact .stopped hasked' hstop
        · rw [hkill] at hhalt
          exact hhalt.elim
      · obtain ⟨hended, hstop⟩ | ⟨s, ending, hended, hstop, hfailed, hkill⟩ := hcall
        · rw [hstop] at hhalt
          exact hhalt.elim
        · rw [(hends ha).1, (hends ha).2, hended]
          exact .killed hasked' hstop (hfailed.cons _) hkill

/-- **Whatever happens, the halt of a container keeps to its course**, if it is begun once. -/
theorem Course.change {moments : List (Moment t)}
    (hcourse : Course timeout past h (b.halted h) (b.halting h)) (htells : b.Tells past x)
    (hchange : Change x b y moments b') (htimeout : x.controller.config.stopTimeout = timeout)
    (hone : stopRequests (moments ++ past) h ≤ 1) :
    Course timeout (moments ++ past) h (b'.halted h) (b'.halting h) := by
  cases hchange with
  | rests hm =>
      clear hone
      induction moments with
      | nil => exact hcourse
      | cons m moments ih =>
          have hnone := (hm m List.mem_cons_self).2
          exact (ih fun m hmem => hm m (.tail _ hmem)).rests (by simp [hnone])
  | works => exact hcourse.works _ _
  | @turns id _ _ _ _ _ _ _ _ _ ha hj turn hc hanswers hhears =>
      by_cases hown : ∃ task ∈ b.halting h, task.job = id
      · obtain ⟨task, hm, hjob⟩ := hown
        exact hcourse.turn_of_eq htells hj turn hanswers hhears hm hjob
      · exact hcourse.turn_of_ne htells ha hj turn hanswers hhears htimeout hone
          fun task hm hjob => hown ⟨task, hm, hjob⟩

end Turns

/-! ### The order of the commands -/

/-- What was issued to halt the container was issued for one of its halts after the other. -/
def InOrder (b : Book) (h : Handle) : Prop :=
  b.haltLog h = (b.halted h).flatMap (fun e => e.task.lines) ++ (b.halting h).flatMap Task.lines

theorem filter_lines (task : Task) : (task.lines.filter fun line => halts h line.call) =
    if halts h task.call then task.lines else [] := by
  have hcall : ∀ line ∈ task.lines, line.call = task.call := by simp [Task.lines]
  split
  next hhalts => exact List.filter_eq_self.2 fun line hm => (hcall line hm).symm ▸ hhalts
  next hhalts => exact List.filter_eq_nil_iff.2 fun line hm => (hcall line hm).symm ▸ hhalts

theorem filter_flatMap_lines (tasks : List Task) (issued : List Issued) :
    ((tasks.flatMap fun task => Task.lines { task with issued }).filter fun line => halts h line.call) =
      (tasks.filter fun task => halts h task.call).flatMap fun task => Task.lines { task with issued } := by
  induction tasks with
  | nil => rfl
  | cons task tasks ih =>
      rw [List.flatMap_cons, List.filter_append, ih, filter_lines, List.filter_cons]
      split <;> simp

namespace InOrder

theorem close (horder : b.InOrder h) (hone : (b.halting h).length ≤ 1) (job : JobId) (ending : Ending) :
    (b.close job ending).InOrder h := by
  show b.haltLog h = _
  rw [horder, halting_close, halted_close]
  match b.halting h, hone with
  | [], _ => simp
  | [task], _ => by_cases hjob : task.job = job <;> simp [hjob]

theorem take (horder : b.InOrder h) (hone : (b.halting h).length ≤ 1) (job : JobId)
    (call : Container.Call) (issued : List Issued) : (b.take job call issued).InOrder h := by
  have hclose : b.haltLog h = _ := horder.close hone job .withdrawn
  have hlog : (b.take job call issued).haltLog h = b.haltLog h ++
      if halts h call then Task.lines ⟨job, call, issued⟩ else [] := by
    rw [← filter_lines (h := h) ⟨job, call, issued⟩]
    exact List.filter_append _ _
  rw [InOrder, hlog, halting_take, halted_take, hclose]
  split <;> simp

theorem issue (horder : b.InOrder h) (hone : (b.halting h).length ≤ 1) (job : JobId)
    (issued : List Issued) : (b.issue job issued).InOrder h := by
  have hlog : (b.issue job issued).haltLog h = b.haltLog h ++
      ((b.halting h).filter fun task => task.job = job).flatMap
        fun task => Task.lines { task with issued } := by
    simp only [haltLog, Book.issue, List.filter_append, filter_flatMap_lines, own, halting,
      List.filter_filter, Bool.and_comm]
  show _ = (b.halted h).flatMap _ ++ _
  rw [hlog, horder, halting_issue]
  generalize b.halting h = tasks at hone ⊢
  obtain _ | ⟨task, _ | _⟩ := tasks
  · simp
  · by_cases hjob : task.job = job <;> simp [hjob, Task.lines]
  · simp at hone

theorem answer {ongoing ongoing' : List Pending} {action : Action} {b₀ : Book} (horder : b.InOrder h)
    (hone : (b.halting h).length ≤ 1) (hanswers : Answers b ongoing action b₀ ongoing') :
    b₀.InOrder h ∧ (b₀.halting h).length ≤ 1 := by
  cases hanswers with
  | nothing => exact ⟨horder, hone⟩
  | reply =>
      refine ⟨horder.close hone _ _, ?_⟩
      rw [halting_close]
      exact Nat.le_trans (List.length_filter_le _ _) hone

theorem change {x y : Setting (client.engine machine) t} {moments : List (Moment t)} {b' : Book}
    (horder : b.InOrder h) (hone : (b.halting h).length ≤ 1) (hchange : Change x b y moments b') :
    b'.InOrder h := by
  cases hchange with
  | rests => exact horder
  | works => exact horder.issue hone _ _
  | turns ha hj turn hc hanswers hhears =>
      obtain ⟨horder₀, hone₀⟩ := horder.answer hone hanswers
      generalize y.scripts = scripts at hhears
      cases hhears with
      | takes => exact horder₀.take hone₀ _ _ _
      | withdraws => exact horder₀.close hone₀ _ _
      | leaves => exact horder₀

end InOrder

theorem Course.length_le {timeout : Duration} {past : List (Moment t)} {ended : List Ended}
    {tasks : List Task} (hcourse : Course timeout past h ended tasks) : tasks.length ≤ 1 := by
  cases hcourse <;> simp

end Book

/-! ## Runs -/

section

variable {config : Config} {past : List (Moment t)} {c : Controller t} {h : Handle}

/-- Where no container is handed over twice, each is asked to stop at most once. -/
theorem stopRequests_le_one (run : Controller.Run (Controller.fresh t config) past c)
    (hone : (handedOver past).Nodup) (h : Handle) : Book.stopRequests past h ≤ 1 :=
  have hhanded := countP_hands_le hone h
  run.asked_le_one hhanded _ fun s =>
    (run.placed s (Nat.le_trans (countP_hands_for_le past s h) hhanded)).stopsAsked_le

/-- What the engine is asked to halt it has handed over. -/
theorem handed_of_halts (run : Controller.Run (Controller.fresh t config) past c)
    (hone : (handedOver past).Nodup) {m : Moment t} (hm : m ∈ past) {id : JobId}
    {call : Container.Call} (hasks : .asks id (.container call) ∈ m.effects) (hhalts : halts h call) :
    h ∈ handedOver past := by
  obtain ⟨later, earlier, rfl⟩ := List.append_of_mem hm
  have before := (run.split rfl).1
  have hs := run.step_of_mem hm
  rw [handedOver, List.filterMap_append] at hone
  have hnow : (handedOver (m :: earlier)).Nodup := (List.nodup_append.1 hone).2.1
  have hearlier : (handedOver earlier).Nodup :=
    hnow.sublist ((List.sublist_cons_self m earlier).filterMap _)
  have hmem {m' : Moment t} (hm' : m' ∈ earlier) (hh : m'.action.handed? = some h) :
      h ∈ handedOver (later ++ m :: earlier) :=
    List.mem_filterMap.2 ⟨m', List.mem_append_right _ (List.mem_cons_of_mem _ hm'), hh⟩
  cases call with
  | stop handle timeout =>
      obtain rfl : handle = h := of_decide_eq_true hhalts
      obtain ⟨m', hm', hh⟩ := (before.tail hs).known_of_stop hnow rfl hasks
      exact hmem hm' hh
  | kill handle =>
      obtain rfl : handle = h := of_decide_eq_true hhalts
      obtain ⟨deadline, hw, -⟩ := (Controller.kills_iff_of_step hs).1 hasks
      obtain ⟨m', hm', hh⟩ := before.known_of_kill hearlier hw
      exact hmem hm' hh
  | start | probe => cases hhalts

/-- The time that a container was given to stop was over, and its stop was given up. -/
def TimedOut (past : List (Moment t)) (timeout : Duration) (id : String) : Prop :=
  ∃ asked ∈ past, ∃ m ∈ past, ∃ (job : JobId) (h : Handle), h.id = id ∧
    .asks job (.container (.stop h timeout)) ∈ asked.effects ∧ m.action = .timeout job ∧
    .asks job (.container (.kill h)) ∈ m.effects ∧ asked.now + timeout.ceilMillis ≤ m.now

theorem timedOut_of_cutShort (run : Controller.Run (Controller.fresh t config) past c)
    (hcut : Book.CutShort past h) : TimedOut past config.stopTimeout h.id := by
  obtain ⟨m, hm, job, ha, hasks⟩ := hcut
  obtain ⟨later, earlier, rfl⟩ := List.append_of_mem hm
  obtain ⟨deadline, hw, ⟨error, he⟩ | ⟨-, hd⟩⟩ :=
    (Controller.kills_iff_of_step (run.step_of_mem hm)).1 hasks
  · rw [ha] at he
    cases he
  · obtain ⟨asked, hasked, hstops, rfl⟩ := (run.split rfl).1.deadline hw
    exact ⟨asked, List.mem_append_right _ (List.mem_cons_of_mem _ hasked), m, hm, job, h, rfl, hstops,
      ha, hasks, hd⟩

/-- A container that is handed over is asked to stop, once nothing is outstanding after a stop. -/
theorem stopRequests_pos (ht : t.Built) (run : Controller.Run (Controller.fresh t config) past c)
    (hlast : c.StopsLast) (hstop : c.Stopping) {now : Nat} (hquiet : c.Quiet now)
    (hh : h ∈ handedOver past) : 0 < Book.stopRequests past h := by
  obtain ⟨m, hm, hhanded⟩ := List.mem_filterMap.1 hh
  have hs := run.step_of_mem hm
  obtain ⟨id, ha⟩ : ∃ id, m.action.job? = some id := by
    unfold Action.handed? at hhanded
    split at hhanded
    next he => exact ⟨_, by rw [he]; rfl⟩
    next => cases hhanded
  obtain ⟨old, new, slot, aside, hj, -⟩ := Controller.turnsTo_of_step ha hs
  have hhands : m.hands old.service h := by
    simp [Moment.hands, Moment.worksFor, Moment.job?, ha, hj, Action.hands_iff.2 hhanded]
  have hasked : 0 < Lifecycle.stopsAsked past old.service h := by
    rw [(run.emptied ht hlast hstop hquiet).2]
    exact List.countP_pos_iff.2 ⟨m, hm, hhands⟩
  refine Nat.lt_of_lt_of_le hasked (weigh_le_weigh fun m _ => ?_)
  unfold Moment.stops
  split
  · exact Nat.le_refl _
  · exact Nat.zero_le _

end

namespace Setting.Recorded

variable {start x : Setting (client.engine machine) t} {past : List (Moment t)} {b : Book}
  {config : Config} {h : Handle}

/-- **In every run the halt of a container keeps to its course**, and its commands are issued in this
order. -/
theorem course (hstart : start.controller = Controller.fresh t config) (hongoing : start.ongoing = [])
    (record : Recorded start past b x) (hone : (handedOver past).Nodup) (h : Handle) :
    Book.Course config.stopTimeout past h (b.halted h) (b.halting h) ∧ b.InOrder h := by
  induction record with
  | begin => exact ⟨.unasked rfl, rfl⟩
  | @next past moments b x y event record hm ih =>
      have hbefore : (handedOver past).Nodup := by
        rw [handedOver, List.filterMap_append] at hone
        exact (List.nodup_append.1 hone).2.1
      obtain ⟨hcourse, horder⟩ := ih hbefore
      have hchange := Book.change_of_moves hm b
      exact ⟨hcourse.change (record.tells hstart hongoing) hchange
        (congrArg Config.stopTimeout (record.controller hstart).config_eq)
        (stopRequests_le_one ((record.next hm).controller hstart) hone h),
        horder.change hcourse.length_le hchange⟩

end Setting.Recorded

end Bringup.Simulation
