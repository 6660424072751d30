import Bringup.Docker.Scripted
import Bringup.Proofs.Lifecycle.Answers
import Bringup.Proofs.Simulation.Courses

/-!
# Containers that ran are removed

The commands that end a container come from several calls: a stop is two commands, of which the second
is left out where the first fails, and a kill is two more. Which calls there are is up to the controller,
and a container that nobody waits for any more when it comes is halted as well. `removes` says what
all this comes to in every run: whatever comes of the commands, those for one container are of three
forms (`Removed`), the last one of each removes it, and what a start is answered depends on its `run`
alone.

The commands are in the book that can be kept of every run (`Run.recorded`). A container is known by
the name that was printed for it, and where different names were printed no container is handed over
twice (`Book.Tells.nodup_names`), so that the commands for a name are those for one container
(`haltsOf_eq`). Their calls keep to the course of a halt (`Recorded.course`), and once nothing is
outstanding the course is at its end (`Course.removed`).
-/

namespace Bringup.Simulation

open Lifecycle
open Container (Handle)
open Docker (Decides Issued Machine Outcome Script Unfolds containerName perform runArguments)

variable {t : Topology} {client : Docker.Client} {machine : Machine}

/-! ## What is said of the commands -/

/-- The call is to halt the container of the name. -/
def haltsNamed (id : String) : Container.Call → Bool
  | .stop handle _ | .kill handle => handle.id = id
  | _ => false

namespace Book

variable (b : Book)

/-- The names that were printed for the containers that ran. -/
def ran : List String := b.log.filterMap fun line => line.command.ran?

/-- The commands that were issued for the container of the name, questions left aside. -/
def haltsOf (id : String) : List Issued :=
  (b.log.filter fun line => haltsNamed id line.call).map Line.command

end Book

/-- The commands that end a container, by its name, and what came of them. A stop may be left because the
time for it was over. -/
inductive Removed (timeout : Duration) (id : String) (late : Prop) : List Issued → Prop where
  /-- It was stopped and removed. -/
  | cleanly {stop rm : Outcome} (hstop : stop.Succeeds) (hrm : rm.Succeeds) : Removed timeout id late
    [⟨["stop", "-t", toString timeout.wholeSeconds, id], stop⟩, ⟨["rm", id], rm⟩]
  /-- It was not stopped. -/
  | unstopped {stop kill rm : Outcome} (hstop : ¬ stop.Succeeds ∨ late) : Removed timeout id late
    [⟨["stop", "-t", toString timeout.wholeSeconds, id], stop⟩, ⟨["kill", id], kill⟩,
      ⟨["rm", "-f", id], rm⟩]
  /-- It was stopped and not removed. -/
  | unremoved {stop rm kill rm' : Outcome} (hstop : stop.Succeeds) (hrm : ¬ rm.Succeeds ∨ late) :
    Removed timeout id late
      [⟨["stop", "-t", toString timeout.wholeSeconds, id], stop⟩, ⟨["rm", id], rm⟩,
        ⟨["kill", id], kill⟩, ⟨["rm", "-f", id], rm'⟩]

/-- **The last command for a container that ran removes it.** -/
theorem Removed.last {timeout : Duration} {id : String} {late : Prop} {commands : List Issued}
    (h : Removed timeout id late commands) : ∃ command ∈ commands.getLast?,
      command.arguments = ["rm", id] ∨ command.arguments = ["rm", "-f", id] := by
  cases h with
  | cleanly => exact ⟨_, rfl, .inl rfl⟩
  | unstopped | unremoved => exact ⟨_, rfl, .inr rfl⟩

theorem Removed.imp {timeout : Duration} {id : String} {late late' : Prop} {commands : List Issued}
    (h : Removed timeout id late commands) (himp : late → late') :
    Removed timeout id late' commands := by
  cases h with
  | cleanly hstop hrm => exact .cleanly hstop hrm
  | unstopped hstop => exact .unstopped (hstop.imp_right himp)
  | unremoved hstop hrm => exact .unremoved hstop (hrm.imp_right himp)

/-! ## One container -/

namespace Book

variable {b : Book} {timeout : Duration} {past : List (Moment t)} {h : Handle} {ended : List Ended}

theorem command_lines (task : Task) : task.lines.map Line.command = task.issued := by
  simp [Task.lines, Function.comp_def]

/-- The stop of a container that failed was a `stop`, or a `stop` and an `rm`. -/
theorem failed_stop {s : Task} {ending : Ending} (hs : s.call = .stop h timeout)
    (hsound : (⟨s, ending⟩ : Ended).Sound client) (hfailed : Failed past h ending) :
    ∃ stop : Outcome, (s.issued = [⟨Docker.stopArguments h timeout, stop⟩] ∧
        (¬ stop.Succeeds ∨ CutShort past h)) ∨
      ∃ rm : Outcome, stop.Succeeds ∧ (¬ rm.Succeeds ∨ CutShort past h) ∧
        s.issued = [⟨Docker.stopArguments h timeout, stop⟩, ⟨["rm", h.id], rm⟩] := by
  obtain ⟨hissued, rest, hunfolds, hdone⟩ := hsound
  change Unfolds _ (perform _ s.call) s.issued rest at hunfolds
  rw [hs] at hunfolds
  cases ending with
  | answered reply =>
      obtain ⟨error, rfl⟩ := hfailed
      rw [hdone _ rfl] at hunfolds
      obtain ⟨stop, ⟨hstop, -, hissued⟩ | ⟨rm, hstop, hrm, hissued⟩⟩ := Docker.unfolds_stopped hunfolds
      · exact ⟨stop, .inl ⟨hissued, .inl hstop⟩⟩
      · exact ⟨stop, .inr ⟨rm, hstop, .inl fun h => by simpa using hrm.1 h, hissued⟩⟩
  | withdrawn =>
      obtain ⟨stop, hissued | ⟨rm, hstop, hissued⟩⟩ := Docker.unfolds_stop hunfolds hissued
      · exact ⟨stop, .inl ⟨hissued, .inr hfailed⟩⟩
      · exact ⟨stop, .inr ⟨rm, hstop, .inr hfailed, hissued⟩⟩

/-- **Where the course of a halt is at its end** the container was removed. -/
theorem Course.removed (hcourse : Course timeout past h ended []) (hasked : 0 < stopRequests past h)
    (hsound : ∀ e ∈ ended, e.Sound client) : Removed timeout h.id (CutShort past h)
      (ended.flatMap fun e => e.task.issued) := by
  cases hcourse with
  | unasked ha => omega
  | @stopped _ s hs =>
      obtain ⟨-, rest, hunfolds, hdone⟩ := hsound _ (List.mem_singleton_self _)
      change Unfolds _ (perform _ s.call) s.issued rest at hunfolds
      rw [hs, hdone _ rfl] at hunfolds
      obtain ⟨stop, ⟨-, ⟨error, he⟩, -⟩ | ⟨rm, hstop, hrm, hissued⟩⟩ := Docker.unfolds_stopped hunfolds
      · cases he
      · rw [List.flatMap_singleton]
        show Removed _ _ _ s.issued
        rw [hissued]
        exact .cleanly hstop (hrm.2 rfl)
  | @killed _ s k ending reply hs hfailed hk =>
      obtain ⟨-, rest, hunfolds, hdone⟩ := hsound ⟨k, .answered reply⟩ (by simp)
      change Unfolds _ (perform _ k.call) k.issued rest at hunfolds
      rw [hk, hdone _ rfl] at hunfolds
      obtain ⟨kill, rm', hkill⟩ := Docker.unfolds_killed hunfolds
      have hissued : ([⟨s, ending⟩, ⟨k, .answered reply⟩] : List Ended).flatMap
          (fun e => e.task.issued) = s.issued ++ k.issued := by simp
      rw [hissued, hkill]
      obtain ⟨stop, ⟨hs, hstop⟩ | ⟨rm, hstop, hrm, hs⟩⟩ := failed_stop hs (hsound _ (by simp)) hfailed
      · rw [hs]
        exact .unstopped hstop
      · rw [hs]
        exact .unremoved hstop hrm

end Book

/-! ## The names of the containers -/

/-- The container that is handed over with an answer. -/
def started? : JobId × Container.Reply → Option Handle
  | (_, .start (.ok handle)) => some handle
  | _ => none

theorem handed?_eq (action : Action) : action.handed? = (reply? action).bind started? := by
  cases action with
  | answer job reply =>
      cases reply with
      | container reply =>
          cases reply with
          | start result => cases result <;> rfl
          | stop | kill | probe => rfl
      | volume => rfl
  | _ => rfl

/-- The container that a task was answered. -/
def Ended.started? (e : Ended) : Option Handle := e.reply?.bind Simulation.started?

namespace Ended

variable {e : Ended}

theorem ending_of_reply {job : JobId} {reply : Container.Reply} (h : e.reply? = some (job, reply)) :
    e.task.job = job ∧ e.ending = .answered reply := by
  unfold reply? at h
  split at h
  next he =>
    obtain ⟨rfl, rfl⟩ := Prod.mk.inj (Option.some.inj h)
    exact ⟨rfl, he⟩
  next => cases h

/-- **A start that was answered** issued an `rm -f` and a `run`, which decides what it was answered. -/
theorem Sound.start (hsound : e.Sound client) {result : Except Container.Error Handle}
    (hending : e.ending = .answered (.start result)) :
    ∃ (service : Service) (volumes : List Volume) (stale run : Outcome),
      e = ⟨⟨e.task.job, .start service volumes,
        [⟨["rm", "-f", containerName client.project service.id], stale⟩,
          ⟨runArguments client.project service volumes, run⟩]⟩, .answered (.start result)⟩ ∧
      Decides service run result := by
  obtain ⟨⟨job, call, issued⟩, ending⟩ := e
  obtain rfl : ending = _ := hending
  obtain ⟨-, rest, hunfolds, hdone⟩ := hsound
  rw [hdone _ rfl] at hunfolds
  have htakes : call.Takes (.start result) := Docker.takes_of_unfolds hunfolds
  cases call with
  | start service volumes =>
      obtain ⟨stale, run, result', hresult, hissued, hdecides⟩ := Docker.unfolds_started hunfolds
      obtain rfl := Container.Reply.start.inj hresult
      obtain rfl : issued = _ := hissued
      exact ⟨service, volumes, stale, run, rfl, hdecides⟩
  | stop | kill | probe => exact htakes.elim

/-- A container that was handed over was run, under the name that was printed. -/
theorem Sound.ran (hsound : e.Sound client) {h : Handle} (hstarted : e.started? = some h) :
    h.id ∈ e.task.lines.filterMap fun line => line.command.ran? := by
  obtain ⟨⟨job, reply⟩, hreply, hs⟩ := Option.bind_eq_some_iff.1 hstarted
  unfold Simulation.started? at hs
  split at hs
  next heq =>
    obtain ⟨rfl, rfl⟩ := Prod.mk.inj heq
    obtain ⟨service, volumes, stale, run, he, hdecides⟩ := hsound.start (ending_of_reply hreply).2
    obtain ⟨stdout, stderr, rfl, hname⟩ := (hdecides.runs h).1
      (congrArg Except.ok (Option.some.inj hs))
    refine List.mem_filterMap.2 ⟨⟨.start service volumes,
      ⟨runArguments client.project service volumes, .exited 0 stdout stderr⟩⟩, ?_, ?_⟩
    · rw [he]
      exact List.mem_cons_of_mem _ (List.mem_singleton_self _)
    · rw [hname]
      rfl
  next => cases hs

end Ended

/-- The names of the containers that were handed over were printed, each for a `run` of its own. -/
theorem names_sublist {ended : List Ended} (hsound : ∀ e ∈ ended, e.Sound client) :
    ((ended.filterMap Ended.started?).map Handle.id).Sublist
      (ended.flatMap fun e => e.task.lines.filterMap fun line => line.command.ran?) := by
  induction ended with
  | nil => exact .slnil
  | cons e ended ih =>
      have hrest := ih fun e he => hsound e (.tail _ he)
      rw [List.flatMap_cons, List.filterMap_cons]
      split
      next => exact hrest.trans (List.sublist_append_right _ _)
      next h hs =>
        have hran := (hsound e List.mem_cons_self).ran hs
        exact (List.singleton_sublist.2 hran).append hrest

namespace Book.Tells

variable {b : Book} {past : List (Moment t)} {x : Setting (client.engine machine) t}

theorem started_eq (htells : b.Tells past x) :
    b.ended.filterMap Ended.started? = (handedOver past).reverse := by
  have hreplies := congrArg (List.filterMap started?) htells.replies
  show b.ended.filterMap (fun e => e.reply?.bind started?) = _
  simpa only [List.filterMap_reverse, List.filterMap_filterMap, handedOver, handed?_eq] using hreplies

/-- **Where different names are printed** no container is handed over twice, nor two of one name. -/
theorem nodup_names (htells : b.Tells past x) (hran : b.ran.Nodup) :
    ((handedOver past).map Handle.id).Nodup := by
  have hperm := htells.faithful.log.filterMap fun line => line.command.ran?
  rw [List.filterMap_append, List.filterMap_flatMap] at hperm
  have hprinted := (List.nodup_append.1 (hperm.nodup_iff.1 hran)).1
  have hnames := hprinted.sublist (names_sublist htells.faithful.ended)
  rw [htells.started_eq, List.map_reverse] at hnames
  exact List.nodup_reverse.1 hnames

/-- What is answered to a start comes from a task that has ended. -/
theorem start_answered (htells : b.Tells past x) {m : Moment t} (hm : m ∈ past) {job : JobId}
    {result : Except Container.Error Handle}
    (ha : m.action = .answer job (.container (.start result))) :
    ∃ e ∈ b.ended, e.task.job = job ∧ e.ending = .answered (.start result) := by
  have hreply : (job, Container.Reply.start result) ∈ b.ended.filterMap Ended.reply? := by
    rw [htells.replies, List.mem_reverse]
    exact List.mem_filterMap.2 ⟨m, hm, by rw [ha]; rfl⟩
  obtain ⟨e, he, hreply⟩ := List.mem_filterMap.1 hreply
  exact ⟨e, he, Ended.ending_of_reply hreply⟩

/-- **A container that ran was handed over**, once nothing is under way any more. -/
theorem handed_of_ran (htells : b.Tells past x) (htasks : b.tasks = []) {id : String}
    (hid : id ∈ b.ran) : ∃ h ∈ handedOver past, h.id = id := by
  obtain ⟨line, hline, hran⟩ := List.mem_filterMap.1 hid
  have hline' := htells.faithful.log.mem_iff.1 hline
  rw [htasks, List.flatMap_nil, List.append_nil] at hline'
  obtain ⟨e, he, hline'⟩ := List.mem_flatMap.1 hline'
  obtain ⟨command, hcommand, rfl⟩ := List.mem_map.1 hline'
  have hsound := htells.faithful.ended e he
  obtain ⟨rest, hunfolds, hdone⟩ := hsound.unfolds
  obtain ⟨service, volumes, hcall⟩ := Docker.exists_start hunfolds hcommand hran
  -- Nobody has left the start, so it was answered, and by its `run`.
  cases hending : e.ending with
  | withdrawn => exact absurd hcall (htells.starts e he hending service volumes)
  | answered reply =>
      rw [hdone reply hending] at hunfolds
      rw [hcall] at hunfolds
      obtain ⟨stale, run, result, rfl, hissued, hdecides⟩ := Docker.unfolds_started hunfolds
      obtain ⟨hhead, stdout, stderr, houtcome, rfl⟩ := Docker.Issued.head?_of_ran hran
      rw [hissued] at hcommand
      obtain rfl | hcommand := List.mem_cons.1 hcommand
      · simp at hhead
      obtain rfl := List.mem_singleton.1 hcommand
      obtain rfl : result = .ok ⟨service.id, Docker.printed stdout⟩ :=
        (hdecides.runs _).2 ⟨stdout, stderr, houtcome, rfl⟩
      refine ⟨⟨service.id, Docker.printed stdout⟩, ?_, rfl⟩
      rw [← List.mem_reverse, ← htells.started_eq]
      refine List.mem_filterMap.2 ⟨e, he, ?_⟩
      simp [Ended.started?, Ended.reply?, hending, started?]

/-- What was issued was issued for something that a job asked for. -/
theorem asked_of_log (htells : b.Tells past x) {line : Line} (hline : line ∈ b.log) :
    ∃ m ∈ past, ∃ job, .asks job (.container line.call) ∈ m.effects := by
  have hof {task : Task} (htask : task ∈ b.tasks ∨ task ∈ b.ended.map Ended.task)
      (hline : line ∈ task.lines) : ∃ m ∈ past, ∃ job, .asks job (.container line.call) ∈ m.effects := by
    obtain ⟨command, -, rfl⟩ := List.mem_map.1 hline
    obtain ⟨m, hm, hasks⟩ := htells.asked task htask
    exact ⟨m, hm, task.job, hasks⟩
  rcases List.mem_append.1 (htells.faithful.log.mem_iff.1 hline) with hline | hline
  · obtain ⟨e, he, hline⟩ := List.mem_flatMap.1 hline
    exact hof (.inr (List.mem_map_of_mem he)) hline
  · obtain ⟨task, htask, hline⟩ := List.mem_flatMap.1 hline
    exact hof (.inl htask) hline

/-- Once all jobs are at their end, the engine works on nothing. -/
theorem tasks_eq_nil (htells : b.Tells past x) (hfinished : ∀ (id : Nat) (job : Job t.size),
    x.controller.jobs[id]? = some job → job.isFinished) : b.tasks = [] := by
  refine List.eq_nil_iff_forall_not_mem.2 fun task hm => ?_
  obtain ⟨job, hj, hexpects⟩ := htells.expected task hm
  have hfinished := hfinished _ _ hj
  cases job with
  | start job =>
      rw [Job.Expects, Job.isFinished_start.1 hfinished] at hexpects
      exact hexpects
  | stop job =>
      rw [Job.Expects, Job.isFinished_stop.1 hfinished] at hexpects
      exact hexpects
  | launch l =>
      rw [Job.Expects, Job.isFinished_launch.1 hfinished] at hexpects
      exact hexpects

end Book.Tells

/-- Where nothing is outstanding, all jobs are at their end. -/
theorem finished_of_quiet {config : Config} {past : List (Moment t)} {c : Controller t} {now : Nat}
    (run : Controller.Run (Controller.fresh t config) past c) (hquiet : c.Quiet now) {id : Nat}
    {job : Job t.size} (hj : c.jobs[id]? = some job) : job.isFinished := by
  obtain ⟨hstarts, hlaunches⟩ := hquiet.finished run.ordered run.linked
  cases job with
  | start job => exact Job.isFinished_start.2 (hstarts id job hj)
  | launch l => exact Job.isFinished_launch.2 (hlaunches id l hj)
  | stop job =>
      refine Job.isFinished_stop.2 (Classical.byContradiction fun hn => ?_)
      obtain ⟨k, call, hk, hw⟩ := run.stopsWatched id job hj hn
      obtain ⟨answer, time, hp⟩ := Controller.Call.phase_of_answer (hquiet.answered k call hk)
      rcases hw with ⟨hw, -⟩ | ⟨s, hw⟩ <;> rw [hp] at hw <;> cases hw

/-! ## All containers -/

namespace Setting.Recorded

variable {start x : Setting (client.engine machine) t} {past : List (Moment t)} {b : Book}
  {config : Config}

/-- The commands for the name of a container that was handed over are those that halt it. -/
theorem haltsOf_eq (hstart : start.controller = Controller.fresh t config)
    (hongoing : start.ongoing = []) (record : Recorded start past b x) (hran : b.ran.Nodup) {h : Handle}
    (hh : h ∈ handedOver past) : b.haltsOf h.id = (b.haltLog h).map Line.command := by
  have htells := record.tells hstart hongoing
  have hnames := htells.nodup_names hran
  have hrun := record.controller hstart
  refine congrArg (List.map Line.command) (List.filter_congr fun line hline => Bool.eq_iff_iff.2 ?_)
  obtain ⟨m, hm, job, hasks⟩ := htells.asked_of_log hline
  -- Whatever else is halted was handed over as well, under another name.
  have hsame (h' : Handle) (hhalts : halts h' line.call) (hid : h'.id = h.id) : h' = h :=
    List.inj_on_of_nodup_map hnames
      (handed_of_halts hrun hnames.of_map hm hasks hhalts) hh hid
  revert hsame
  cases line.call with
  | stop handle _ | kill handle =>
      intro hsame
      refine ⟨fun hid => ?_, fun hhalts => ?_⟩
      · exact decide_eq_true (hsame handle (decide_eq_true rfl) (of_decide_eq_true hid))
      · exact decide_eq_true (congrArg Handle.id (of_decide_eq_true hhalts))
  | start | probe => exact fun _ => Iff.rfl

/-- What was issued for a container that was handed over, once nothing is outstanding after a stop. -/
theorem removed_of_handed (ht : t.Built) (hstart : start.controller = Controller.fresh t config)
    (hongoing : start.ongoing = []) (record : Recorded start past b x) (hlast : x.controller.StopsLast)
    (hstop : x.controller.Stopping) (hquiet : x.controller.Quiet x.now) (hran : b.ran.Nodup)
    {h : Handle} (hh : h ∈ handedOver past) :
    Removed config.stopTimeout h.id (TimedOut past config.stopTimeout h.id) (b.haltsOf h.id) := by
  have htells := record.tells hstart hongoing
  have hrun := record.controller hstart
  have hone : (handedOver past).Nodup := (htells.nodup_names hran).of_map
  have htasks : b.tasks = [] := htells.tasks_eq_nil fun _ _ hj => finished_of_quiet hrun hquiet hj
  have hhalting : b.halting h = [] := by rw [Book.halting, htasks, List.filter_nil]
  obtain ⟨hcourse, horder⟩ := record.course hstart hongoing hone h
  rw [hhalting] at hcourse
  have hremoved := hcourse.removed (stopRequests_pos ht hrun hlast hstop hquiet hh)
    fun e he => htells.faithful.ended e (List.mem_filter.1 he).1
  have hcommands : b.haltsOf h.id = (b.halted h).flatMap fun e => e.task.issued := by
    rw [record.haltsOf_eq hstart hongoing hran hh, horder, hhalting, List.flatMap_nil, List.append_nil,
      List.map_flatMap]
    simp only [Book.command_lines]
  rw [hcommands]
  exact hremoved.imp (timedOut_of_cutShort hrun)

/-- **Every container that ran is removed.** In every run of a fresh controller of a built topology, whatever
the machine makes of the commands, what a start is answered is decided by its `run`. And where every start
is called before every stop, there is a stop, nothing is outstanding, and no name was printed twice, the
commands for each name that was printed are of one of three forms, and the last of them removes the
container. -/
theorem removes (ht : t.Built) (hstart : start.controller = Controller.fresh t config)
    (hongoing : start.ongoing = []) (record : Recorded start past b x) :
    (∀ m ∈ past, ∀ (job : JobId) (result : Except Container.Error Handle),
      m.action = .answer job (.container (.start result)) →
      ∃ (service : Service) (volumes : List Volume) (stale run : Outcome),
        ⟨⟨job, .start service volumes,
          [⟨["rm", "-f", containerName client.project service.id], stale⟩,
            ⟨runArguments client.project service volumes, run⟩]⟩, .answered (.start result)⟩ ∈ b.ended ∧
        Decides service run result) ∧
    (x.controller.StopsLast → x.controller.Stopping → x.controller.Quiet x.now → b.ran.Nodup →
      ∀ id ∈ b.ran, Removed config.stopTimeout id (TimedOut past config.stopTimeout id) (b.haltsOf id) ∧
        ∃ command ∈ (b.haltsOf id).getLast?,
          command.arguments = ["rm", id] ∨ command.arguments = ["rm", "-f", id]) := by
  have htells := record.tells hstart hongoing
  constructor
  · intro m hm job result ha
    obtain ⟨e, he, rfl, hending⟩ := htells.start_answered hm ha
    obtain ⟨service, volumes, stale, run, heq, hdecides⟩ := (htells.faithful.ended e he).start hending
    exact ⟨service, volumes, stale, run, heq ▸ he, hdecides⟩
  · intro hlast hstop hquiet hran id hid
    have hrun := record.controller hstart
    have htasks := htells.tasks_eq_nil fun _ _ hj => finished_of_quiet hrun hquiet hj
    obtain ⟨h, hh, rfl⟩ := htells.handed_of_ran htasks hid
    have hremoved := record.removed_of_handed ht hstart hongoing hlast hstop hquiet hran hh
    exact ⟨hremoved, hremoved.last⟩

/-! ### A container that is not removed at once -/

theorem stopsLast_of_operations {c : Controller t}
    (hrestart : ∀ service, .restart service ∉ c.calls.toList.map Lifecycle.Call.operation)
    (horder : (c.calls.toList.map Lifecycle.Call.operation).Pairwise fun o o' =>
      o = .stopAll → o' ≠ .startAll) : c.StopsLast := by
  have hget {k : Nat} {call : Lifecycle.Call t.size} (hk : c.calls[k]? = some call) :
      (c.calls.toList.map Lifecycle.Call.operation)[k]? = some call.operation := by
    rw [List.getElem?_map, Array.getElem?_toList, hk]
    rfl
  refine fun k call hk => ⟨fun service ho => hrestart service ?_, fun ho k' call' hk' ho' => ?_⟩
  · exact List.mem_of_getElem? (ho ▸ hget hk)
  · obtain ⟨hlt, hk⟩ := List.getElem?_eq_some_iff.1 (ho ▸ hget hk)
    obtain ⟨hlt', hk'⟩ := List.getElem?_eq_some_iff.1 (ho' ▸ hget hk')
    rcases Nat.lt_trichotomy k k' with h | rfl | h
    · exact h
    · cases hk.symm.trans hk'
    · exact absurd hk (List.pairwise_iff_getElem.1 horder k' k hlt' hlt h hk')

theorem quiet_of_finished {c : Controller t} (now : Nat)
    (hcalls : c.calls.toList.all fun call => call.answer?.isSome)
    (hjobs : c.jobs.toList.all Job.isFinished) : c.Quiet now where
  answered k call hk := List.all_eq_true.1 hcalls call (List.mem_of_getElem? (by simpa using hk))
  idle id l hl := by
    have hfinished : l.phase = .finished := Job.isFinished_launch.1
      (List.all_eq_true.1 hjobs _ (List.mem_of_getElem? (i := id) (by simpa using hl)))
    refine ⟨by simp [hfinished], by rw [hfinished]; rfl, ?_⟩
    simp [Controller.step, hl, Controller.runLaunch, hfinished]

/-- A database on a machine where the container is named `f00d`, with a blank before it and a line feed
behind. It cannot be removed after it has stopped, and cannot be killed. -/
def stubborn : Setting (Docker.Client.engine ⟨"demo", "docker"⟩ Docker.Scripted.machine)
    Controller.solo where
  controller := .fresh Controller.solo default
  engine := { rules := [
    { leading := ["run"], replies := [{ stdout := " f00d\n".toUTF8.toList }] },
    { leading := ["rm", "f00d"], replies := [{ code := 1 }] },
    { leading := ["kill", "f00d"], replies := [{ code := 1 }] }] }

/-- Its start is cancelled and it is stopped while the container is on its way. The container comes
afterwards, and is halted. -/
def stubbornEvents : List Event :=
  [.control 0 (.invoke .startAll), .control 0 (.run 0), .control 0 (.run 0), .control 0 (.run 1),
    .resume 0 1, .pass 10, .control 0 (.invoke .cancel), .control 0 (.proceed 1),
    .control 0 (.proceed 1), .control 0 (.invoke .stopAll), .control 0 (.run 0), .control 0 (.run 0),
    .control 0 (.run 2), .control 0 (.run 2), .control 0 (.run 2), .control 0 (.proceed 0),
    .control 0 (.proceed 0), .control 0 (.proceed 0), .control 0 (.proceed 2),
    .control 0 (.proceed 2), .control 0 (.proceed 2), .pass 20, .resume 0 1, .control 0 (.run 1),
    .resume 0 1, .resume 0 1, .resume 0 1, .resume 0 1]

/-- What the container is to be halted with. -/
def stubbornHalt : List Issued :=
  [⟨["stop", "-t", "10", "f00d"], .exited 0 [] []⟩, ⟨["rm", "f00d"], .exited 1 [] []⟩,
    ⟨["kill", "f00d"], .exited 1 [] []⟩, ⟨["rm", "-f", "f00d"], .exited 0 [] []⟩]

/-- The theorem at the end of that run. -/
theorem removes_stubborn : ∃ (past : List (Moment Controller.solo)) (b : Book)
    (x : Setting (Docker.Client.engine ⟨"demo", "docker"⟩ Docker.Scripted.machine) Controller.solo),
    Controller.solo.Built ∧ stubborn.controller = Controller.fresh Controller.solo default ∧
    stubborn.ongoing = [] ∧ Recorded stubborn past b x ∧
    (∃ m ∈ past, ∃ job result, m.action = .answer job (.container (.start result)) ∧
      ∃ (service : Service) (volumes : List Volume) (stale run : Outcome),
        ⟨⟨job, .start service volumes, [⟨["rm", "-f", containerName "demo" service.id], stale⟩,
          ⟨runArguments "demo" service volumes, run⟩]⟩, .answered (.start result)⟩ ∈ b.ended ∧
        Decides service run result) ∧
    x.controller.StopsLast ∧ x.controller.Stopping ∧ x.controller.Quiet x.now ∧ b.ran = ["f00d"] ∧
    b.haltsOf "f00d" = stubbornHalt ∧
    Removed (Config.stopTimeout default) "f00d" (TimedOut past (Config.stopTimeout default) "f00d")
      stubbornHalt := by
  obtain ⟨past, b, x, record, shown⟩ := exists_recorded stubborn stubbornEvents
    (fun past b x => (handedOver past).length = 1 &&
      x.controller.calls.toList.map Lifecycle.Call.operation = [.startAll, .cancel, .stopAll] &&
      (x.controller.calls.toList.all fun call => call.answer?.isSome) &&
      x.controller.jobs.toList.all Job.isFinished && b.ran = ["f00d"] &&
      b.haltsOf "f00d" = stubbornHalt)
    (by decide +kernel)
  simp only [Bool.and_eq_true, decide_eq_true_iff] at shown
  obtain ⟨⟨⟨⟨⟨hhanded, hcalls⟩, hanswered⟩, hjobs⟩, hran⟩, hhalts⟩ := shown
  have hlast : x.controller.StopsLast := by
    refine stopsLast_of_operations ?_ ?_ <;> rw [hcalls]
    · simp
    · decide
  have hstop : x.controller.Stopping := by
    have hmem : Lifecycle.Operation.stopAll ∈ x.controller.calls.toList.map Lifecycle.Call.operation := by
      simp [hcalls]
    obtain ⟨call, hcall, ho⟩ := List.mem_map.1 hmem
    obtain ⟨k, hk⟩ := List.getElem?_of_mem hcall
    exact ⟨k, call, by simpa using hk, ho⟩
  have hquiet := quiet_of_finished x.now hanswered hjobs
  obtain ⟨hstarts, hremoves⟩ := record.removes Controller.solo_built rfl rfl
  obtain ⟨h, hh⟩ := List.length_pos_iff_exists_mem.1 (hhanded ▸ Nat.one_pos)
  obtain ⟨m, hm, hhanded⟩ := List.mem_filterMap.1 hh
  obtain ⟨job, ha⟩ : ∃ job, m.action = .answer job (.container (.start (.ok h))) := by
    unfold Action.handed? at hhanded
    split at hhanded
    next he => exact ⟨_, Option.some.inj hhanded ▸ he⟩
    next => cases hhanded
  have hremoved := hremoves hlast hstop hquiet (by simp [hran]) "f00d" (by simp [hran])
  rw [hhalts] at hremoved
  exact ⟨past, b, x, Controller.solo_built, rfl, rfl, record,
    ⟨m, hm, job, _, ha, hstarts m hm job _ ha⟩, hlast, hstop, hquiet, hran, hhalts, hremoved.1⟩

end Setting.Recorded

end Bringup.Simulation
