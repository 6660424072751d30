import Bringup.Lifecycle.Controller

/-!
# Reading after writing

What the readers of a controller see after each of its writers: a writer changes the slot, the job or
the counter it is meant for and leaves everything else alone.

`total` adds up a weight over all jobs. Replacing a job changes a total by the difference of two
weights, and creating jobs adds theirs, so whatever is counted over the jobs of a controller is
followed through a step by arithmetic.
-/

namespace Bringup.Lifecycle

/-- The service that a job works for. -/
def Job.service {n : Nat} : Job n → Fin n
  | .start job => job.service
  | .stop job => job.service
  | .launch job => job.service

@[simp] theorem Job.service_start {n : Nat} (job : StartJob n) :
    (Job.start job).service = job.service := rfl

@[simp] theorem Job.service_stop {n : Nat} (job : StopJob n) :
    (Job.stop job).service = job.service := rfl

@[simp] theorem Job.service_launch {n : Nat} (job : Launch n) :
    (Job.launch job).service = job.service := rfl

@[simp] theorem Job.isFinished_start {n : Nat} {job : StartJob n} :
    (Job.start job).isFinished = true ↔ job.phase = .finished := by
  obtain ⟨service, run, claimed, phase⟩ := job
  cases phase <;> simp [Job.isFinished]

@[simp] theorem Job.isFinished_stop {n : Nat} {job : StopJob n} :
    (Job.stop job).isFinished = true ↔ job.phase = .finished := by
  obtain ⟨service, phase⟩ := job
  cases phase <;> simp [Job.isFinished]

@[simp] theorem Job.isFinished_launch {n : Nat} {job : Launch n} :
    (Job.launch job).isFinished = true ↔ job.phase = .finished := by
  obtain ⟨service, orphaned, phase⟩ := job
  cases phase <;> simp [Job.isFinished]

/-! ## Weights -/

section

variable {α : Type} {weight : α → Nat}

/-- The sum of a weight over the members of a list. -/
def weigh (weight : α → Nat) (xs : List α) : Nat := xs.foldr (fun x n => weight x + n) 0

@[simp] theorem weigh_nil : weigh weight [] = 0 := rfl

@[simp] theorem weigh_cons (x : α) (xs : List α) :
    weigh weight (x :: xs) = weight x + weigh weight xs := rfl

theorem weigh_append (xs ys : List α) :
    weigh weight (xs ++ ys) = weigh weight xs + weigh weight ys := by
  induction xs with
  | nil => simp
  | cons x xs ih => rw [List.cons_append, weigh_cons, weigh_cons, ih, Nat.add_assoc]

theorem weigh_eq_zero {xs : List α} (h : ∀ x ∈ xs, weight x = 0) : weigh weight xs = 0 := by
  induction xs with
  | nil => rfl
  | cons x xs ih =>
      rw [weigh_cons, h x List.mem_cons_self, ih fun y hy => h y (List.mem_cons_of_mem _ hy)]

theorem weigh_le_weigh {weight' : α → Nat} {xs : List α} (h : ∀ x ∈ xs, weight x ≤ weight' x) :
    weigh weight xs ≤ weigh weight' xs := by
  induction xs with
  | nil => exact Nat.le_refl _
  | cons x xs ih =>
      exact Nat.add_le_add (h x List.mem_cons_self) (ih fun y hy => h y (List.mem_cons_of_mem _ hy))

theorem le_weigh_of_mem (weight : α → Nat) {x : α} {xs : List α} (h : x ∈ xs) :
    weight x ≤ weigh weight xs := by
  induction xs with
  | nil => cases h
  | cons y ys ih =>
      rw [weigh_cons]
      rcases List.mem_cons.1 h with rfl | h
      · exact Nat.le_add_right _ _
      · exact Nat.le_trans (ih h) (Nat.le_add_left _ _)

theorem weigh_set (weight : α → Nat) {xs : List α} {i : Nat} {x : α} (h : xs[i]? = some x) (y : α) :
    weigh weight (xs.set i y) + weight x = weigh weight xs + weight y := by
  induction xs generalizing i with
  | nil => simp at h
  | cons z zs ih =>
      cases i with
      | zero =>
          obtain rfl := Option.some.inj h
          simp only [List.set_cons_zero, weigh_cons]
          omega
      | succ i =>
          have := ih h
          simp only [List.set_cons_succ, weigh_cons]
          omega

theorem le_weigh (weight : α → Nat) {xs : List α} {i : Nat} {x : α} (h : xs[i]? = some x) :
    weight x ≤ weigh weight xs := by
  induction xs generalizing i with
  | nil => simp at h
  | cons z zs ih =>
      rw [weigh_cons]
      cases i with
      | zero =>
          obtain rfl := Option.some.inj h
          omega
      | succ i =>
          have := ih h
          omega

theorem add_le_weigh (weight : α → Nat) {xs : List α} {i j : Nat} {x y : α} (hne : i ≠ j)
    (hx : xs[i]? = some x) (hy : xs[j]? = some y) : weight x + weight y ≤ weigh weight xs := by
  induction xs generalizing i j with
  | nil => simp at hx
  | cons z zs ih =>
      rw [weigh_cons]
      match i, j with
      | 0, 0 => exact absurd rfl hne
      | 0, j + 1 =>
          obtain rfl := Option.some.inj hx
          have : weight y ≤ weigh weight zs := le_weigh weight hy
          omega
      | i + 1, 0 =>
          obtain rfl := Option.some.inj hy
          have : weight x ≤ weigh weight zs := le_weigh weight hx
          omega
      | i + 1, j + 1 =>
          have := ih (by omega) hx hy
          omega

end

namespace Controller

variable {t : Topology} (c : Controller t)

/-! ## Slots -/

@[simp] theorem slot_setSlot_self (s : Fin t.size) (slot : Slot) :
    (c.setSlot s slot).slot s = slot := by
  simp [Controller.slot, setSlot]

theorem slot_setSlot_of_ne {s s' : Fin t.size} (h : s' ≠ s) (slot : Slot) :
    (c.setSlot s slot).slot s' = c.slot s' := by
  have hv : (s : Nat) ≠ s' := fun e => h (Fin.ext e.symm)
  simp [Controller.slot, setSlot, Vector.getElem_set_ne _ _ hv]

theorem slot_setSlot (s s' : Fin t.size) (slot : Slot) :
    (c.setSlot s slot).slot s' = if s' = s then slot else c.slot s' := by
  split
  next h => rw [h, slot_setSlot_self]
  next h => rw [slot_setSlot_of_ne c h]

@[simp] theorem setSlot_slot (s : Fin t.size) : c.setSlot s (c.slot s) = c := by
  simp [setSlot, Controller.slot]

@[simp] theorem setSlot_setSlot (s : Fin t.size) (slot slot' : Slot) :
    (c.setSlot s slot).setSlot s slot' = c.setSlot s slot' := by
  simp [setSlot]

@[simp] theorem slot_setJob (id : Nat) (job : Job t.size) (s : Fin t.size) :
    (c.setJob id job).slot s = c.slot s := rfl

@[simp] theorem slot_spawn (jobs : List (Job t.size)) (s : Fin t.size) :
    (c.spawn jobs).slot s = c.slot s := rfl

@[simp] theorem slot_arm (s : Fin t.size) : c.arm.slot s = c.slot s := by
  unfold arm
  split <;> rfl

/-! ## Jobs -/

@[simp] theorem jobs_setSlot (s : Fin t.size) (slot : Slot) : (c.setSlot s slot).jobs = c.jobs := rfl

@[simp] theorem jobs_cancelRuns : c.cancelRuns.jobs = c.jobs := rfl

@[simp] theorem jobs_arm : c.arm.jobs = c.jobs := by
  unfold arm
  split <;> rfl

@[simp] theorem size_jobs_setJob (id : Nat) (job : Job t.size) :
    (c.setJob id job).jobs.size = c.jobs.size := by
  simp [setJob]

theorem jobs_setJob_self {id : Nat} (h : id < c.jobs.size) (job : Job t.size) :
    (c.setJob id job).jobs[id]? = some job := by
  simp [setJob, h]

theorem jobs_setJob_of_ne {id i : Nat} (h : i ≠ id) (job : Job t.size) :
    (c.setJob id job).jobs[i]? = c.jobs[i]? := by
  simp [setJob, Array.getElem?_setIfInBounds_ne (Ne.symm h)]

theorem jobs_spawn (jobs : List (Job t.size)) : (c.spawn jobs).jobs = c.jobs ++ jobs.toArray := by
  apply Array.ext'
  simp [spawn]

theorem jobs_spawn_of_lt {id : Nat} (h : id < c.jobs.size) (jobs : List (Job t.size)) :
    (c.spawn jobs).jobs[id]? = c.jobs[id]? := by
  rw [jobs_spawn, Array.getElem?_append_left h]

theorem jobs_spawn_of_ge {id : Nat} (h : c.jobs.size ≤ id) (jobs : List (Job t.size)) :
    (c.spawn jobs).jobs[id]? = jobs[id - c.jobs.size]? := by
  rw [jobs_spawn, Array.getElem?_append_right h, List.getElem?_toArray]

@[simp] theorem size_jobs_spawn (jobs : List (Job t.size)) :
    (c.spawn jobs).jobs.size = c.jobs.size + jobs.length := by
  simp [jobs_spawn]

theorem lt_size_of_job {c : Controller t} {id : Nat} {job : Job t.size}
    (h : c.jobs[id]? = some job) : id < c.jobs.size :=
  (Array.getElem?_eq_some_iff.1 h).1

theorem isFinished_of_job {c : Controller t} {id : Nat} {job : Job t.size}
    (h : c.jobs[id]? = some job) : c.isFinished id = job.isFinished := by
  simp [isFinished, h]

theorem spawn_setJob {id : Nat} (h : id < c.jobs.size) (job : Job t.size)
    (jobs : List (Job t.size)) : (c.setJob id job).spawn jobs = (c.spawn jobs).setJob id job := by
  have hj : ((c.setJob id job).spawn jobs).jobs = ((c.spawn jobs).setJob id job).jobs := by
    apply Array.ext_getElem?
    intro i
    by_cases hi : i < c.jobs.size
    · by_cases he : i = id
      · subst he
        rw [jobs_spawn_of_lt _ (by simpa using hi), jobs_setJob_self _ h, jobs_setJob_self]
        simp only [size_jobs_spawn]
        omega
      · rw [jobs_spawn_of_lt _ (by simpa using hi), jobs_setJob_of_ne _ he, jobs_setJob_of_ne _ he,
          jobs_spawn_of_lt _ hi]
    · rw [jobs_spawn_of_ge _ (by simpa using hi), jobs_setJob_of_ne _ (by omega),
        jobs_spawn_of_ge _ (by omega), size_jobs_setJob]
  simpa [spawn, setJob] using hj

/-! ## Totals -/

/-- The sum of a weight over all jobs. -/
def total (weight : Job t.size → Nat) : Nat := weigh weight c.jobs.toList

variable {c}

/-- **Replacing a job** changes a total by the difference of the two weights. -/
theorem total_setJob (weight : Job t.size → Nat) {id : Nat} {old : Job t.size}
    (h : c.jobs[id]? = some old) (new : Job t.size) :
    (c.setJob id new).total weight + weight old = c.total weight + weight new := by
  have hl : c.jobs.toList[id]? = some old := by simpa using h
  simpa [total, setJob] using weigh_set weight hl new

@[simp] theorem total_setSlot (weight : Job t.size → Nat) (s : Fin t.size) (slot : Slot) :
    (c.setSlot s slot).total weight = c.total weight := rfl

@[simp] theorem total_spawn (weight : Job t.size → Nat) (jobs : List (Job t.size)) :
    (c.spawn jobs).total weight = c.total weight + weigh weight jobs := by
  simp [total, spawn, weigh_append]

/-- A total is at least each of its summands. -/
theorem le_total (weight : Job t.size → Nat) {id : Nat} {job : Job t.size}
    (h : c.jobs[id]? = some job) : weight job ≤ c.total weight := by
  have hl : c.jobs.toList[id]? = some job := by simpa using h
  exact le_weigh weight hl

/-- A total is at least the sum of two of its summands. -/
theorem add_le_total (weight : Job t.size → Nat) {id id' : Nat} {job job' : Job t.size}
    (hne : id ≠ id') (h : c.jobs[id]? = some job) (h' : c.jobs[id']? = some job') :
    weight job + weight job' ≤ c.total weight := by
  have hl : c.jobs.toList[id]? = some job := by simpa using h
  have hl' : c.jobs.toList[id']? = some job' := by simpa using h'
  exact add_le_weigh weight hne hl hl'

/-- A total is zero when all its summands are. -/
theorem total_eq_zero_iff (weight : Job t.size → Nat) :
    c.total weight = 0 ↔ ∀ (id : Nat) (job : Job t.size), c.jobs[id]? = some job → weight job = 0 := by
  constructor
  · intro h id job hj
    have := le_total weight hj
    omega
  · intro h
    apply weigh_eq_zero
    intro job hm
    obtain ⟨id, hj⟩ := List.mem_iff_getElem?.1 hm
    exact h id job (by simpa using hj)

end Controller

end Bringup.Lifecycle
