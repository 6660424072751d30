import Bringup.Proofs.Volume.Owners

/-!
# What the answers about a volume add up to

From the requests that were served and their answers it can be told what became of a volume: whether it
is known, and which services it was bound to and freed from since it became known (`tenure`). It is bound
and freed by turns (`ByTurns`), and the table of bindings says nothing else (`Tells`); every request keeps
it so (`tells_serve`). The answers to the requests follow from that (`Lawful`). A request is answered by
what the table says of the volume that it names, and changes nothing of what it says of others
(`get?_serve_of_ne`), so the answers about a volume are those that are given when it alone is named
(`exchanges_filter`).
-/

namespace Bringup.Volume

/-- The volume that a request names. -/
def Request.volume : Request → VolumeId
  | .register volume => volume.id
  | .attach volume _ | .detach volume | .destroy volume | .binding volume => volume

/-- A request that was served, and its answer. -/
abbrev Exchange := Request × Except BindingError Answer

/-- A change of the service to which a volume is bound. -/
inductive Turn where
  | bound (service : ServiceId)
  | freed (service : ServiceId)
  deriving DecidableEq

namespace Turn

/-- Whether the volume was bound. -/
def isBound : Turn → Bool
  | .bound _ => true
  | .freed _ => false

/-- The change that an exchange tells of: the volume was newly bound, or taken from a service. -/
def of? : Exchange → Option Turn
  | (.attach _ service, .ok (.attached true)) => some (.bound service)
  | (.detach _, .ok (.detached (some service))) => some (.freed service)
  | _ => none

/-- To whom a volume is bound after some changes. -/
def holder? (turns : List Turn) : Option ServiceId :=
  match turns.getLast? with
  | some (.bound service) => some service
  | _ => none

/-- A volume is bound and freed by turns, each time freed from the service to which it was bound. -/
def ByTurns : List Turn → Prop
  | [] => True
  | [.bound _] => True
  | .bound service :: .freed service' :: rest => service' = service ∧ ByTurns rest
  | _ => False

@[simp] theorem holder?_concat_bound (turns : List Turn) (service : ServiceId) :
    holder? (turns ++ [.bound service]) = some service := by
  simp [holder?]

@[simp] theorem holder?_concat_freed (turns : List Turn) (service : ServiceId) :
    holder? (turns ++ [.freed service]) = none := by
  simp [holder?]

theorem holder?_cons_cons (first second : Turn) (rest : List Turn) (h : rest ≠ []) :
    holder? (first :: second :: rest) = holder? rest := by
  obtain ⟨third, rest, rfl⟩ := List.exists_cons_of_ne_nil h
  rw [holder?, holder?, List.getLast?_cons_cons, List.getLast?_cons_cons]

/-- A volume that is bound to nobody may be bound. -/
theorem ByTurns.bound {turns : List Turn} (h : ByTurns turns) (ho : holder? turns = none)
    (service : ServiceId) : ByTurns (turns ++ [.bound service]) := by
  fun_induction ByTurns turns with
  | case1 => trivial
  | case2 => cases ho
  | case3 first second rest ih =>
      refine ⟨h.1, ih h.2 ?_⟩
      cases rest with
      | nil => rfl
      | cons third rest => rwa [holder?_cons_cons _ _ _ (List.cons_ne_nil _ _)] at ho
  | case4 => exact h.elim

/-- A volume may be freed from the service to which it is bound. -/
theorem ByTurns.freed {turns : List Turn} {service : ServiceId} (h : ByTurns turns)
    (ho : holder? turns = some service) : ByTurns (turns ++ [.freed service]) := by
  fun_induction ByTurns turns with
  | case1 => cases ho
  | case2 first =>
      obtain rfl : first = service := Option.some.inj ho
      exact ⟨rfl, trivial⟩
  | case3 first second rest ih =>
      refine ⟨h.1, ih h.2 ?_⟩
      cases rest with
      | nil => cases ho
      | cons third rest => rwa [holder?_cons_cons _ _ _ (List.cons_ne_nil _ _)] at ho
  | case4 => exact h.elim

end Turn

open Turn (ByTurns holder?)

/-! ## Since a volume became known -/

/-- What an exchange makes of the changes since a volume became known. -/
def tenureAfter (volume : VolumeId) (tenure : Option (List Turn)) (exchange : Exchange) :
    Option (List Turn) :=
  if exchange.1.volume = volume then
    match tenure, exchange with
    | none, (.register _, _) => some []
    | none, _ => none
    | some _, (.destroy _, .ok _) => none
    | some turns, _ => some (turns ++ (Turn.of? exchange).toList)
  else tenure

/-- The changes since a volume last became known, if it is known, of some volumes known at the start and
some exchanges. -/
def tenure (volumes : List Volume) (volume : VolumeId) (log : List Exchange) : Option (List Turn) :=
  log.foldl (tenureAfter volume) (if volume ∈ volumes.map Volume.id then some [] else none)

/-- What answers about a volume obey, in terms of the exchanges before them. -/
structure Lawful (volumes : List Volume) (volume : VolumeId) (log : List Exchange) : Prop where
  /-- Since it became known the volume is bound and freed by turns. -/
  byTurns : ∀ {past future turns}, log = past ++ future → tenure volumes volume past = some turns →
    ByTurns turns
  /-- A volume that is bound to nobody is newly bound, one of the same service is not bound again, and
  one of another service is refused. -/
  attach : ∀ {past service answer future}, log = past ++ (.attach volume service, answer) :: future →
    answer = match tenure volumes volume past with
      | none => .error (.unknown volume)
      | some turns =>
        match holder? turns with
        | none => .ok (.attached true)
        | some owner => if owner = service then .ok (.attached false) else .error (.alreadyBound volume owner)
  detach : ∀ {past answer future}, log = past ++ (.detach volume, answer) :: future →
    answer = match tenure volumes volume past with
      | none => .error (.unknown volume)
      | some turns => .ok (.detached (holder? turns))
  /-- Just a volume that is known and bound to nobody can be forgotten. -/
  destroy : ∀ {past answer future}, log = past ++ (.destroy volume, answer) :: future →
    answer = match tenure volumes volume past with
      | none => .error (.unknown volume)
      | some turns =>
        match holder? turns with
        | none => .ok .destroyed
        | some owner => .error (.inUse volume owner)
  /-- The owner is the one of the last change, and the count is that of the times it was newly bound. -/
  binding : ∀ {past answer future}, log = past ++ (.binding volume, answer) :: future →
    match tenure volumes volume past with
    | none => answer = .ok (.binding none)
    | some turns => ∃ declared : Volume, declared.id = volume ∧
      answer = .ok (.binding (some ⟨declared, holder? turns, turns.countP Turn.isBound⟩))

namespace Bindings

variable {table table' : Bindings} {volume : VolumeId} {request : Request}

/-- The table after some requests. -/
def after (table : Bindings) : List Request → Bindings
  | [] => table
  | request :: rest => (table.serve request).1.after rest

/-- Some requests and their answers. -/
def exchanges (table : Bindings) : List Request → List Exchange
  | [] => []
  | request :: rest => (request, (table.serve request).2) :: (table.serve request).1.exchanges rest

/-! ## One volume among others -/

theorem get?_erase_self (table : Bindings) (volume : VolumeId) :
    (table.erase volume).get? volume = none := by
  simp [get?, erase]

/-- What the table says of a volume is changed only by requests that name it. -/
theorem get?_serve_of_ne (h : request.volume ≠ volume) :
    (table.serve request).1.get? volume = table.get? volume := by
  cases request with
  | register declared =>
      simp only [serve, register]
      split
      · rfl
      · exact get?_put_of_ne (Ne.symm h)
  | attach other service =>
      simp only [serve]
      rcases table.attach_table other service with he | ⟨binding, hid, -, -, he⟩
      · rw [he]
      · rw [he, get?_put_of_ne (hid ▸ Ne.symm h)]
  | detach other => exact get?_detach_of_ne (Ne.symm h)
  | destroy other =>
      simp only [serve, destroy]
      cases table.get? other with
      | none => rfl
      | some binding =>
          rcases binding with ⟨declared, _ | owner, count⟩
          · exact get?_erase_of_ne (Ne.symm h)
          · rfl
  | binding other => rfl

/-- What the table says of a volume after a request that names it, and the answer. -/
def serveOne (binding? : Option Binding) : Request → Option Binding × Except BindingError Answer
  | .register declared => (binding?.or (some { volume := declared }), .ok .registered)
  | .attach volume service =>
    match binding? with
    | none => (none, .error (.unknown volume))
    | some binding =>
      match binding.owner with
      | some owner =>
        (binding?, if owner = service then .ok (.attached false) else .error (.alreadyBound volume owner))
      | none =>
        (some { binding with owner := some service, attachCount := binding.attachCount + 1 },
          .ok (.attached true))
  | .detach volume =>
    match binding? with
    | none => (none, .error (.unknown volume))
    | some binding => (some { binding with owner := none }, .ok (.detached binding.owner))
  | .destroy volume =>
    match binding? with
    | none => (none, .error (.unknown volume))
    | some binding =>
      match binding.owner with
      | some owner => (binding?, .error (.inUse volume owner))
      | none => (none, .ok .destroyed)
  | .binding _ => (binding?, .ok (.binding binding?))

/-- **A request is served by what the table says of the volume that it names.** -/
theorem serve_eq (table : Bindings) (request : Request) :
    (table.serve request).1.get? request.volume
      = (serveOne (table.get? request.volume) request).1 ∧
    (table.serve request).2 = (serveOne (table.get? request.volume) request).2 := by
  cases request with
  | register declared =>
      simp only [serve, register, serveOne, Request.volume]
      cases hg : table.get? declared.id with
      | none => exact ⟨get?_put_self table { volume := declared }, trivial⟩
      | some binding => exact ⟨hg, trivial⟩
  | attach volume service =>
      simp only [serve, attach, serveOne, Request.volume]
      cases hg : table.get? volume with
      | none => exact ⟨hg, rfl⟩
      | some binding =>
          obtain rfl := id_of_get? hg
          rcases binding with ⟨declared, _ | owner, count⟩
          · exact ⟨get?_put_self table ⟨declared, some service, count + 1⟩, rfl⟩
          · by_cases ho : owner = service <;> simp [ho, hg, Except.map]
  | detach volume =>
      simp only [serve, detach, serveOne, Request.volume]
      cases hg : table.get? volume with
      | none => exact ⟨hg, rfl⟩
      | some binding =>
          obtain rfl := id_of_get? hg
          exact ⟨get?_put_self table { binding with owner := none }, rfl⟩
  | destroy volume =>
      simp only [serve, destroy, serveOne, Request.volume]
      cases hg : table.get? volume with
      | none => exact ⟨hg, rfl⟩
      | some binding =>
          rcases binding with ⟨declared, _ | owner, count⟩
          · exact ⟨get?_erase_self table volume, rfl⟩
          · exact ⟨hg, rfl⟩
  | binding volume => exact ⟨rfl, rfl⟩

/-! ## What the table says -/

/-- What the table says of a volume fits the changes since it became known. -/
def Tells (volume : VolumeId) : Option Binding → Option (List Turn) → Prop
  | none, none => True
  | some binding, some turns => binding.id = volume ∧ ByTurns turns ∧
      binding.owner = holder? turns ∧ binding.attachCount = turns.countP Turn.isBound
  | _, _ => False

theorem Tells.cases {binding? : Option Binding} {turns? : Option (List Turn)}
    (h : Tells volume binding? turns?) : (binding? = none ∧ turns? = none) ∨
      ∃ declared turns, turns? = some turns ∧ ByTurns turns ∧ declared.id = volume ∧
        binding? = some ⟨declared, holder? turns, turns.countP Turn.isBound⟩ := by
  unfold Tells at h
  split at h
  next => exact .inl ⟨rfl, rfl⟩
  next binding turns =>
    obtain ⟨declared, owner, count⟩ := binding
    obtain ⟨hid, hturns, rfl, rfl⟩ := h
    exact .inr ⟨declared, turns, rfl, hturns, hid, rfl⟩
  next => exact h.elim

theorem tells_serveOne {binding? : Option Binding} {turns? : Option (List Turn)}
    (h : Tells volume binding? turns?) (hr : request.volume = volume) :
    Tells volume (serveOne binding? request).1
      (tenureAfter volume turns? (request, (serveOne binding? request).2)) := by
  rcases h.cases with ⟨rfl, rfl⟩ | ⟨declared, turns, rfl, hturns, rfl, rfl⟩
  · cases request with
    | register declared =>
        obtain rfl := hr
        simp [tenureAfter, serveOne, Tells, Request.volume, ByTurns, holder?]
    | _ => simp [tenureAfter, serveOne, Tells, hr]
  · cases request with
    | register other | binding other =>
        simp [tenureAfter, serveOne, Tells, hr, hturns, Turn.of?]
    | attach other service =>
        cases ho : holder? turns with
        | none =>
            simp [tenureAfter, serveOne, Tells, hr, Turn.of?, hturns.bound ho, Turn.isBound]
        | some owner =>
            by_cases hs : owner = service <;>
              simp [tenureAfter, serveOne, Tells, hr, ho, Turn.of?, hturns, hs]
    | detach other =>
        cases ho : holder? turns with
        | none => simp [tenureAfter, serveOne, Tells, hr, ho, Turn.of?, hturns]
        | some owner =>
            simp [tenureAfter, serveOne, Tells, hr, Turn.of?, hturns.freed ho, Turn.isBound]
    | destroy other =>
        cases ho : holder? turns with
        | none => simp [tenureAfter, serveOne, Tells, hr]
        | some owner => simp [tenureAfter, serveOne, Tells, hr, ho, Turn.of?, hturns]

/-- **Every request keeps it so** that the table says what the exchanges tell of a volume. -/
theorem tells_serve {turns? : Option (List Turn)} (h : Tells volume (table.get? volume) turns?)
    (request : Request) : Tells volume ((table.serve request).1.get? volume)
      (tenureAfter volume turns? (request, (table.serve request).2)) := by
  by_cases hr : request.volume = volume
  · subst hr
    obtain ⟨htable, hanswer⟩ := table.serve_eq request
    rw [htable, hanswer]
    exact tells_serveOne h rfl
  · rw [get?_serve_of_ne hr]
    simpa only [tenureAfter, if_neg hr] using h

theorem tells_after {turns? : Option (List Turn)} (h : Tells volume (table.get? volume) turns?)
    (requests : List Request) : Tells volume ((table.after requests).get? volume)
      ((table.exchanges requests).foldl (tenureAfter volume) turns?) := by
  induction requests generalizing table turns? with
  | nil => exact h
  | cons request rest ih => exact ih (tells_serve h request)

/-- A table of some volumes says of each that it is known and unbound. -/
theorem tells_ofVolumes (volumes : List Volume) (volume : VolumeId) :
    Tells volume ((ofVolumes volumes).get? volume)
      (if volume ∈ volumes.map Volume.id then some [] else none) := by
  have hfold (volumes : List Volume) (table : Bindings) (known : Prop) [Decidable known]
      (h : Tells volume (table.get? volume) (if known then some [] else none)) :
      Tells volume ((volumes.foldl (fun table volume => table.put { volume }) table).get? volume)
        (if known ∨ volume ∈ volumes.map Volume.id then some [] else none) := by
    induction volumes generalizing table known with
    | nil => simpa using h
    | cons declared rest ih =>
        rw [List.foldl_cons]
        have hput : Tells volume ((table.put { volume := declared }).get? volume)
            (if known ∨ volume = declared.id then some [] else none) := by
          by_cases hid : volume = declared.id
          · subst hid
            have hself : (table.put { volume := declared }).get? declared.id
                = some { volume := declared } := get?_put_self table { volume := declared }
            simp [hself, Tells, ByTurns, holder?]
          · have hother : (table.put { volume := declared }).get? volume = table.get? volume :=
              get?_put_of_ne hid
            simpa [hother, hid] using h
        have hrest := ih _ _ hput
        simpa [or_assoc] using hrest
  have hall := hfold volumes {} False (by simp [get?, Tells])
  simpa only [ofVolumes, false_or] using hall

/-- **The table says of each volume what the exchanges tell.** -/
theorem tells_tenure (volumes : List Volume) (requests : List Request) (volume : VolumeId) :
    Tells volume (((ofVolumes volumes).after requests).get? volume)
      (tenure volumes volume ((ofVolumes volumes).exchanges requests)) :=
  tells_after (tells_ofVolumes volumes volume) requests

/-! ## What the answers obey -/

/-- An exchange among others is answered by the table after those before it. -/
theorem exchanges_split {requests : List Request} {past future : List Exchange}
    {answer : Except BindingError Answer}
    (h : table.exchanges requests = past ++ (request, answer) :: future) :
    ∃ before, past = table.exchanges before ∧ answer = ((table.after before).serve request).2 := by
  induction past generalizing table requests with
  | nil =>
      cases requests with
      | nil => cases h
      | cons first rest =>
          rw [exchanges, List.nil_append, List.cons.injEq, Prod.mk.injEq] at h
          obtain ⟨⟨rfl, rfl⟩, -⟩ := h
          exact ⟨[], rfl, rfl⟩
  | cons exchange past ih =>
      cases requests with
      | nil => cases h
      | cons first rest =>
          rw [exchanges, List.cons_append, List.cons.injEq] at h
          obtain ⟨rfl, h⟩ := h
          obtain ⟨before, rfl, rfl⟩ := ih h
          exact ⟨first :: before, rfl, rfl⟩

theorem exchanges_append_left {requests : List Request} {past future : List Exchange}
    (h : table.exchanges requests = past ++ future) : ∃ before, past = table.exchanges before := by
  cases future with
  | nil => exact ⟨requests, by rw [h, List.append_nil]⟩
  | cons exchange future =>
      obtain ⟨request, answer⟩ := exchange
      obtain ⟨before, hpast, -⟩ := exchanges_split h
      exact ⟨before, hpast⟩

/-- **The answers about a volume are lawful.** -/
theorem lawful_exchanges (volumes : List Volume) (requests : List Request) (volume : VolumeId) :
    Lawful volumes volume ((ofVolumes volumes).exchanges requests) := by
  have answered {past future : List Exchange} {request : Request} {answer}
      (hlog : (ofVolumes volumes).exchanges requests = past ++ (request, answer) :: future)
      (hr : request.volume = volume) : ∃ binding?, Tells volume binding? (tenure volumes volume past) ∧
        answer = (serveOne binding? request).2 := by
    obtain ⟨before, rfl, rfl⟩ := exchanges_split hlog
    subst hr
    exact ⟨_, tells_tenure volumes before request.volume,
      (((ofVolumes volumes).after before).serve_eq request).2⟩
  constructor
  case byTurns =>
    intro past future turns hlog hturns
    obtain ⟨before, rfl⟩ := exchanges_append_left hlog
    have htells := tells_tenure volumes before volume
    rw [hturns] at htells
    rcases htells.cases with ⟨-, h⟩ | ⟨-, turns', h, hturns', -⟩
    · cases h
    · exact Option.some.inj h ▸ hturns'
  case attach =>
    intro past service answer future hlog
    obtain ⟨binding?, htells, rfl⟩ := answered hlog rfl
    rcases htells.cases with ⟨rfl, ht⟩ | ⟨declared, turns, ht, -, -, rfl⟩
    · rw [ht]
      rfl
    · rw [ht]
      simp only [serveOne]
      cases holder? turns <;> rfl
  case detach =>
    intro past answer future hlog
    obtain ⟨binding?, htells, rfl⟩ := answered hlog rfl
    rcases htells.cases with ⟨rfl, ht⟩ | ⟨declared, turns, ht, -, -, rfl⟩ <;>
    · rw [ht]
      rfl
  case destroy =>
    intro past answer future hlog
    obtain ⟨binding?, htells, rfl⟩ := answered hlog rfl
    rcases htells.cases with ⟨rfl, ht⟩ | ⟨declared, turns, ht, -, -, rfl⟩
    · rw [ht]
      rfl
    · rw [ht]
      simp only [serveOne]
      cases holder? turns <;> rfl
  case binding =>
    intro past answer future hlog
    obtain ⟨binding?, htells, rfl⟩ := answered hlog rfl
    rcases htells.cases with ⟨rfl, ht⟩ | ⟨declared, turns, ht, -, hid, rfl⟩
    · rw [ht]
      rfl
    · rw [ht]
      exact ⟨declared, hid, rfl⟩

/-- **The answers about a volume** are those that are given when it alone is named. -/
theorem exchanges_filter (h : table.get? volume = table'.get? volume) (requests : List Request) :
    (table.exchanges requests).filter (fun exchange => exchange.1.volume = volume)
      = table'.exchanges (requests.filter fun request => request.volume = volume) := by
  induction requests generalizing table table' with
  | nil => rfl
  | cons request rest ih =>
      by_cases hr : request.volume = volume
      · subst hr
        have heq := table.serve_eq request
        have heq' := table'.serve_eq request
        rw [← h] at heq'
        rw [exchanges, List.filter_cons_of_pos (by simp), List.filter_cons_of_pos (by simp),
          exchanges, ih (heq.1.trans heq'.1.symm)]
        exact congrArg (fun answer => (request, answer) :: _) (heq.2.trans heq'.2.symm)
      · rw [exchanges, List.filter_cons_of_neg (by simpa using hr),
          List.filter_cons_of_neg (by simpa using hr)]
        exact ih ((get?_serve_of_ne hr).trans h)

/-- **A refused request changes nothing**, nor does binding a volume again to its owner or making a known
one known. -/
theorem serve_unchanged (h : (∃ error, (table.serve request).2 = .error error) ∨
    (table.serve request).2 = .ok (.attached false) ∨
    ∃ declared, request = .register declared ∧ table.get? declared.id ≠ none) :
    (table.serve request).1 = table := by
  cases request with
  | register declared =>
      have hknown : table.get? declared.id ≠ none := by simpa [serve] using h
      obtain ⟨binding, hg⟩ := Option.ne_none_iff_exists'.1 hknown
      simp [serve, register, hg]
  | attach volume service =>
      simp only [serve, attach] at h ⊢
      cases hg : table.get? volume with
      | none => rfl
      | some binding =>
          rcases binding with ⟨declared, _ | owner, count⟩
          · simp [hg, Except.map] at h
          · by_cases ho : owner = service <;> simp [ho]
  | detach volume =>
      simp only [serve, detach] at h ⊢
      cases hg : table.get? volume with
      | none => rfl
      | some binding => simp [hg, Except.map] at h
  | destroy volume =>
      simp only [serve, destroy] at h ⊢
      cases hg : table.get? volume with
      | none => rfl
      | some binding =>
          rcases binding with ⟨declared, _ | owner, count⟩
          · simp [hg, Except.map] at h
          · rfl
  | binding volume => rfl

end Bindings

end Bringup.Volume
