import Bringup.Proofs.Simulation.Clients
import Bringup.Proofs.Simulation.Scene

/-!
# A controller and its store, whatever the engine

A world with one stack and one store, in which anything may happen: any calls, any engine, any order
of events. `Exchange` says what that comes to for the controller and the store (`World.Sees.exchange`):
the engine is one of those who answer the controller, and nobody but the controller asks the store.
-/

namespace Bringup.Simulation

open Lifecycle (Action Controller Effect JobId)

variable {t : Topology} {e : Engine} {start w w' : World e} {past : List (World e)}

/-- A run between two worlds, with the worlds before each of its events, the latest first. -/
inductive World.Run (start : World e) : List (World e) → World e → Prop where
  | refl : Run start [] start
  | tail {past : List (World e)} {w w' : World e} {event : Event} (run : Run start past w)
    (h : w.step event = some w') : Run start (w :: past) w'

/-- Lets events happen one after another, as long as they can happen. -/
def World.play (past : List (World e)) (w : World e) :
    List Event → Option (List (World e) × World e)
  | [] => some (past, w)
  | event :: rest =>
    match w.step event with
    | some w' => play (w :: past) w' rest
    | none => none

/-- What was played is a run. -/
theorem World.Run.of_play {events : List Event} {past' : List (World e)} (run : Run start past w)
    (h : w.play past events = some (past', w')) : Run start past' w' := by
  induction events generalizing past w with
  | nil =>
      obtain ⟨rfl, rfl⟩ := by simpa [World.play] using h
      exact run
  | cons event rest ih =>
      rw [World.play] at h
      split at h
      next hs => exact ih (run.tail hs) h
      next => cases h

/-- A run whose end shows something that was looked up by playing it. -/
theorem World.exists_run (start : World e) (events : List Event)
    (shows : List (World e) → World e → Bool)
    (h : (play [] start events).any fun (past, w) => shows past w) :
    ∃ past w, Run start past w ∧ shows past w := by
  obtain ⟨⟨past, w⟩, hplay, hshows⟩ := (Option.any_eq_true _ _).1 h
  exact ⟨past, w, Run.refl.of_play hplay, hshows⟩

/-- The world has one stack, with this controller, and one store, which is this one. -/
structure World.Sees (w : World e) (c : Controller t) (store : Store) : Prop where
  members : ∃ engine ongoing, w.members = #[{
    topology := t
    controller := c
    engine
    ongoing
    store := 0 }]
  stores : w.stores = #[store]

/-- The store after it has heard what the controller shows. -/
def Store.hear (now : Nat) (store : Store) : Effect → Store
  | .asks job (.volume request) => store.request now (.job 0 job) request
  | _ => store

/-- A store does not hear what is not asked of it. -/
theorem Store.hear_unasked {effects : List Effect}
    (h : ∀ asker request, .asks asker (.volume request) ∉ effects) (now : Nat) (store : Store) :
    effects.foldl (Store.hear now) store = store := by
  induction effects generalizing store with
  | nil => rfl
  | cons effect rest ih =>
      have hhear : store.hear now effect = store := by
        unfold Store.hear
        split
        next job request => exact absurd List.mem_cons_self (h job request)
        next => rfl
      rw [List.foldl_cons, hhear]
      exact ih (fun asker request hm => h asker request (List.mem_cons_of_mem _ hm)) store

/-- What can happen to a controller and its store. -/
inductive Exchange (now : Nat) (c : Controller t) (store : Store) : Controller t → Store → Prop where
  /-- Something happens elsewhere. -/
  | rest : Exchange now c store c store
  | serve {store' : Store} (hs : store.serve? now = some store') : Exchange now c store c store'
  /-- The controller takes a step of its own, is called, or is answered by the engine. -/
  | act {action : Action} {c' : Controller t} {effects : List Effect}
    (hs : c.step now action = some (c', effects))
    (ha : ∀ id result, action ≠ .answer id (.volume result)) :
    Exchange now c store c' (effects.foldl (Store.hear now) store)
  /-- An answer of the store reaches the job that asked. -/
  | deliver {place : Nat} {id : JobId} {result : Store.Result} {c' : Controller t}
    {effects : List Effect} (ha : store.answers[place]? = some (.job 0 id, result))
    (hs : c.step now (.answer id (.volume result)) = some (c', effects)) :
    Exchange now c store c' (effects.foldl (Store.hear now)
      { store with answers := store.answers.eraseIdx place })

namespace World.Sees

variable {c : Controller t} {store : Store}

/-- A world has one controller and one store at most. -/
theorem unique (h : w.Sees c store) {c' : Controller t} {store' : Store} (h' : w.Sees c' store') :
    c' = c ∧ store' = store := by
  obtain ⟨engine, ongoing, hm⟩ := h.members
  obtain ⟨engine', ongoing', hm'⟩ := h'.members
  have hstores := h'.stores.symm.trans h.stores
  have hmembers := hm'.symm.trans hm
  simp only [Array.mk.injEq, List.cons.injEq, and_true] at hstores hmembers
  cases hmembers
  exact ⟨rfl, hstores⟩

theorem member_ne (h : w.Sees c store) {k : Nat} (hk : k ≠ 0) : w.members[k]? = none := by
  obtain ⟨engine, ongoing, hm⟩ := h.members
  rw [hm]
  exact Array.getElem?_eq_none (Nat.pos_of_ne_zero hk)

theorem store_ne (h : w.Sees c store) {i : Nat} (hi : i ≠ 0) : w.stores[i]? = none := by
  rw [h.stores]
  exact Array.getElem?_eq_none (Nat.pos_of_ne_zero hi)

/-- The stack with other things but its controller replaced. -/
theorem setStack (h : w.Sees c store) (c' : Controller t) (engine : e.State)
    (ongoing : List (Ongoing e.Work)) : (w.setStack 0 {
      topology := t
      controller := c'
      engine
      ongoing
      store := 0 }).Sees c' store := by
  obtain ⟨engine', ongoing', hm⟩ := h.members
  refine ⟨⟨engine, ongoing, ?_⟩, h.stores⟩
  simp [World.setStack, hm]

theorem modifyStore (h : w.Sees c store) (f : Store → Store) :
    (w.modifyStore 0 f).Sees c (f store) := by
  refine ⟨h.members, ?_⟩
  simp [World.modifyStore, h.stores]

theorem carry (h : w.Sees c store) (effect : Effect) :
    (w.carry 0 effect).Sees c (store.hear w.now effect) ∧ (w.carry 0 effect).now = w.now := by
  obtain ⟨engine, ongoing, hm⟩ := h.members
  have hk : w.members[0]? = some {
      topology := t
      controller := c
      engine
      ongoing
      store := 0 } := by simp [hm]
  unfold World.carry
  rw [hk]
  cases effect with
  | asks job request =>
      cases request with
      | container call => exact ⟨h.setStack c _ _, rfl⟩
      | volume request => exact ⟨h.modifyStore _, rfl⟩
  | withdraws job => exact ⟨h.setStack c _ _, rfl⟩
  | refusedMove => exact ⟨h, rfl⟩

/-- A controller of the world takes a step: it is this one. -/
theorem control (h : w.Sees c store) {k : Nat} {action : Action}
    (hc : w.control k action = some w') : k = 0 ∧ ∃ c' effects,
      c.step w.now action = some (c', effects) ∧
        w'.Sees c' (effects.foldl (Store.hear w.now) store) := by
  by_cases hk : k = 0
  · subst hk
    obtain ⟨engine, ongoing, hm⟩ := h.members
    have hmember : w.members[0]? = some {
        topology := t
        controller := c
        engine
        ongoing
        store := 0 } := by simp [hm]
    unfold World.control at hc
    simp only [hmember] at hc
    split at hc
    next => cases hc
    next c' effects hs =>
      obtain rfl := Option.some.inj hc
      refine ⟨rfl, c', effects, hs, ?_⟩
      -- What the controller shows is carried out piece by piece.
      have hfold (effects : List Effect) {w' : World e} {store : Store} (h : w'.Sees c' store) :
          (effects.foldl (fun w effect => w.carry 0 effect) w').Sees c'
            (effects.foldl (Store.hear w'.now) store) := by
        induction effects generalizing w' store with
        | nil => exact h
        | cons effect rest ih =>
            obtain ⟨hsees, hnow⟩ := h.carry effect
            have hrest := ih hsees
            rw [hnow] at hrest
            exact hrest
      exact hfold effects (h.setStack c' engine ongoing)
  · unfold World.control at hc
    rw [h.member_ne hk] at hc
    cases hc

theorem resume (h : w.Sees c store) {k : Nat} {job : JobId} (hr : w.resume k job = some w') :
    ∃ c' store', w'.Sees c' store' ∧ Exchange w.now c store c' store' := by
  obtain ⟨stack, call, hk, hcall, hr⟩ := World.resume_eq_some hr
  by_cases h0 : k = 0
  · subst h0
    obtain ⟨engine, ongoing, hm⟩ := h.members
    obtain rfl : stack = _ := by simpa [hm] using hk.symm
    rcases hr with ⟨engine', reply, -, hr⟩ | ⟨engine', millis, work, -, rfl⟩
    · obtain ⟨-, c', effects, hs, hsees⟩ := (h.setStack c engine' _).control hr
      exact ⟨c', _, hsees, .act hs (by simp)⟩
    · exact ⟨c, store, h.setStack c engine' _, .rest⟩
  · rw [h.member_ne h0] at hk
    cases hk

theorem deliver (h : w.Sees c store) (hv : ∀ entry ∈ store.answers, entry.1 ≠ .visitor)
    {i place : Nat} (hd : w.deliver i place = some w') :
    ∃ c' store', w'.Sees c' store' ∧ Exchange w.now c store c' store' := by
  unfold World.deliver at hd
  by_cases hi : i = 0
  · subst hi
    rw [h.stores] at hd
    simp only [List.getElem?_toArray, List.getElem?_cons_zero] at hd
    split at hd
    next => cases hd
    next client result ha =>
      have hsees := h.modifyStore fun store =>
        { store with answers := store.answers.eraseIdx place }
      split at hd
      next => exact absurd rfl (hv _ (List.mem_of_getElem? ha))
      next k job =>
        obtain ⟨rfl, c', effects, hs, hsees'⟩ := hsees.control hd
        exact ⟨c', _, hsees', .deliver ha hs⟩
  · rw [h.store_ne hi] at hd
    cases hd

/-- **Everything that can happen is an exchange** of the controller and its store. -/
theorem exchange (h : w.Sees c store) (hv : ∀ entry ∈ store.answers, entry.1 ≠ .visitor)
    {event : Event} (hs : w.step event = some w') :
    ∃ c' store', w'.Sees c' store' ∧ Exchange w.now c store c' store' := by
  cases event with
  | control k action =>
      have hanswer : (∀ job reply, action ≠ .answer job reply) ∧ w.control k action = some w' := by
        cases action with
        | answer job reply => cases hs
        | _ => exact ⟨by simp, hs⟩
      obtain ⟨-, c', effects, hstep, hsees⟩ := h.control hanswer.2
      exact ⟨c', _, hsees, .act hstep fun id result => hanswer.1 id (.volume result)⟩
  | resume k job => exact h.resume hs
  | serve i =>
      simp only [World.step] at hs
      by_cases hi : i = 0
      · subst hi
        rw [h.stores] at hs
        obtain ⟨store', hserve, rfl⟩ := Option.map_eq_some_iff.1 hs
        exact ⟨c, store', h.modifyStore _, .serve hserve⟩
      · rw [h.store_ne hi] at hs
        cases hs
  | deliver i place => exact h.deliver hv hs
  | ring alarm =>
      simp only [World.step] at hs
      split at hs
      next =>
        have hsees : World.Sees { w with alarms := w.alarms.erase alarm } c store :=
          ⟨h.members, h.stores⟩
        obtain ⟨-, c', effects, hstep, hsees'⟩ := hsees.control hs
        exact ⟨c', _, hsees', .act hstep (by simp)⟩
      next => cases hs
  | pass time =>
      simp only [World.step] at hs
      split at hs
      next =>
        obtain rfl := Option.some.inj hs
        exact ⟨c, store, ⟨h.members, h.stores⟩, .rest⟩
      next => cases hs

end World.Sees

end Bringup.Simulation
