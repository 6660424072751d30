import Bringup.Proofs.Simulation.Clients
import Bringup.Proofs.Volume.Histories

/-!
# A store and its clients

Any number of clients send requests to a store, which serves them one at a time and in the order in which
they arrive, whenever that is; the answers reach their clients in any order (`Attended`). So the requests
that were served and their answers are those of a table that is asked by one client alone
(`Attended.served`), and what the answers about a volume obey is what they obey there
(`Attended.linearizable`).
-/

namespace Bringup.Simulation.Store

open Volume (Bindings Exchange Lawful tenure)

/-- A store of some volumes with the requests that arrived and those that were served, both in their
order, the latter with their answers. -/
inductive Attended (volumes : List Volume) (delay : Nat) :
    List (Client × Volume.Request) → List (Client × Exchange) → Store → Prop where
  | start : Attended volumes delay [] [] { mode := .serving delay, table := .ofVolumes volumes }
  | request {arrivals : List (Client × Volume.Request)} {log : List (Client × Exchange)} {s : Store}
      (h : Attended volumes delay arrivals log s) (now : Nat) (client : Client)
      (request : Volume.Request) :
      Attended volumes delay (arrivals ++ [(client, request)]) log (s.request now client request)
  | serve {arrivals : List (Client × Volume.Request)} {log : List (Client × Exchange)} {s s' : Store}
      (h : Attended volumes delay arrivals log s) (now : Nat) (hs : s.serve? now = some s')
      {client : Client} {request : Volume.Request} {rest : List (Client × Volume.Request)}
      (hq : s.queue = (client, request) :: rest) {answer : Result}
      (ha : s'.answers = s.answers ++ [(client, answer)]) :
      Attended volumes delay arrivals (log ++ [(client, request, answer)]) s'
  | deliver {arrivals : List (Client × Volume.Request)} {log : List (Client × Exchange)} {s : Store}
      (h : Attended volumes delay arrivals log s) (place : Nat) :
      Attended volumes delay arrivals log { s with answers := s.answers.eraseIdx place }

variable {volumes : List Volume} {delay : Nat} {arrivals : List (Client × Volume.Request)}
  {log : List (Client × Exchange)} {s s' : Store}

theorem after_concat (table : Bindings) (requests : List Volume.Request) (request : Volume.Request) :
    table.after (requests ++ [request]) = ((table.after requests).serve request).1 := by
  induction requests generalizing table with
  | nil => rfl
  | cons first rest ih => exact ih _

theorem exchanges_concat (table : Bindings) (requests : List Volume.Request)
    (request : Volume.Request) : table.exchanges (requests ++ [request])
      = table.exchanges requests ++ [(request, ((table.after requests).serve request).2)] := by
  induction requests generalizing table with
  | nil => rfl
  | cons first rest ih => exact congrArg (_ :: ·) (ih _)

/-- What is known of an attended store. -/
structure Kept (volumes : List Volume) (delay : Nat) (arrivals : List (Client × Volume.Request))
    (log : List (Client × Exchange)) (s : Store) : Prop where
  mode : s.mode = .serving delay
  /-- Requests are served in the order in which they arrive. -/
  order : arrivals = log.map (fun entry => (entry.1, entry.2.1)) ++ s.queue
  answers : log.map Prod.snd
    = (Bindings.ofVolumes volumes).exchanges (log.map fun entry => entry.2.1)
  table : s.table = (Bindings.ofVolumes volumes).after (log.map fun entry => entry.2.1)

/-- What one request that is served makes of a store. -/
theorem serve?_answer {now : Nat} (hs : s.serve? now = some s') {client : Client}
    {request : Volume.Request} {rest : List (Client × Volume.Request)}
    (hq : s.queue = (client, request) :: rest) {answer : Result}
    (ha : s'.answers = s.answers ++ [(client, answer)]) :
    s'.queue = rest ∧ answer = (s.table.serve request).2 ∧ s'.table = (s.table.serve request).1 ∧
      s'.mode = s.mode := by
  obtain ⟨client', request', queue, hq', hqueue, ha', ht, hm⟩ := serve?_eq_some hs
  obtain ⟨heq, rfl⟩ := List.cons.inj (hq'.symm.trans hq)
  obtain ⟨rfl, rfl⟩ := Prod.mk.inj heq
  have hanswer := List.append_cancel_left (ha'.symm.trans ha)
  exact ⟨hqueue, (Prod.mk.inj (List.singleton_inj.1 hanswer)).2.symm, ht, hm⟩

/-- **The requests are served as they arrived**, and answered as by a table that is asked by one client
alone. -/
theorem Attended.served (h : Attended volumes delay arrivals log s) :
    Kept volumes delay arrivals log s := by
  induction h with
  | start => exact ⟨rfl, rfl, rfl, rfl⟩
  | request _ now client request ih =>
      rw [request_of_serving ih.mode]
      exact ⟨ih.mode, by rw [ih.order, List.append_assoc], ih.answers, ih.table⟩
  | serve _ now hs hq ha ih =>
      obtain ⟨hqueue, rfl, ht, hm⟩ := serve?_answer hs hq ha
      refine ⟨hm.trans ih.mode, ?_, ?_, ?_⟩
      · rw [ih.order, hq, hqueue]
        simp
      · simp only [List.map_append, List.map_cons, List.map_nil, exchanges_concat, ih.answers,
          ← ih.table]
      · simp only [List.map_append, List.map_cons, List.map_nil, after_concat, ht, ← ih.table]
  | deliver _ place ih => exact ⟨ih.mode, ih.order, ih.answers, ih.table⟩

/-- **A store is linearizable for each volume.** Of any volumes at the start and any requests of any
clients, whenever they arrive and are served: the requests are served in the order of their arrival. The
answers about a volume are lawful: since it became known it is bound and freed by turns, each time freed
from the service to which it was bound; it is newly bound just while it is bound to nobody, bound again
just to its owner, and refused to others in the name of its owner; just while it is known and bound to
nobody it can be forgotten. The table says who owns it, and counts how often it was newly bound since it
became known. Its answers are those that would be given if it alone were named. A request that is refused
changes nothing, and neither does binding a volume again or making a known one known. -/
theorem Attended.linearizable (h : Attended volumes delay arrivals log s) (volume : VolumeId) :
    arrivals = log.map (fun entry => (entry.1, entry.2.1)) ++ s.queue ∧
    Lawful volumes volume (log.map Prod.snd) ∧
    Bindings.Tells volume (s.table.get? volume) (tenure volumes volume (log.map Prod.snd)) ∧
    (log.map Prod.snd).filter (fun exchange => exchange.1.volume = volume)
      = (Bindings.ofVolumes volumes).exchanges
        ((log.map fun entry => entry.2.1).filter fun request => request.volume = volume) ∧
    ∀ now s', s.serve? now = some s' → ∀ client request rest answer,
      s.queue = (client, request) :: rest → s'.answers = s.answers ++ [(client, answer)] →
      (∃ error, answer = .error error) ∨ answer = .ok (.attached false) ∨
        (∃ declared, request = .register declared ∧ s.table.get? declared.id ≠ none) →
      s'.table = s.table := by
  have kept := h.served
  refine ⟨kept.order, ?_, ?_, ?_, fun now s' hs client request rest answer hq ha hidle => ?_⟩
  · rw [kept.answers]
    exact Bindings.lawful_exchanges volumes _ volume
  · rw [kept.answers, kept.table]
    exact Bindings.tells_tenure volumes _ volume
  · rw [kept.answers]
    exact Bindings.exchanges_filter rfl _
  · obtain ⟨-, rfl, ht, -⟩ := serve?_answer hs hq ha
    rw [ht]
    exact Bindings.serve_unchanged hidle

/-- The requests of two clients about one volume, and the answers to them. -/
def sharing : List (Client × Exchange) :=
  [(.job 0 0, .attach ⟨"data"⟩ ⟨"db"⟩, .ok (.attached true)),
    (.visitor, .attach ⟨"data"⟩ ⟨"bot"⟩, .error (.alreadyBound ⟨"data"⟩ ⟨"db"⟩)),
    (.job 0 0, .detach ⟨"data"⟩, .ok (.detached (some ⟨"db"⟩)))]

/-- The second request arrives before the first is served, and the answer to it is the first to reach its
client. -/
theorem attended_sharing : ∃ s, Attended [⟨⟨"data"⟩, "/data"⟩] 0
    (sharing.map fun entry => (entry.1, entry.2.1)) sharing s :=
  have first := Attended.start.request 0 (.job 0 0) (.attach ⟨"data"⟩ ⟨"db"⟩)
  have second := first.request 0 .visitor (.attach ⟨"data"⟩ ⟨"bot"⟩)
  have bound := second.serve 0 rfl rfl rfl
  have refused := bound.serve 1 rfl rfl rfl
  have third := (refused.deliver 1).request 2 (.job 0 0) (.detach ⟨"data"⟩)
  have freed := third.serve 2 rfl rfl rfl
  ⟨_, freed⟩

theorem linearizable_sharing : ∃ s, Attended [⟨⟨"data"⟩, "/data"⟩] 0
    (sharing.map fun entry => (entry.1, entry.2.1)) sharing s ∧
    Lawful [⟨⟨"data"⟩, "/data"⟩] ⟨"data"⟩ (sharing.map Prod.snd) := by
  obtain ⟨s, h⟩ := attended_sharing
  exact ⟨s, h, (h.linearizable ⟨"data"⟩).2.1⟩

end Bringup.Simulation.Store
