import Bringup.Proofs.Simulation.Clients
import Bringup.Proofs.Volume.Owners

/-!
# A store as if it served at once

A store serves requests in the order in which they arrive, so all that is going to come of its queue is
settled when a request is taken in: the table once the queue is served (`Store.settled`), and the answers
that have not reached their clients, given or not (`Store.owed`). Serving a request changes neither. A
request acts on them at once, and an answer that reaches its client is owed no more. So what is proved of
stores that serve at once holds of every store that serves, however long it takes.
-/

namespace Bringup.Simulation.Store

open Volume (Bindings)

variable {store store' : Store} {now place delay : Nat} {client : Client}

/-- The table after some requests were served one after another, and the answers to them. -/
def serveAll (table : Bindings) :
    List (Client × Volume.Request) → Bindings × List (Client × Result)
  | [] => (table, [])
  | (client, request) :: rest =>
    let served := table.serve request
    let later := serveAll served.1 rest
    (later.1, (client, served.2) :: later.2)

/-- The table once all that was requested is served. -/
def settled (store : Store) : Bindings := (serveAll store.table store.queue).1

/-- The answers that have not reached their clients, those to come last. -/
def owed (store : Store) : List (Client × Result) :=
  store.answers ++ (serveAll store.table store.queue).2

theorem serveAll_concat (table : Bindings) (queue : List (Client × Volume.Request))
    (client : Client) (request : Volume.Request) :
    serveAll table (queue ++ [(client, request)])
      = (((serveAll table queue).1.serve request).1,
          (serveAll table queue).2 ++ [(client, ((serveAll table queue).1.serve request).2)]) := by
  induction queue generalizing table with
  | nil => rfl
  | cons entry rest ih =>
      obtain ⟨client', request'⟩ := entry
      rw [List.cons_append, serveAll, ih]
      rfl

/-- Where nothing is requested all is settled. -/
theorem settled_of_queue (h : store.queue = []) : store.settled = store.table := by
  rw [settled, h]
  rfl

theorem owed_of_clients (h : store.clients = []) : store.owed = [] := by
  obtain ⟨hqueue, hanswers⟩ := clients_eq_nil.1 h
  rw [owed, hqueue, hanswers]
  rfl

/-- A request acts on what is settled at once. -/
theorem settled_request (h : store.mode = .serving delay) (now : Nat) (client : Client)
    (request : Volume.Request) :
    (store.request now client request).settled = (store.settled.serve request).1 := by
  rw [request_of_serving h, settled, serveAll_concat, settled]

theorem owed_request (h : store.mode = .serving delay) (now : Nat) (client : Client)
    (request : Volume.Request) : (store.request now client request).owed
      = store.owed ++ [(client, (store.settled.serve request).2)] := by
  rw [request_of_serving h, owed, serveAll_concat, owed, settled, List.append_assoc]

/-- Serving a request changes nothing of what is settled and owed. -/
theorem settled_serve (h : store.serve? now = some store') :
    store'.settled = store.settled ∧ store'.owed = store.owed := by
  obtain ⟨client, request, queue, hq, hq', ha, ht, -⟩ := serve?_eq_some h
  constructor
  · rw [settled, settled, hq, hq', ht, serveAll]
  · rw [owed, owed, hq, hq', ha, ht, serveAll, List.append_assoc]
    rfl

/-- An answer that reaches its client is owed no more. -/
theorem owed_eraseIdx {entry : Client × Result} (h : store.answers[place]? = some entry) :
    store.owed[place]? = some entry ∧
      { store with answers := store.answers.eraseIdx place }.owed = store.owed.eraseIdx place := by
  have hlt : place < store.answers.length := (List.getElem?_eq_some_iff.1 h).1
  constructor
  · rw [owed, List.getElem?_append_left hlt, h]
  · rw [owed, owed, List.eraseIdx_append_of_lt_length hlt]

/-- A volume about which nothing is requested is bound to whom it is going to be bound to. -/
theorem owner?_settled {volume : VolumeId}
    (h : ∀ entry ∈ store.queue, ∃ other service, other ≠ volume ∧
      (entry.2 = .attach other service ∨ entry.2 = .detach other)) :
    store.settled.owner? volume = store.table.owner? volume := by
  have hall (queue : List (Client × Volume.Request)) (table : Bindings)
      (h : ∀ entry ∈ queue, ∃ other service, other ≠ volume ∧
        (entry.2 = .attach other service ∨ entry.2 = .detach other)) :
      (serveAll table queue).1.owner? volume = table.owner? volume := by
    induction queue generalizing table with
    | nil => rfl
    | cons entry rest ih =>
        obtain ⟨client, request⟩ := entry
        obtain ⟨other, service, hne, he⟩ := h _ List.mem_cons_self
        refine (ih _ fun entry hm => h entry (List.mem_cons_of_mem _ hm)).trans ?_
        rcases he with rfl | rfl
        · exact Volume.Bindings.owner?_attach_of_ne hne.symm service
        · exact Volume.Bindings.owner?_detach_of_ne hne.symm
  exact hall store.queue store.table h

end Bringup.Simulation.Store
