import Bringup.Simulation.Store

/-!
# Who waits for a store

The clients of a store are those whose requests it has not served and those whose answers have not
reached them yet (`Store.clients`). A request adds its client, serving a request keeps them all, and an
answer that reaches its client takes one away.
-/

namespace Bringup.Simulation.Store

variable {store store' : Store} {now place delay : Nat} {client : Client}

/-- Those who wait for an answer. -/
def clients (store : Store) : List Client :=
  store.queue.map Prod.fst ++ store.answers.map Prod.fst

/-- Nobody waits for a store that has nothing to serve and nothing to give. -/
theorem clients_eq_nil : store.clients = [] ↔ store.queue = [] ∧ store.answers = [] := by
  simp [clients]

theorem request_of_serving (h : store.mode = .serving delay) (now : Nat) (client : Client)
    (request : Volume.Request) : store.request now client request = { store with
      queue := store.queue ++ [(client, request)]
      due := if store.queue = [] then now + delay else store.due } := by
  rw [Store.request, h]

theorem clients_request (request : Volume.Request) :
    (store.request now client request).clients.Perm (client :: store.clients) := by
  have hlate (answers : List (Client × Result)) :
      (store.queue.map Prod.fst ++ (answers.map Prod.fst ++ [client])).Perm
        (client :: (store.queue.map Prod.fst ++ answers.map Prod.fst)) := by
    rw [← List.append_assoc]
    exact List.perm_append_singleton client _
  unfold Store.request
  split
  next => simpa [clients] using hlate store.answers
  next => simpa [clients] using hlate store.answers
  next => simp [clients]

/-- What serving the oldest request comes to. -/
theorem serve?_eq_some (h : store.serve? now = some store') :
    ∃ client request queue, store.queue = (client, request) :: queue ∧ store'.queue = queue ∧
      store'.answers = store.answers ++ [(client, (store.table.serve request).2)] ∧
      store'.table = (store.table.serve request).1 ∧ store'.mode = store.mode := by
  unfold serve? at h
  split at h
  next delay client request queue hm hq =>
    split at h
    next =>
      obtain rfl := Option.some.inj h
      exact ⟨client, request, queue, hq, rfl, rfl, rfl, rfl⟩
    next => cases h
  next => cases h

/-- Only what is due is served. -/
theorem due_of_serve (h : store.serve? now = some store') : store.due ≤ now := by
  unfold serve? at h
  split at h
  next =>
    split at h
    next hd => exact hd
    next => cases h
  next => cases h

theorem clients_serve (h : store.serve? now = some store') :
    store'.clients.Perm store.clients := by
  obtain ⟨client, request, queue, hq, hq', ha, -⟩ := serve?_eq_some h
  simp only [clients, hq, hq', ha, List.map_append, List.map_cons, List.map_nil,
    List.cons_append, ← List.append_assoc]
  exact List.perm_append_singleton client _

theorem perm_eraseIdx {α : Type} {l : List α} {a : α} {i : Nat} (h : l[i]? = some a) :
    l.Perm (a :: l.eraseIdx i) := by
  induction l generalizing i with
  | nil => cases h
  | cons b rest ih =>
      cases i with
      | zero =>
          obtain rfl := Option.some.inj h
          exact .refl _
      | succ i => exact ((ih h).cons b).trans (.swap ..)

theorem clients_eraseIdx {result : Result} (h : store.answers[place]? = some (client, result)) :
    store.clients.Perm
      (client :: { store with answers := store.answers.eraseIdx place }.clients) :=
  (((perm_eraseIdx h).map Prod.fst).append_left _).trans List.perm_middle

end Bringup.Simulation.Store
