import StreamControl.Proofs.Admission.System
import StreamControl.Proofs.Shop

/-!
# Runs as lists of moves

`System.after` plays a list of moves: clients begin, and make their next calls, which are answered
or fail. Identities and tickets are taken from the length of the log. A move that is not possible is
left out, so that whatever is played is a run of the system (`System.reachable_after`).
-/

namespace StreamControl

namespace Admission

open Shop (orders)

inductive Move
  | create (id : StreamId) (configuration : Configuration)
  | submit (retry : RetryPolicy) (id : StreamId) (operation : Operation Float)
  /-- A handler is given the request at an offset of the queue. -/
  | handle (offset : Nat)
  | force (id : StreamId) (phase : Phase)
  /-- A client's next call is answered. -/
  | answer (i : Nat)
  /-- A client's next call to the store, or its next append, fails. -/
  | fail (i : Nat)

namespace Shared

/-- Whether an identity was never drawn and is that of no queued request. -/
def isNew (s : Shared) (id : RequestId) : Bool :=
  s.queue.requests.all (·.id ≠ id) && s.log.all fun e =>
    match e.event with
    | .drew drawn => drawn ≠ id
    | _ => true

def serveStore (i : Nat) (role : Role) (fails : Bool) (s : Shared) (c : StoreCall) :
    Shared × c.Reply :=
  match fails, Store.apply c s.store with
  | false, (store, .ok a) => (s.answered i role c store (.ok a), .ok a)
  | false, (_, .error e) => (s, .error e)
  | true, _ => (s, .error (.storeUnavailable "injected metadata store failure"))

def serve? (i : Nat) (role : Role) (fails : Bool) (s : Shared) :
    (c : GatewayCall) → Option (Shared × c.Reply)
  | .store c => some (s.serveStore i role fails c)
  | .freshId =>
    let id := RequestId.ofNat s.log.length
    if s.isNew id then some (s.note i role (.drew id), id) else none
  | .now => some (s, (default : Timestamp))
  | .register _ => some (s, s.log.length)
  | .append request =>
    match fails, s.queue.append request with
    | false, (queue, .ok n) => some ({ s with queue }.note i role (.queued request), .ok n)
    | _, _ =>
      some (s.note i role (.refused request), .error (.queueAppendFailed "injected append failure"))
  | .withdraw _ | .count _ | .pause _ => some (s, ())

end Shared

/-- Lets a client make its next call. -/
def Client.act? (i : Nat) (fails : Bool) (s : Shared) : Client → Option (Shared × Client)
  | .creating (.call c k) => (s.serve? i .creator fails c).map fun (s', r) => (s', .creating (k r))
  | .submitting (.call c k) => (s.serve? i .submitter fails c).map fun (s', r) =>
    (s', .submitting (k r))
  | .handling request (.call c k) =>
    let (s', r) := s.serveStore i (.handler request) fails c
    some (s', .handling request (k r))
  | .forcing (.call c k) =>
    let (s', r) := s.serveStore i .operator fails c
    some (s', .forcing (k r))
  | _ => none

/-- A client creates it. -/
def created : List Move := [.create orders ⟨.fixed 1, none⟩, .answer 0, .answer 0, .answer 0]

/-- Another one updates it, and the update is committed. -/
def updating : List Move :=
  created ++ .submit {} orders (.update ⟨.fixed 2, none⟩) :: .replicate 7 (.answer 1) ++
    [.handle 0, .answer 2, .answer 2]

/-- The request of the update. -/
def theUpdate : Request Float := Shop.request 2 (.update ⟨.fixed 2, none⟩)

namespace System

def join (s : System) (client : Client) : System := ⟨s.shared, s.clients ++ [client]⟩

def act (s : System) (i : Nat) (fails : Bool) : System :=
  match s.clients[i]?.bind (·.act? i fails s.shared) with
  | some (shared, client) => ⟨shared, s.clients.set i client⟩
  | none => s

def next (s : System) : Move → System
  | .create id configuration => s.join (.creating (Gateway.createStream id configuration).run)
  | .submit retry id operation => s.join (.submitting (Gateway.submit retry id operation).run)
  | .handle offset =>
    match s.shared.queue.requests[offset]? with
    | some request => s.join (.handling request (Execution.run request.kind request))
    | none => s
  | .force id phase => s.join (.forcing (StoreCall.setPhase id phase).act.run)
  | .answer i => s.act i false
  | .fail i => s.act i true

def after (s : System) (moves : List Move) : System := moves.foldl next s

/-- The result of a client's submission, once it has returned one. -/
def accepted? (s : System) (i : Nat) : Option Accepted :=
  match s.clients[i]? with
  | some (.submitting (.done (.ok a))) => some a
  | _ => none

end System

/-! ## Moves are steps -/

open Shared

variable {s : Shared} {i : Nat} {role : Role} {fails : Bool}

theorem isNew_of_isNew {id : RequestId} (h : s.isNew id = true) : s.IsNew id := by
  rw [isNew, Bool.and_eq_true, List.all_eq_true, List.all_eq_true] at h
  refine ⟨fun r hr => by simpa using h.1 r hr, fun e he hd => ?_⟩
  have := h.2 e he
  rw [hd] at this
  simp at this

theorem servesStore_serveStore (c : StoreCall) :
    servesStore i role c s (s.serveStore i role fails c).1 (s.serveStore i role fails c).2 := by
  unfold serveStore
  cases fails with
  | true => rfl
  | false =>
    cases h : Store.apply c s.store with
    | mk store r =>
      cases r with
      | ok a => exact ⟨store, h, rfl⟩
      | error e => rfl

theorem serves_of_serve? {c : GatewayCall} {s' : Shared} {r : c.Reply}
    (h : s.serve? i role fails c = some (s', r)) :
    serves i role c s s' r := by
  cases c with
  | store c =>
    obtain ⟨rfl, rfl⟩ := Prod.mk.inj (Option.some.inj h)
    exact servesStore_serveStore c
  | freshId =>
    simp only [serve?] at h
    split at h
    · rename_i hnew
      obtain ⟨rfl, rfl⟩ := Prod.mk.inj (Option.some.inj h)
      exact ⟨isNew_of_isNew hnew, rfl⟩
    · cases h
  | append request =>
    simp only [serve?] at h
    split at h
    · rename_i hq
      obtain ⟨rfl, rfl⟩ := Prod.mk.inj (Option.some.inj h)
      exact ⟨_, hq, rfl⟩
    · obtain ⟨rfl, rfl⟩ := Prod.mk.inj (Option.some.inj h)
      rfl
  | _ =>
    obtain ⟨rfl, -⟩ := Prod.mk.inj (Option.some.inj h)
    rfl

theorem moves_of_act? {client client' : Client} {s' : Shared}
    (h : client.act? i fails s = some (s', client')) :
    client.Moves i s s' client' := by
  unfold Client.act? at h
  split at h
  · obtain ⟨⟨_, r⟩, hs, he⟩ := Option.map_eq_some_iff.mp h
    obtain ⟨rfl, rfl⟩ := Prod.mk.inj he
    exact .create (serves_of_serve? hs)
  · obtain ⟨⟨_, r⟩, hs, he⟩ := Option.map_eq_some_iff.mp h
    obtain ⟨rfl, rfl⟩ := Prod.mk.inj he
    exact .submit (serves_of_serve? hs)
  · obtain ⟨rfl, rfl⟩ := Prod.mk.inj (Option.some.inj h)
    exact .handle (servesStore_serveStore _)
  · obtain ⟨rfl, rfl⟩ := Prod.mk.inj (Option.some.inj h)
    exact .force (servesStore_serveStore _)
  · cases h

namespace System

variable {s : System}

theorem reachable_act (h : Reachable s) (i : Nat) (fails : Bool) : Reachable (s.act i fails) := by
  unfold act
  split
  · rename_i shared client hact
    obtain ⟨before, hc, hb⟩ := Option.bind_eq_some_iff.mp hact
    exact h.step (.move hc (moves_of_act? hb))
  · exact h

theorem reachable_next (h : Reachable s) (m : Move) : Reachable (s.next m) := by
  cases m with
  | create id configuration => exact h.step (.begin (.create id configuration))
  | submit retry id operation => exact h.step (.begin (.submit retry id operation))
  | handle offset =>
    simp only [next]
    split
    · rename_i request hr
      exact h.step (.begin (.handle request (List.mem_of_getElem? hr)))
    · exact h
  | force id phase => exact h.step (.begin (.force id phase))
  | answer i => exact reachable_act h i false
  | fail i => exact reachable_act h i true

theorem reachable_after (h : Reachable s) (moves : List Move) : Reachable (s.after moves) := by
  induction moves generalizing s with
  | nil => exact h
  | cons m rest ih => exact ih (reachable_next h m)

end System

end Admission

end StreamControl
