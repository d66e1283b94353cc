import StreamControl.Gateway.Basic
import StreamControl.Pipeline.Execution
import StreamControl.Queue.Memory

/-!
# Clients of one store and one queue

Any number of clients work on a store and a queue: callers who create streams or submit operations,
handlers of requests that the queue delivers, and operators who force a stream into a phase. Each
runs a program of the gateway or of a handler. A step of the `System` starts a client, or lets one
client make its next call; so every interleaving of their calls is a run. A call to the store or to
the queue may fail at any time, and then changes nothing. A client that makes no further step has
been stopped where it stands. A request may be delivered any number of times, in any order.

What happened is written down in a log, the latest entry first: the identities drawn, what was
appended or refused by the queue, and what every write found and left of its stream's record.
-/

namespace StreamControl

namespace Admission

/-- What a client is there for. -/
inductive Role
  | creator
  | submitter
  | handler (request : Request Float)
  | operator

inductive Event
  | drew (id : RequestId)
  /-- A write of a stream's record took effect. -/
  | wrote (stream : StreamId) (before after : Option (Record Float))
  | queued (request : Request Float)
  /-- An append failed. -/
  | refused (request : Request Float)

structure Entry where
  client : Nat
  role : Role
  event : Event

/-- A write of one stream's record. -/
structure Write where
  client : Nat
  role : Role
  before : Option (Record Float)
  after : Option (Record Float)

/-- The write of a stream that an entry is about. -/
def Entry.write? (id : StreamId) (e : Entry) : Option Write :=
  match e.event with
  | .wrote stream before after =>
    if stream = id then some ⟨e.client, e.role, before, after⟩ else none
  | _ => none

/-- What the clients share, and the log. -/
structure Shared where
  store : Store := {}
  queue : MemoryQueue
  log : List Entry := []

namespace Shared

/-- The writes of a stream's record, the latest first. -/
def writes (s : Shared) (id : StreamId) : List Write := s.log.filterMap (·.write? id)

/-- What a client has done, the latest first. -/
def eventsOf (s : Shared) (i : Nat) : List Event := (s.log.filter (·.client = i)).map (·.event)

def note (s : Shared) (i : Nat) (role : Role) (event : Event) : Shared :=
  { s with log := ⟨i, role, event⟩ :: s.log }

/-- Whether an identity was never drawn and is that of no queued request. -/
def IsNew (s : Shared) (id : RequestId) : Prop :=
  (∀ r ∈ s.queue.requests, r.id ≠ id) ∧ ∀ e ∈ s.log, e.event ≠ .drew id

/-- What is shared after the store has answered a call. -/
def answered (s : Shared) (i : Nat) (role : Role) (c : StoreCall) (store : Store) (r : c.Reply) :
    Shared :=
  match c.stream? with
  | some id =>
    if c.changed r then { s with store }.note i role (.wrote id (s.store.find? id) (store.find? id))
      else { s with store }
  | none => { s with store }

/-- A call to the store: it fails and changes nothing, or the store answers it. -/
def servesStore (i : Nat) (role : Role) (c : StoreCall) (s s' : Shared) : c.Reply → Prop
  | .error _ => s' = s
  | .ok a => ∃ store, Store.apply c s.store = (store, .ok a) ∧
    s' = s.answered i role c store (.ok a)

/-- A call of the gateway. What concerns neither the store nor the queue is answered at will. -/
def serves (i : Nat) (role : Role) : (c : GatewayCall) → Shared → Shared → c.Reply → Prop
  | .store c, s, s', r => s.servesStore i role c s' r
  | .freshId, s, s', id => s.IsNew id ∧ s' = s.note i role (.drew id)
  | .append request, s, s', .ok n =>
    ∃ queue, s.queue.append request = (queue, .ok n) ∧
      s' = { s with queue }.note i role (.queued request)
  | .append request, s, s', .error _ => s' = s.note i role (.refused request)
  | .now, s, s', _ | .register _, s, s', _ | .withdraw _, s, s', _ | .count _, s, s', _ | .pause _,
    s, s', _ => s' = s

end Shared

/-- A client and what it has still to do. -/
inductive Client
  | creating (rest : GatewayProgram (Except ControlError (Record Float)))
  | submitting (rest : GatewayProgram (Except ControlError Accepted))
  | handling (request : Request Float) (rest : StoreProgram Outcome)
  | forcing (rest : StoreProgram (Except ControlError Unit))

namespace Client

def role : Client → Role
  | .creating _ => .creator
  | .submitting _ => .submitter
  | .handling request _ => .handler request
  | .forcing _ => .operator

/-- A client's next call. -/
inductive Moves (i : Nat) : Client → Shared → Shared → Client → Prop
  | create {c k s s' r} : Shared.serves i .creator c s s' r →
    Moves i (.creating (.call c k)) s s' (.creating (k r))
  | submit {c k s s' r} : Shared.serves i .submitter c s s' r →
    Moves i (.submitting (.call c k)) s s' (.submitting (k r))
  | handle {request c k s s' r} : Shared.servesStore i (.handler request) c s s' r →
    Moves i (.handling request (.call c k)) s s' (.handling request (k r))
  | force {c k s s' r} : Shared.servesStore i .operator c s s' r →
    Moves i (.forcing (.call c k)) s s' (.forcing (k r))

/-- How clients begin. A handler is given a request that the queue holds, or has held. -/
inductive Begins (s : Shared) : Client → Prop
  | create (id : StreamId) (configuration : Configuration) :
    Begins s (.creating (Gateway.createStream id configuration).run)
  | submit (retry : RetryPolicy) (id : StreamId) (operation : Operation Float) :
    Begins s (.submitting (Gateway.submit retry id operation).run)
  | handle (request : Request Float) : request ∈ s.queue.requests →
    Begins s (.handling request (Execution.run request.kind request))
  | force (id : StreamId) (phase : Phase) :
    Begins s (.forcing (StoreCall.setPhase id phase).act.run)

end Client

structure System where
  shared : Shared
  clients : List Client

namespace System

inductive Step : System → System → Prop
  | begin {s : System} {client : Client} : client.Begins s.shared →
    Step s ⟨s.shared, s.clients ++ [client]⟩
  | move {s : System} {i : Nat} {client client' : Client} {shared' : Shared} :
    s.clients[i]? = some client → client.Moves i s.shared shared' client' →
    Step s ⟨shared', s.clients.set i client'⟩

/-- An empty store, a queue that may hold requests from before, and no clients. -/
def start (queue : MemoryQueue) : System := ⟨{ queue }, []⟩

/-- What any run comes to. -/
inductive Reachable : System → Prop
  | start (queue : MemoryQueue) : Reachable (start queue)
  | step {s s' : System} : Reachable s → Step s s' → Reachable s'

end System

end Admission

end StreamControl
