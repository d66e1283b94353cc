import StreamControl.Simulation.World

/-!
# Calls in a world

Calls of a store or a queue are served at once, with what is scripted to happen to them, and ring
the bells of those who wait for what they change.
-/

namespace StreamControl

namespace Simulation

namespace World

/-! ## Bells -/

/-- Rings an alarm that waits for a bell. -/
def ringAlarm (bell : Nat) (a : Alarm) : Alarm :=
  if a.watch.any (·.bell = bell) then { a with rung := true } else a

/-- Tells the watchers at a store of a change. -/
def ringStore (w : World) (i : Nat) (stream : StreamId) : World :=
  match w.stores[i]?.bind (·.hub.bell? stream.key) with
  | none => w
  | some bell =>
    { w with watchings := w.watchings.map fun x =>
        if (w.engineOf x.controller).any (·.store = i) then
          { x with alarm := x.alarm.map (ringAlarm bell) }
        else x }

/-- The key of those who wait for appends. -/
def appendKey : String := "requests"

/-- Tells the pipelines at a queue of an append. -/
def ringQueue (w : World) (i : Nat) : World :=
  match w.queues[i]?.bind (·.hub.bell? appendKey) with
  | none => w
  | some bell =>
    { w with runs := w.runs.map fun r =>
        match r.doing with
        | .serving alarm =>
          if w.engines[r.engine]?.any (·.queue = i) then
            { r with doing := .serving (alarm.map (ringAlarm bell)) }
          else r
        | _ => r }

/-! ## Stores -/

/-- Makes a call at a store. -/
def reach (w : World) (i : Nat) (c : StoreCall) : World × c.Reply :=
  match w.stores[i]? with
  | none => (w, .error .shuttingDown)
  | some site =>
    let (store, reply) := Store.serve c site.store
    let w := w.modifyStore i ({ · with store })
    match c.changed reply, c.stream? with
    | true, some stream => (w.ringStore i stream, reply)
    | _, _ => (w, reply)

/-- Makes a call at a store, of which only the failure counts. -/
def attempt (w : World) (i : Nat) (c : StoreCall) : World × Option ControlError :=
  match w.reach i c with
  | (w, .error e) => (w, some e)
  | (w, .ok _) => (w, none)

/-- Makes a call at a store that depends on a record, if the record is there. -/
def withRecord (w : World) (i : Nat) (id : StreamId) (f : Record Float → StoreCall) :
    World × Option ControlError :=
  match w.reach i (.get id) with
  | (w, .error e) => (w, some e)
  | (w, .ok none) => (w, none)
  | (w, .ok (some record)) => w.attempt i (f record)

/-- Lets somebody else change a stream, who may fail. -/
def change (w : World) (i : Nat) (id : StreamId) : Change → World × Option ControlError
  | .setPhase phase => w.attempt i (.setPhase id phase)
  | .bump => w.withRecord i id fun record => .swap record.version record
  | .remove => w.withRecord i id fun record => .remove id record.version

/-- Serves a call of the program, with what is to happen to it. A change that fails is the call's
failure. -/
def serveStore (w : World) (i : Nat) (c : StoreCall) : World × c.Reply :=
  if w.stores[i]?.any (·.faulty) then
    let (fault, faults) := takeFault (.of c) w.faults
    let w := { w with faults }
    match fault.answer? c with
    | some reply => (w, reply)
    | none =>
      match fault, c.stream? with
      | .first change, some id =>
        match w.change i id change with
        | (w, some e) => (w, .error e)
        | (w, none) => w.reach i c
      | _, _ => w.reach i c
  else w.reach i c

/-! ## Queues -/

/-- Runs a disk program in the world. -/
def onDisk {α : Type} (w : World) (p : DiskProgram α) : World × α :=
  let (disk, a) := p.run Disk.serve w.disk
  ({ w with disk }, a)

/-- Changes what stands behind a queue, by a program whose failure is the queue's. -/
def withQueue {α : Type} (w : World) (i : Nat)
    (memory : MemoryQueue → MemoryQueue × Except QueueError α)
    (file : FileQueue → DiskProgram (FileQueue × Except QueueError α)) :
    World × Except ControlError α :=
  match w.queues[i]?.map QueueSite.backing with
  | none => (w, .error .shuttingDown)
  | some (.memory q) =>
    let (q, r) := memory q
    (w.modifyQueue i ({ · with backing := .memory q }), r.mapError (·.toControl))
  | some (.file q) =>
    let (w, q, r) := w.onDisk (file q)
    (w.modifyQueue i ({ · with backing := .file q }), r.mapError (·.toControl))

/-- What happens to an append that is to fail. A change that fails comes before the rest. -/
def failAppend (w : World) (store : Nat) (fault : AppendFault) (stream : StreamId) :
    World × ControlError :=
  let w := { w with appendFault := some { fault with left := fault.left - 1 } }
  match fault.change.elim (w, none) (w.change store stream) with
  | (w, some e) => (w, e)
  | (w, none) =>
    (if 0 < fault.storeFailures then w.modifyStore store (·.failNext fault.storeFailures) else w,
      .queue fault.text)

/-- Appends a request, and tells those who wait for it. -/
def append (w : World) (i : Nat) (request : Request Float) : World × Except ControlError Nat :=
  let faulty := w.queues[i]?.any (·.faulty)
  match w.appendFault.filter (faulty && 0 < ·.left) with
  | some fault =>
    let (w, e) := w.failAppend 0 fault request.stream
    (w, .error e)
  | none =>
    match w.withQueue i (·.append request) (·.append request) with
    | (w, .ok offset) => (w.ringQueue i, .ok offset)
    | (w, .error e) => (w, .error e)

/-- Reads a batch. -/
def read (w : World) (i offset max : Nat) : World × Except ControlError (List (Queued Float)) :=
  if 0 < w.failingReads && w.queues[i]?.any (·.faulty) then
    ({ w with failingReads := w.failingReads - 1 }, .error (.queue "read failed"))
  else
    w.withQueue i (fun q => (q, .ok (q.readFrom offset max)))
      (fun q => pure (q, .ok (q.readFrom offset max)))

def acknowledge (w : World) (i next : Nat) : World × Except ControlError Unit :=
  if 0 < w.failingAcknowledgements && w.queues[i]?.any (·.faulty) then
    ({ w with failingAcknowledgements := w.failingAcknowledgements - 1 },
      .error (.queue "acknowledge failed"))
  else w.withQueue i (·.acknowledge next) (·.acknowledge next)

/-- How far a queue is acknowledged, its tail, and what it holds beyond. -/
def queueState (w : World) (i : Nat) : Nat × Nat × List (Queued Float) :=
  match w.queues[i]?.map QueueSite.backing with
  | none => (0, 0, [])
  | some (.memory q) => (q.acknowledged, q.tail, q.pending)
  | some (.file q) => (q.acknowledged, q.tail, q.pending)

/-! ## Alarms -/

/-- An alarm for a key of a hub, or for the time alone. -/
def setAlarm (hub : Hub) (key : Option String) (due : Nat) : Hub × Alarm :=
  match key with
  | none => (hub, ⟨none, due, false⟩)
  | some key =>
    let (hub, watch) := hub.watch key
    (hub, ⟨some watch, due, false⟩)

def stopAlarm (hub : Hub) (alarm : Option Alarm) : Hub :=
  match alarm.bind (·.watch) with
  | none => hub
  | some watch => hub.stop watch

/-! ## Counting -/

def count (w : World) (engine : Nat) (event : Metrics.Event) : World :=
  w.modifyEngine engine fun e => { e with processor := e.processor.count event }

/-- Delivers an outcome to the tracker of a controller. -/
def deliver (w : World) (controller : Nat) (outcome : Outcome) : World :=
  match w.controllers[controller]? with
  | none => w
  | some c =>
    let (tracker, events) := c.tracker.deliver outcome
    events.foldl (·.count c.engine ·) (w.modifyController controller ({ · with tracker }))

/-- Keeps a failure in the ledger of an engine, if the ledger's file takes it. -/
def record (w : World) (engine : Nat) (entry : FailedRequest) : World :=
  match w.engines[engine]? with
  | none => w
  | some e =>
    let (w, ledger, _) := w.onDisk (e.processor.ledger.record entry)
    w.modifyEngine engine fun e => { e with processor := { e.processor with ledger } }

/-! ## Outcomes -/

/-- The controllers of an engine, and those who write down what it publishes. -/
def listeners (w : World) (engine : Nat) : List Listener :=
  ((List.range w.controllers.length).filter fun i =>
      w.controllers[i]?.any (·.engine = engine)).map .controller ++
    if w.engines[engine]?.any (·.observed) then [.scribe] else []

/-- Publishes an outcome to a listener. -/
def publish (w : World) (stream : StreamId) (outcome : Outcome) : Listener → World
  | .controller i => w.deliver i outcome
  | .scribe => { w with outcomes := w.outcomes ++ [⟨w.clock, stream, outcome⟩] }

/-- Does what the end of an attempt of an engine asks for. A failed acknowledgement only leads to
another delivery. -/
def perform (w : World) (engine queue : Nat) (stream : StreamId) : Effect Listener → World
  | .count event => w.count engine event
  | .record entry => w.record engine entry
  | .publish listener outcome => w.publish stream outcome listener
  | .acknowledge next => (w.acknowledge queue next).1

end World

end Simulation

end StreamControl
