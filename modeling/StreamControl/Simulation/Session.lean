import StreamControl.Simulation.Service
import StreamControl.Simulation.Step

/-!
# Sessions

A session is a world and what somebody who works in it has at hand: a controller, a pipeline,
handles of operations, and requests put aside. The first store and the first queue of the world are
the session's own. What the steps of a session do is defined here, as far as it is more than one
call.
-/

namespace StreamControl

namespace Simulation

/-- An operation that a caller holds, and the controller that tracks it. -/
structure Handle where
  controller : Nat
  operation : Accepted

structure Session where
  world : World
  /-- The scripted handlers. -/
  conducts : List (Kind × Conduct) := []
  /-- The queue directory; without one the queue is in memory. -/
  files : Option FileQueueSettings := none
  controller : Option Nat := none
  /-- The engine of the pipeline without a controller, and its run. -/
  pipeline : Option Nat := none
  pipelineRun : Option Nat := none
  /-- The engine that is counted for, which no longer is there if its rebuilding failed. -/
  counted : Option Nat := none
  handles : List (String × Handle) := []
  stashes : List (String × Request Float) := []

namespace Session

/-- The number of the session's own store, and of its own queue. -/
def own : Nat := 0

/-- A session that begins with an empty store, and with an empty queue in memory or in files. -/
def start (notifies : Bool) (conducts : List (Kind × Conduct)) (files : Option FileQueueSettings) :
    Except QueueError Session :=
  let w : World := { stores := [{ notifies, faulty := true }] }
  let withQueue (w : World) (backing : Backing) : Session :=
    { world := { w with queues := [{ backing, faulty := true }] }, conducts, files }
  match files with
  | none => .ok (withQueue w (.memory {}))
  | some settings =>
    let (w, opened) := w.onDisk (FileQueue.open settings).run
    (fun q => withQueue w (.file q)) <$> opened

def get? {α : Type} (named : List (String × α)) (name : String) : Option α :=
  (named.find? (·.1 = name)).map (·.2)

/-- Keeps something under a name. -/
def keep {α : Type} (named : List (String × α)) (name : String) (a : α) : List (String × α) :=
  (name, a) :: named.filter (·.1 ≠ name)

def source? (s : Session) : Source → Option (Request Float)
  | .given request => some request
  | .stashed name => get? s.stashes name

def subject? (s : Session) : Subject → Option RequestId
  | .request id => some id
  | .handle name => (get? s.handles name).map (·.operation.id)

/-- A step that only looks. -/
def looks (s : Session) (a : Answer) : Session × Answer := (s, a)

/-- A step that changes the world alone. -/
def changes (s : Session) (f : World → World) : Session × Answer :=
  ({ s with world := f s.world }, .nothing)

/-! ## Controllers -/

/-- Adds a controller, which becomes the one that steps speak to. -/
def install (s : Session) (settings : ControllerSettings) (hosts : List Host) (capacity : Nat)
    (store queue : Nat) (observed : Bool) (conducts : List (Kind × Conduct)) : Session × Answer :=
  match settings.flaw? with
  | some flaw => (s, .refused (.config flaw))
  | none =>
    let standard : HandlerTable (Option Conduct) := .standard fun _ => none
    let handlers := conducts.foldl (fun t (kind, c) => t.register kind (some c)) standard
    match Processor.of? (.ofController settings) handlers (.inMemory capacity) with
    | .error e => (s, .pipelineFailed e)
    | .ok processor =>
      let w := s.world
      let engine : Engine := { processor, store, queue, observed }
      let controller : Controller :=
        { engine := w.engines.length
          tracker := .start settings.completionTimeout settings.pollInterval
          retry := settings.retry, hosts }
      let world := { w with
        engines := w.engines ++ [engine], controllers := w.controllers ++ [controller] }
      ({ s with world, controller := some w.controllers.length }, .nothing)

/-- Opens the queue's files anew. All that use the queue use it as it is then, but who waits for an
append to it as it was waits on. -/
def reopen (s : Session) : Session × Option QueueError :=
  match s.files with
  | none => (s, none)
  | some settings =>
    match s.world.onDisk (FileQueue.open settings).run with
    | (w, .error e) => ({ s with world := w }, some e)
    | (w, .ok q) =>
      let world := w.modifyQueue own fun site =>
        { site with backing := .file q, hub := site.hub.successor }
      ({ s with world }, none)

def build (s : Session) (settings : ControllerSettings) (hosts : List Host)
    (capacity : Option Nat) : Session × Answer :=
  match s.reopen with
  | (s, some e) => (s, .queueFailed e)
  | (s, none) =>
    s.install settings (Host.ordered hosts) (capacity.getD FailureLedger.defaultCapacity) own own
      true s.conducts

/-- A controller with a store and a queue of its own, both in memory. -/
def buildInMemory (s : Session) (settings : ControllerSettings) : Session × Answer :=
  let w := s.world
  let world := { w with
    stores := w.stores ++ [{}], queues := w.queues ++ [{ backing := .memory {} }] }
  { s with world }.install settings [] FailureLedger.defaultCapacity w.stores.length w.queues.length
    false []

/-- Speaks to the controller. -/
def withController (s : Session)
    (f : Nat → Controller → Engine → Session × Answer) : Session × Answer :=
  match s.controller with
  | none => (s, .lacks .controller)
  | some i =>
    match s.world.controllers[i]? with
    | none => (s, .lacks .controller)
    | some c =>
      match s.world.engines[c.engine]? with
      | none => (s, .lacks .controller)
      | some e => f i c e

/-- Has the gateway run an action. -/
def gateway {α : Type} (s : Session) (f : α → Answer) (action : Controller → GatewayAction α) :
    Session × Answer :=
  s.withController fun i c e =>
    let (world, r) := (action c).run.run (World.serve i e) s.world
    ({ s with world }, .of f r)

/-- Starts the controller's pipeline, unless it runs. -/
def startController (s : Session) : Session × Answer :=
  s.withController fun i c _ =>
    if c.run.any fun run => !(World.isOver run s.world) then (s, .flag true)
    else
      let (w, run) := s.world.startRun c.engine
      ({ s with world := w.modifyController i ({ · with run := some run }) }, .flag true)

/-- Stops the controller's pipeline, and waits until it has ended. -/
def shutdown (s : Session) : Session × Answer :=
  s.withController fun i c _ =>
    let w := (s.world.stopEngine c.engine).modifyController i ({ · with run := none })
    match c.run with
    | none => ({ s with world := w }, .nothing)
    | some run =>
      let w := w.await (World.isOver run) World.longest
      ({ s with world := w }, .of (fun _ => .nothing) ((w.result run).mapError (·.toControl)))

/-! ## Submitting and waiting -/

def submit (s : Session) (stream : StreamId) (operation : Operation Float) :
    Session × Except Answer Handle :=
  match s.controller, s.gateway .accepted fun c => Gateway.submit c.retry stream operation with
  | some i, (s, .accepted operation) => (s, .ok ⟨i, operation⟩)
  | _, (s, answer) => (s, .error answer)

def tracker? (s : Session) (h : Handle) : Option Tracker :=
  s.world.controllers[h.controller]?.map (·.tracker)

/-- What the holder of a handle is told. -/
def told (s : Session) (h : Handle)
    (f : Tracker → RequestId → Nat → Except ControlError Completion) : Answer :=
  match h.operation.ticket, s.tracker? h with
  | some ticket, some t => .of .completion (f t h.operation.id ticket)
  | _, _ => .completion .success

/-- Waits until the slot of a handle is settled. -/
def waitFor (s : Session) (h : Handle) : Session × Answer :=
  let settled (w : World) : Bool :=
    h.operation.ticket.all fun ticket =>
      w.controllers[h.controller]?.all fun c => (c.tracker.resolution? ticket).isSome
  let s := { s with world := s.world.await settled World.longest }
  (s, s.told h Tracker.status)

/-- Submits operations of which none goes on before all have looked at their streams. -/
def race (s : Session) (submits : List (StreamId × Operation Float)) : Session × Answer :=
  s.withController fun i c e =>
    let (w, programs) := submits.foldl (fun (w, done) (stream, operation) =>
      let (w, program) :=
        w.runToFirstLook i e (Gateway.submit c.retry stream operation).run
      (w, done ++ [program])) (s.world, [])
    let (w, results) := programs.foldl (fun (w, done) program =>
      let (w, r) := program.run (World.serve i e) w
      (w, done ++ [r])) (w, [])
    let errors := results.filterMap fun
      | .ok _ => none
      | .error e => some e
    ({ s with world := w }, .raced (results.length - errors.length) errors)

/-! ## By hand

What is done by hand is done at the store itself, out of reach of the scripted faults.
-/

/-- Makes a request the owner of its stream, and appends it. -/
def claim (s : Session) (request : Request Float) (append : Bool) : Session × Answer :=
  match s.world.reach own (.get request.stream) with
  | (w, .error e) => ({ s with world := w }, .refused e)
  | (w, .ok none) => ({ s with world := w }, .refused (.streamNotFound request.stream))
  | (w, .ok (some record)) =>
    let (w, written) := w.reach own (.swap record.version (record.claimedBy request))
    let (w, answer) := match written with
      | .error e => (w, .refused e)
      | .ok written =>
        if append then
          match w.append own request with
          | (w, .error e) => (w, .refused e)
          | (w, .ok _) => (w, .written written)
        else (w, .written written)
    ({ s with world := w }, answer)

/-- Puts aside the request that owns a stream. -/
def stash (s : Session) (stream : StreamId) (name : String) : Session × Answer :=
  match s.world.reach own (.get stream) with
  | (w, .error e) => ({ s with world := w }, .refused e)
  | (w, .ok record) =>
    let s := { s with world := w }
    match record.bind (·.active) with
    | none => (s, .lacks .activeRequest)
    | some request => ({ s with stashes := keep s.stashes name request }, .request request)

/-- Does something with a request that a step names. -/
def withSource (s : Session) (source : Source)
    (f : Request Float → Session × Answer) : Session × Answer :=
  match s.source? source with
  | none => (s, .lacks .stash)
  | some request => f request

/-- Runs a standard handler on the store. -/
def process (s : Session) (kind : Kind) (request : Request Float) : Session × Answer :=
  let (world, outcome) :=
    (Execution.run kind request).run (fun c w => World.serveStore w own c) s.world
  ({ s with world }, .outcome outcome)

/-! ## A pipeline without a controller -/

def buildPipeline (s : Session) (settings : PipelineSettings) (kinds : Option (List Kind))
    (capacity : Option Nat) : Session × Answer :=
  let standard : HandlerTable (Option Conduct) := (kinds.getD Kind.all).map (·, none)
  let handlers := s.conducts.foldl (fun t (kind, c) => t.register kind (some c)) standard
  let ledger := FailureLedger.inMemory (capacity.getD FailureLedger.defaultCapacity)
  match Processor.of? settings handlers ledger with
  | .error e => ({ s with counted := none }, .pipelineFailed e)
  | .ok processor =>
    let w := s.world
    let engine : Engine := { processor, store := own, queue := own, observed := true }
    let world := { w with engines := w.engines ++ [engine] }
    ({ s with world, pipeline := some w.engines.length, counted := some w.engines.length },
      .nothing)

/-- What is counted of the pipeline that was built last; nothing if that failed. -/
def pipelineMetrics (s : Session) : Metrics :=
  (s.counted.bind (s.world.engines[·]?)).elim {} (·.processor.metrics)

/-- Speaks to the pipeline. -/
def withPipeline (s : Session) (f : Nat → Engine → Session × Answer) : Session × Answer :=
  match s.pipeline with
  | none => (s, .lacks .controller)
  | some i => s.world.engines[i]?.elim (s, .lacks .controller) (f i)

def ofResult (text : String) : Except PipelineError Unit → Answer
  | .ok () => .text text
  | .error e => .pipelineFailed e

/-- Runs the pipeline for some time, and drops the run if it has not ended by then. -/
def runPipeline (s : Session) (within : Nat) : Session × Answer :=
  s.withPipeline fun i _ =>
    let (w, run) := s.world.startRun i
    let w := w.await (World.isOver run) within
    if World.isOver run w then ({ s with world := w }, ofResult "stopped" (w.result run))
    else ({ s with world := w.dropRun run }, .text "running")

/-- Waits for the run that was started last. -/
def joinPipeline (s : Session) : Session × Answer :=
  match s.pipelineRun with
  | none => (s, .lacks .run)
  | some run =>
    let w := s.world.await (World.isOver run) World.longest
    ({ s with world := w, pipelineRun := none }, ofResult "stopped" (w.result run))

end Session

end Simulation

end StreamControl
