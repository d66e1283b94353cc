import StreamControl.Simulation.Session

/-!
# Scripts of sessions

A script is a list of steps. `Session.step` takes one step and answers it; after it the world is at
rest. A step that waits may move the clock. `Session.final` answers for the handles that are left
when the session is over.
-/

namespace StreamControl

namespace Simulation

namespace Session

/-- Events in order of time, then of their streams as they are shown. -/
def inOrder {α : Type} (time : α → Nat) (stream : α → StreamId) (events : List α) : List α :=
  events.mergeSort fun a b =>
    time a < time b || (time a = time b && (stream a).key ≤ (stream b).key)

/-- Does something with a handle. -/
def withHandle (s : Session) (name : String) (f : Handle → Session × Answer) : Session × Answer :=
  (get? s.handles name).elim (s, .lacks .handle) f

/-- Does something with the identity of a request. -/
def withSubject (s : Session) (subject : Subject) (f : RequestId → Session × Answer) :
    Session × Answer :=
  (s.subject? subject).elim (s, .lacks .handle) f

/-- Delivers an outcome to the controller's tracker, so many times in a row. -/
def signal (s : Session) (subject : Subject) (verdict : Verdict) (times : Nat) :
    Session × Answer :=
  s.withSubject subject fun id =>
    if times = 0 then s.looks .nothing
    else
      s.withController fun i _ _ =>
        s.changes fun w => (List.replicate times id).foldl (fun w id => w.deliver i ⟨id, verdict⟩) w

/-- What a step does and answers, before the world comes to rest. -/
def act (s : Session) : Step → Session × Answer
  | .advance ms => s.changes (·.advance ms)
  | .call c =>
    let (world, reply) := s.world.serveStore own c
    ({ s with world }, .ofCall c reply)
  | .force stream phase =>
    let (world, failure) := s.world.attempt own (.setPhase stream phase)
    ({ s with world }, failure.elim .nothing .refused)
  | .failStore count =>
    s.changes (·.modifyStore own (·.failNext count))
  | .streamCount =>
    s.looks (.number (s.world.stores[own]?.elim 0 (·.store.records.length)))
  | .watchedKeys => s.looks (.number (s.world.stores[own]?.elim 0 (·.hub.watched)))
  | .script method faults =>
    s.changes fun w => { w with faults := w.faults ++ faults.map (method, ·) }
  | .append source =>
    s.withSource source fun request =>
      let (world, r) := s.world.append own request
      ({ s with world }, .of .number r)
  | .queue =>
    let (acknowledged, tail, items) := s.world.queueState own
    s.looks (.queue acknowledged tail items)
  | .failAppends fault => s.changes ({ · with appendFault := some fault })
  | .failMemoryAppends count =>
    s.changes (·.modifyQueue own fun site =>
      match site.backing with
      | .memory q => { site with backing := .memory { q with failing := count } }
      | .file _ => site)
  | .failReads count => s.changes ({ · with failingReads := count })
  | .failAcknowledgements count => s.changes ({ · with failingAcknowledgements := count })
  | .stash stream name => s.stash stream name
  | .claim request append => s.claim request append
  | .process source kind => s.withSource source fun r => s.process (kind.getD r.kind) r
  | .buildPipeline settings kinds capacity => s.buildPipeline settings kinds capacity
  | .startPipeline =>
    s.withPipeline fun i _ =>
      let (world, run) := s.world.startRun i
      ({ s with world, pipelineRun := some run }, .nothing)
  | .runPipeline within => s.runPipeline within
  | .stopPipeline =>
    s.withPipeline fun i _ =>
      ({ s with world := s.world.stopEngine i }, .flag true)
  | .joinPipeline => s.joinPipeline
  | .pipelineMetrics => s.looks (.metrics s.pipelineMetrics)
  | .pipelineFailures => s.withPipeline fun _ e => s.looks (.failures e.processor.ledger.entries)
  | .events =>
    ((s.changes ({ · with events := [] })).1,
      .events (inOrder (·.time) (·.request.stream) s.world.events))
  | .outcomes =>
    ((s.changes ({ · with outcomes := [] })).1,
      .outcomes (inOrder (·.time) (·.stream) s.world.outcomes))
  | .build settings hosts capacity => s.build settings hosts capacity
  | .buildInMemory settings => s.buildInMemory settings
  | .start => s.startController
  | .isRunning =>
    s.withController fun _ c _ =>
      s.looks (.flag (c.run.any fun run => !(World.isOver run s.world)))
  | .shutdown => s.shutdown
  | .setTimeout ms =>
    s.withController fun i _ _ =>
      let governor := Governor.ofMillis ms
      let world := s.world.modifyController i fun c =>
        { c with tracker := { c.tracker with governor } }
      ({ s with world }, .number governor.timeout)
  | .gate kind opened =>
    s.changes fun w =>
      let others := w.openGates.filter (· ≠ kind)
      { w with openGates := if opened then kind :: others else others }
  | .metrics => s.withController fun _ _ e => s.looks (.metrics e.processor.metrics)
  | .failures => s.withController fun _ _ e => s.looks (.failures e.processor.ledger.entries)
  | .create stream configuration =>
    s.gateway .record fun _ => Gateway.createStream stream configuration
  | .get stream => s.gateway .record fun _ => Gateway.record stream
  | .phase stream => s.gateway .phase fun _ => Gateway.phase stream
  | .list scope => s.gateway .streams fun _ => Gateway.list scope
  | .describe scope => s.gateway .records fun _ => Gateway.describe scope
  | .hosts => s.withController fun _ c _ => s.looks (.hosts c.hosts)
  | .submit stream operation name =>
    match s.submit stream operation with
    | (s, .error answer) => (s, answer)
    | (s, .ok h) => ({ s with handles := keep s.handles name h }, .accepted h.operation)
  | .submitAndWait stream operation =>
    match s.submit stream operation with
    | (s, .error answer) => (s, answer)
    | (s, .ok h) => s.waitFor h
  | .race submits => s.race submits
  | .status name => s.withHandle name fun h => s.looks (s.told h Tracker.status)
  | .wait name =>
    s.withHandle name fun h => { s with handles := s.handles.filter (·.1 ≠ name) }.waitFor h
  | .drop name =>
    ({ s with handles := s.handles.filter (·.1 ≠ name) }, .flag (get? s.handles name).isSome)
  | .register source name =>
    s.withController fun i _ _ =>
      s.withSource source fun request =>
        let (world, ticket) := s.world.register i request
        let operation := Accepted.of request (some ticket)
        ({ s with world, handles := keep s.handles name ⟨i, operation⟩ }, .accepted operation)
  | .signal subject verdict times => s.signal subject verdict times
  | .pendingCount => s.withController fun _ c _ => s.looks (.number c.tracker.pendingCount)
  | .isPending subject =>
    s.withSubject subject fun id =>
      s.withController fun _ c _ => s.looks (.flag (c.tracker.isPending id))

/-- Takes a step, and lets the world come to rest. -/
def step (s : Session) (step : Step) : Session × Answer :=
  let (s, answer) := s.act step
  ({ s with world := s.world.settle }, answer)

/-- What the holder of a handle is told when all else is gone. Waiting uses the handle up. -/
def final (s : Session) (name : String) (waits : Bool) : Session × Answer :=
  let answer := (get? s.handles name).elim (.lacks .handle) fun h => s.told h Tracker.final
  (if waits then { s with handles := s.handles.filter (·.1 ≠ name) } else s, answer)

end Session

end Simulation

end StreamControl
