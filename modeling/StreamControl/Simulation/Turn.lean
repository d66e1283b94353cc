import StreamControl.Simulation.Calls

/-!
# Turns

A turn lets one of those at work, a handler, a watcher or a run of a pipeline, go on until it waits
again.
-/

namespace StreamControl

namespace Simulation

namespace World

/-! ## Handlers -/

/-- Takes the next deed of a stream from the script of its kind. -/
def takeDeed (w : World) (c : Conduct) (request : Request Float) : World × Deed :=
  let key := (request.kind, request.stream)
  let seen := ((w.scripts.find? (·.1 = key)).map (·.2)).getD 0
  ({ w with scripts := (key, seen + 1) :: w.scripts.filter (·.1 ≠ key) },
    c.script.getD seen .execute)

/-- Lets a handler go on until it waits. -/
def proceed (store : Nat) (c : Conduct) (request : Request Float) :
    HandlerProgram Ending → World → World × Progress
  | .done ending, w => (w, .over ending)
  | .call (.store call) k, w =>
    let (w, reply) := w.serveStore store call
    proceed store c request (k reply) w
  | .call (.log begins) k, w =>
    proceed store c request (k ()) { w with events := w.events ++ [⟨w.clock, begins, request⟩] }
  | .call (.pause ms) k, w => (w, .asleep (w.clock + ms) (k ()))
  | .call .gate k, w =>
    if w.openGates.contains request.kind then proceed store c request (k ()) w
    else (w, .atGate (k ()))
  | .call .deed k, w =>
    let (w, deed) := w.takeDeed c request
    proceed store c request (k deed) w

/-- The rest of a handler that can go on now. -/
def Job.rest? (w : World) (job : Job) : Option (HandlerProgram Ending) :=
  match job.progress with
  | .ready rest => some rest
  | .asleep due rest => if due ≤ w.clock then some rest else none
  | .atGate rest => if w.openGates.contains job.item.request.kind then some rest else none
  | .over _ => none

/-- Reports the end of a handler to its run. -/
def report (w : World) (job : Job) (ending : Ending) : World :=
  { w with runs := w.runs.map fun r =>
      if r.id = job.run then
        { r with pipeline := r.pipeline.report job.item.offset (verdictOf ending) }
      else r }

/-- A turn of a handler: the first one that can go on. -/
def jobTurn? (w : World) : Option World :=
  match w.jobs.span fun job => (Job.rest? w job).isNone with
  | (_, []) => none
  | (before, job :: after) => do
    let rest ← Job.rest? w job
    let (w, progress) := proceed job.store job.conduct job.item.request rest w
    match progress with
    | .over ending => some (report { w with jobs := before ++ after } job ending)
    | progress => some { w with jobs := before ++ { job with progress } :: after }

/-! ## Watchers -/

/-- Whether a watcher can do something. -/
def Watching.isReady (w : World) (c : Controller) (x : Watching) : Bool :=
  match x.alarm with
  | none => true
  | some alarm =>
    (c.tracker.resolution? x.watcher.ticket).isSome || alarm.isOver w.clock ||
      x.watcher.deadline ≤ w.clock

/-- Ends a watcher, with the signal that it gives if any. -/
def retire (w : World) (x : Watching) (c : Controller) (signal : Option Resolution) : World :=
  let ticket := x.watcher.ticket
  match signal with
  | none => w.modifyController x.controller fun c => { c with tracker := c.tracker.detach ticket }
  | some r =>
    let (tracker, event) := c.tracker.signal ticket r
    (w.modifyController x.controller ({ · with tracker := tracker.detach ticket })).count c.engine
      event

/-- Lets a watcher look at the store and at the clock, and wait again if neither settles its slot.
The watcher has left `w.watchings`. -/
def look (w : World) (x : Watching) (c : Controller) (store : Nat) : World :=
  let stream := x.watcher.request.stream
  let (w, reply) := w.serveStore store (.get stream)
  match x.watcher.looked w.clock reply with
  | some r => w.retire x c r
  | none =>
    let site := w.stores.getD store default
    let (hub, alarm) :=
      setAlarm site.hub (if site.notifies then some stream.key else none)
        (w.clock + c.tracker.poll)
    let w := w.modifyStore store ({ · with hub })
    { w with watchings := w.watchings ++ [{ x with alarm := some alarm }] }

/-- A watcher's turn: it is settled, or looks, or has run out of time. -/
def watch (w : World) (x : Watching) (c : Controller) (store : Nat) : World :=
  let w := w.modifyStore store fun s => { s with hub := stopAlarm s.hub x.alarm }
  if (c.tracker.resolution? x.watcher.ticket).isSome then w.retire x c none
  else if x.alarm.all (·.isOver w.clock) then w.look x c store
  else w.retire x c (x.watcher.expired w.clock)

/-- A turn of a watcher: the first one that can do something. -/
def watchTurn? (w : World) : Option World :=
  let idle (x : Watching) : Bool :=
    !(w.controllers[x.controller]?.any fun c => Watching.isReady w c x)
  match w.watchings.span idle with
  | (_, []) => none
  | (before, x :: after) => do
    let c ← w.controllers[x.controller]?
    let e ← w.engines[c.engine]?
    some (watch { w with watchings := before ++ after } x c e.store)

/-! ## Runs -/

def putRun (w : World) (r : Run) : World :=
  { w with runs := w.runs.map fun old => if old.id = r.id then r else old }

/-- Takes out a run that has ended. -/
def endRun (w : World) (r : Run) (result : Except PipelineError Unit) : World :=
  { w with runs := w.runs.filter (·.id ≠ r.id), ended := (r.id, result) :: w.ended }

/-- Begins a run, unless another one is active. -/
def beginRun (w : World) (e : Engine) (r : Run) : World :=
  match e.processor.begin with
  | .error error => w.endRun r (.error error)
  | .ok processor =>
    let w := w.modifyEngine r.engine ({ · with processor })
    let pipeline := Pipeline.start processor.settings (w.queueState e.queue).1
    w.putRun { r with doing := .serving none, pipeline }

/-- Starts the handler of an attempt. -/
def startJob (w : World) (e : Engine) (r : Run) (item : Queued Float) : World :=
  let conduct := (e.processor.handlers.find? item.request.kind).join
  let rest := (conduct.map (·.run item.request)).getD (execute item.request)
  { w with jobs := w.jobs ++ [⟨r.id, e.store, conduct.getD {}, item, .ready rest⟩] }

/-- Moves attempts on: those whose time has come, those that shutdown interrupts, and one that gets
a worker. -/
def attemptTurn? (w : World) (e : Engine) (r : Run) : Option World :=
  let p := r.pipeline
  if p.attempts.any fun a => a.due?.any (· ≤ w.clock) then
    some (w.putRun { r with pipeline := p.wake w.clock })
  else if e.processor.stopping && p.attempts.any (·.due?.isSome) then
    some (w.putRun { r with pipeline := p.interrupt })
  else
    p.grant?.map fun (item, pipeline) => (w.putRun { r with pipeline }).startJob e r item

/-- Settles an attempt, and does what follows from it. -/
def settleAttempt (w : World) (e : Engine) (r : Run) (a : Attempt) (p : Pipeline) : World :=
  let (pipeline, settlement) := p.settle w.clock r.draining a
  let request := a.item.request
  let effects := Processor.effects (w.listeners r.engine) request dawn settlement
  effects.foldl (·.perform r.engine e.queue request.stream ·) (w.putRun { r with pipeline })

/-- Ends the wait of a run. -/
def stopWaiting (w : World) (e : Engine) (r : Run) : World × Run :=
  match r.doing with
  | .serving alarm =>
    (w.modifyQueue e.queue fun q => { q with hub := stopAlarm q.hub alarm },
      { r with doing := .serving none })
  | _ => (w, r)

/-- Takes the next request, or reads a batch; waits if there is none. -/
def fetch (w : World) (e : Engine) (r : Run) : World :=
  match r.pipeline.next? with
  | some pipeline => w.putRun { r with pipeline }
  | none =>
    let idle := r.pipeline.settings.idleWait
    let subscription := r.pipeline.subscription
    match w.read e.queue subscription.position subscription.batch with
    | (w, .error _) => w.putRun { r with doing := .sleeping (w.clock + idle) }
    | (w, .ok []) =>
      let (hub, alarm) :=
        setAlarm (w.queues.getD e.queue default).hub (some appendKey) (w.clock + idle)
      (w.modifyQueue e.queue ({ · with hub })).putRun { r with doing := .serving (some alarm) }
    | (w, .ok items) => w.putRun { r with pipeline := r.pipeline.fill items }

/-- One round of the loop that is neither draining nor asleep: shutdown comes first, then attempts
that are over, then the queue. -/
def serveTurn? (w : World) (e : Engine) (r : Run) (alarm : Option Alarm) : Option World :=
  if e.processor.stopping then
    let (w, r) := w.stopWaiting e r
    some (w.putRun { r with draining := true })
  else
    match r.pipeline.joined? with
    | some (a, p) =>
      let (w, r) := w.stopWaiting e r
      some (w.settleAttempt e r a p)
    | none =>
      if r.pipeline.canRead && alarm.all (·.isOver w.clock) then
        let (w, r) := w.stopWaiting e r
        some (w.fetch e r)
      else none

/-- One round of the loop that drains: it settles what is over, and ends when nothing is left. -/
def drainTurn? (w : World) (e : Engine) (r : Run) : Option World :=
  match r.pipeline.joined? with
  | some (a, p) => some (w.settleAttempt e r a p)
  | none =>
    if r.pipeline.attempts.isEmpty then
      some ((w.modifyEngine r.engine fun e => { e with processor := e.processor.finish }).endRun r
        (.ok ()))
    else none

/-- One round of the loop. -/
def loopTurn? (w : World) (e : Engine) (r : Run) : Option World :=
  match r.doing with
  | .beginning => some (w.beginRun e r)
  | .sleeping due =>
    if due ≤ w.clock then some (w.putRun { r with doing := .serving none }) else none
  | .serving alarm => if r.draining then w.drainTurn? e r else w.serveTurn? e r alarm

def runTurn? (w : World) : Option World :=
  w.runs.findSome? fun r => do
    let e ← w.engines[r.engine]?
    (w.attemptTurn? e r).or (w.loopTurn? e r)

/-- A turn of anybody: handlers come first, then watchers, then runs. -/
def turn? (w : World) : Option World := (w.jobTurn?).or ((w.watchTurn?).or w.runTurn?)

end World

end Simulation

end StreamControl
