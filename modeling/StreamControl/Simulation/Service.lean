import StreamControl.Simulation.Clock

/-!
# Services of a world

A world runs the gateway's programs, call by call, and starts and drops runs of engines. A pause in
a program lets time pass for all.
-/

namespace StreamControl

namespace Simulation

namespace World

/-! ## Programs of the gateway -/

/-- Opens a slot, and sets a watcher behind it. -/
def register (w : World) (controller : Nat) (request : Request Float) : World × Nat :=
  match w.controllers[controller]? with
  | none => (w, 0)
  | some c =>
    let (tracker, ticket) := c.tracker.register request.id
    let timeout := tracker.governor.timeout
    let watcher : Watcher := { ticket, request, timeout, deadline := w.clock + timeout }
    let w := w.modifyController controller ({ · with tracker })
    ({ w with watchings := w.watchings ++ [{ controller, watcher }] }, ticket)

/-- Serves a call of the gateway. -/
def serve (controller : Nat) (e : Engine) : (c : GatewayCall) → World → World × c.Reply
  | .store call, w => w.serveStore e.store call
  | .freshId, w => w.drawId
  | .now, w => (w, dawn)
  | .register request, w => w.register controller request
  | .withdraw ticket, w =>
    (w.modifyController controller fun c => { c with tracker := c.tracker.withdraw ticket }, ())
  | .append request, w => w.append e.queue request
  | .count event, w =>
    ((w.controllers[controller]?.elim w fun c => w.count c.engine event), ())
  | .pause ms, w => (w.advance ms, ())

/-- Runs a program of the gateway up to its first look at the store. -/
def runToFirstLook {α : Type} (controller : Nat) (e : Engine) :
    GatewayProgram α → World → World × GatewayProgram α
  | .done a, w => (w, .done a)
  | .call c k, w =>
    let (w', reply) := w.serve controller e c
    match c with
    | .store (.get _) => (w', k reply)
    | _ => runToFirstLook controller e (k reply) w'

/-! ## Runs -/

/-- Starts a run of an engine. -/
def startRun (w : World) (engine : Nat) : World × Nat :=
  ({ w with
    runs := w.runs ++ [{ id := w.nextRun, engine, pipeline := default }]
    nextRun := w.nextRun + 1 }, w.nextRun)

def isOver (run : Nat) (w : World) : Bool := w.runs.all (·.id ≠ run)

/-- How a run ended. -/
def result (w : World) (run : Nat) : Except PipelineError Unit :=
  ((w.ended.find? (·.1 = run)).map (·.2)).getD (.ok ())

/-- Drops a run where it stands. Its processor stays active, and handlers go on unheard. -/
def dropRun (w : World) (run : Nat) : World :=
  match w.runs.find? (·.id = run) with
  | none => w
  | some r =>
    let w := match w.engines[r.engine]? with
      | some e => (w.stopWaiting e r).1
      | none => w
    { w with runs := w.runs.filter (·.id ≠ run) }

/-- Longer than anybody waits. -/
def longest : Nat := Nat.pow 2 40

end World

end Simulation

end StreamControl
