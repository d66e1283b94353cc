import StreamControl.Completion.Watcher
import StreamControl.Gateway.Basic
import StreamControl.Hosts
import StreamControl.Notifier.Hub
import StreamControl.Pipeline.Processor
import StreamControl.Queue.File
import StreamControl.Queue.Memory
import StreamControl.Simulation.Conduct
import StreamControl.Simulation.Fault

/-!
# The simulated world

Stores, queues, controllers and pipelines at work, and a clock. Whoever waits is written down with
what it waits for: a bell, a time, a gate or a worker.
-/

namespace StreamControl

namespace Simulation

structure StoreSite where
  store : Store := {}
  hub : Hub := {}
  /-- Whether those who watch a stream are told of its changes. -/
  notifies : Bool := true
  /-- Whether faults happen to its calls. -/
  faulty : Bool := false
  deriving Inhabited

/-- Makes the next calls of the store fail. -/
def StoreSite.failNext (s : StoreSite) (count : Nat) : StoreSite :=
  { s with store := { s.store with failing := count } }

inductive Backing
  | memory (queue : MemoryQueue)
  | file (queue : FileQueue)
  deriving Inhabited

structure QueueSite where
  backing : Backing
  hub : Hub := {}
  faulty : Bool := false
  deriving Inhabited

/-- What somebody waits for: a bell, if it watches one, or a time. -/
structure Alarm where
  watch : Option Watch
  due : Nat
  rung : Bool := false

/-- Whether the wait is over. -/
def Alarm.isOver (a : Alarm) (now : Nat) : Bool := a.rung || a.due ≤ now

/-- A watcher at work. One without an alarm has not looked yet. -/
structure Watching where
  controller : Nat
  watcher : Watcher
  alarm : Option Alarm := none

/-- A processor, and what it works on. A kind without a conduct has its standard handler. -/
structure Engine where
  processor : Processor (Option Conduct)
  store : Nat
  queue : Nat
  /-- Whether its outcomes are written down. -/
  observed : Bool

/-- Who is told of the outcomes of an engine. -/
inductive Listener
  | controller (i : Nat)
  | scribe

structure Controller where
  engine : Nat
  tracker : Tracker
  retry : RetryPolicy
  hosts : List Host
  /-- The run that was started last. -/
  run : Option Nat := none

/-- What a run of a pipeline is doing, apart from its attempts. -/
inductive Doing
  /-- It has not begun. -/
  | beginning
  /-- It takes what comes next, and waits for an alarm if the queue had nothing. -/
  | serving (alarm : Option Alarm)
  /-- It sleeps after a failed read. -/
  | sleeping (due : Nat)

structure Run where
  id : Nat
  engine : Nat
  doing : Doing := .beginning
  draining : Bool := false
  pipeline : Pipeline

/-- Where a handler has come to. -/
inductive Progress
  | ready (rest : HandlerProgram Ending)
  | asleep (due : Nat) (rest : HandlerProgram Ending)
  | atGate (rest : HandlerProgram Ending)
  | over (ending : Ending)

/-- A handler at work for an attempt of a run. -/
structure Job where
  run : Nat
  store : Nat
  conduct : Conduct
  item : Queued Float
  progress : Progress

structure HandlerEvent where
  time : Nat
  begins : Bool
  request : Request Float

structure OutcomeEvent where
  time : Nat
  stream : StreamId
  outcome : Outcome

structure World where
  clock : Nat := 0
  disk : Disk := .empty
  stores : List StoreSite := []
  queues : List QueueSite := []
  engines : List Engine := []
  controllers : List Controller := []
  watchings : List Watching := []
  runs : List Run := []
  /-- How the runs ended that have. -/
  ended : List (Nat × Except PipelineError Unit) := []
  /-- The number of the next run. -/
  nextRun : Nat := 0
  jobs : List Job := []
  openGates : List Kind := []
  /-- How far each stream has come in the script of a kind. -/
  scripts : List ((Kind × StreamId) × Nat) := []
  faults : List (Method × Fault) := []
  appendFault : Option AppendFault := none
  failingReads : Nat := 0
  failingAcknowledgements : Nat := 0
  /-- How many identities were drawn. -/
  drawn : Nat := 0
  events : List HandlerEvent := []
  outcomes : List OutcomeEvent := []
  deriving Inhabited

namespace World

/-! ## Identities and times -/

/-- The number of the identity drawn first. -/
def firstId : Nat := 0x7b1d3c5a9e2f4a6b8c4d000000000000

/-- The time of day when the clock shows zero. -/
def dawn : Timestamp := ⟨2024, 1, 1, 0, 0, 0, 123456789⟩

def drawId (w : World) : World × RequestId :=
  ({ w with drawn := w.drawn + 1 }, RequestId.ofNat (firstId + w.drawn))

/-! ## Parts -/

def modifyStore (w : World) (i : Nat) (f : StoreSite → StoreSite) : World :=
  { w with stores := w.stores.modify i f }

def modifyQueue (w : World) (i : Nat) (f : QueueSite → QueueSite) : World :=
  { w with queues := w.queues.modify i f }

def modifyEngine (w : World) (i : Nat) (f : Engine → Engine) : World :=
  { w with engines := w.engines.modify i f }

def modifyController (w : World) (i : Nat) (f : Controller → Controller) : World :=
  { w with controllers := w.controllers.modify i f }

/-- Asks the runs of an engine to stop. -/
def stopEngine (w : World) (i : Nat) : World :=
  w.modifyEngine i fun e => { e with processor := e.processor.stop }

/-- The engine of a controller. -/
def engineOf (w : World) (controller : Nat) : Option Engine :=
  w.controllers[controller]?.bind fun c => w.engines[c.engine]?

end World

end Simulation

end StreamControl
