import StreamControl.Simulation.Calls

/-!
# A queue on the bench

A disk, at most one open queue, in files or in memory, and at most one reader of it. Nobody else is
at work: a reader that finds nothing waits in vain.
-/

namespace StreamControl

namespace Simulation

structure Bench where
  /-- The open queue is the first of the world's queues, if there is one. -/
  world : World := {}
  reader : Option Subscription := none

inductive BenchStep
  | «open» (settings : FileQueueSettings)
  | close
  | failAppends (count : Nat)
  | append (request : Request Float)
  | read (offset max : Nat)
  | acknowledge (next : Nat)
  | state
  | compact
  | settings
  | subscribe (batch : Nat)
  /-- Waits for the next request. -/
  | next
  /-- Takes what is there. -/
  | batch

inductive BenchAnswer
  | nothing
  | number (value : Nat)
  | items (values : List (Queued Float))
  /-- What a reader got, if it did not wait in vain, and its position. -/
  | got (values : Option (List (Queued Float))) (position : Nat)
  | memory (queue : MemoryQueue)
  | file (queue : FileQueue)
  | settings (value : FileQueueSettings)
  | refused (error : ControlError)
  | failed (error : QueueError)
  | notOpen

namespace Bench

/-- A bench with an open queue in memory. -/
def withMemory : Bench := { world := { queues := [{ backing := .memory {} }] } }

def backing? (b : Bench) : Option Backing := b.world.queues.head?.map QueueSite.backing

/-- The answer of something that may fail, and the bench as it is left. -/
def answer {α : Type} (b : Bench) (f : α → BenchAnswer) :
    World × Except ControlError α → Bench × BenchAnswer
  | (world, .ok a) => ({ b with world }, f a)
  | (world, .error e) => ({ b with world }, .refused e)

/-- Opens a queue in files, in place of the one that is open. -/
def openFiles (b : Bench) (settings : FileQueueSettings) : Bench × BenchAnswer :=
  match b.world.onDisk (FileQueue.open settings).run with
  | (w, .ok q) => ({ world := { w with queues := [{ backing := .file q }] } }, .nothing)
  | (w, .error e) => ({ world := { w with queues := [] } }, .failed e)

def compact (b : Bench) : Bench × BenchAnswer :=
  match b.backing? with
  | some (.file q) =>
    let (w, q, r) := b.world.onDisk q.compact
    let b := { b with world := w.modifyQueue 0 ({ · with backing := .file q }) }
    match r with
    | .ok () => (b, .nothing)
    | .error e => (b, .failed e)
  | _ => (b, .notOpen)

/-- Reads a batch for the reader, if it has none left. -/
def refill (b : Bench) (reader : Subscription) :
    Bench × Except ControlError Subscription :=
  if reader.buffered.isEmpty then
    let (world, r) := b.world.read 0 reader.position reader.batch
    let b := { b with world }
    match r with
    | .ok items => ({ b with reader := some (reader.fill items) }, .ok (reader.fill items))
    | .error e => (b, .error e)
  else (b, .ok reader)

/-- What the reader takes: one request, or all that is there. -/
def take (b : Bench) (single : Bool) : Bench × BenchAnswer :=
  match b.reader with
  | none => (b, .notOpen)
  | some reader =>
    match b.refill reader with
    | (b, .error e) => (b, .refused e)
    | (b, .ok reader) =>
      if single then
        match reader.pop? with
        | none => (b, .got none reader.position)
        | some (item, rest) =>
          ({ b with reader := some rest }, .got (some [item]) rest.position)
      else
        let (items, rest) := reader.drain
        ({ b with reader := some rest }, .got (some items) rest.position)

/-- A step with the open queue. -/
def act (b : Bench) (backing : Backing) : BenchStep → Bench × BenchAnswer
  | .failAppends count =>
    match backing with
    | .memory q =>
      let failing : Backing := .memory { q with failing := count }
      ({ b with world := b.world.modifyQueue 0 ({ · with backing := failing }) }, .nothing)
    | .file _ => (b, .notOpen)
  | .append request => b.answer .number (b.world.append 0 request)
  | .read offset max => b.answer .items (b.world.read 0 offset max)
  | .acknowledge next => b.answer (fun _ => .nothing) (b.world.acknowledge 0 next)
  | .state =>
    match backing with
    | .memory q => (b, .memory q)
    | .file q => (b, .file q)
  | .compact => b.compact
  | .settings =>
    match backing with
    | .memory _ => (b, .notOpen)
    | .file q => (b, .settings q.settings)
  | .subscribe batch =>
    let reader := Subscription.start (b.world.queueState 0).1 batch
    ({ b with reader := some reader }, .number reader.position)
  | .next => b.take true
  | .batch => b.take false
  | .open _ | .close => (b, .nothing)

/-- Takes a step. Only opening and closing make sense while nothing is open. -/
def step (b : Bench) : BenchStep → Bench × BenchAnswer
  | .open settings => b.openFiles settings
  | .close => ({ world := { b.world with queues := [] } }, .nothing)
  | s =>
    match b.backing? with
    | none => (b, .notOpen)
    | some backing => b.act backing s

end Bench

end Simulation

end StreamControl
