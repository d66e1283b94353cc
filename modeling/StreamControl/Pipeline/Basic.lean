import StreamControl.Operation.Outcome
import StreamControl.Policy.Settings
import StreamControl.Queue.AckWindow
import StreamControl.Queue.Subscription

/-!
# The pipeline

The pipeline reads requests from the queue and runs a handler on each. A stream is held by one
request at a time, from its first run to its last; later requests for the stream wait in its lane.
Runs share a number of workers. A request whose run is worth a retry is tried again after a delay,
as often as the policy allows, and is then failed. A request that is done is acknowledged once all
before it are.

The state is pure, and each function here is one step. `settle` is the step that ends an attempt; it
says in a `Settlement` what is left for the surroundings to do.
-/

namespace StreamControl

/-- Where an attempt stands. -/
inductive Stage
  /-- Waits for its time. -/
  | delayed (due : Nat)
  /-- Waits for a worker. -/
  | queued
  /-- Its handler runs. -/
  | running
  | finished (verdict : Verdict)
  /-- Shutdown came while it waited for its time; the handler did not run. -/
  | interrupted
  deriving DecidableEq, Repr

structure Attempt where
  item : Queued Float
  /-- How many retries were made before. -/
  retries : Nat
  stage : Stage
  deriving Repr

namespace Attempt

def isRunning (a : Attempt) : Bool := a.stage = .running

def isQueued (a : Attempt) : Bool := a.stage = .queued

/-- Whether the attempt has nothing left to do. -/
def isOver (a : Attempt) : Bool :=
  match a.stage with
  | .finished _ | .interrupted => true
  | _ => false

/-- When a delayed attempt goes on. -/
def due? (a : Attempt) : Option Nat :=
  match a.stage with
  | .delayed due => some due
  | _ => none

/-- The number of the attempt after so many retries, the first being one. It is counted in 32
bits. -/
def numberAfter (retries : Nat) : Nat := (retries + 1) % UInt32.size

end Attempt

/-- A stream that is held, and the requests that wait for it. -/
structure Lane where
  stream : StreamId
  waiting : List (Queued Float)
  deriving Repr

structure Pipeline where
  settings : PipelineSettings
  subscription : Subscription
  window : AckWindow
  lanes : List Lane
  /-- The attempts that have not been settled. Those that wait for a worker get one in this
  order. -/
  attempts : List Attempt
  deriving Repr, Inhabited

/-- What the end of an attempt leads to. -/
inductive Settlement
  /-- The request is left for the next run of the pipeline. -/
  | left
  /-- It is tried again. -/
  | retried
  /-- It is done, with the attempt of this number; the queue is to be acknowledged if the window
  moved. -/
  | done (outcome : Outcome) (attempts : Nat) (acknowledge : Option Nat)
  deriving Repr

namespace Pipeline

/-- A pipeline that begins to read at an acknowledged offset. -/
def start (settings : PipelineSettings) (acknowledged : Nat) : Pipeline :=
  { settings, subscription := .start acknowledged settings.readBatch
    window := .start acknowledged, lanes := [], attempts := [] }

def workers (p : Pipeline) : Nat := max p.settings.workers 1

/-- How many requests wait in lanes. -/
def waiting (p : Pipeline) : Nat := p.lanes.foldr (fun lane n => lane.waiting.length + n) 0

/-- Whether another request may be taken from the queue. -/
def canRead (p : Pipeline) : Bool := p.waiting < p.settings.maxWaiting

/-! ## Taking requests -/

/-- Takes in a batch. -/
def fill (p : Pipeline) (items : List (Queued Float)) : Pipeline :=
  { p with subscription := p.subscription.fill items }

def holds (p : Pipeline) (stream : StreamId) : Bool := p.lanes.any (·.stream = stream)

/-- A request's first attempt. -/
def first (item : Queued Float) : Attempt := ⟨item, 0, .queued⟩

/-- Starts a request, or puts it into the lane of its stream. -/
def enter (p : Pipeline) (item : Queued Float) : Pipeline :=
  let stream := item.request.stream
  if p.holds stream then
    { p with lanes := p.lanes.map fun lane =>
        if lane.stream = stream then { lane with waiting := lane.waiting ++ [item] } else lane }
  else
    { p with lanes := p.lanes ++ [⟨stream, []⟩], attempts := p.attempts ++ [first item] }

/-- Admits the next request that was read. -/
def next? (p : Pipeline) : Option Pipeline :=
  p.subscription.pop?.map fun (item, subscription) => { p with subscription }.enter item

/-! ## Running attempts -/

/-- Gives a free worker to the first attempt that waits for one. -/
def grant? (p : Pipeline) : Option (Queued Float × Pipeline) :=
  if p.attempts.countP (·.isRunning) < p.workers then
    match p.attempts.span (!·.isQueued) with
    | (before, a :: after) =>
      some (a.item, { p with attempts := before ++ { a with stage := .running } :: after })
    | (_, []) => none
  else none

/-- Takes in the verdict of the handler that ran for an offset. -/
def report (p : Pipeline) (offset : Nat) (verdict : Verdict) : Pipeline :=
  { p with attempts := p.attempts.map fun a =>
      if a.isRunning && a.item.offset = offset then { a with stage := .finished verdict } else a }

/-- Lets the attempts whose time has come wait for a worker, behind those that do already. -/
def wake (p : Pipeline) (now : Nat) : Pipeline :=
  let (due, rest) := p.attempts.partition fun a => a.due?.any (· ≤ now)
  { p with attempts := rest ++ due.map ({ · with stage := .queued }) }

/-- Ends the attempts that wait for their time. -/
def interrupt (p : Pipeline) : Pipeline :=
  { p with attempts := p.attempts.map fun a =>
      if a.due?.isSome then { a with stage := .interrupted } else a }

/-! ## Settling attempts -/

/-- Takes out the first attempt that is over. -/
def joined? (p : Pipeline) : Option (Attempt × Pipeline) :=
  match p.attempts.span (!·.isOver) with
  | (before, a :: after) => some (a, { p with attempts := before ++ after })
  | (_, []) => none

/-- Hands a stream to the next request in its lane, or gives it free. While the pipeline drains the
next request leaves the lane, but is not started. -/
def pass (p : Pipeline) (draining : Bool) (stream : StreamId) : Pipeline :=
  match p.lanes.find? (·.stream = stream) with
  | some ⟨_, item :: rest⟩ =>
    { p with
      lanes := p.lanes.map fun lane =>
        if lane.stream = stream then { lane with waiting := rest } else lane
      attempts := if draining then p.attempts else p.attempts ++ [first item] }
  | _ => { p with lanes := p.lanes.filter (·.stream ≠ stream) }

/-- Ends a request for good. -/
def conclude (p : Pipeline) (draining : Bool) (a : Attempt) (verdict : Verdict) :
    Pipeline × Settlement :=
  let (window, acknowledge) := p.window.complete a.item.offset
  ({ p with window }.pass draining a.item.request.stream,
    .done ⟨a.item.request.id, verdict⟩ (Attempt.numberAfter a.retries) acknowledge)

/-- Settles an attempt that was taken out. -/
def settle (p : Pipeline) (now : Nat) (draining : Bool) (a : Attempt) : Pipeline × Settlement :=
  match a.stage with
  | .finished (.retryable reason) =>
    if draining then (p, .left)
    else if p.settings.retry.allows a.retries then
      let due := now + p.settings.retry.delay a.retries
      ({ p with attempts := p.attempts ++ [⟨a.item, a.retries + 1, .delayed due⟩] }, .retried)
    else
      p.conclude draining a (.failed
        s!"retries exhausted after {Attempt.numberAfter a.retries} attempts: {reason}")
  | .finished verdict => p.conclude draining a verdict
  | _ => (p, .left)

end Pipeline

end StreamControl
