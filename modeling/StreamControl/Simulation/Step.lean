import StreamControl.Simulation.World

/-!
# Steps and answers

What can be done in a session, and what can be answered.
-/

namespace StreamControl

namespace Simulation

/-- A request that a step names, or one that was put aside under a name. -/
inductive Source
  | given (request : Request Float)
  | stashed (name : String)

/-- Whose request is meant: that of a handle, or the one with an identity. -/
inductive Subject
  | handle (name : String)
  | request (id : RequestId)

inductive Step
  | advance (ms : Nat)
  -- The store.
  | call (call : StoreCall)
  /-- Changes the state of a stream by hand. -/
  | force (stream : StreamId) (phase : Phase)
  | failStore (count : Nat)
  | streamCount
  | watchedKeys
  | script (method : Method) (faults : List Fault)
  -- The queue.
  | append (source : Source)
  | queue
  | failAppends (fault : AppendFault)
  | failMemoryAppends (count : Nat)
  | failReads (count : Nat)
  | failAcknowledgements (count : Nat)
  -- By hand.
  | stash (stream : StreamId) (name : String)
  | claim (request : Request Float) (append : Bool)
  | process (source : Source) (kind : Option Kind)
  -- A pipeline without a controller.
  | buildPipeline (settings : PipelineSettings) (kinds : Option (List Kind)) (capacity : Option Nat)
  | startPipeline
  | runPipeline (within : Nat)
  | stopPipeline
  | joinPipeline
  | pipelineMetrics
  | pipelineFailures
  -- Logs.
  | events
  | outcomes
  -- Controllers.
  | build (settings : ControllerSettings) (hosts : List Host) (capacity : Option Nat)
  | buildInMemory (settings : ControllerSettings)
  | start
  | isRunning
  | shutdown
  | setTimeout (ms : Nat)
  | gate (kind : Kind) (opened : Bool)
  | metrics
  | failures
  -- The gateway.
  | create (stream : StreamId) (configuration : Configuration)
  | get (stream : StreamId)
  | phase (stream : StreamId)
  | list (scope : String)
  | describe (scope : String)
  | hosts
  | submit (stream : StreamId) (operation : Operation Float) (name : String)
  | submitAndWait (stream : StreamId) (operation : Operation Float)
  | race (submits : List (StreamId × Operation Float))
  -- Handles.
  | status (name : String)
  | wait (name : String)
  | drop (name : String)
  | register (source : Source) (name : String)
  | signal (subject : Subject) (verdict : Verdict) (times : Nat)
  | pendingCount
  | isPending (subject : Subject)

/-- What a step may lack. -/
inductive Lack
  | controller
  | run
  | handle
  | activeRequest
  | stash
  deriving DecidableEq, Repr

inductive Answer
  | nothing
  | flag (value : Bool)
  | number (value : Nat)
  | text (value : String)
  | phase (value : Phase)
  | completion (value : Completion)
  | record (value : Record Float)
  | records (values : List (Record Float))
  | streams (values : List StreamId)
  | hosts (values : List Host)
  | written (value : Written)
  | request (value : Request Float)
  | outcome (value : Outcome)
  | accepted (value : Accepted)
  | raced (accepted : Nat) (errors : List ControlError)
  | queue (acknowledged tail : Nat) (items : List (Queued Float))
  | metrics (value : Metrics)
  | failures (values : List FailedRequest)
  | events (values : List HandlerEvent)
  | outcomes (values : List OutcomeEvent)
  | refused (error : ControlError)
  | queueFailed (error : QueueError)
  | pipelineFailed (error : PipelineError)
  | lacks (lack : Lack)

/-- The answer of something that may fail. -/
def Answer.of {α : Type} (f : α → Answer) : Except ControlError α → Answer
  | .ok a => f a
  | .error e => .refused e

/-- The answer to a store call. -/
def Answer.ofCall : (c : StoreCall) → c.Reply → Answer
  | _, .error e => .refused e
  | .insert _, .ok w | .swap _ _, .ok w | .remove _ _, .ok w => .written w
  | .get _, .ok r => r.elim .nothing .record
  | .list _, .ok ids => .streams ids
  | .setPhase _ _, .ok () => .nothing

end Simulation

end StreamControl
