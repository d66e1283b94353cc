import StreamControl.Ledger.Failures
import StreamControl.Metrics
import StreamControl.Pipeline.Basic
import StreamControl.Pipeline.Handlers

/-!
# Processors

A processor owns what outlives a run of its pipeline: handlers, counters, the ledger, and whether it
was asked to stop. One run is active at a time. The wish to stop is never taken back: a run that
begins after it ends at once.
-/

namespace StreamControl

/-- A processor with handlers of type `η`. -/
structure Processor (η : Type) where
  settings : PipelineSettings
  handlers : HandlerTable η
  ledger : FailureLedger
  metrics : Metrics := {}
  /-- Whether shutdown was asked for. -/
  stopping : Bool := false
  /-- Whether a run has begun and not ended. -/
  active : Bool := false

/-- What the end of an attempt asks of those around the pipeline, with listeners of type `ι`. -/
inductive Effect (ι : Type)
  | count (event : Metrics.Event)
  /-- Keeps a failure in the ledger. -/
  | record (entry : FailedRequest)
  | publish (listener : ι) (outcome : Outcome)
  /-- Acknowledges the queue up to an offset. -/
  | acknowledge (next : Nat)

namespace Processor

variable {η : Type}

/-- A processor that has a handler for each kind. -/
def of? (settings : PipelineSettings) (handlers : HandlerTable η) (ledger : FailureLedger) :
    Except PipelineError (Processor η) :=
  match handlers.missing with
  | kind :: _ => .error (.handlerNotFound kind)
  | [] => .ok { settings, handlers, ledger }

/-- Begins a run. -/
def begin (p : Processor η) : Except PipelineError (Processor η) :=
  if p.active then .error .alreadyRunning else .ok { p with active := true }

/-- Ends a run. -/
def finish (p : Processor η) : Processor η := { p with active := false }

/-- Asks the run, and all later ones, to stop. -/
def stop (p : Processor η) : Processor η := { p with stopping := true }

def count (p : Processor η) (event : Metrics.Event) : Processor η :=
  { p with metrics := p.metrics.count event }

/-- What counts when an attempt at a request is settled. -/
def eventOf? (kind : Kind) : Settlement → Option Metrics.Event
  | .left => none
  | .retried => some (.retry kind)
  | .done outcome _ _ => some (.task kind (outcome.verdict = .succeeded))

/-- The ledger's entry for a request that is settled as failed. -/
def entryOf? (request : Request Float) (failedAt : Timestamp) : Settlement → Option FailedRequest
  | .done ⟨_, .failed reason⟩ attempts _ =>
    some { request, reason, attempts := attempts.toUInt32, failedAt }
  | _ => none

/-- What a settlement asks for, in this order: a request's outcome is counted, kept if it is a
failure, and published, before the queue is acknowledged. -/
def effects {ι : Type} (listeners : List ι) (request : Request Float) (failedAt : Timestamp)
    (s : Settlement) : List (Effect ι) :=
  (eventOf? request.kind s).toList.map .count ++ (entryOf? request failedAt s).toList.map .record ++
    match s with
    | .done outcome _ acknowledge =>
      listeners.map (.publish · outcome) ++ acknowledge.toList.map .acknowledge
    | _ => []

end Processor

end StreamControl
