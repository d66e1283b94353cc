import StreamControl.Operation.Outcome
import StreamControl.Store.Basic
import StreamControl.Stream.Plan

/-!
# Executing a request

What a handler does with a request: it reads the stream's record, and if the request owns the stream
commits the planned record with one conditional write. The record tells a request that has committed
already, or that lost the stream, from one that is still to be done, so that a request may be
delivered any number of times.

A refused plan gives the stream back and fails the request. A failing store makes the request worth
a retry; so does a record that changed between the read and the write.
-/

namespace StreamControl

namespace Execution

/-- What the record says about a request. -/
inductive Standing
  /-- The request owns the stream. -/
  | owner (record : Record Float)
  /-- Nothing is left to do. -/
  | settled (outcome : Outcome)

/-- A request's standing before a record, or before the lack of one. -/
def standing (request : Request Float) : Option (Record Float) → Standing
  | none =>
    if request.kind = .delete then .settled (.succeeded request.id)
    else .settled (.failed request.id s!"stream {request.stream} not found")
  | some record =>
    if record.lastApplied = some request.id then .settled (.succeeded request.id)
    else if record.isOwnedBy request.id then .owner record
    else .settled (.succeeded request.id)

/-- The outcome of a commit, by what came of its write. -/
def commitOutcome (id : RequestId) : Written → Outcome
  | .success _ => .succeeded id
  | .mismatch actual => .retryable id s!"stream record changed underneath (version {actual})"
  | .notFound => .failed id "stream record disappeared"
  | .alreadyExists _ => .failed id "unexpected store response"

/-- The outcome of a removal; a record that is gone is removed. -/
def removalOutcome (id : RequestId) : Written → Outcome
  | .notFound => .succeeded id
  | written => commitOutcome id written

/-- The outcome of a run that an error ended. -/
def errorOutcome (id : RequestId) (e : ControlError) : Outcome :=
  if e.isRetryable then .retryable id e.message else .failed id e.message

/-- Writes a planned record in the phase where its request ends. -/
def commit (current planned : Record Float) (request : Request Float) : StoreAction Outcome :=
  match request.terminal? with
  | none => throw (.invalidArgument (.noTerminal request.kind))
  | some terminal => do
    let written ← (StoreCall.swap current.version (planned.committedBy request.id terminal)).act
    pure (commitOutcome request.id written)

/-- Gives up a stream whose request is refused, and fails the request. The stream may have moved on;
then it is not touched. -/
def reject (current : Record Float) (request : Request Float) (refusal : Refusal Float) :
    StoreAction Outcome := do
  discard (StoreCall.swap current.version (current.releasedTo request.prior)).act
  pure (.failed request.id (ControlError.invalidArgument refusal).message)

/-- Plans a request's change of the record it owns, and commits the plan. -/
def change (plan : Record Float → Request Float → Except (Refusal Float) (Record Float))
    (record : Record Float) (request : Request Float) : StoreAction Outcome :=
  match plan record request with
  | .error refusal => reject record request refusal
  | .ok planned => commit record planned request

/-- Removes the record that a request owns. -/
def remove (record : Record Float) (request : Request Float) : StoreAction Outcome := do
  pure (removalOutcome request.id (← (StoreCall.remove record.id record.version).act))

/-- Runs the handler of a kind on a request. -/
def attempt (kind : Kind) (request : Request Float) : StoreAction Outcome := do
  match standing request (← (StoreCall.get request.stream).act) with
  | .settled outcome => pure outcome
  | .owner record =>
    match Plan.ofKind? kind with
    | some plan => change plan record request
    | none => remove record request

/-- Runs the handler of a kind on a request; whatever happens, there is an outcome. -/
def run (kind : Kind) (request : Request Float) : StoreProgram Outcome :=
  (attempt kind request).run.andThen fun
    | .ok outcome => .done outcome
    | .error e => .done (errorOutcome request.id e)

end Execution

end StreamControl
