import StreamControl.Metrics
import StreamControl.Policy.Retry
import StreamControl.Store.Basic

/-!
# The gateway

The gateway admits one operation on a stream at a time. It claims the stream by a conditional write
that makes the new request its owner, registers the caller, and appends the request to the queue. If
the append fails it takes its steps back: the caller's slot is withdrawn and the stream released,
unless the record has changed since the claim.

Its operations are programs; `GatewayCall` lists what they ask of their surroundings.
-/

namespace StreamControl

inductive GatewayCall
  | store (call : StoreCall)
  /-- Draws the identity of a new request. -/
  | freshId
  | now
  /-- Opens a caller's slot for a request, and names it by a ticket. -/
  | register (request : Request Float)
  /-- Takes back a slot that no caller has seen. -/
  | withdraw (ticket : Nat)
  | append (request : Request Float)
  | count (event : Metrics.Event)
  | pause (ms : Nat)

def GatewayCall.Reply : GatewayCall → Type
  | .store call => call.Reply
  | .freshId => RequestId
  | .now => Timestamp
  | .register _ => Nat
  | .append _ => Except ControlError Nat
  | .withdraw _ | .count _ | .pause _ => Unit

/-- Programs of the gateway. -/
abbrev GatewayProgram (α : Type) := Program GatewayCall GatewayCall.Reply α

/-- Programs of the gateway that may fail. -/
abbrev GatewayAction (α : Type) := ExceptT ControlError (Program GatewayCall GatewayCall.Reply) α

/-- An operation in the hands of the pipeline, as its caller sees it. -/
structure Accepted where
  id : RequestId
  stream : StreamId
  kind : Kind
  /-- The caller's slot; an operation that was done before has none. -/
  ticket : Option Nat
  deriving DecidableEq, Repr

def Accepted.of (request : Request Float) (ticket : Option Nat) : Accepted :=
  ⟨request.id, request.stream, request.kind, ticket⟩

namespace Gateway

/-! ## Steps -/

/-- A step that cannot fail. -/
def sure (c : GatewayCall) : GatewayAction (c.Reply) := ExceptT.mk (.call c fun r => .done (.ok r))

def count (event : Metrics.Event) : GatewayAction Unit := sure (.count event)

/-- A store call; its failure ends the action. -/
def store (call : StoreCall) : GatewayAction call.Result :=
  ExceptT.mk (.perform (GatewayCall.store call))

/-- An append; its failure is a result like another. -/
def append (request : Request Float) : GatewayAction (Except ControlError Nat) :=
  sure (.append request)

/-- The stored record. -/
def record (id : StreamId) : GatewayAction (Record Float) := do
  match ← store (.get id) with
  | some record => pure record
  | none => throw (.streamNotFound id)

/-- A new request. -/
def draw (stream : StreamId) (operation : Operation Float) : GatewayAction (Request Float) := do
  let id ← sure .freshId
  let submitted ← sure .now
  pure { id, stream, operation, submitted }

/-! ## Creation -/

/-- Makes a record in creation active. If somebody else has done so the stored record is
returned. -/
def activate (created : Record Float) : GatewayAction (Record Float) := do
  let active := { created with phase := .active }
  match ← store (.swap created.version active) with
  | .success version => pure { active with version }
  | _ =>
    let current ← record created.id
    if current.phase = .creating then throw (.conflict current.id)
    pure current

/-- Creates a stream and makes it active. A stream that exists with the same configuration will do,
also one whose creation stopped halfway. -/
def createStream (id : StreamId) (configuration : Configuration) :
    GatewayAction (Record Float) := do
  if let some flaw := id.flaw? then throw (.invalidArgument (.identity flaw))
  if let some flaw := configuration.flaw? then throw (.invalidArgument (.configuration flaw))
  let fresh := Record.fresh id configuration (← sure .now)
  match ← store (.insert fresh) with
  | .success version => activate { fresh with version }
  | .alreadyExists _ =>
    match ← store (.get id) with
    | none => throw (.conflict id)
    | some existing =>
      if existing.configuration ≠ configuration then throw (.streamExists id)
      if existing.phase = .creating then activate existing else pure existing
  | _ => throw (.conflict id)

/-! ## Submission -/

/-- Makes a request the owner of its stream; the result is the version of the claim. -/
def claim (before : Record Float) (request : Request Float) : GatewayAction Nat := do
  match ← store (.swap before.version (before.claimedBy request)) with
  | .success version => pure version
  | .notFound => throw (.streamNotFound request.stream)
  | .mismatch _ | .alreadyExists _ =>
    count (.conflict request.kind)
    throw (.conflict request.stream)

/-- Returns a stream to the phase it had before a claim, if the claim is the last that happened to
it. -/
def undo (stream : StreamId) (prior : Phase) (claimed : Nat) : GatewayAction Unit := do
  match ← store (.get stream) with
  | none => pure ()
  | some current =>
    if current.version = claimed then
      discard (store (.swap claimed (current.releasedTo prior)))

/-- Releases a claim. A store error that may pass is retried, `left` times at most. -/
def release (retry : RetryPolicy) (stream : StreamId) (prior : Phase) (claimed : Nat) :
    Nat → GatewayProgram (Except ControlError Unit)
  | 0 => (undo stream prior claimed).run
  | left + 1 => do
    match ← (undo stream prior claimed).run with
    | .ok () => pure (.ok ())
    | .error e =>
      if e.isRetryable then
        .call (.pause (retry.delay (retry.maxRetries - (left + 1)))) fun _ =>
          release retry stream prior claimed left
      else pure (.error e)

/-- Seals a stream that is sealed, or being sealed by a request that is then delivered again. -/
def reenter (before : Record Float) : GatewayAction (Option Accepted) := do
  if before.phase = .sealed then
    pure (some (Accepted.of (← draw before.id .seal) none))
  else if before.phase = .sealing then
    match before.active.filter (·.kind = .seal) with
    | none => pure none
    | some active =>
      let ticket ← sure (.register active)
      match ← append active with
      | .ok _ => pure (some (Accepted.of active (some ticket)))
      | .error e =>
        sure (.withdraw ticket)
        count (.appendFailure .seal)
        throw (.queueAppendFailed e.message)
  else pure none

/-- The operation as it is queued: a truncation returns to the phase it found. -/
def resuming (phase : Phase) : Operation Float → Operation Float
  | .truncate cut _ => .truncate cut phase
  | operation => operation

/-- Claims a stream for an operation and queues it. -/
def accept (retry : RetryPolicy) (before : Record Float) (operation : Operation Float) :
    GatewayAction Accepted := do
  let stream := before.id
  let kind := operation.kind
  if !kind.allowedFrom before.phase then
    count (.preconditionFailure kind)
    throw (.preconditionFailed stream kind before.phase)
  let request ← draw stream (resuming before.phase operation)
  let claimed ← claim before request
  let ticket ← sure (.register request)
  match ← append request with
  | .ok _ =>
    count (.accepted kind)
    pure (Accepted.of request (some ticket))
  | .error e =>
    sure (.withdraw ticket)
    count (.appendFailure kind)
    match ← ExceptT.lift (release retry stream before.phase claimed retry.maxRetries) with
    | .ok () => throw (.queueAppendFailed e.message)
    | .error reason => throw (.releaseFailed stream e.message reason.message)

/-- Submits an operation; the result names the caller's slot. -/
def submit (retry : RetryPolicy) (stream : StreamId) (operation : Operation Float) :
    GatewayAction Accepted := do
  if let some refusal := operation.flaw? then throw (.invalidArgument refusal)
  let before ← record stream
  match ← (if operation.kind = .seal then reenter before else pure none) with
  | some accepted => pure accepted
  | none => accept retry before operation

/-! ## Queries -/

def phase (id : StreamId) : GatewayAction Phase := do pure (← record id).phase

def list (scope : String) : GatewayAction (List StreamId) := store (.list scope)

/-- The records of those streams that are still there. -/
def records : List StreamId → GatewayAction (List (Record Float))
  | [] => pure []
  | id :: rest => do
    let found ← store (.get id)
    pure (found.toList ++ (← records rest))

/-- The records of a scope. -/
def describe (scope : String) : GatewayAction (List (Record Float)) := do records (← list scope)

end Gateway

end StreamControl
