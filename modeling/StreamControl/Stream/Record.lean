import StreamControl.Operation.Request

/-!
# Stream records

What is stored about a stream. The version counts the writes of the record; a write is conditional
on it. While the phase is transitional, `active` is the request that owns the stream.
-/

namespace StreamControl

structure Segment (β : Type) where
  number : Nat
  range : KeyRange β
  /-- The epoch in which the segment was created. -/
  epoch : Nat
  deriving Repr, DecidableEq, BEq

structure Record (β : Type) where
  id : StreamId
  phase : Phase
  configuration : Configuration
  segments : List (Segment β)
  epoch : Nat
  nextSegment : Nat
  truncation : Option Cut
  active : Option (Request β)
  /-- The request that committed last. -/
  lastApplied : Option RequestId
  version : Nat
  created : Timestamp
  deriving Repr, DecidableEq, BEq

namespace Record

variable {β : Type}

/-- A record in creation, with as many even segments as the configuration asks for at least. -/
def fresh [Bound β] (id : StreamId) (configuration : Configuration) (created : Timestamp) :
    Record β :=
  let segments := (KeyRange.uniform configuration.minSegments).mapIdx fun i range =>
    { number := i, range, epoch := 0 }
  { id, phase := .creating, configuration, segments, epoch := 0, nextSegment := segments.length,
    truncation := none, active := none, lastApplied := none, version := 0, created }

def segment? (record : Record β) (number : Nat) : Option (Segment β) :=
  record.segments.find? (·.number = number)

/-- Whether the request is the one that put the stream into its phase. -/
def isOwnedBy (record : Record β) (id : RequestId) : Bool := record.active.any (·.id = id)

/-- The record taken by a request. -/
def claimedBy (record : Record β) (request : Request β) : Record β :=
  { record with phase := request.transitional, active := some request }

/-- The record given up again, in the phase it is to return to. -/
def releasedTo (record : Record β) (phase : Phase) : Record β :=
  { record with phase, active := none }

/-- The planned record as the commit of a request leaves it. -/
def committedBy (planned : Record β) (id : RequestId) (terminal : Phase) : Record β :=
  { planned with phase := terminal, active := none, lastApplied := some id }

end Record

end StreamControl
