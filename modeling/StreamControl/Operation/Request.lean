import StreamControl.Operation.Kind
import StreamControl.RequestId
import StreamControl.Stream.Configuration
import StreamControl.Stream.Id
import StreamControl.Stream.KeyRange
import StreamControl.Timestamp

/-!
# Operation requests

An operation is a kind with the data it needs. A request names the stream it is for, and is never
changed once it has been queued. The phase it leaves the stream in, and the one it found it in,
follow from the operation alone.
-/

namespace StreamControl

/-- A manual scale: segments to seal, and the ranges of those that replace them. -/
structure Reshape (β : Type) where
  sealed : List UInt64
  ranges : List (KeyRange β)
  deriving Repr, DecidableEq, BEq

/-- What an automatic scale does to a segment. -/
inductive Direction
  /-- Splits it into equal parts. -/
  | split (parts : UInt32)
  /-- Merges it with its right-hand neighbour. -/
  | merge
  deriving DecidableEq, Repr

namespace Direction

/-- The most parts of one split. -/
def maxParts : Nat := 64

/-- Whether a number of parts is in bounds. -/
def isValid : Direction → Bool
  | .split parts => 2 ≤ parts.toNat && parts.toNat ≤ maxParts
  | .merge => true

end Direction

/-- A position in a stream: an offset for some segments, in order of segment number. -/
structure Cut where
  positions : List (UInt64 × UInt64)
  deriving DecidableEq, Repr

namespace Cut

/-- Adds a position; an earlier one of the same segment gives way. -/
def insert (segment offset : UInt64) : List (UInt64 × UInt64) → List (UInt64 × UInt64)
  | [] => [(segment, offset)]
  | (s, o) :: rest =>
    if segment < s then (segment, offset) :: (s, o) :: rest
    else if segment = s then (segment, offset) :: rest
    else (s, o) :: insert segment offset rest

def ofList (positions : List (UInt64 × UInt64)) : Cut :=
  ⟨positions.foldl (fun acc (s, o) => insert s o acc) []⟩

def isEmpty (cut : Cut) : Bool := cut.positions.isEmpty

end Cut

inductive Operation (β : Type)
  | update (configuration : Configuration)
  | scale (shape : Reshape β)
  | autoScale (segment : UInt64) (direction : Direction)
  | seal
  /-- The stream returns to `resume` once the truncation commits. -/
  | truncate (cut : Cut) (resume : Phase)
  | delete
  deriving Repr, DecidableEq, BEq

namespace Operation

variable {β : Type}

def kind : Operation β → Kind
  | .update _ => .update
  | .scale _ => .scale
  | .autoScale _ _ => .autoScale
  | .seal => .seal
  | .truncate _ _ => .truncate
  | .delete => .delete

/-- The phase after the commit; a deleted stream has none. -/
def terminal? : Operation β → Option Phase
  | .update _ | .scale _ | .autoScale _ _ => some .active
  | .seal => some .sealed
  | .truncate _ resume => some resume
  | .delete => none

/-- The phase before the request took the stream. -/
def prior : Operation β → Phase
  | .truncate _ resume => resume
  | .delete => .sealed
  | _ => .active

end Operation

structure Request (β : Type) where
  id : RequestId
  stream : StreamId
  operation : Operation β
  submitted : Timestamp
  deriving Repr, DecidableEq, BEq

namespace Request

variable {β : Type}

def kind (r : Request β) : Kind := r.operation.kind
def transitional (r : Request β) : Phase := r.kind.transitional
def terminal? (r : Request β) : Option Phase := r.operation.terminal?
def prior (r : Request β) : Phase := r.operation.prior

end Request

/-- A request at its place in the queue. -/
structure Queued (β : Type) where
  offset : Nat
  request : Request β
  deriving Repr, DecidableEq, BEq

/-- How a caller's operation ended. -/
inductive Completion
  | accepted
  | success
  deriving DecidableEq, Repr

def Completion.name : Completion → String
  | .accepted => "accepted"
  | .success => "success"

end StreamControl
