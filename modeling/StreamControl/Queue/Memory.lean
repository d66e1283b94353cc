import StreamControl.Error

/-!
# The queue in memory

All requests ever appended, and the offset up to which they are acknowledged. A request's offset is
its place in the list. This queue is the measure of the one kept in files.
-/

namespace StreamControl

structure MemoryQueue where
  requests : List (Request Float) := []
  acknowledged : Nat := 0
  /-- How many of the next appends are to fail. -/
  failing : Nat := 0
  deriving Repr, Inhabited

namespace MemoryQueue

/-- The offset of the next append. -/
def tail (q : MemoryQueue) : Nat := q.requests.length

/-- The requests with their offsets. -/
def entries (q : MemoryQueue) : List (Queued Float) :=
  q.requests.mapIdx fun i request => { offset := i, request }

def append (q : MemoryQueue) (request : Request Float) : MemoryQueue × Except QueueError Nat :=
  if 0 < q.failing then
    ({ q with failing := q.failing - 1 }, .error (.appendRejected "injected append failure"))
  else ({ q with requests := q.requests ++ [request] }, .ok q.tail)

/-- At most `max` of the requests from an offset on that are not acknowledged. -/
def readFrom (q : MemoryQueue) (offset max : Nat) : List (Queued Float) :=
  (q.entries.drop (Nat.max offset q.acknowledged)).take max

def acknowledge (q : MemoryQueue) (next : Nat) : MemoryQueue × Except QueueError Unit :=
  if q.tail < next then (q, .error (.invalidAcknowledge next q.tail))
  else ({ q with acknowledged := max q.acknowledged next }, .ok ())

/-- The requests that are not acknowledged. -/
def pending (q : MemoryQueue) : List (Queued Float) := q.entries.drop q.acknowledged

end MemoryQueue

end StreamControl
