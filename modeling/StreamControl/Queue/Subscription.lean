import StreamControl.Operation.Request

/-!
# Subscriptions

A reader of a queue. It starts at the acknowledged offset and asks for one batch after the other;
what a batch brings is handed out one by one. Reading acknowledges nothing, so a new subscription
delivers again all that was never acknowledged.
-/

namespace StreamControl

structure Subscription where
  /-- The offset from which the next batch is read. -/
  position : Nat
  /-- What was read and not handed out yet. -/
  buffered : List (Queued Float)
  /-- The length of a batch. -/
  batch : Nat
  deriving Repr, Inhabited

namespace Subscription

/-- A subscription at an acknowledged offset. A batch has room for at least one request. -/
def start (acknowledged batch : Nat) : Subscription := ⟨acknowledged, [], max batch 1⟩

/-- Takes in a batch that was read at `position`. The offsets in it are below the queue's tail, so
the next position is a number of 64 bits if the tail is one. -/
def fill (s : Subscription) (items : List (Queued Float)) : Subscription :=
  { s with
    position := (items.getLast?.map (·.offset + 1)).getD s.position
    buffered := s.buffered ++ items }

/-- Hands out the next request. -/
def pop? (s : Subscription) : Option (Queued Float × Subscription) :=
  match s.buffered with
  | [] => none
  | item :: rest => some (item, { s with buffered := rest })

/-- Hands out all that was read. -/
def drain (s : Subscription) : List (Queued Float) × Subscription :=
  (s.buffered, { s with buffered := [] })

end Subscription

end StreamControl
