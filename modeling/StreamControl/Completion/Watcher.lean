import StreamControl.Completion.Tracker
import StreamControl.Stream.Plan

/-!
# Watchers

A watcher stands behind a slot. It looks at the store whenever the stream changes, and every now and
then besides, and settles the slot when it sees the commit or when the timeout has passed. If both
can be said at one moment, the commit is. A store that cannot be read is read again later.
-/

namespace StreamControl

structure Watcher where
  ticket : Nat
  request : Request Float
  /-- The timeout in force when the slot was opened. -/
  timeout : Nat
  /-- When it ends. -/
  deadline : Nat
  deriving Repr

namespace Watcher

/-- What a look at the store settles. -/
def observed (w : Watcher) : Except ControlError (Option (Record Float)) → Option Resolution
  | .ok record => if hasCommitted record w.request then some .success else none
  | .error _ => none

/-- What the clock settles. -/
def expired (w : Watcher) (now : Nat) : Option Resolution :=
  if w.deadline ≤ now then some (.deadlineExceeded w.timeout) else none

/-- What a look at the store and then at the clock settles. -/
def looked (w : Watcher) (now : Nat) (reply : Except ControlError (Option (Record Float))) :
    Option Resolution :=
  (w.observed reply).or (w.expired now)

end Watcher

end StreamControl
