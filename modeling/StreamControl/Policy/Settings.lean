import StreamControl.Policy.Retry

/-!
# Settings

Settings of the controller, of the pipeline inside it, and of a queue kept in files. Times are in
milliseconds. Fields that a file leaves out have the values given here.
-/

namespace StreamControl

structure ControllerSettings where
  /-- How long a caller waits for an operation. -/
  completionTimeout : Nat := 120000
  /-- How often a waiting caller's watcher looks at the store. -/
  pollInterval : Nat := 50
  /-- How many handlers run at once. -/
  workers : Nat := 4
  /-- How many requests one read of the queue fetches. -/
  readBatch : Nat := 64
  retry : RetryPolicy := {}
  deriving Repr, Inhabited

namespace ControllerSettings

inductive Flaw
  | completionTimeout
  | workers
  | readBatch
  | multiplier
  /-- The text is no controller configuration. -/
  | unreadable
  deriving DecidableEq, Repr

def Flaw.message : Flaw → String
  | .completionTimeout => "completion_timeout_ms must be positive"
  | .workers => "worker_pool_size must be at least 1"
  | .readBatch => "read_batch_size must be at least 1"
  | .multiplier => "retry.multiplier must be >= 1.0"
  | .unreadable => "invalid controller config"

/-- The first flaw. A multiplier that is no number is let through. -/
def flaw? (s : ControllerSettings) : Option Flaw :=
  if s.completionTimeout = 0 then some .completionTimeout
  else if s.workers = 0 then some .workers
  else if s.readBatch = 0 then some .readBatch
  else if s.retry.multiplier < 1.0 then some .multiplier
  else none

end ControllerSettings

structure PipelineSettings where
  workers : Nat := 4
  readBatch : Nat := 64
  /-- How long an idle subscription sleeps at most before it reads again. -/
  idleWait : Nat := 100
  retry : RetryPolicy := {}
  deriving Repr, Inhabited

namespace PipelineSettings

/-- The pipeline inside a controller idles no longer than a watcher does. -/
def ofController (s : ControllerSettings) : PipelineSettings :=
  { workers := s.workers, readBatch := s.readBatch, idleWait := max s.pollInterval 1,
    retry := s.retry }

/-- An idle wait of any length, of which the low 64 bits are kept. -/
def withIdleWait (s : PipelineSettings) (ms : Nat) : PipelineSettings :=
  { s with idleWait := ms % Nat.pow 2 64 }

/-- How many requests may wait behind others of their stream before reading stops. The product is
taken in 64 bits. -/
def maxWaiting (s : PipelineSettings) : Nat := max s.readBatch 1 * 4 % Nat.pow 2 64

end PipelineSettings

structure FileQueueSettings where
  directory : String
  /-- Whether an append waits for the disk. -/
  syncOnAppend : Bool := true
  /-- The longest request, in bytes of its text. -/
  maxRequestSize : Nat := 1048576
  /-- The size of the log from which an acknowledgement compacts it. -/
  compactThreshold : Nat := 67108864
  deriving Repr, Inhabited

end StreamControl
