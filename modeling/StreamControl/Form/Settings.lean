import StreamControl.Json.Decode
import StreamControl.Policy.Settings

/-!
# Written forms of settings

Every setting but the directory of a queue may be left out.
-/

namespace StreamControl

namespace RetryPolicy

def toJson (p : RetryPolicy) : Json :=
  .record [("initial_delay_ms", .nat p.initialDelay), ("multiplier", .float p.multiplier),
    ("max_delay_ms", .nat p.maxDelay), ("max_retries", .nat p.maxRetries)]

def ofJson? (v : Json) : Option RetryPolicy := do
  let d : RetryPolicy := {}
  match ← Json.record? ["initial_delay_ms", "multiplier", "max_delay_ms", "max_retries"] v with
  | [initialDelay, multiplier, maxDelay, maxRetries] =>
    some
      { initialDelay := ← Json.defaulted? Json.nat64? d.initialDelay initialDelay
        multiplier := ← Json.defaulted? Json.float? d.multiplier multiplier
        maxDelay := ← Json.defaulted? Json.nat64? d.maxDelay maxDelay
        maxRetries := ← Json.defaulted? Json.nat32? d.maxRetries maxRetries }
  | _ => none

end RetryPolicy

namespace ControllerSettings

def toJson (s : ControllerSettings) : Json :=
  .record [("completion_timeout_ms", .nat s.completionTimeout),
    ("completion_poll_interval_ms", .nat s.pollInterval), ("worker_pool_size", .nat s.workers),
    ("read_batch_size", .nat s.readBatch), ("retry", s.retry.toJson)]

def ofJson? (v : Json) : Option ControllerSettings := do
  let d : ControllerSettings := {}
  match ← Json.record? ["completion_timeout_ms", "completion_poll_interval_ms", "worker_pool_size",
      "read_batch_size", "retry"] v with
  | [completionTimeout, pollInterval, workers, readBatch, retry] =>
    some
      { completionTimeout := ← Json.defaulted? Json.nat64? d.completionTimeout completionTimeout
        pollInterval := ← Json.defaulted? Json.nat64? d.pollInterval pollInterval
        workers := ← Json.defaulted? Json.nat64? d.workers workers
        readBatch := ← Json.defaulted? Json.nat64? d.readBatch readBatch
        retry := ← Json.defaulted? RetryPolicy.ofJson? d.retry retry }
  | _ => none

/-- Settings from a text, checked. -/
def ofText (bytes : Bytes) : Except Flaw ControllerSettings :=
  match Json.decode? (fun _ v => ofJson? v) bytes with
  | none => .error .unreadable
  | some s =>
    match s.flaw? with
    | some flaw => .error flaw
    | none => .ok s

end ControllerSettings

namespace PipelineSettings

def ofJson? (v : Json) : Option PipelineSettings := do
  let d : PipelineSettings := {}
  match ← Json.record? ["worker_pool_size", "read_batch_size", "idle_wait_ms", "retry"] v with
  | [workers, readBatch, idleWait, retry] =>
    some
      { workers := ← Json.defaulted? Json.nat64? d.workers workers
        readBatch := ← Json.defaulted? Json.nat64? d.readBatch readBatch
        idleWait := ← Json.defaulted? Json.nat64? d.idleWait idleWait
        retry := ← Json.defaulted? RetryPolicy.ofJson? d.retry retry }
  | _ => none

end PipelineSettings

namespace FileQueueSettings

def ofJson? (v : Json) : Option FileQueueSettings := do
  let d : FileQueueSettings := { directory := "" }
  match ← Json.record? ["base_dir", "sync_on_append", "max_request_size",
      "compact_threshold_bytes"] v with
  | [directory, syncOnAppend, maxRequestSize, compactThreshold] =>
    some
      { directory := ← Json.required? Json.string? directory
        syncOnAppend := ← Json.defaulted? Json.bool? d.syncOnAppend syncOnAppend
        maxRequestSize := ← Json.defaulted? Json.nat64? d.maxRequestSize maxRequestSize
        compactThreshold := ← Json.defaulted? Json.nat64? d.compactThreshold compactThreshold }
  | _ => none

end FileQueueSettings

end StreamControl
