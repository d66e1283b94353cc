import StreamControl.Operation.Refusal
import StreamControl.Policy.Settings
import StreamControl.Text.Millis

/-!
# Errors

One type of errors for all that a caller of the controller can meet, and the errors of the queue and
of the pipeline, each of which has a counterpart among the former. Only failures of the
infrastructure are worth a retry.
-/

namespace StreamControl

inductive ControlError
  | preconditionFailed (stream : StreamId) (operation : Kind) (phase : Phase)
  | conflict (stream : StreamId)
  | queueAppendFailed (cause : String)
  | releaseFailed (stream : StreamId) (appendError reason : String)
  | deadlineExceeded (request : RequestId) (millis : Nat)
  | pipelineFailure (request : RequestId) (reason : String)
  | streamNotFound (stream : StreamId)
  | streamExists (stream : StreamId)
  | invalidArgument (refusal : Refusal Float)
  | storeUnavailable (text : String)
  | queue (text : String)
  | io (text : String)
  | serialization (text : String)
  | config (flaw : ControllerSettings.Flaw)
  /-- A flaw of settings given in words. -/
  | configStated (text : String)
  | shuttingDown
  | other (text : String)
  deriving Repr

namespace ControlError

def message : ControlError → String
  | .preconditionFailed stream operation phase =>
    s!"Precondition failed: {operation} not allowed on stream {stream} in state {phase}"
  | .conflict stream => s!"Conflict: another operation is transitioning stream {stream}"
  | .queueAppendFailed cause => s!"Queue append failed: {cause}"
  | .releaseFailed stream appendError reason =>
    s!"Queue append failed ({appendError}) and stream {stream} could not be released: {reason}"
  | .deadlineExceeded request millis =>
    s!"Deadline exceeded after {millisText millis} waiting for request {request}"
  | .pipelineFailure request reason => s!"Request {request} failed: {reason}"
  | .streamNotFound stream => s!"Stream not found: {stream}"
  | .streamExists stream => s!"Stream already exists: {stream}"
  | .invalidArgument refusal => s!"Invalid argument: {refusal.message}"
  | .storeUnavailable text => s!"Store unavailable: {text}"
  | .queue text => s!"Queue error: {text}"
  | .io text => s!"IO error: {text}"
  | .serialization text => s!"Serialization error: {text}"
  | .config flaw => s!"Configuration error: {flaw.message}"
  | .configStated text => s!"Configuration error: {text}"
  | .shuttingDown => "Shutting down"
  | .other text => s!"Other error: {text}"

/-- Whether the operation may succeed if it is tried again. -/
def isRetryable : ControlError → Bool
  | .storeUnavailable _ | .io _ | .queue _ => true
  | _ => false

end ControlError

/-- What can go wrong with a queue. -/
inductive QueueError
  | io (text : String)
  | serialization
  | requestTooLarge (size max : Nat)
  /-- A frame that is not the last one is malformed. -/
  | corrupt (position : Nat) (reason : String)
  | invalidAcknowledge (requested tail : Nat)
  | appendRejected (cause : String)
  deriving DecidableEq, Repr

namespace QueueError

def message : QueueError → String
  | .io text => s!"IO error: {text}"
  | .serialization => "Serialization error"
  | .requestTooLarge size max => s!"Request of {size} bytes exceeds max_request_size {max}"
  | .corrupt position reason => s!"Corrupt queue log at byte {position}: {reason}"
  | .invalidAcknowledge requested tail => s!"Cannot acknowledge up to {requested}: tail is {tail}"
  | .appendRejected cause => s!"Append rejected: {cause}"

/-- The error as a caller of the controller sees it. -/
def toControl : QueueError → ControlError
  | .io text => .io text
  | e => .queue e.message

end QueueError

/-- What can stop the pipeline as a whole. -/
inductive PipelineError
  | handlerNotFound (kind : Kind)
  | alreadyRunning
  | ledger (text : String)
  | serialization
  | control (error : ControlError)
  deriving Repr

namespace PipelineError

def message : PipelineError → String
  | .handlerNotFound kind => s!"No handler registered for {kind}"
  | .alreadyRunning => "Pipeline is already running"
  | .ledger text => s!"Failed-request ledger error: {text}"
  | .serialization => "Serialization error"
  | .control error => error.message

def toControl : PipelineError → ControlError
  | .control error => error
  | .ledger text => .io text
  | e => .other e.message

end PipelineError

end StreamControl
