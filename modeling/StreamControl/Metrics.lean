import StreamControl.Operation.Kind

/-!
# Counters

What the gateway, the waiting callers' slots and the pipeline count.
-/

namespace StreamControl

structure Metrics where
  accepted : Nat := 0
  preconditionFailures : Nat := 0
  conflicts : Nat := 0
  appendFailures : Nat := 0
  completed : Nat := 0
  failed : Nat := 0
  deadlinesExceeded : Nat := 0
  lateSignals : Nat := 0
  tasksSucceeded : Nat := 0
  tasksFailed : Nat := 0
  taskRetries : Nat := 0
  deriving DecidableEq, Repr, Inhabited

namespace Metrics

/-- How a caller's wait ended. -/
inductive Ending
  | success
  | failed
  | deadlineExceeded
  deriving DecidableEq, Repr

/-- The ending with the given label; an unknown label counts as a failure. -/
def Ending.ofLabel (label : String) : Ending :=
  if label = "success" then .success
  else if label = "deadline_exceeded" then .deadlineExceeded
  else .failed

inductive Event
  | accepted (kind : Kind)
  | preconditionFailure (kind : Kind)
  | conflict (kind : Kind)
  | appendFailure (kind : Kind)
  | resolution (ending : Ending)
  | lateSignal
  | task (kind : Kind) (success : Bool)
  | retry (kind : Kind)
  deriving DecidableEq, Repr

def count (m : Metrics) : Event → Metrics
  | .accepted _ => { m with accepted := m.accepted + 1 }
  | .preconditionFailure _ => { m with preconditionFailures := m.preconditionFailures + 1 }
  | .conflict _ => { m with conflicts := m.conflicts + 1 }
  | .appendFailure _ => { m with appendFailures := m.appendFailures + 1 }
  | .resolution .success => { m with completed := m.completed + 1 }
  | .resolution .failed => { m with failed := m.failed + 1 }
  | .resolution .deadlineExceeded => { m with deadlinesExceeded := m.deadlinesExceeded + 1 }
  | .lateSignal => { m with lateSignals := m.lateSignals + 1 }
  | .task _ true => { m with tasksSucceeded := m.tasksSucceeded + 1 }
  | .task _ false => { m with tasksFailed := m.tasksFailed + 1 }
  | .retry _ => { m with taskRetries := m.taskRetries + 1 }

/-- The counters by name. -/
def counters (m : Metrics) : List (String × Nat) :=
  [("accepted", m.accepted), ("precondition_failures", m.preconditionFailures),
    ("conflicts", m.conflicts), ("append_failures", m.appendFailures), ("completed", m.completed),
    ("failed", m.failed), ("deadlines_exceeded", m.deadlinesExceeded),
    ("late_signals", m.lateSignals), ("tasks_succeeded", m.tasksSucceeded),
    ("tasks_failed", m.tasksFailed), ("task_retries", m.taskRetries)]

end Metrics

end StreamControl
