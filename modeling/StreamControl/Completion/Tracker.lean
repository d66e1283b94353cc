import StreamControl.Error
import StreamControl.Metrics
import StreamControl.Operation.Outcome
import StreamControl.Policy.Governor

/-!
# The completion tracker

A caller waits at a slot of its own. Three signals may settle a slot: the store shows the commit,
the pipeline reports a failure, the timeout passes. The first one wins; a later one only counts as
late. Several callers may wait for one request, each at its own slot, and a failure reaches all of
them.

A slot is tracked until its watcher, or the gateway, takes it out of the tracker. What it was
settled with remains.
-/

namespace StreamControl

inductive Resolution
  | success
  | failed (reason : String)
  | deadlineExceeded (millis : Nat)
  deriving DecidableEq, Repr

namespace Resolution

def ending : Resolution → Metrics.Ending
  | .success => .success
  | .failed _ => .failed
  | .deadlineExceeded _ => .deadlineExceeded

/-- What a caller that waits for a request is told. -/
def answer (id : RequestId) : Resolution → Except ControlError Completion
  | .success => .ok .success
  | .failed reason => .error (.pipelineFailure id reason)
  | .deadlineExceeded millis => .error (.deadlineExceeded id millis)

end Resolution

structure Slot where
  ticket : Nat
  request : RequestId
  /-- Whether the tracker still knows the slot. -/
  tracked : Bool := true
  resolution : Option Resolution := none
  deriving DecidableEq, Repr

structure Tracker where
  governor : Governor
  /-- How long a watcher goes at most without looking at the store. -/
  poll : Nat
  /-- All slots that were ever given out, in order of their tickets. -/
  slots : List Slot := []
  deriving Repr, Inhabited

namespace Tracker

/-- A tracker with nobody waiting. Watchers pause for at least a millisecond. -/
def start (timeout poll : Nat) : Tracker := { governor := .ofMillis timeout, poll := max poll 1 }

/-- The ticket of the next slot; tickets start at one. -/
def next (t : Tracker) : Nat := t.slots.length + 1

/-- A new slot for a request. -/
def register (t : Tracker) (request : RequestId) : Tracker × Nat :=
  ({ t with slots := t.slots ++ [{ ticket := t.next, request }] }, t.next)

def slot? (t : Tracker) (ticket : Nat) : Option Slot := t.slots.find? (·.ticket = ticket)

/-- Changes the slot of a ticket. -/
def modify (t : Tracker) (ticket : Nat) (f : Slot → Slot) : Tracker :=
  { t with slots := t.slots.map fun s => if s.ticket = ticket then f s else s }

def resolution? (t : Tracker) (ticket : Nat) : Option Resolution :=
  (t.slot? ticket).bind (·.resolution)

/-- Settles a slot, unless it is settled already. The second result says whether it was this signal
that did it. -/
def resolve (t : Tracker) (ticket : Nat) (r : Resolution) : Tracker × Bool :=
  match t.slot? ticket with
  | some { resolution := none, .. } => (t.modify ticket ({ · with resolution := some r }), true)
  | _ => (t, false)

/-- Settles a slot, and says what is to be counted. -/
def signal (t : Tracker) (ticket : Nat) (r : Resolution) : Tracker × Metrics.Event :=
  match t.resolve ticket r with
  | (t, true) => (t, .resolution r.ending)
  | (t, false) => (t, .lateSignal)

/-- Takes a slot out of the tracker. -/
def detach (t : Tracker) (ticket : Nat) : Tracker :=
  t.modify ticket ({ · with tracked := false })

/-- Takes back a slot that no caller has seen. Nothing is counted. -/
def withdraw (t : Tracker) (ticket : Nat) : Tracker :=
  if (t.slot? ticket).any (·.tracked) then
    ((t.detach ticket).resolve ticket (.failed "withdrawn before acceptance")).1
  else t

/-- The tickets of the slots that are tracked for a request. -/
def tickets (t : Tracker) (request : RequestId) : List Nat :=
  (t.slots.filter fun s => s.tracked && s.request = request).map (·.ticket)

/-- Signals a failure to slots, one after the other. -/
def fail (reason : String) : List Nat → Tracker → Tracker × List Metrics.Event
  | [], t => (t, [])
  | ticket :: rest, t =>
    let (t, event) := t.signal ticket (.failed reason)
    let (t, events) := fail reason rest t
    (t, event :: events)

/-- Takes in an outcome of the pipeline. Only a failure settles slots; success is for the store to
show. -/
def deliver (t : Tracker) (outcome : Outcome) : Tracker × List Metrics.Event :=
  match outcome.verdict with
  | .failed reason => fail reason (t.tickets outcome.request) t
  | _ => (t, [])

/-- How many callers are waited for. -/
def pendingCount (t : Tracker) : Nat := t.slots.countP (·.tracked)

def isPending (t : Tracker) (request : RequestId) : Bool := !(t.tickets request).isEmpty

/-- What the caller at a slot is told now. -/
def status (t : Tracker) (id : RequestId) (ticket : Nat) : Except ControlError Completion :=
  match t.resolution? ticket with
  | none => .ok .accepted
  | some r => r.answer id

/-- What the caller at a slot is told once there is nobody left to settle it. -/
def final (t : Tracker) (id : RequestId) (ticket : Nat) : Except ControlError Completion :=
  match t.resolution? ticket with
  | none => .error .shuttingDown
  | some r => r.answer id

end Tracker

end StreamControl
