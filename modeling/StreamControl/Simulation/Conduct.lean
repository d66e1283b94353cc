import StreamControl.Pipeline.Execution
import StreamControl.Text.Quoted

/-!
# Scripted handlers

A conduct tells a handler how long to take, whether to wait at a gate, and what to do in the end,
run by run. A handler without a script, or behind the end of its script, does what its kind asks
for.
-/

namespace StreamControl

namespace Simulation

/-- What a scripted handler does in the end. -/
inductive Deed
  | succeed
  | fail (reason : String)
  | retry (reason : String)
  | panic (text : String)
  /-- What its kind asks for. -/
  | execute
  deriving DecidableEq, Repr

structure Conduct where
  /-- How long the handler takes. -/
  duration : Nat := 0
  gated : Bool := false
  /-- What each stream sees, run by run. -/
  script : List Deed := []
  deriving DecidableEq, Repr, Inhabited

inductive HandlerCall
  | store (call : StoreCall)
  /-- Notes that the handler begins, or has done waiting. -/
  | log (begins : Bool)
  | pause (ms : Nat)
  | gate
  /-- What to do in the end. -/
  | deed

def HandlerCall.Reply : HandlerCall → Type
  | .store call => call.Reply
  | .deed => Deed
  | .log _ | .pause _ | .gate => Unit

abbrev HandlerProgram (α : Type) := Program HandlerCall HandlerCall.Reply α

/-- A program over a store as part of a handler. -/
def ofStore {α : Type} : StoreProgram α → HandlerProgram α
  | .done a => .done a
  | .call c k => .call (.store c) fun r => ofStore (k r)

/-- How a handler ends: with an outcome, or in a panic. -/
abbrev Ending := Except String Outcome

/-- The verdict on a handler run. -/
def verdictOf : Ending → Verdict
  | .ok outcome => outcome.verdict
  | .error text => .failed s!"handler panicked: task N panicked with message {quoted text}"

/-- What its kind asks a handler to do. -/
def execute (request : Request Float) : HandlerProgram Ending :=
  ofStore ((Execution.run request.kind request).andThen fun outcome => .done (.ok outcome))

def perform (request : Request Float) : Deed → HandlerProgram Ending
  | .succeed => .done (.ok (.succeeded request.id))
  | .fail reason => .done (.ok (.failed request.id reason))
  | .retry reason => .done (.ok (.retryable request.id reason))
  | .panic text => .done (.error text)
  | .execute => execute request

/-- The run of a scripted handler. -/
def Conduct.run (c : Conduct) (request : Request Float) : HandlerProgram Ending :=
  .call (.log true) fun _ => .call (.pause c.duration) fun _ =>
    if c.gated then .call .gate fun _ => finish else finish
where
  finish : HandlerProgram Ending := .call (.log false) fun _ => .call .deed (perform request)

end Simulation

end StreamControl
