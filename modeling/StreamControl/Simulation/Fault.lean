import StreamControl.Store.Basic

/-!
# Faults

What can be made to happen to the calls of a store, and to appends: failures, answers that the store
did not give, and changes that somebody else makes just before.
-/

namespace StreamControl

namespace Simulation

/-- A change of a stream by somebody else. -/
inductive Change
  | setPhase (phase : Phase)
  /-- Writes the record anew as it is. -/
  | bump
  | remove
  deriving DecidableEq, Repr

inductive Method
  | insert
  | get
  | swap
  | remove
  | list
  | setPhase
  deriving DecidableEq, Repr

def Method.of : StoreCall → Method
  | .insert _ => .insert
  | .get _ => .get
  | .swap _ _ => .swap
  | .remove _ _ => .remove
  | .list _ => .list
  | .setPhase _ _ => .setPhase

/-- What happens to one call. -/
inductive Fault
  | none
  | fail (error : ControlError)
  /-- A conditional write is answered without being made. -/
  | answer (written : Written)
  /-- A read finds no record. -/
  | absent
  /-- Somebody changes the stream first. -/
  | first (change : Change)

/-- The answer that a fault gives in the store's place. -/
def Fault.answer? : Fault → (c : StoreCall) → Option c.Reply
  | .fail e, _ => some (.error e)
  | .answer w, .insert _ | .answer w, .swap _ _ | .answer w, .remove _ _ => some (.ok w)
  | .absent, .get _ => some (.ok .none)
  | _, _ => .none

/-- What happens to the next appends. -/
structure AppendFault where
  left : Nat
  text : String
  /-- How many store calls fail from then on. -/
  storeFailures : Nat
  change : Option Change
  deriving Repr

/-- The first fault for a method, and the others. -/
def takeFault (method : Method) : List (Method × Fault) → Fault × List (Method × Fault)
  | [] => (.none, [])
  | (m, fault) :: rest =>
    if m = method then (fault, rest)
    else
      let (found, rest) := takeFault method rest
      (found, (m, fault) :: rest)

end Simulation

end StreamControl
