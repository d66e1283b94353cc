import StreamControl.Error
import StreamControl.Program
import StreamControl.Stream.Record

/-!
# The record store

The records of the streams, in order of their identities. A record is written on the condition that
its stored version is the one the writer has read, and each write takes the version one up; a record
that was removed and inserted again starts anew.

`StoreCall` is what a program may ask of a store, one call at a time, and `Store.serve` answers it.
A store may be told to fail the next calls.
-/

namespace StreamControl

/-- What came of a conditional write. -/
inductive Written
  /-- The record is stored, or was removed, as this version. -/
  | success (version : Nat)
  | notFound
  | mismatch (actual : Nat)
  | alreadyExists (version : Nat)
  deriving DecidableEq, Repr, Inhabited

inductive StoreCall
  | insert (record : Record Float)
  | get (id : StreamId)
  /-- Replaces a record that has the expected version. -/
  | swap (expected : Nat) (record : Record Float)
  /-- Removes a record that has the expected version. -/
  | remove (id : StreamId) (expected : Nat)
  | list (scope : String)
  /-- Forces a stream into a phase, whoever owns it. -/
  | setPhase (id : StreamId) (phase : Phase)

namespace StoreCall

/-- What a call is answered with when it does not fail. -/
def Result : StoreCall → Type
  | .insert _ | .swap _ _ | .remove _ _ => Written
  | .get _ => Option (Record Float)
  | .list _ => List StreamId
  | .setPhase _ _ => Unit

abbrev Reply (c : StoreCall) : Type := Except ControlError c.Result

/-- The stream that a call is about. -/
def stream? : StoreCall → Option StreamId
  | .insert record | .swap _ record => some record.id
  | .get id | .remove id _ | .setPhase id _ => some id
  | .list _ => none

/-- Whether the answer says that the call changed its stream. -/
def changed : (c : StoreCall) → c.Reply → Bool
  | .insert _, .ok (.success _) => true
  | .swap _ _, .ok (.success _) => true
  | .remove _ _, .ok (.success _) => true
  | .setPhase _ _, .ok _ => true
  | _, _ => false

end StoreCall

/-- Programs over a store. -/
abbrev StoreProgram (α : Type) := Program StoreCall StoreCall.Reply α

/-- Programs over a store that may fail. -/
abbrev StoreAction (α : Type) := ExceptT ControlError (Program StoreCall StoreCall.Reply) α

/-- Makes a call and goes on with its result. -/
def StoreCall.act (c : StoreCall) : StoreAction c.Result := ExceptT.mk (.perform c)

structure Store where
  records : List (Record Float) := []
  /-- How many of the next calls fail. -/
  failing : Nat := 0
  deriving Inhabited

namespace Store

def find? (s : Store) (id : StreamId) : Option (Record Float) := s.records.find? (·.id = id)

/-- Puts a record in its place among records of other streams. -/
def place (record : Record Float) : List (Record Float) → List (Record Float)
  | [] => [record]
  | r :: rest => if record.id.before r.id then record :: r :: rest else r :: place record rest

def erase (s : Store) (id : StreamId) : Store := { s with records := s.records.filter (·.id ≠ id) }

/-- Stores a record in place of the one its stream has. -/
def replace (s : Store) (record : Record Float) : Store :=
  { s with records := s.records.map fun r => if r.id = record.id then record else r }

def insert (s : Store) (record : Record Float) : Store × Written :=
  match s.find? record.id with
  | some existing => (s, .alreadyExists existing.version)
  | none => ({ s with records := place { record with version := 1 } s.records }, .success 1)

def swap (s : Store) (expected : Nat) (record : Record Float) : Store × Written :=
  match s.find? record.id with
  | none => (s, .notFound)
  | some current =>
    if current.version = expected then
      (s.replace { record with version := expected + 1 }, .success (expected + 1))
    else (s, .mismatch current.version)

def remove (s : Store) (id : StreamId) (expected : Nat) : Store × Written :=
  match s.find? id with
  | none => (s, .notFound)
  | some current =>
    if current.version = expected then (s.erase id, .success (expected + 1))
    else (s, .mismatch current.version)

def list (s : Store) (scope : String) : List StreamId :=
  (s.records.map (·.id)).filter (·.scope = scope)

def setPhase (s : Store) (id : StreamId) (phase : Phase) : Store × Except ControlError Unit :=
  match s.find? id with
  | none => (s, .error (.streamNotFound id))
  | some record =>
    (s.replace { record.releasedTo phase with version := record.version + 1 }, .ok ())

/-- The store at work, when it does not fail. -/
def apply : (c : StoreCall) → Store → Store × c.Reply
  | .insert record, s => (s.insert record).map (fun s => s) .ok
  | .get id, s => (s, .ok (s.find? id))
  | .swap expected record, s => (s.swap expected record).map (fun s => s) .ok
  | .remove id expected, s => (s.remove id expected).map (fun s => s) .ok
  | .list scope, s => (s, .ok (s.list scope))
  | .setPhase id phase, s => s.setPhase id phase

/-- Answers a call, or fails it if it is to fail. -/
def serve (c : StoreCall) (s : Store) : Store × c.Reply :=
  if 0 < s.failing then
    ({ s with failing := s.failing - 1 },
      .error (.storeUnavailable "injected metadata store failure"))
  else apply c s

end Store

end StreamControl
