/-!
# Stream identities

A stream is named by a scope and a name of its own. The key joins the two with a slash; it names
the stream for waiters and in messages. Two identities that both pass `StreamId.flaw?` have the
same key only if they are equal, because neither part then holds a slash.
-/

namespace StreamControl

structure StreamId where
  scope : String
  name : String
  deriving DecidableEq, Repr, Inhabited

namespace StreamId

def key (id : StreamId) : String := id.scope ++ "/" ++ id.name

instance : ToString StreamId := ⟨key⟩

/-- What is wrong with one part of an identity. -/
inductive Flaw
  | empty (field : String)
  | slash (field value : String)
  deriving DecidableEq, Repr

def partFlaw? (field value : String) : Option Flaw :=
  if value.isEmpty then some (.empty field)
  else if value.toList.contains '/' then some (.slash field value)
  else none

/-- The first flaw, looking at the scope before the name. -/
def flaw? (id : StreamId) : Option Flaw :=
  (partFlaw? "scope" id.scope).or (partFlaw? "name" id.name)

/-- Identities in order of scope, then name. -/
def before (a b : StreamId) : Bool := a.scope < b.scope || (a.scope == b.scope && a.name < b.name)

end StreamId

end StreamControl
