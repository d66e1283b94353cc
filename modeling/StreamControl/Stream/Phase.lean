/-!
# Phases of a stream

A stream is created, then active, and at last sealed or gone. In between stand the transitional
phases: while a stream is in one, a single request owns it.
-/

namespace StreamControl

inductive Phase
  | creating
  | active
  | updating
  | scaling
  | truncating
  | sealing
  | sealed
  | deleting
  deriving DecidableEq, Repr, Inhabited

namespace Phase

def all : List Phase :=
  [.creating, .active, .updating, .scaling, .truncating, .sealing, .sealed, .deleting]

def name : Phase → String
  | .creating => "CREATING"
  | .active => "ACTIVE"
  | .updating => "UPDATING"
  | .scaling => "SCALING"
  | .truncating => "TRUNCATING"
  | .sealing => "SEALING"
  | .sealed => "SEALED"
  | .deleting => "DELETING"

instance : ToString Phase := ⟨name⟩

def ofName? (s : String) : Option Phase := all.find? (·.name = s)

/-- Phases in which a request owns the stream. -/
def isTransitional : Phase → Bool
  | .updating | .scaling | .truncating | .sealing | .deleting => true
  | .creating | .active | .sealed => false

end Phase

end StreamControl
