import StreamControl.Stream.Phase

/-!
# Kinds of operations

Each kind has the transitional phase in which it holds a stream, and the phases from which it may
start.
-/

namespace StreamControl

inductive Kind
  | update
  | scale
  | autoScale
  | seal
  | truncate
  | delete
  deriving DecidableEq, Repr, Inhabited

namespace Kind

/-- Every kind, in the order in which a handler table is checked. -/
def all : List Kind := [.update, .autoScale, .scale, .seal, .truncate, .delete]

def name : Kind → String
  | .update => "update"
  | .scale => "scale"
  | .autoScale => "auto_scale"
  | .seal => "seal"
  | .truncate => "truncate"
  | .delete => "delete"

instance : ToString Kind := ⟨name⟩

def ofName? (s : String) : Option Kind := all.find? (·.name = s)

/-- The phase a stream is moved to before the request is queued. -/
def transitional : Kind → Phase
  | .update => .updating
  | .scale | .autoScale => .scaling
  | .seal => .sealing
  | .truncate => .truncating
  | .delete => .deleting

/-- The phases from which the operation may start. -/
def allowedFrom : Kind → Phase → Bool
  | .truncate, p => p = .active || p = .sealed
  | .delete, p => p = .sealed
  | _, p => p = .active

end Kind

end StreamControl
