import StreamControl.Error

/-!
# Handler tables

Which handler runs for which kind of operation. A handler is known by the kind it was made for; a
later one for a kind replaces the earlier.
-/

namespace StreamControl

/-- A table of handlers of type `η`. -/
abbrev HandlerTable (η : Type) := List (Kind × η)

namespace HandlerTable

variable {η : Type}

def register (table : HandlerTable η) (kind : Kind) (handler : η) : HandlerTable η :=
  (kind, handler) :: table

def find? (table : HandlerTable η) (kind : Kind) : Option η :=
  (List.find? (·.1 = kind) table).map (·.2)

def get (table : HandlerTable η) (kind : Kind) : Except PipelineError η :=
  match table.find? kind with
  | some handler => .ok handler
  | none => .error (.handlerNotFound kind)

/-- The kinds without a handler. -/
def missing (table : HandlerTable η) : List Kind := Kind.all.filter fun k => (table.find? k).isNone

/-- One handler for each kind. -/
def standard (handler : Kind → η) : HandlerTable η := Kind.all.map fun k => (k, handler k)

end HandlerTable

end StreamControl
