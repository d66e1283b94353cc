import StreamControl.Stream.Record

/-!
# The streams of a shop

Where a theorem is shown at work, or a condition shown to be needed, it is on the streams of a
shop: mostly on the one with its orders.
-/

namespace StreamControl

namespace Shop

variable {β : Type}

def stream (name : String) : StreamId := ⟨"shop", name⟩

def orders : StreamId := stream "orders"

def requestOn (name : String) (id : Nat) (operation : Operation β) : Request β :=
  ⟨.ofNat id, stream name, operation, default⟩

/-- A request on the stream of the orders. -/
def request (id : Nat) (operation : Operation β) : Request β := requestOn "orders" id operation

@[simp] theorem request_operation (id : Nat) (operation : Operation β) :
    (request id operation).operation = operation := rfl

/-- The orders, scaled as is given, before anything has happened to them. -/
def fresh [Bound β] (scaling : Scaling) : Record β := .fresh orders ⟨scaling, none⟩ default

end Shop

end StreamControl
