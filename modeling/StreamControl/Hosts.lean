import StreamControl.Json.Decode

/-!
# Controller hosts

The controller instances that clients can reach, without repetition, in order of address and port.
-/

namespace StreamControl

structure Host where
  address : String
  port : UInt16
  deriving DecidableEq, Repr, Inhabited

namespace Host

instance : ToString Host := ⟨fun h => s!"{h.address}:{h.port.toNat}"⟩

def before (a b : Host) : Bool :=
  a.address < b.address || (a.address == b.address && a.port < b.port)

/-- Adds a host to an ordered list. -/
def register (host : Host) : List Host → List Host
  | [] => [host]
  | h :: rest =>
    if host.before h then host :: h :: rest
    else if host = h then h :: rest
    else h :: register host rest

def deregister (host : Host) (hosts : List Host) : List Host := hosts.filter (· ≠ host)

def ordered (hosts : List Host) : List Host := hosts.foldl (fun acc h => register h acc) []

def toJson (h : Host) : Json :=
  .record [("address", .string h.address), ("port", .nat h.port.toNat)]

def ofJson? (v : Json) : Option Host := do
  match ← Json.record? ["address", "port"] v with
  | [address, port] =>
    some ⟨← Json.required? Json.string? address,
      Nat.toUInt16 (← Json.required? (Json.natBelow? (Nat.pow 2 16)) port)⟩
  | _ => none

end Host

end StreamControl
