import StreamControl.Simulation.World

/-!
# Names for drawn identities

Identities that a session draws mean nothing to a reader. In texts they are named by their order of
appearance. They all begin alike, and differ in the last group of digits.
-/

namespace StreamControl

namespace Simulation

/-- The last groups of the identities that have appeared, in this order. -/
structure Naming where
  seen : List String := []

namespace Naming

/-- How many digits the last group has. -/
def groupLength : Nat := 12

/-- What the drawn identities begin with. -/
def mark : String :=
  let text := (RequestId.ofNat World.firstId).toString.toList
  String.ofList (text.take (text.length - groupLength))

/-- Takes note of an identity, and counts from one to its place. -/
def number (n : Naming) (group : String) : Naming × Nat :=
  let seen := if n.seen.contains group then n.seen else n.seen ++ [group]
  (⟨seen⟩, seen.idxOf group + 1)

/-- Names the identities in the parts of a text that follow a mark. -/
def renameParts (n : Naming) : List String → Naming × String
  | [] => (n, "")
  | part :: rest =>
    let digits := part.toList
    let (n, k) := n.number (String.ofList (digits.take groupLength))
    let (n, text) := n.renameParts rest
    (n, s!"req-{k}" ++ String.ofList (digits.drop groupLength) ++ text)

/-- Names the identities in a text. -/
def rename (n : Naming) (text : String) : Naming × String :=
  match text.splitOn mark with
  | [] => (n, text)
  | first :: rest => (n.renameParts rest).map (fun n => n) (first ++ ·)

end Naming

end Simulation

end StreamControl
