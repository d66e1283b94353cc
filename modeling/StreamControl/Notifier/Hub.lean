/-!
# The change notifier

Waiters for a key share a bell. The hub has an entry for a key while somebody watches it: the first
watch makes a bell, and the last one to leave takes the entry away, so that keys nobody waits for
leave nothing behind.

A watch ends in two steps. `leave` looks whether the watch is the last one that holds the bell, and
if so removes the entry; `release` gives the bell up. Between the two the watch still counts.
-/

namespace StreamControl

/-- A hold on a key's bell. -/
structure Watch where
  key : String
  bell : Nat
  deriving DecidableEq, Repr, Inhabited

structure Hub where
  /-- The bell of each watched key. -/
  entries : List (String × Nat) := []
  /-- The bells that watches hold, one for each watch. -/
  held : List Nat := []
  /-- The number of the next bell. -/
  next : Nat := 0
  deriving DecidableEq, Repr, Inhabited

namespace Hub

def bell? (hub : Hub) (key : String) : Option Nat :=
  (hub.entries.find? (·.1 = key)).map (·.2)

/-- Starts a watch on a key. -/
def watch (hub : Hub) (key : String) : Hub × Watch :=
  match hub.bell? key with
  | some bell => ({ hub with held := bell :: hub.held }, ⟨key, bell⟩)
  | none =>
    ({ entries := (key, hub.next) :: hub.entries, held := hub.next :: hub.held
       next := hub.next + 1 }, ⟨key, hub.next⟩)

/-- How many hold a bell: the watches, and the hub if it has an entry for it. -/
def holders (hub : Hub) (bell : Nat) : Nat :=
  hub.held.count bell + (if hub.entries.any (·.2 = bell) then 1 else 0)

/-- Removes the entry of a watch that is the last to hold its bell. -/
def leave (hub : Hub) (w : Watch) : Hub :=
  if hub.holders w.bell = 2 && hub.bell? w.key = some w.bell then
    { hub with entries := hub.entries.filter (·.1 ≠ w.key) }
  else hub

/-- Gives up a watch's hold. -/
def release (hub : Hub) (w : Watch) : Hub := { hub with held := hub.held.erase w.bell }

/-- Ends a watch, with nothing in between the two steps. -/
def stop (hub : Hub) (w : Watch) : Hub := (hub.leave w).release w

/-- A hub in place of this one, which nobody watches yet. Its bells are others. -/
def successor (hub : Hub) : Hub := { hub with entries := [] }

/-- How many keys are watched. -/
def watched (hub : Hub) : Nat := hub.entries.length

end Hub

end StreamControl
