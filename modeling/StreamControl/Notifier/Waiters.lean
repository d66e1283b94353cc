import StreamControl.Notifier.Hub

/-!
# Waiters on a clock

Named waiters at a hub, and the times at which those with a limit give up. A waiter ends signalled,
or at its limit, or is cancelled and leaves no result.

A name belongs to the waiter that took it last, until that one is cancelled. Others that had it
before go on, out of reach; results go by name, the last one counts.
-/

namespace StreamControl

/-- The longest time, in milliseconds, that a clock is advanced at once: thirty years. -/
def longestAdvance : Nat := 30 * 365 * 24 * 60 * 60 * 1000

structure Waiter where
  number : Nat
  name : String
  watch : Watch
  /-- When the waiter gives up. -/
  limit : Option Nat
  deriving DecidableEq, Repr

structure Waiters where
  hub : Hub := {}
  now : Nat := 0
  /-- How many waiters there have been. -/
  count : Nat := 0
  waiting : List Waiter := []
  /-- The number of the waiter that a name belongs to. -/
  owners : List (String × Nat) := []
  /-- The finished waiters: whether they were signalled, and when they ended. -/
  finished : List (String × Bool × Nat) := []
  deriving DecidableEq, Repr, Inhabited

namespace Waiters

/-- Ends waiters with the same result. -/
def finish (s : Waiters) (ended : List Waiter) (signalled : Bool) : Waiters :=
  { s with
    hub := ended.foldl (fun hub w => hub.stop w.watch) s.hub
    waiting := s.waiting.filter (!ended.contains ·)
    finished := s.finished.filter (fun f => !ended.any (·.name = f.1)) ++
      (ended.map (·.name)).eraseDups.map fun name => (name, signalled, s.now) }

/-- Ends the waiters whose limit has come by now. -/
def expire (s : Waiters) : Waiters :=
  s.finish (s.waiting.filter fun w => w.limit.any (· ≤ s.now)) false

/-- A new waiter for a key, with at most so much time. -/
def wait (s : Waiters) (name key : String) (max : Option Nat) : Waiters :=
  let (hub, watch) := s.hub.watch key
  expire { s with
    hub
    count := s.count + 1
    waiting := s.waiting ++ [⟨s.count, name, watch, max.map (s.now + ·)⟩]
    owners := (name, s.count) :: s.owners.filter (·.1 ≠ name) }

/-- Signals a key to all who wait for it now. -/
def notify (s : Waiters) (key : String) : Waiters :=
  match s.hub.bell? key with
  | none => s
  | some bell => s.finish (s.waiting.filter (·.watch.bell = bell)) true

/-- Ends the waiter that a name belongs to, if it still waits, and frees the name. -/
def cancel (s : Waiters) (name : String) : Waiters :=
  match s.owners.find? (·.1 = name) with
  | none => s
  | some (_, number) =>
    let (gone, waiting) := s.waiting.partition (·.number = number)
    { s with
      hub := gone.foldl (fun hub w => hub.stop w.watch) s.hub
      waiting
      owners := s.owners.filter (·.1 ≠ name) }

/-- The earliest limit up to a time. -/
def nextLimit? (s : Waiters) (time : Nat) : Option Nat :=
  (s.waiting.filterMap (·.limit)).filter (· ≤ time) |>.min?

/-- Lets the clock run to a time, stopping at every limit on the way. -/
def advanceTo (time : Nat) : Nat → Waiters → Waiters
  | 0, s => { s with now := time }
  | fuel + 1, s =>
    match s.nextLimit? time with
    | none => { s with now := time }
    | some limit => advanceTo time fuel { s with now := max s.now limit }.expire

/-- Lets time pass. Each stop ends a waiter, so there are no more stops than waiters. -/
def advance (s : Waiters) (ms : Nat) : Waiters :=
  advanceTo (s.now + min ms longestAdvance) s.waiting.length s

end Waiters

end StreamControl
