/-!
# Acknowledgement window

Requests finish in any order; the queue may only be acknowledged up to the first one that has not.
The window holds that offset, `next`, and the finished offsets beyond it.
-/

namespace StreamControl

structure AckWindow where
  next : Nat
  /-- Finished offsets above `next`, in order. -/
  finished : List Nat
  deriving DecidableEq, Repr, Inhabited

namespace AckWindow

def start (offset : Nat) : AckWindow := ⟨offset, []⟩

/-- Adds an offset to an ordered list without repetition. -/
def insert (offset : Nat) : List Nat → List Nat
  | [] => [offset]
  | o :: rest =>
    if offset < o then offset :: o :: rest
    else if offset = o then o :: rest
    else o :: insert offset rest

/-- Moves over the offsets that follow one another from `next`. A finished offset has a next one: it
is not 2 ^ 64 - 1. -/
def advance (next : Nat) : List Nat → AckWindow
  | [] => ⟨next, []⟩
  | o :: rest => if o = next then advance (next + 1) rest else ⟨next, o :: rest⟩

/-- Marks an offset finished; the second result is the new `next` if it moved. -/
def complete (w : AckWindow) (offset : Nat) : AckWindow × Option Nat :=
  if offset < w.next then (w, none)
  else
    let w' := advance w.next (insert offset w.finished)
    (w', if w.next < w'.next then some w'.next else none)

/-- How many finished offsets wait for an earlier one. -/
def outOfOrder (w : AckWindow) : Nat := w.finished.length

end AckWindow

end StreamControl
