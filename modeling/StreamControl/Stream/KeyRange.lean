import StreamControl.Decimal.Notation

/-!
# Key ranges

A key range is half open, `[start, stop)`, within the key space from zero to one. Its bounds are
doubles when the program runs; the definitions only ask for the operations of `Bound`, so that they
can also be read over exact numbers. Bounds closer than the tolerance count as equal where ranges
are joined.
-/

namespace StreamControl

/-- Numbers that can bound a key range. -/
class Bound (β : Type) extends Add β, Sub β, Mul β, Div β where
  ofNat : Nat → β
  magnitude : β → β
  lt : β → β → Bool
  le : β → β → Bool
  /-- A total order that agrees with `lt` on ordinary numbers; ranges are sorted by it. -/
  order : β → β → Ordering
  tolerance : β
  /-- The form in messages. -/
  text : β → String

/-- The place of a double in the total order of all encodings: a negative zero comes just before
zero, and what is not a number comes last. -/
def floatRank (x : Float) : Int :=
  let bits := x.toBits.toNat
  if bits < Nat.pow 2 63 then bits else -(bits - Nat.pow 2 63 : Nat) - 1

instance : Bound Float where
  ofNat := Float.ofNat
  magnitude := Float.abs
  lt a b := a < b
  le a b := a ≤ b
  order a b := compare (floatRank a) (floatRank b)
  tolerance := 1e-9
  text := plainText

structure KeyRange (β : Type) where
  start : β
  stop : β
  deriving Repr, Inhabited, DecidableEq, BEq

namespace KeyRange

variable {β : Type} [Bound β]

/-- A range of the key space that is not empty. The upper end may exceed one by the tolerance. -/
def isValid (r : KeyRange β) : Bool :=
  Bound.le (Bound.ofNat 0) r.start && Bound.le r.stop (Bound.ofNat 1 + Bound.tolerance) &&
    Bound.lt r.start r.stop

/-- Equal parts in order; the last one ends exactly where the whole does. -/
def split (r : KeyRange β) (parts : Nat) : List (KeyRange β) :=
  let width := (r.stop - r.start) / Bound.ofNat parts
  (List.range parts).map fun i =>
    let start := r.start + width * Bound.ofNat i
    { start, stop := if i + 1 = parts then r.stop else start + width }

/-- `count` ranges that cover the key space evenly. -/
def uniform (count : Nat) : List (KeyRange β) :=
  split { start := Bound.ofNat 0, stop := Bound.ofNat 1 } count

/-- Whether two bounds are further apart than the tolerance. -/
def apart (a b : β) : Bool := Bound.lt Bound.tolerance (Bound.magnitude (a - b))

/-- Ranges in the order of their starts; ranges with one start keep their order. -/
def sorted (rs : List (KeyRange β)) : List (KeyRange β) :=
  rs.mergeSort fun a b => (Bound.order a.start b.start).isLE

/-- The end of a run of ranges that ends at `stop` so far, if each starts where the one before
ends. -/
def runEnd? (stop : β) : List (KeyRange β) → Option β
  | [] => some stop
  | r :: rest => if apart r.start stop then none else runEnd? r.stop rest

/-- The union of sorted ranges, if they leave no gap and do not overlap. -/
def span? : List (KeyRange β) → Option (KeyRange β)
  | [] => none
  | r :: rest => (fun stop => { start := r.start, stop }) <$> runEnd? r.stop rest

/-- The form in messages. -/
def text (r : KeyRange β) : String :=
  "[" ++ Bound.text r.start ++ ", " ++ Bound.text r.stop ++ ")"

end KeyRange

end StreamControl
