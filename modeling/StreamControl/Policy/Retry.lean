/-!
# Retry policy

The delay before a retry grows by a factor with every attempt, up to a cap. The growth is computed
in doubles: the factor, at least one, is raised to the attempt's number by repeated squaring, and
the product is capped and cut down to whole milliseconds. A product that is no number yields the
cap.
-/

namespace StreamControl

structure RetryPolicy where
  initialDelay : Nat := 100
  multiplier : Float := 2.0
  maxDelay : Nat := 10000
  maxRetries : Nat := 5
  deriving Repr, Inhabited

namespace RetryPolicy

/-- The larger of two doubles; of a double and something that is no number, the double. -/
def larger (a b : Float) : Float :=
  if a.isNaN then b else if b.isNaN then a else if a < b then b else a

/-- The smaller of two doubles; of a double and something that is no number, the double. -/
def smaller (a b : Float) : Float :=
  if a.isNaN then b else if b.isNaN then a else if b < a then b else a

/-- `x ^ n · acc` by repeated squaring; `fuel` bounds the number of binary digits of `n`. -/
def power : Nat → Float → Nat → Float → Float
  | 0, _, _, acc => acc
  | fuel + 1, x, n, acc =>
    let acc := if n % 2 = 1 then acc * x else acc
    if n / 2 = 0 then acc else power fuel (x * x) (n / 2) acc

/-- The largest exponent used. -/
def maxAttempt : Nat := Nat.pow 2 31 - 1

/-- The delay in milliseconds before retry number `attempt`, counted from zero. -/
def delay (p : RetryPolicy) (attempt : Nat) : Nat :=
  let factor := power 32 (larger p.multiplier 1.0) (min attempt maxAttempt) 1.0
  (smaller (p.initialDelay.toUInt64.toFloat * factor) p.maxDelay.toUInt64.toFloat).toUInt64.toNat

/-- Whether another attempt follows after `retries` retries. -/
def allows (p : RetryPolicy) (retries : Nat) : Bool := retries < p.maxRetries

end RetryPolicy

/-- The largest number of milliseconds that a setting holds. -/
def maxMillis : Nat := Nat.pow 2 64 - 1

/-- A number of milliseconds cut to what a setting holds. -/
def clampMillis (ms : Nat) : Nat := min ms maxMillis

end StreamControl
