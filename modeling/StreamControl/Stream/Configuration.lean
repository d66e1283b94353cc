/-!
# Stream configurations

What a user asks of a stream: how its number of segments may change, and how long its data stay.
`Configuration.flaw?` says why a configuration is refused.
-/

namespace StreamControl

/-- How the number of segments may change over time. -/
inductive Scaling
  /-- Never of its own accord. -/
  | fixed (minSegments : UInt32)
  /-- With the events per second and segment. -/
  | byEventRate (target factor minSegments : UInt32)
  /-- With the kilobytes per second and segment. -/
  | byDataRate (target factor minSegments : UInt32)
  deriving DecidableEq, Repr

namespace Scaling

def minSegments : Scaling → UInt32
  | .fixed n => n
  | .byEventRate _ _ n => n
  | .byDataRate _ _ n => n

def isFixed : Scaling → Bool
  | .fixed _ => true
  | _ => false

/-- A rate policy that lacks its target or its factor. -/
def lacksRate : Scaling → Bool
  | .fixed _ => false
  | .byEventRate target factor _ => target = 0 || factor = 0
  | .byDataRate target factor _ => target = 0 || factor = 0

end Scaling

/-- How long data stay. -/
inductive Retention
  | byTime (millis : UInt64)
  | bySize (bytes : UInt64)
  deriving DecidableEq, Repr

structure Configuration where
  scaling : Scaling
  retention : Option Retention
  deriving DecidableEq, Repr

/-- The most segments that a configuration or one manual scale may ask for. -/
def maxSegments : Nat := 1024

namespace Configuration

inductive Flaw
  | noSegments
  | tooManySegments
  | lacksRate
  deriving DecidableEq, Repr

def minSegments (c : Configuration) : Nat := c.scaling.minSegments.toNat

/-- The first flaw: the number of segments is looked at before the rate. -/
def flaw? (c : Configuration) : Option Flaw :=
  if c.minSegments = 0 then some .noSegments
  else if c.minSegments > maxSegments then some .tooManySegments
  else if c.scaling.lacksRate then some .lacksRate
  else none

end Configuration

end StreamControl
