import StreamControl.Policy.Retry

/-!
# The completion timeout

The timeout can be changed while callers wait; each caller keeps the one in force when its operation
was registered. It is at least a millisecond.
-/

namespace StreamControl

structure Governor where
  timeout : Nat
  deriving DecidableEq, Repr, Inhabited

namespace Governor

/-- The governor with a timeout of so many milliseconds, brought into its bounds. -/
def ofMillis (ms : Nat) : Governor := ⟨max (clampMillis ms) 1⟩

end Governor

end StreamControl
