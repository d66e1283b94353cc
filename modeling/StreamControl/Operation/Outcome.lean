import StreamControl.RequestId

/-!
# Outcomes of handler runs
-/

namespace StreamControl

inductive Verdict
  | succeeded
  /-- For good: the stream is left in a definite phase. -/
  | failed (reason : String)
  /-- For now: the request is tried again later. -/
  | retryable (reason : String)
  deriving DecidableEq, Repr, Inhabited

structure Outcome where
  request : RequestId
  verdict : Verdict
  deriving DecidableEq, Repr, Inhabited

/-- Whether no further run follows. -/
def Outcome.isTerminal (o : Outcome) : Bool :=
  match o.verdict with
  | .retryable _ => false
  | _ => true

def Outcome.succeeded (id : RequestId) : Outcome := ⟨id, .succeeded⟩
def Outcome.failed (id : RequestId) (reason : String) : Outcome := ⟨id, .failed reason⟩
def Outcome.retryable (id : RequestId) (reason : String) : Outcome := ⟨id, .retryable reason⟩

end StreamControl
