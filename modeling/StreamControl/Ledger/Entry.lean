import StreamControl.Form.Request

/-!
# Ledger entries

A request that failed for good, with the reason and the number of handler runs.
-/

namespace StreamControl

structure FailedRequest where
  request : Request Float
  reason : String
  attempts : UInt32
  failedAt : Timestamp
  deriving Repr, BEq

namespace FailedRequest

def toJson (e : FailedRequest) : Json :=
  .record [("request", e.request.toJson), ("reason", .string e.reason),
    ("attempts", .nat e.attempts.toNat), ("failed_at", e.failedAt.toJson)]

def ofJson? (source : Json.Source) (v : Json) : Option FailedRequest := do
  match ← Json.record? ["request", "reason", "attempts", "failed_at"] v with
  | [request, reason, attempts, failedAt] =>
    some ⟨← Json.required? (Request.ofJson? source.inner) request,
      ← Json.required? Json.string? reason, ← Json.required? Json.uint32? attempts,
      ← Json.required? Timestamp.ofJson? failedAt⟩
  | _ => none

end FailedRequest

end StreamControl
