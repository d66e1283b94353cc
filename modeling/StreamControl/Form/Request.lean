import StreamControl.Form.Stream
import StreamControl.Operation.Outcome

/-!
# Written forms of requests and records

The JSON forms of operations, requests, records, outcomes and ledger entries.
-/

namespace StreamControl

open Json (Source)

namespace RequestId

def toJson (id : RequestId) : Json := .string id.toString

def ofJson? (v : Json) : Option RequestId := Json.string? v >>= ofString?

end RequestId

namespace Timestamp

def toJson (t : Timestamp) : Json := .string t.toString

def ofJson? (v : Json) : Option Timestamp := Json.string? v >>= ofString?

end Timestamp

namespace Kind

def toJson (k : Kind) : Json := .string k.name

def ofJson? (source : Source) (v : Json) : Option Kind := Json.word? source v >>= ofName?

end Kind

namespace Reshape

def members (shape : Reshape Float) : List (String × Json) :=
  [("sealed_segments", .array (shape.sealed.map fun s => .nat s.toNat)),
    ("new_ranges", .array (shape.ranges.map (·.toJson)))]

def toJson (shape : Reshape Float) : Json := .record shape.members

def ofJson? (v : Json) : Option (Reshape Float) := do
  match ← Json.record? ["sealed_segments", "new_ranges"] v with
  | [sealed, ranges] =>
    some ⟨← Json.required? (Json.list? Json.uint64?) sealed,
      ← Json.required? (Json.list? KeyRange.ofJson?) ranges⟩
  | _ => none

end Reshape

namespace Direction

def toJson : Direction → Json
  | .split parts => .record [("type", .string "split"), ("into", .nat parts.toNat)]
  | .merge => .record [("type", .string "merge")]

def ofJson? (source : Source) (v : Json) : Option Direction := do
  match ← Json.tagged? "type" ["split", "merge"] source v with
  | (0, rest) =>
    match ← Json.record? ["into"] rest with
    | [parts] => Direction.split <$> Json.required? Json.uint32? parts
    | _ => none
  | (1, rest) => (fun _ => Direction.merge) <$> Json.unit? rest
  | _ => none

end Direction

namespace Operation

/-- The names of the variants, in the order that a tag given by its place counts. -/
def tags : List String := ["update", "scale", "auto_scale", "seal", "truncate", "delete"]

def toJson (op : Operation Float) : Json :=
  .record (("op", .string op.kind.name) ::
    match op with
    | .update configuration => [("configuration", configuration.toJson)]
    | .scale shape => shape.members
    | .autoScale segment direction =>
      [("segment", .nat segment.toNat), ("direction", direction.toJson)]
    | .truncate cut resume => [("cut", cut.toJson), ("resume_state", resume.toJson)]
    | .seal | .delete => [])

def ofJson? (source : Source) (v : Json) : Option (Operation Float) := do
  match ← Json.tagged? "op" tags source v with
  | (0, rest) =>
    match ← Json.record? ["configuration"] rest with
    | [configuration] =>
      Operation.update <$> Json.required? (Configuration.ofJson? .buffer) configuration
    | _ => none
  | (1, rest) => Operation.scale <$> Reshape.ofJson? rest
  | (2, rest) =>
    match ← Json.record? ["segment", "direction"] rest with
    | [segment, direction] =>
      some (.autoScale (← Json.required? Json.uint64? segment)
        (← Json.required? (Direction.ofJson? .buffer) direction))
    | _ => none
  | (3, rest) => (fun _ => Operation.seal) <$> Json.unit? rest
  | (4, rest) =>
    match ← Json.record? ["cut", "resume_state"] rest with
    | [cut, resume] =>
      some (.truncate (← Json.required? (Cut.ofJson? .buffer) cut)
        (← Json.required? (Phase.ofJson? .buffer) resume))
    | _ => none
  | (5, rest) => (fun _ => Operation.delete) <$> Json.unit? rest
  | _ => none

end Operation

namespace Request

def toJson (r : Request Float) : Json :=
  .record [("request_id", r.id.toJson), ("stream", r.stream.toJson),
    ("payload", r.operation.toJson), ("submitted_at", r.submitted.toJson)]

def ofJson? (source : Source) (v : Json) : Option (Request Float) := do
  match ← Json.record? ["request_id", "stream", "payload", "submitted_at"] v with
  | [id, stream, payload, submitted] =>
    some ⟨← Json.required? RequestId.ofJson? id, ← Json.required? StreamId.ofJson? stream,
      ← Json.required? (Operation.ofJson? source.inner) payload,
      ← Json.required? Timestamp.ofJson? submitted⟩
  | _ => none

end Request

namespace Queued

def toJson (q : Queued Float) : Json :=
  .record [("offset", .nat q.offset), ("request", q.request.toJson)]

def ofJson? (source : Source) (v : Json) : Option (Queued Float) := do
  match ← Json.record? ["offset", "request"] v with
  | [offset, request] =>
    some ⟨← Json.required? Json.nat64? offset,
      ← Json.required? (Request.ofJson? source.inner) request⟩
  | _ => none

end Queued

namespace Record

def orNull {α : Type} (write : α → Json) : Option α → Json
  | none => .null
  | some a => write a

def toJson (r : Record Float) : Json :=
  .record [("id", r.id.toJson), ("state", r.phase.toJson),
    ("configuration", r.configuration.toJson), ("segments", .array (r.segments.map (·.toJson))),
    ("epoch", .nat r.epoch), ("next_segment_number", .nat r.nextSegment),
    ("truncation", orNull Cut.toJson r.truncation),
    ("active_request", orNull Request.toJson r.active),
    ("last_applied", orNull RequestId.toJson r.lastApplied), ("version", .nat r.version),
    ("created_at", r.created.toJson)]

def fieldNames : List String :=
  ["id", "state", "configuration", "segments", "epoch", "next_segment_number", "truncation",
    "active_request", "last_applied", "version", "created_at"]

def ofJson? (source : Source) (v : Json) : Option (Record Float) := do
  match ← Json.record? fieldNames v with
  | [id, phase, configuration, segments, epoch, nextSegment, truncation, active, lastApplied,
      version, created] =>
    some
      { id := ← Json.required? StreamId.ofJson? id
        phase := ← Json.required? (Phase.ofJson? source.inner) phase
        configuration := ← Json.required? (Configuration.ofJson? source.inner) configuration
        segments := ← Json.required? (Json.list? Segment.ofJson?) segments
        epoch := ← Json.required? Json.nat32? epoch
        nextSegment := ← Json.required? Json.nat64? nextSegment
        truncation :=
          ← Json.defaulted? (Json.optional? (Cut.ofJson? source.inner)) none truncation
        active := ← Json.defaulted? (Json.optional? (Request.ofJson? source.inner)) none active
        lastApplied := ← Json.defaulted? (Json.optional? RequestId.ofJson?) none lastApplied
        version := ← Json.required? Json.nat64? version
        created := ← Json.required? Timestamp.ofJson? created }
  | _ => none

end Record

namespace Verdict

def toJson : Verdict → Json
  | .succeeded => .record [("type", .string "succeeded")]
  | .failed reason => .record [("type", .string "failed"), ("reason", .string reason)]
  | .retryable reason => .record [("type", .string "retryable"), ("reason", .string reason)]

/-- A verdict from its two fields; a success has nothing as its reason, or no reason. -/
def ofFields? (source : Source) (type reason : Option Json) : Option Verdict := do
  match ← Json.required? (Json.word? source) type, reason with
  | "succeeded", none => some .succeeded
  | "succeeded", some .null => some .succeeded
  | "failed", some v => Verdict.failed <$> Json.string? v
  | "retryable", some v => Verdict.retryable <$> Json.string? v
  | _, _ => none

/-- The two fields by name, or both of them in order, the first as a text then. -/
def ofJson? (source : Source) (v : Json) : Option Verdict := do
  match ← Json.record? ["type", "reason"] v, v with
  | [some (.text type), some reason], .array _ => ofFields? source (some (.text type)) (some reason)
  | _, .array _ => none
  | [type, reason], _ => ofFields? source type reason
  | _, _ => none

end Verdict

namespace Outcome

def toJson (o : Outcome) : Json :=
  .record [("request_id", o.request.toJson), ("result", o.verdict.toJson)]

def ofJson? (source : Source) (v : Json) : Option Outcome := do
  match ← Json.record? ["request_id", "result"] v with
  | [request, result] =>
    some ⟨← Json.required? RequestId.ofJson? request,
      ← Json.required? (Verdict.ofJson? source.inner) result⟩
  | _ => none

end Outcome

namespace Completion

def toJson (c : Completion) : Json := .string c.name

def ofJson? (source : Source) (v : Json) : Option Completion := do
  let word ← Json.word? source v
  [Completion.accepted, .success].find? (·.name = word)

end Completion

end StreamControl
