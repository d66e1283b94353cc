import StreamControl.Json.Decode
import StreamControl.Stream.Record

/-!
# Written forms of streams

The JSON forms of identities, phases, configurations, ranges and cuts. Each type has a writer
`toJson` and a reader `ofJson?`.
-/

namespace StreamControl

open Json (Source)

namespace StreamId

def toJson (id : StreamId) : Json :=
  .record [("scope", .string id.scope), ("name", .string id.name)]

def ofJson? (v : Json) : Option StreamId := do
  match ← Json.record? ["scope", "name"] v with
  | [scope, name] => some ⟨← Json.required? Json.string? scope, ← Json.required? Json.string? name⟩
  | _ => none

end StreamId

namespace Phase

def toJson (p : Phase) : Json := .string p.name

def ofJson? (source : Source) (v : Json) : Option Phase := Json.word? source v >>= ofName?

end Phase

namespace Scaling

def toJson : Scaling → Json
  | .fixed n => .record [("type", .string "fixed"), ("min_segments", .nat n.toNat)]
  | .byEventRate target factor n =>
    .record [("type", .string "by_event_rate"), ("target_rate", .nat target.toNat),
      ("scale_factor", .nat factor.toNat), ("min_segments", .nat n.toNat)]
  | .byDataRate target factor n =>
    .record [("type", .string "by_data_rate"), ("target_kbps", .nat target.toNat),
      ("scale_factor", .nat factor.toNat), ("min_segments", .nat n.toNat)]

/-- The three numbers of a policy that follows a rate. -/
def rate? (target : String) (make : UInt32 → UInt32 → UInt32 → Scaling) (v : Json) :
    Option Scaling := do
  match ← Json.record? [target, "scale_factor", "min_segments"] v with
  | [target, factor, n] =>
    some (make (← Json.required? Json.uint32? target) (← Json.required? Json.uint32? factor)
      (← Json.required? Json.uint32? n))
  | _ => none

def ofJson? (source : Source) (v : Json) : Option Scaling := do
  match ← Json.tagged? "type" ["fixed", "by_event_rate", "by_data_rate"] source v with
  | (0, rest) =>
    match ← Json.record? ["min_segments"] rest with
    | [n] => Scaling.fixed <$> Json.required? Json.uint32? n
    | _ => none
  | (1, rest) => rate? "target_rate" .byEventRate rest
  | (2, rest) => rate? "target_kbps" .byDataRate rest
  | _ => none

end Scaling

namespace Retention

def toJson : Retention → Json
  | .byTime millis => .record [("type", .string "by_time"), ("millis", .nat millis.toNat)]
  | .bySize bytes => .record [("type", .string "by_size"), ("bytes", .nat bytes.toNat)]

/-- The one number of a policy. -/
def limit? (name : String) (v : Json) : Option UInt64 := do
  match ← Json.record? [name] v with
  | [n] => Json.required? Json.uint64? n
  | _ => none

def ofJson? (source : Source) (v : Json) : Option Retention := do
  match ← Json.tagged? "type" ["by_time", "by_size"] source v with
  | (0, rest) => Retention.byTime <$> limit? "millis" rest
  | (1, rest) => Retention.bySize <$> limit? "bytes" rest
  | _ => none

end Retention

namespace Configuration

/-- A missing retention is not written. -/
def toJson (c : Configuration) : Json :=
  .record (("scaling_policy", c.scaling.toJson) ::
    match c.retention with
    | none => []
    | some r => [("retention_policy", r.toJson)])

def ofJson? (source : Source) (v : Json) : Option Configuration := do
  match ← Json.record? ["scaling_policy", "retention_policy"] v with
  | [scaling, retention] =>
    some ⟨← Json.required? (Scaling.ofJson? source.inner) scaling,
      ← Json.defaulted? (Json.optional? (Retention.ofJson? source.inner)) none retention⟩
  | _ => none

end Configuration

namespace KeyRange

def toJson (r : KeyRange Float) : Json :=
  .record [("start", .float r.start), ("end", .float r.stop)]

def ofJson? (v : Json) : Option (KeyRange Float) := do
  match ← Json.record? ["start", "end"] v with
  | [start, stop] => some ⟨← Json.required? Json.float? start, ← Json.required? Json.float? stop⟩
  | _ => none

end KeyRange

namespace Segment

def toJson (s : Segment Float) : Json :=
  .record [("number", .nat s.number), ("range", s.range.toJson), ("epoch", .nat s.epoch)]

def ofJson? (v : Json) : Option (Segment Float) := do
  match ← Json.record? ["number", "range", "epoch"] v with
  | [number, range, epoch] =>
    some ⟨← Json.required? Json.nat64? number, ← Json.required? KeyRange.ofJson? range,
      ← Json.required? Json.nat32? epoch⟩
  | _ => none

end Segment

namespace Cut

def toJson (cut : Cut) : Json :=
  .record [("positions",
    .record (cut.positions.map fun (s, o) => (toString s.toNat, .nat o.toNat)))]

/-- A whole number given as a name: exactly its numeral, raw. -/
def nameNumber? (name : List Json.Piece) : Option UInt64 := do
  let bytes ← name.mapM fun
    | .byte b => some b
    | .unit _ => none
  match ← Json.readNumeral? bytes with
  | (n, []) => Json.uint64? (.number n)
  | _ => none

/-- Positions by segment. A name is a number only in a text: in a buffer names are texts, so that
no position can be read from there. -/
def positions? (source : Source) : Json → Option Cut
  | .object members => do
    match source, members with
    | .buffer, _ :: _ => none
    | _, _ =>
      Cut.ofList <$> members.mapM fun (name, v) => do
        some (← nameNumber? name, ← Json.uint64? v)
  | _ => none

def ofJson? (source : Source) (v : Json) : Option Cut := do
  match ← Json.record? ["positions"] v with
  | [positions] => Json.required? (positions? source) positions
  | _ => none

end Cut

end StreamControl
