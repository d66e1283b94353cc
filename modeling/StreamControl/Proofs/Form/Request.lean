import StreamControl.Form.Request
import StreamControl.Ledger.Entry
import StreamControl.Proofs.Form.Stream
import StreamControl.Proofs.RequestId
import StreamControl.Proofs.Timestamp

/-!
# Requests read back

A request is read back as it was written, from any source that holds its depth, unless it truncates
at a cut with positions: its payload is buffered, and no position is read from a buffer. Such a
request is read as none (`Request.ofJson?_toJson`), and neither is an entry of the ledger that holds
it (`FailedRequest.ofJson?_toJson`).
-/

namespace StreamControl

open Json (Source Fits fits_string fits_uint32 fits_uint64 fits_record fits_array)

theorem RequestId.ofJson?_toJson (id : RequestId) : ofJson? id.toJson = some id := by
  rw [ofJson?, toJson, Json.string?_string, Option.bind_eq_bind, Option.bind_some,
    ofString?_toString]

theorem Timestamp.ofJson?_toJson {t : Timestamp} (h : t.Valid) : ofJson? t.toJson = some t := by
  rw [ofJson?, toJson, Json.string?_string, Option.bind_eq_bind, Option.bind_some,
    ofString?_toString h]

namespace Reshape

theorem ofJson?_members {shape : Reshape Float} (h : ∀ r ∈ shape.ranges, r.IsExact) :
    ofJson? (.record shape.members) = some shape := by
  have hsealed : Json.list? Json.uint64? (.array (shape.sealed.map fun s => .nat s.toNat)) =
      some shape.sealed :=
    Json.list?_map fun s _ => Json.uint64?_nat s
  have hranges : Json.list? KeyRange.ofJson? (.array (shape.ranges.map (·.toJson))) =
      some shape.ranges :=
    Json.list?_map fun r hr => KeyRange.ofJson?_toJson (h r hr)
  rw [ofJson?, members, Json.record?_record (by decide) _ (by simp)]
  show (do some (Reshape.mk
    (← Json.list? Json.uint64? (.array (shape.sealed.map fun s => .nat s.toNat)))
    (← Json.list? KeyRange.ofJson? (.array (shape.ranges.map (·.toJson)))))) = some shape
  rw [hsealed, hranges]
  rfl

theorem fits_members {shape : Reshape Float} (h : ∀ r ∈ shape.ranges, r.IsExact) :
    ∀ m ∈ shape.members, Fits 2 m.2 := by
  have hsealed : Fits 2 (.array (shape.sealed.map fun s => .nat s.toNat)) := by
    refine fits_array fun v hv => ?_
    obtain ⟨s, -, rfl⟩ := List.mem_map.mp hv
    exact fits_uint64 1 s
  have hranges : Fits 2 (.array (shape.ranges.map (·.toJson))) := by
    refine fits_array fun v hv => ?_
    obtain ⟨r, hr, rfl⟩ := List.mem_map.mp hv
    exact KeyRange.fits_toJson (h r hr)
  simp [members, hsealed, hranges]

theorem canonical_members (shape : Reshape Float) : ∀ m ∈ shape.members, m.2.Canonical := by
  have hsealed : (Json.array (shape.sealed.map fun s => .nat s.toNat)).Canonical := by
    refine Json.canonical_array fun v hv => ?_
    obtain ⟨s, -, rfl⟩ := List.mem_map.mp hv
    exact Json.canonical_nat s.toNat
  have hranges : (Json.array (shape.ranges.map (·.toJson))).Canonical := by
    refine Json.canonical_array fun v hv => ?_
    obtain ⟨r, -, rfl⟩ := List.mem_map.mp hv
    exact r.canonical_toJson
  simp [members, hsealed, hranges]

end Reshape

namespace Direction

theorem ofJson?_toJson {source : Source} (hs : source.holds 1) (d : Direction) :
    ofJson? source d.toJson = some d := by
  cases d with
  | split parts =>
    rw [ofJson?, toJson, Json.tagged?_fits (by decide : _ = some 0) (by simp) (by simp) hs]
    simp [Json.record?_record, Json.required?]
  | merge =>
    rw [ofJson?, toJson, Json.tagged?_fits (by decide : _ = some 1) (by simp) (by simp) hs]
    rfl

theorem fits_toJson (d : Direction) : Fits 1 d.toJson := by
  cases d <;> exact fits_record (by simp)

end Direction

namespace Operation

variable {β : Type}

/-- The ranges that an operation names. -/
def ranges : Operation β → List (KeyRange β)
  | .scale shape => shape.ranges
  | _ => []

/-- Whether nothing stands in an operation that cannot be read from a buffer. -/
def isReadable : Operation β → Bool
  | .truncate cut _ => cut.isEmpty
  | _ => true

/-- What stands in a written operation behind its tag. -/
def payload : Operation Float → List (String × Json)
  | .update configuration => [("configuration", configuration.toJson)]
  | .scale shape => shape.members
  | .autoScale segment direction =>
    [("segment", .nat segment.toNat), ("direction", direction.toJson)]
  | .truncate cut resume => [("cut", cut.toJson), ("resume_state", resume.toJson)]
  | .seal | .delete => []

theorem toJson_eq (op : Operation Float) :
    op.toJson = .record (("op", .string op.kind.name) :: op.payload) := by
  cases op <;> rfl

theorem fits_payload {op : Operation Float} (h : ∀ r ∈ op.ranges, r.IsExact) :
    ∀ m ∈ op.payload, Fits 2 m.2 := by
  cases op with
  | update configuration => simp [payload, Configuration.fits_toJson]
  | scale shape => exact Reshape.fits_members h
  | autoScale segment direction =>
    simp [payload, (Direction.fits_toJson direction).mono (by decide : 1 ≤ 2)]
  | truncate cut resume => simp [payload, Cut.fits_toJson, Phase.toJson]
  | «seal» | delete => simp [payload]

theorem tag_payload (op : Operation Float) : "op" ∉ op.payload.map (·.1) := by
  cases op <;> simp [payload, Reshape.members]

theorem fits_toJson {op : Operation Float} (h : ∀ r ∈ op.ranges, r.IsExact) : Fits 3 op.toJson := by
  rw [toJson_eq]
  refine fits_record fun m hm => ?_
  rcases List.mem_cons.mp hm with rfl | hm
  · exact fits_string 2 _
  · exact fits_payload h m hm

/-- An operation is canonical even if it names ranges whose bounds are not read back. -/
theorem canonical_toJson (op : Operation Float) : op.toJson.Canonical := by
  rw [toJson_eq]
  refine Json.canonical_record fun m hm => ?_
  rcases List.mem_cons.mp hm with rfl | hm
  · exact Json.canonical_string _
  · cases op with
    | scale shape => exact shape.canonical_members m hm
    | _ => exact (fits_payload (List.forall_mem_nil _) m hm).canonical

/-- The operation found in the buffer that holds what stands behind the tag. -/
theorem ofJson?_toJson {source : Source} (hs : source.holds 3) {op : Operation Float}
    (h : ∀ r ∈ op.ranges, r.IsExact) :
    ofJson? source op.toJson = if op.isReadable then some op else none := by
  have htagged : ∀ i, tags.idxOf? op.kind.name = some i →
      Json.tagged? "op" tags source op.toJson = some (i, .record op.payload) := by
    intro i hi
    rw [toJson_eq]
    exact Json.tagged?_fits hi (tag_payload op) (fits_payload h) hs
  rw [ofJson?]
  cases op with
  | update configuration =>
    rw [htagged 0 rfl]
    have hread : Configuration.ofJson? .buffer configuration.toJson = some configuration :=
      Configuration.ofJson?_toJson (Source.holds_buffer 2) configuration
    simp [payload, Json.record?_record, Json.required?, hread, isReadable]
  | scale shape =>
    rw [htagged 1 rfl]
    have hread : Reshape.ofJson? (.record shape.members) = some shape := Reshape.ofJson?_members h
    show Operation.scale <$> Reshape.ofJson? (.record shape.members) = _
    rw [hread]
    rfl
  | autoScale segment direction =>
    rw [htagged 2 rfl]
    have hread : Direction.ofJson? .buffer direction.toJson = some direction :=
      Direction.ofJson?_toJson (Source.holds_buffer 1) direction
    simp [payload, Json.record?_record, List.lookup_cons, Json.required?, hread, isReadable]
  | «seal» =>
    rw [htagged 3 rfl]
    rfl
  | truncate cut resume =>
    rw [htagged 4 rfl]
    have hphase : Phase.ofJson? .buffer resume.toJson = some resume :=
      Phase.ofJson?_toJson .buffer resume
    have hcut : Cut.ofJson? .buffer cut.toJson = if cut.isEmpty then some cut else none :=
      Cut.ofJson?_buffer cut
    cases hempty : cut.isEmpty with
    | true => simp [payload, Json.record?_record, List.lookup_cons, Json.required?, hphase, hcut,
      hempty, isReadable]
    | false => simp [payload, Json.record?_record, List.lookup_cons, Json.required?, hcut, hempty,
      isReadable]
  | delete =>
    rw [htagged 5 rfl]
    rfl

end Operation

namespace Request

/-- What the library promises of a request: its timestamp is one, and its bounds are read back. -/
structure IsExact (r : Request Float) : Prop where
  submitted : r.submitted.Valid
  ranges : ∀ range ∈ r.operation.ranges, range.IsExact

variable {r : Request Float}

theorem ofJson?_toJson {source : Source} (hs : source.holds 4) (h : r.IsExact) :
    ofJson? source r.toJson = if r.operation.isReadable then some r else none := by
  have hoperation := Operation.ofJson?_toJson (Source.holds_inner hs) h.ranges
  rw [ofJson?, toJson, Json.record?_record (by decide) _ (by simp)]
  show (do some (Request.mk (← RequestId.ofJson? r.id.toJson) (← StreamId.ofJson? r.stream.toJson)
    (← Operation.ofJson? source.inner r.operation.toJson)
    (← Timestamp.ofJson? r.submitted.toJson))) = _
  rw [RequestId.ofJson?_toJson, StreamId.ofJson?_toJson, hoperation,
    Timestamp.ofJson?_toJson h.submitted]
  cases r.operation.isReadable <;> rfl

theorem fits_toJson (h : r.IsExact) : Fits 4 r.toJson := by
  have hstream : Fits 3 r.stream.toJson := (StreamId.fits_toJson r.stream).mono (by decide)
  exact fits_record (by
    simp [RequestId.toJson, Timestamp.toJson, hstream, Operation.fits_toJson h.ranges])

theorem canonical_toJson (r : Request Float) : r.toJson.Canonical := by
  have hstream := (StreamId.fits_toJson r.stream).canonical
  exact Json.canonical_record (by
    simp [RequestId.toJson, Timestamp.toJson, Json.canonical_string, hstream,
      Operation.canonical_toJson])

end Request

namespace FailedRequest

/-- The same of an entry of the ledger. -/
structure IsExact (e : FailedRequest) : Prop where
  request : e.request.IsExact
  failedAt : e.failedAt.Valid

variable {e : FailedRequest}

theorem ofJson?_toJson {source : Source} (hs : source.holds 5) (h : e.IsExact) :
    ofJson? source e.toJson = if e.request.operation.isReadable then some e else none := by
  have hrequest := Request.ofJson?_toJson (Source.holds_inner hs) h.request
  rw [ofJson?, toJson, Json.record?_record (by decide) _ (by simp)]
  show (do some (FailedRequest.mk (← Request.ofJson? source.inner e.request.toJson)
    (← Json.string? (.string e.reason))
    (← Json.uint32? (.nat e.attempts.toNat)) (← Timestamp.ofJson? e.failedAt.toJson))) = _
  rw [hrequest, Json.string?_string, Json.uint32?_nat, Timestamp.ofJson?_toJson h.failedAt]
  cases e.request.operation.isReadable <;> rfl

theorem fits_toJson (h : e.IsExact) : Fits 5 e.toJson :=
  fits_record (by simp [Timestamp.toJson, Request.fits_toJson h.request])

theorem canonical_toJson (e : FailedRequest) : e.toJson.Canonical :=
  Json.canonical_record (by
    simp [Timestamp.toJson, Json.canonical_string, Json.canonical_nat, Request.canonical_toJson])

end FailedRequest

end StreamControl
