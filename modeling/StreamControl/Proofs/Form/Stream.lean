import StreamControl.Form.Stream
import StreamControl.Proofs.Json.Fits

/-!
# Streams read back

What is written of an identity, a phase, a configuration or a range is read back as it was, from
any source that holds its depth. A cut is the exception: nothing but the empty cut is read from a
buffer (`Cut.ofJson?_buffer`), because the segments are names of members there.
-/

namespace StreamControl

open Json (Source Fits fits_uint64 fits_float fits_record)

namespace StreamId

theorem ofJson?_toJson (id : StreamId) : ofJson? id.toJson = some id := by
  rw [ofJson?, toJson, Json.record?_record (by decide) _ (by simp)]
  show (do some (StreamId.mk (← Json.string? (.string id.scope))
    (← Json.string? (.string id.name)))) = some id
  rw [Json.string?_string, Json.string?_string]
  rfl

theorem fits_toJson (id : StreamId) : Fits 1 id.toJson :=
  fits_record (by simp)

end StreamId

namespace Phase

theorem ofName?_name (p : Phase) : ofName? p.name = some p := by
  cases p <;> decide

theorem ofJson?_toJson (source : Source) (p : Phase) : ofJson? source p.toJson = some p := by
  show Json.toText? (Json.piecesOf p.name) >>= ofName? = some p
  rw [Json.toText?_piecesOf]
  exact ofName?_name p

end Phase

namespace Scaling

theorem rate?_record (target : String) (make : UInt32 → UInt32 → UInt32 → Scaling)
    (rate factor n : UInt32) (h : [target, "scale_factor", "min_segments"].Nodup) :
    rate? target make
        (.record [(target, .nat rate.toNat), ("scale_factor", .nat factor.toNat),
          ("min_segments", .nat n.toNat)]) =
      some (make rate factor n) := by
  have h₁ : ("scale_factor" == target) = false := beq_eq_false_iff_ne.mpr (by rintro rfl; simp at h)
  have h₂ : ("min_segments" == target) = false := beq_eq_false_iff_ne.mpr (by rintro rfl; simp at h)
  have hread := Json.record?_record h
    [(target, .nat rate.toNat), ("scale_factor", .nat factor.toNat), ("min_segments", .nat n.toNat)]
    h
  rw [rate?, hread]
  simp [List.lookup_cons, h₁, h₂, Json.required?]

theorem ofJson?_toJson {source : Source} (hs : source.holds 1) (s : Scaling) :
    ofJson? source s.toJson = some s := by
  cases s with
  | fixed n =>
    rw [ofJson?, toJson, Json.tagged?_fits (by decide : _ = some 0) (by simp) (by simp) hs]
    simp [Json.record?_record, Json.required?]
  | byEventRate target factor n =>
    rw [ofJson?, toJson, Json.tagged?_fits (by decide : _ = some 1) (by simp) (by simp) hs]
    exact rate?_record "target_rate" .byEventRate target factor n (by decide)
  | byDataRate target factor n =>
    rw [ofJson?, toJson, Json.tagged?_fits (by decide : _ = some 2) (by simp) (by simp) hs]
    exact rate?_record "target_kbps" .byDataRate target factor n (by decide)

theorem fits_toJson (s : Scaling) : Fits 1 s.toJson := by
  cases s <;> exact fits_record (by simp)

end Scaling

namespace Retention

theorem limit?_record (name : String) (n : UInt64) :
    limit? name (.record [(name, .nat n.toNat)]) = some n := by
  have hread := Json.record?_record (List.nodup_singleton name) [(name, .nat n.toNat)]
    (List.nodup_singleton name)
  rw [limit?, hread]
  simp [List.lookup_cons, Json.required?]

theorem ofJson?_toJson {source : Source} (hs : source.holds 1) (r : Retention) :
    ofJson? source r.toJson = some r := by
  cases r with
  | byTime millis =>
    rw [ofJson?, toJson, Json.tagged?_fits (by decide : _ = some 0) (by simp) (by simp) hs]
    show Retention.byTime <$> limit? "millis" _ = _
    rw [limit?_record]
    rfl
  | bySize bytes =>
    rw [ofJson?, toJson, Json.tagged?_fits (by decide : _ = some 1) (by simp) (by simp) hs]
    show Retention.bySize <$> limit? "bytes" _ = _
    rw [limit?_record]
    rfl

theorem fits_toJson (r : Retention) : Fits 1 r.toJson := by
  cases r <;> exact fits_record (by simp)

/-- A retention is not the value that stands for none. -/
theorem optional?_toJson {source : Source} (hs : source.holds 1) (r : Retention) :
    Json.optional? (ofJson? source) r.toJson = some (some r) := by
  have hread := ofJson?_toJson hs r
  cases r <;> exact congrArg (Option.map some) hread

end Retention

namespace Configuration

theorem ofJson?_toJson {source : Source} (hs : source.holds 2) (c : Configuration) :
    ofJson? source c.toJson = some c := by
  have hinner : source.inner.holds 1 := Source.holds_inner hs
  obtain ⟨scaling, retention⟩ := c
  have hscaling := Scaling.ofJson?_toJson hinner scaling
  cases retention with
  | none =>
    rw [ofJson?, toJson, Json.record?_record (by decide) _ (by simp)]
    show (do some (Configuration.mk (← Scaling.ofJson? source.inner scaling.toJson) none)) = _
    rw [hscaling]
    rfl
  | some r =>
    rw [ofJson?, toJson, Json.record?_record (by decide) _ (by simp)]
    show (do some (Configuration.mk (← Scaling.ofJson? source.inner scaling.toJson)
      (← Json.optional? (Retention.ofJson? source.inner) r.toJson))) = _
    rw [hscaling, Retention.optional?_toJson hinner]
    rfl

theorem fits_toJson (c : Configuration) : Fits 2 c.toJson := by
  obtain ⟨scaling, retention⟩ := c
  cases retention <;> exact fits_record (by simp [Scaling.fits_toJson, Retention.fits_toJson])

end Configuration

namespace KeyRange

/-- Whether both bounds are read back from their numerals. -/
def IsExact (r : KeyRange Float) : Prop :=
  Json.float? (.float r.start) = some r.start ∧ Json.float? (.float r.stop) = some r.stop

instance (r : KeyRange Float) : Decidable r.IsExact :=
  inferInstanceAs (Decidable (_ ∧ _))

theorem ofJson?_toJson {r : KeyRange Float} (h : r.IsExact) : ofJson? r.toJson = some r := by
  rw [ofJson?, toJson, Json.record?_record (by decide) _ (by simp)]
  show (do some (KeyRange.mk (← Json.float? (.float r.start)) (← Json.float? (.float r.stop)))) =
    some r
  rw [h.1, h.2]
  rfl

theorem fits_toJson {r : KeyRange Float} (h : r.IsExact) : Fits 1 r.toJson :=
  fits_record (by simp [fits_float 0 h.1, fits_float 0 h.2])

theorem canonical_toJson (r : KeyRange Float) : r.toJson.Canonical :=
  Json.canonical_record (by simp [Json.canonical_float])

end KeyRange

namespace Cut

/-- From a buffer only the empty cut is read. -/
theorem ofJson?_buffer (cut : Cut) :
    ofJson? .buffer cut.toJson = if cut.isEmpty then some cut else none := by
  rw [ofJson?, toJson, Json.record?_record (by decide) _ (by simp)]
  obtain ⟨positions⟩ := cut
  cases positions <;> rfl

theorem fits_toJson (cut : Cut) : Fits 2 cut.toJson := by
  have hpositions :
      Fits 1 (.record (cut.positions.map fun p => (toString p.1.toNat, .nat p.2.toNat))) := by
    refine fits_record fun m hm => ?_
    obtain ⟨p, -, rfl⟩ := List.mem_map.mp hm
    exact fits_uint64 0 p.2
  refine fits_record fun m hm => ?_
  rw [List.mem_singleton.mp hm]
  exact hpositions

end Cut

end StreamControl
