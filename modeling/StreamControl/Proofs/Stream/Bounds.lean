import StreamControl.Proofs.Shop
import StreamControl.Proofs.Stream.Content

/-!
# What a plan refuses

The gateway refuses an operation for its own flaws before it looks at any stored state. A plan
checks its request again, since a request may come into the queue another way. It refuses whatever
the gateway refuses, on every record, with one exception (`Plan.refused_iff`): the gateway bounds
how many segments one manual scale may create, and the plan does not. So a scale of too many ranges
is planned on the records that it fits (`Plan.not_refused`). `Plan.reshape_ok_iff` says which these
are.
-/

namespace StreamControl

namespace Plan

variable {β : Type} [Bound β] {record : Record β} {request : Request β} {flaw : Refusal β}
  {numbers : List Nat}
  {ranges before : List (KeyRange β)} {old new : KeyRange β}

/-! ## Scales -/

omit [Bound β] in
/-- The segments to seal are the active ones under the given numbers, each of which is given
once. -/
theorem sealedRanges_eq_ok {seen : List Nat} :
    sealedRanges record seen numbers = .ok before ↔
      numbers.Nodup ∧ (∀ number ∈ numbers, number ∉ seen) ∧
        ∃ segments, numbers.mapM record.segment? = some segments ∧
        before = segments.map (·.range) := by
  induction numbers generalizing seen before with
  | nil => simp [sealedRanges, eq_comm]
  | cons number rest ih =>
    rw [sealedRanges]
    by_cases hseen : seen.contains number = true
    · rw [if_pos hseen]
      have hin : number ∈ seen := by simpa using hseen
      refine ⟨fun h => ?_, fun h => absurd hin (h.2.1 number List.mem_cons_self)⟩
      cases h
    rw [if_neg hseen]
    have hout : number ∉ seen := by simpa using hseen
    cases hsegment : record.segment? number with
    | none => simp [hsegment]
    | some segment =>
      have hrest :
          ((segment.range :: ·) <$> sealedRanges record (number :: seen) rest = .ok before) ↔
            ∃ others, sealedRanges record (number :: seen) rest = .ok others ∧
              segment.range :: others = before := by
        cases sealedRanges record (number :: seen) rest with
        | error refusal =>
          constructor
          · intro h
            cases h
          · rintro ⟨others, h, -⟩
            cases h
        | ok others =>
          refine ⟨fun h => ⟨others, rfl, Except.ok.inj h⟩, ?_⟩
          rintro ⟨_, h, rfl⟩
          rw [← Except.ok.inj h]
          rfl
      simp only [hrest, ih, List.mapM_cons, hsegment, List.nodup_cons, List.mem_cons, not_or]
      constructor
      · rintro ⟨others, ⟨hnodup, hfresh, segments, hsegments, rfl⟩, rfl⟩
        refine ⟨⟨fun hin => (hfresh number hin).1 rfl, hnodup⟩, ?_, segment :: segments, by
          rw [hsegments]; rfl, rfl⟩
        rintro n (rfl | hn)
        · exact hout
        · exact (hfresh n hn).2
      · rintro ⟨⟨hnumber, hnodup⟩, hfresh, all, hall, rfl⟩
        cases hsegments : rest.mapM record.segment? with
        | none => rw [hsegments] at hall; cases hall
        | some segments =>
          rw [hsegments] at hall
          obtain rfl : segment :: segments = all := Option.some.inj hall
          refine ⟨_, ⟨hnodup, fun n hn => ⟨?_, hfresh n (.inr hn)⟩, segments, rfl, rfl⟩, rfl⟩
          rintro rfl
          exact hnumber hn

/-- What `reshape_ok` says of a reshape is all that it takes. -/
theorem reshape_eq (hbefore : sealedRanges record [] numbers = .ok before)
    (hvalid : ∀ r ∈ ranges, r.isValid = true)
    (hold : KeyRange.span? (KeyRange.sorted before) = some old)
    (hnew : KeyRange.span? (KeyRange.sorted ranges) = some new)
    (hspan : (KeyRange.apart old.start new.start || KeyRange.apart old.stop new.stop) = false) :
    reshape record numbers ranges = .ok (replaced record numbers (KeyRange.sorted ranges)) := by
  -- without segments or ranges there would be no span
  have hnone : KeyRange.span? (KeyRange.sorted ([] : List (KeyRange β))) = none := by
    rw [KeyRange.sorted, List.mergeSort_nil]
    rfl
  have hsealed : numbers ≠ [] := by
    rintro rfl
    cases hbefore
    exact nomatch hnone.symm.trans hold
  have hranges : ranges ≠ [] := by
    rintro rfl
    exact nomatch hnone.symm.trans hnew
  have hfind : ranges.find? (!·.isValid) = none := List.find?_eq_none.mpr fun r hr => by
    simp [hvalid r hr]
  unfold reshape
  rw [if_neg (by simp [hsealed, hranges]), hbefore]
  show Except.bind _ _ = _
  simp only [hfind, hnew, Except.bind]
  simp only [hold, hspan]
  rfl

/-- A scale fits a record: it seals active segments, each named once, its ranges are valid, both lie
end to end, and they reach over the same part of the key space, up to the tolerance. -/
def Fits (record : Record β) (numbers : List Nat) (ranges : List (KeyRange β)) : Prop :=
  numbers.Nodup ∧ (∀ r ∈ ranges, r.isValid = true) ∧
    ∃ segments old new, numbers.mapM record.segment? = some segments ∧
    KeyRange.span? (KeyRange.sorted (segments.map (·.range))) = some old ∧
    KeyRange.span? (KeyRange.sorted ranges) = some new ∧
      (KeyRange.apart old.start new.start || KeyRange.apart old.stop new.stop) = false

theorem reshape_ok_iff :
    (∃ planned, reshape record numbers ranges = .ok planned) ↔ Fits record numbers ranges := by
  constructor
  · rintro ⟨planned, h⟩
    obtain ⟨before, old, new, hbefore, hvalid, hold, hnew, hspan, -⟩ := reshape_ok h
    obtain ⟨hnodup, -, segments, hsegments, rfl⟩ := sealedRanges_eq_ok.mp hbefore
    exact ⟨hnodup, hvalid, segments, old, new, hsegments, hold, hnew, hspan⟩
  · rintro ⟨hnodup, hvalid, segments, old, new, hsegments, hold, hnew, hspan⟩
    have hbefore :=
      sealedRanges_eq_ok.mpr ⟨hnodup, fun _ _ => List.not_mem_nil, segments, hsegments, rfl⟩
    exact ⟨_, reshape_eq hbefore hvalid hold hnew hspan⟩

/-- A flawed scale that fits a record is flawed by the number of its ranges only. -/
theorem Fits.tooMany {shape : Reshape β} (h : Fits record (shape.sealed.map (·.toNat)) shape.ranges)
    (hflaw : (Operation.scale shape).flaw? = some flaw) : maxSegments < shape.ranges.length := by
  obtain ⟨planned, hp⟩ := reshape_ok_iff.mpr h
  have hempty : ¬(shape.sealed.isEmpty || shape.ranges.isEmpty) = true := by
    intro he
    have he' : ((shape.sealed.map (·.toNat)).isEmpty || shape.ranges.isEmpty) = true := by
      simpa using he
    unfold reshape at hp
    rw [if_pos he'] at hp
    cases hp
  simp only [Operation.flaw?, if_neg hempty] at hflaw
  split at hflaw
  · assumption
  · have hfind : shape.ranges.find? (!·.isValid) = none := List.find?_eq_none.mpr fun r hr => by
      simp [h.2.1 r hr]
    rw [hfind] at hflaw
    cases hflaw

/-! ## The plan of each kind -/

omit [Bound β] in
/-- A plan ends in a refusal if it does not end in a record. -/
theorem refused_of_not_ok {result : Except (Refusal β) (Record β)} :
    (∃ refusal, result = .error refusal) ↔ ¬∃ planned, result = .ok planned := by
  cases result <;> simp

theorem update_refused {configuration : Configuration}
    (ho : request.operation = .update configuration) (h : request.operation.flaw? = some flaw)
    (record : Record β) : update record request = .error flaw := by
  rw [ho] at h
  simp only [update, ho]
  cases hf : configuration.flaw? with
  | none => simp [Operation.flaw?, hf] at h
  | some _ => simpa [Operation.flaw?, hf] using h

theorem truncate_refused {cut : Cut} {resume : Phase}
    (ho : request.operation = .truncate cut resume) (h : request.operation.flaw? = some flaw)
    (record : Record β) : truncate record request = .error .nothingToCut := by
  rw [ho] at h
  simp only [truncate, ho]
  by_cases he : cut.isEmpty = true
  · rw [if_pos he]
  · simp [Operation.flaw?, he] at h

/-- An automatic scale comes to look at the parts of a split only on a record that allows it; it is
refused either way. -/
theorem autoScale_refused {segment : UInt64} {direction : Direction}
    (ho : request.operation = .autoScale segment direction)
    (h : request.operation.flaw? = some flaw) (record : Record β) :
    ∃ refusal, autoScale record request = .error refusal := by
  rw [ho] at h
  simp only [autoScale, ho]
  split
  · exact ⟨_, rfl⟩
  · cases record.segment? segment.toNat with
    | none => exact ⟨_, rfl⟩
    | some target =>
      cases direction with
      | split parts =>
        exact ⟨flaw, by simp only [split, show (Direction.split parts).flaw? = some flaw from h]⟩
      | merge => cases h

theorem scale_refused_iff {shape : Reshape β} (ho : request.operation = .scale shape)
    (h : request.operation.flaw? = some flaw) (record : Record β) :
    (∃ refusal, scale record request = .error refusal) ↔
      ¬(maxSegments < shape.ranges.length ∧
        Fits record (shape.sealed.map (·.toNat)) shape.ranges) := by
  rw [ho] at h
  simp only [scale, ho]
  rw [refused_of_not_ok, reshape_ok_iff]
  exact not_congr ⟨fun hfits => ⟨hfits.tooMany h, hfits⟩, And.right⟩

/-- A plan refuses an operation with a flaw, on every record, unless it is a manual scale that fits
the record and whose flaw is the number of its ranges. -/
theorem refused_iff (h : request.operation.flaw? = some flaw) :
    ∃ plan, ofKind? request.kind = some plan ∧ ∀ record : Record β,
      (∃ refusal, plan record request = .error refusal) ↔
        ¬∃ shape, request.operation = .scale shape ∧ maxSegments < shape.ranges.length ∧
          Fits record (shape.sealed.map (·.toNat)) shape.ranges := by
  cases ho : request.operation with
  | update configuration =>
    refine ⟨update, by rw [Request.kind, ho]; rfl,
      fun record => iff_of_true ⟨flaw, update_refused ho h record⟩ ?_⟩
    rintro ⟨shape, hshape, -⟩
    cases hshape
  | scale shape =>
    refine ⟨scale, by rw [Request.kind, ho]; rfl,
      fun record => (scale_refused_iff ho h record).trans (not_congr ?_)⟩
    refine ⟨fun hfits => ⟨shape, rfl, hfits⟩, ?_⟩
    rintro ⟨_, hshape, hfits⟩
    cases hshape
    exact hfits
  | autoScale segment direction =>
    refine ⟨autoScale, by rw [Request.kind, ho]; rfl,
      fun record => iff_of_true (autoScale_refused ho h record) ?_⟩
    rintro ⟨shape, hshape, -⟩
    cases hshape
  | truncate cut resume =>
    refine ⟨truncate, by rw [Request.kind, ho]; rfl,
      fun record => iff_of_true ⟨_, truncate_refused ho h record⟩ ?_⟩
    rintro ⟨shape, hshape, -⟩
    cases hshape
  | «seal» => rw [ho] at h; cases h
  | delete => rw [ho] at h; cases h

/-! ## Too many ranges -/

/-- A range narrower than the tolerance, at the start of the key space. -/
def narrow : KeyRange Float := ⟨0, 5e-10⟩

/-- One range more than a scale may have: the narrow one over and over, and a last one. -/
def crowd (last : KeyRange Float) : List (KeyRange Float) :=
  List.replicate maxSegments narrow ++ [last]

/-- A scale of a stream's first segment into a crowd of ranges. -/
def crowding (last : KeyRange Float) : Request Float :=
  Shop.request 7 (.scale ⟨[0], crowd last⟩)

/-- A new stream with one segment. -/
def undivided : Record Float := Shop.fresh (.fixed 1)

theorem crowding_flaw (last : KeyRange Float) :
    (crowding last).operation.flaw? = some .tooManyRanges := by
  have hlength : (crowd last).length = maxSegments + 1 := by simp [crowd]
  have hranges : (crowd last).isEmpty = false := by simp [crowd]
  simp [crowding, Operation.flaw?, hlength, hranges]

/-- A range that is not valid is found behind any number of others. -/
theorem refused_iff_backward :
    (crowding ⟨0.5, 0.25⟩).operation.flaw? = some .tooManyRanges ∧
      ∃ plan, ofKind? (crowding ⟨0.5, 0.25⟩).kind = some plan ∧
      ∃ refusal, plan undivided (crowding ⟨0.5, 0.25⟩) = .error refusal := by
  obtain ⟨plan, hplan, hrefused⟩ := refused_iff (crowding_flaw ⟨0.5, 0.25⟩)
  refine ⟨crowding_flaw _, plan, hplan, (hrefused undivided).mpr ?_⟩
  rintro ⟨shape, hshape, -, -, hvalid, -⟩
  cases hshape
  have hlast := hvalid ⟨0.5, 0.25⟩ (List.mem_append_right _ (List.mem_singleton.mpr rfl))
  exact absurd hlast (by decide +kernel)

theorem mem_crowd {r last : KeyRange Float} (h : r ∈ crowd last) : r = narrow ∨ r = last :=
  (List.mem_append.mp h).imp List.eq_of_mem_replicate List.mem_singleton.mp

theorem sorted_crowd {last : KeyRange Float} (h : last.start = 0) :
    KeyRange.sorted (crowd last) = crowd last := by
  have hstart : ∀ r ∈ crowd last, r.start = 0 := by
    intro r hr
    rcases mem_crowd hr with rfl | rfl
    · rfl
    · exact h
  have hle : (Bound.order (0 : Float) 0).isLE = true := by decide +kernel
  refine List.mergeSort_of_pairwise (List.pairwise_of_forall_mem_list fun r hr r' hr' => ?_)
  rw [hstart r hr, hstart r' hr', hle]

/-- Ranges narrower than the tolerance do not count in a span, however many there are. -/
theorem span?_crowd {last : KeyRange Float} (h : last.start = 0) :
    KeyRange.span? (crowd last) = some ⟨0, last.stop⟩ := by
  have hjoined : KeyRange.apart 0 narrow.stop = false := by decide +kernel
  have hend : ∀ n, KeyRange.runEnd? narrow.stop (List.replicate n narrow ++ [last]) =
      some last.stop := by
    intro n
    induction n with
    | zero => rw [List.replicate_zero, List.nil_append, KeyRange.runEnd?, h, hjoined]; rfl
    | succ n ih =>
      rw [List.replicate_succ, List.cons_append, KeyRange.runEnd?, show narrow.start = 0 from rfl,
        hjoined]; exact ih
  obtain ⟨n, hn⟩ : ∃ n, maxSegments = n + 1 := ⟨1023, rfl⟩
  rw [crowd, hn, List.replicate_succ, List.cons_append, KeyRange.span?, hend]
  rfl

/-- The whole key space in too many ranges fits a stream with one segment. -/
theorem crowd_fits : Fits undivided [0] (crowd ⟨0, 1⟩) := by
  have hsegment : [0].mapM undivided.segment? = some [⟨0, ⟨0, 1⟩, 0⟩] := by decide +kernel
  refine ⟨by decide, fun r hr => ?_, [⟨0, ⟨0, 1⟩, 0⟩], ⟨0, 1⟩, ⟨0, 1⟩, hsegment, by
    decide +kernel, ?_, by decide +kernel⟩
  · rcases mem_crowd hr with rfl | rfl <;> decide +kernel
  · rw [sorted_crowd rfl, span?_crowd rfl]

/-- The gateway refuses more ranges than its bound, and the plan of the scale takes them. -/
theorem not_refused :
    ¬∀ (request : Request Float) (flaw : Refusal Float), request.operation.flaw? = some flaw →
      ∀ plan, ofKind? request.kind = some plan →
      ∀ record, ∃ refusal, plan record request = .error refusal := by
  intro hall
  obtain ⟨refusal, hrefused⟩ := hall (crowding ⟨0, 1⟩) _ (crowding_flaw _) scale rfl undivided
  obtain ⟨planned, hplanned⟩ := reshape_ok_iff.mpr crowd_fits
  have hscale : scale undivided (crowding ⟨0, 1⟩) = .ok planned := hplanned
  exact nomatch hrefused.symm.trans hscale

end Plan

end StreamControl
