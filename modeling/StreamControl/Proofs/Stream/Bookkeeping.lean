import StreamControl.Proofs.Rounding
import StreamControl.Proofs.Stream.Bounds

/-!
# Segments are numbered once

A record numbers its segments from a counter that only grows, so no number is given to a second
segment of the stream, however often it is scaled (`Lineage.unused`). What a reshape does to a
record is said once (`Plan.Reshaped`): the sealed segments go, all others stay as they are, and each
range that was asked for gets a segment of the new epoch under a new number. From this it follows
that every record of a lineage is in order (`Lineage.bookkept`). The segments are sorted by the
order of bounds, which has to be total, and a new record counts on its even ranges being in that
order (`Bound.Orderly`); rounding does not turn them around.
-/

namespace StreamControl

/-- Bounds that are totally ordered, in which the even ranges of a new record are in order. -/
class Bound.Orderly (β : Type) [Bound β] : Prop where
  trans : ∀ a b c : β, (Bound.order a b).isLE = true → (Bound.order b c).isLE = true →
    (Bound.order a c).isLE = true
  total : ∀ a b : β, ((Bound.order a b).isLE || (Bound.order b a).isLE) = true
  uniform : ∀ count ≤ maxSegments,
    (KeyRange.uniform count : List (KeyRange β)).Pairwise fun r r' =>
      (Bound.order r.start r'.start).isLE = true

instance : Bound.Orderly Float where
  trans _ _ _ h h' :=
    Int.isLE_compare.mpr (le_trans (Int.isLE_compare.mp h) (Int.isLE_compare.mp h'))
  total a b := by
    rw [Bool.or_eq_true]
    exact (le_total (floatRank a) (floatRank b)).imp Int.isLE_compare.mpr Int.isLE_compare.mpr
  uniform count h := Rounding.uniform_ordered (lt_of_le_of_lt h (by decide))

variable {β : Type} [Bound β] {record planned other : Record β} {past : List (Record β)}
  {request : Request β} {kind : Kind}
  {plan : Record β → Request β → Except (Refusal β) (Record β)} {sealed : List Nat}
  {ranges : List (KeyRange β)}
  {created : List (Segment β)}

namespace Plan

/-! ## What a reshape does -/

/-- The record after some of its segments have given way to new ones, one for each range that was
asked for. -/
structure Reshaped (record : Record β) (sealed : List Nat) (ranges : List (KeyRange β))
    (created : List (Segment β)) (planned : Record β) : Prop where
  epoch : planned.epoch = nextEpoch record.epoch
  nextSegment : planned.nextSegment = record.nextSegment + ranges.length
  /-- Nothing else of the record changes. -/
  rest : planned = { record with
    segments := planned.segments, epoch := planned.epoch, nextSegment := planned.nextSegment }
  nodup : sealed.Nodup
  active : ∀ number ∈ sealed, ∃ s ∈ record.segments, s.number = number
  segments : planned.segments.Perm (record.segments.filter (fun s => s.number ∉ sealed) ++ created)
  asked : (created.map (·.range)).Perm ranges
  epochs : ∀ s ∈ created, s.epoch = planned.epoch
  numbers : created.map (·.number) = List.range' record.nextSegment ranges.length

omit [Bound β] in
/-- The segments that stay, under the same condition as in `Reshaped`. -/
theorem kept_eq (segments : List (Segment β)) (sealed : List Nat) :
    (segments.filter fun s => !sealed.contains s.number) =
      segments.filter fun s => s.number ∉ sealed :=
  List.filter_congr fun s _ => by simp

theorem replaced_perm (record : Record β) (sealed : List Nat) (ranges : List (KeyRange β)) :
    (replaced record sealed ranges).segments.Perm
      (record.segments.filter (fun s => s.number ∉ sealed) ++
        Plan.created (nextEpoch record.epoch) record.nextSegment ranges) := by
  rw [← kept_eq]
  exact List.mergeSort_perm _ _

theorem reshaped (h : reshape record sealed ranges = .ok planned) :
    ∃ created, Reshaped record sealed ranges created planned := by
  obtain ⟨before, old, new, hbefore, -, -, -, -, rfl⟩ := reshape_ok h
  obtain ⟨segments, -, hnumbers, hin, hnodup, -⟩ := sealedRanges_ok hbefore
  have hlength : (KeyRange.sorted ranges).length = ranges.length :=
    (List.mergeSort_perm _ _).length_eq
  refine ⟨Plan.created (nextEpoch record.epoch) record.nextSegment (KeyRange.sorted ranges), rfl,
    ?_, rfl, hnodup, fun number hn => ?_, replaced_perm _ _ _, ?_, fun s hs => ?_, ?_⟩
  · exact congrArg (record.nextSegment + ·) hlength
  · obtain ⟨s, hs, rfl⟩ := List.mem_map.mp (hnumbers ▸ hn)
    exact ⟨s, hin s hs, rfl⟩
  · rw [created_ranges]
    exact List.mergeSort_perm _ _
  · obtain ⟨i, hi, rfl⟩ := List.mem_mapIdx.mp hs
    rfl
  · rw [created_numbers, hlength]

theorem reshape_nonempty (h : reshape record sealed ranges = .ok planned) : ranges ≠ [] := by
  obtain ⟨_, _, new, -, -, -, hnew, -⟩ := reshape_ok h
  rintro rfl
  rw [KeyRange.sorted, List.mergeSort_nil] at hnew
  cases hnew

theorem reshape_ordered [Bound.Orderly β] (h : reshape record sealed ranges = .ok planned) :
    planned.segments.Pairwise fun s s' =>
      (Bound.order s.range.start s'.range.start).isLE = true := by
  obtain ⟨_, _, _, -, -, -, -, -, rfl⟩ := reshape_ok h
  refine List.pairwise_mergeSort (fun a b c => ?_) (fun a b => ?_) _
  · exact Bound.Orderly.trans a.range.start b.range.start c.range.start
  · exact Bound.Orderly.total a.range.start b.range.start

namespace Reshaped

omit [Bound β] in
theorem number_of_created (h : Reshaped record sealed ranges created planned) {s : Segment β}
    (hs : s ∈ created) :
    record.nextSegment ≤ s.number ∧ s.number < planned.nextSegment := by
  have hin := List.mem_range'_1.mp (h.numbers ▸ List.mem_map_of_mem hs)
  rw [h.nextSegment]
  exact hin

omit [Bound β] in
theorem mem_segments (h : Reshaped record sealed ranges created planned) {s : Segment β} :
    s ∈ planned.segments ↔ s ∈ record.segments ∧ s.number ∉ sealed ∨ s ∈ created := by
  rw [h.segments.mem_iff, List.mem_append, List.mem_filter, decide_eq_true_iff]

omit [Bound β] in
theorem created_ne_nil (h : Reshaped record sealed ranges created planned) (hne : ranges ≠ []) :
    created ≠ [] := by
  rintro rfl
  exact hne (List.perm_nil.mp h.asked.symm)

end Reshaped

end Plan

open Plan (Reshaped)

/-! ## Records in order -/

/-- The segments of a record are numbered and sorted as they should be. -/
structure Record.Bookkept (record : Record β) : Prop where
  numbers : (record.segments.map (·.number)).Nodup
  used : ∀ s ∈ record.segments, s.number < record.nextSegment
  nonempty : record.segments ≠ []
  ordered : record.segments.Pairwise fun s s' =>
    (Bound.order s.range.start s'.range.start).isLE = true

namespace Record.Bookkept

/-- An active segment is the one under its number. -/
theorem segment?_eq (h : record.Bookkept) {s : Segment β} (hs : s ∈ record.segments) :
    record.segment? s.number = some s := by
  cases hf : record.segment? s.number with
  | none => exact absurd (decide_eq_true rfl) (List.find?_eq_none.mp hf s hs)
  | some s' =>
    have hn : s'.number = s.number := by simpa using List.find?_some hf
    rw [List.inj_on_of_nodup_map h.numbers (List.mem_of_find?_eq_some hf) hs hn]

theorem sealedRanges_eq (h : record.Bookkept) (targets : List (Segment β))
    (ht : ∀ s ∈ targets, s ∈ record.segments) (hd : (targets.map (·.number)).Nodup) :
    Plan.sealedRanges record [] (targets.map (·.number)) = .ok (targets.map (·.range)) := by
  refine Plan.sealedRanges_eq_ok.mpr ⟨hd, fun _ _ => List.not_mem_nil, targets, ?_, rfl⟩
  clear hd
  induction targets with
  | nil => rfl
  | cons s rest ih =>
    obtain ⟨hs, hrest⟩ := List.forall_mem_cons.mp ht
    rw [List.map_cons, List.mapM_cons, h.segment?_eq hs, ih hrest]
    rfl

/-- Without some of its segments a record keeps those before and after them. -/
theorem filter_others (h : record.Bookkept) {front block rest : List (Segment β)}
    (hs : record.segments = front ++ (block ++ rest)) :
    record.segments.filter (fun s => s.number ∉ block.map (·.number)) = front ++ rest := by
  have hn := h.numbers
  rw [hs, List.map_append, List.map_append] at hn
  obtain ⟨-, hmiddle, hfront⟩ := List.nodup_append.mp hn
  obtain ⟨-, -, hrest⟩ := List.nodup_append.mp hmiddle
  have hout : block.filter (fun s => s.number ∉ block.map (·.number)) = [] :=
    List.filter_eq_nil_iff.mpr fun s hin hb =>
      of_decide_eq_true hb (List.mem_map_of_mem hin)
  rw [hs, List.filter_append, List.filter_append, hout, List.nil_append]
  congr 1
  · refine List.filter_eq_self.mpr fun s hin => decide_eq_true fun hb => ?_
    exact hfront _ (List.mem_map_of_mem hin) _ (List.mem_append_left _ hb) rfl
  · refine List.filter_eq_self.mpr fun s hin => decide_eq_true fun hb => ?_
    exact hrest _ hb _ (List.mem_map_of_mem hin) rfl

/-- New segments for some that stand side by side. -/
theorem replaced_perm (h : record.Bookkept) {front rest : List (Segment β)}
    (block : List (Segment β)) (hs : record.segments = front ++ (block ++ rest))
    (ranges : List (KeyRange β)) :
    (Plan.replaced record (block.map (·.number)) ranges).segments.Perm (front ++
      (Plan.created (Plan.nextEpoch record.epoch) record.nextSegment ranges ++ rest)) := by
  refine (Plan.replaced_perm record _ ranges).trans ?_
  rw [h.filter_others hs, List.append_assoc]
  exact List.perm_append_comm.append_left front

theorem of_segments (h : record.Bookkept) (hs : other.segments = record.segments)
    (hn : other.nextSegment = record.nextSegment) : other.Bookkept :=
  ⟨hs ▸ h.numbers, fun s hin => hn ▸ h.used s (hs ▸ hin), hs ▸ h.nonempty, hs ▸ h.ordered⟩

theorem reshape [Bound.Orderly β] (h : record.Bookkept)
    (hp : Plan.reshape record sealed ranges = .ok planned) :
    planned.Bookkept := by
  obtain ⟨created, hr⟩ := Plan.reshaped hp
  refine ⟨?_, fun s hs => ?_, fun hnil => ?_, Plan.reshape_ordered hp⟩
  · rw [(hr.segments.map _).nodup_iff, List.map_append]
    refine List.nodup_append.mpr ⟨h.numbers.sublist (List.filter_sublist.map _),
      hr.numbers ▸ List.nodup_range', ?_⟩
    -- a kept number is below the counter, and a new one is not
    rintro k hk k' hk' rfl
    obtain ⟨s, hs, rfl⟩ := List.mem_map.mp hk
    obtain ⟨s', hs', heq⟩ := List.mem_map.mp hk'
    have hlt := h.used s (List.mem_of_mem_filter hs)
    have hge := (hr.number_of_created hs').1
    omega
  · rcases hr.mem_segments.mp hs with ⟨hs, -⟩ | hs
    · exact lt_of_lt_of_le (h.used s hs) (hr.nextSegment ▸ Nat.le_add_right _ _)
    · exact (hr.number_of_created hs).2
  · obtain ⟨s, hs⟩ := List.exists_mem_of_ne_nil _ (hr.created_ne_nil (Plan.reshape_nonempty hp))
    exact List.not_mem_nil (hnil ▸ hr.mem_segments.mpr (.inr hs))

theorem of_plan [Bound.Orderly β] (h : record.Bookkept) (hk : Plan.ofKind? kind = some plan)
    (hp : plan record request = .ok planned) : planned.Bookkept := by
  obtain ⟨-, hs, -, hn⟩ | ⟨sealed, ranges, -, hr⟩ := Plan.cases_of_plan hk hp
  · exact h.of_segments hs hn
  · exact h.reshape hr

end Record.Bookkept

theorem Record.bookkept_fresh [Bound.Orderly β] (id : StreamId) {configuration : Configuration}
    (created : Timestamp) (h : configuration.flaw? = none) :
    (Record.fresh id configuration created : Record β).Bookkept := by
  obtain ⟨hleast, hmost⟩ := Plan.bounds_of_sound h
  have hsegments := Plan.segments_fresh (β := β) id configuration created
  refine ⟨?_, Plan.used_fresh id configuration created, fun hnil => ?_, ?_⟩
  · rw [hsegments, Plan.created_numbers]
    exact List.nodup_range'
  · have hranges := congrArg (List.map Segment.range) (hsegments.symm.trans hnil)
    rw [Plan.created_ranges] at hranges
    exact hleast (by simpa [KeyRange.uniform, KeyRange.split] using hranges)
  · have hordered := Bound.Orderly.uniform (β := β) _ hmost
    rw [← Plan.created_ranges 0 0 (KeyRange.uniform configuration.minSegments)] at hordered
    rw [hsegments]
    exact List.pairwise_map.mp hordered

/-! ## Lineages -/

/-- The records of one stream, the newest apart, as plans make them one from the other. What claims
and commits write changes nothing that a plan reads. -/
inductive Lineage : List (Record β) → Record β → Prop
  | fresh (id : StreamId) {configuration : Configuration} (created : Timestamp) :
    configuration.flaw? = none →
    Lineage [] (.fresh id configuration created)
  | planned {past : List (Record β)} {record planned : Record β} {kind : Kind} {request : Request β}
    {plan : Record β → Request β → Except (Refusal β) (Record β)} : Lineage past record →
    Plan.ofKind? kind = some plan →
    plan record request = .ok planned → Lineage (record :: past) planned
  | rewritten {past : List (Record β)} {record other : Record β} : Lineage past record →
    other.content = record.content →
    Lineage past other

namespace Lineage

theorem bookkept [Bound.Orderly β] (h : Lineage past record) : record.Bookkept := by
  induction h with
  | fresh id created hflaw => exact Record.bookkept_fresh id created hflaw
  | planned _ hk hp ih => exact ih.of_plan hk hp
  | rewritten _ hc ih =>
    obtain ⟨-, hs, -, hn, -⟩ := Record.fields_of_content hc
    exact ih.of_segments hs hn

end Lineage

end StreamControl
